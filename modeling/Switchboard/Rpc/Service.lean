import Switchboard.Listener.Action

/-!
# The listener that serves invocations

A query whose content is no invocation is answered with that failure, so its caller
does not have to wait for the timeout. A result is sent only to who waits for one. The service
makes three requests of its surroundings: for the table of handlers, for a run of a handler and
for a packet to be sent.
-/

namespace Switchboard

/-- Who runs the service. -/
structure Surroundings (m : Type → Type) where
  handlers : m Handlers
  run : Handler → Arguments → m (Except Fault Buffer)
  send : Packet → m (Except ChannelError Unit)

namespace Surroundings

variable {m : Type → Type} [Monad m] (w : Surroundings m)

def invoke (i : Invocation) : m (Except String Buffer) := do
  (← w.handlers).invokeBy w.run i

def respond (p : Packet) (reply : Reply) : ExceptT Outcome m Unit :=
  Attempt.respondBy w.send p (.ofBytes reply.encode)

/-- Serve the invocation in a packet. -/
def serve (p : Packet) : ExceptT Outcome m Unit := do
  match (Source.read Invocation.reader p.content).1 with
  | .error e =>
    if p.isQuery then
      w.respond p (.failure s!"malformed invocation: {e.message}")
    throw (.failed ("malformed RPC invocation" :: e.causes))
  | .ok i =>
    let outcome ← ExceptT.lift (w.invoke i)
    if i.expectsResult && p.isQuery then
      w.respond p (.ofOutcome outcome)

/-- The surroundings of a listener that runs. -/
def acting : Surroundings Action where
  handlers := .handlers .pure
  run h a := .pure (h a)
  send p := .send p .pure

end Surroundings

/-- Serve the invocation in a packet as a listener. -/
def serve (p : Packet) : Attempt Unit := Surroundings.acting.serve p

theorem Surroundings.invoke_acting (i : Invocation) :
    acting.invoke i = .handlers fun t => .pure (t.invoke i) := by
  refine congrArg Action.handlers (funext fun t => ?_)
  simp only [Action.bind, Handlers.invoke, Handlers.invokeBy]
  cases t.find? i.target i.method <;> rfl

/-- The listener asks for the table of handlers once, for an invocation, and sends one packet at
most. -/
theorem serve_eq (p : Packet) : serve p = (
    match (Source.read Invocation.reader p.content).1 with
    | .error e => do
      if p.isQuery then
        Attempt.respond p (.ofBytes (Reply.failure s!"malformed invocation: {e.message}").encode)
      Attempt.failWith ("malformed RPC invocation" :: e.causes)
    | .ok i => do
      let t ← Attempt.request (.handlers .pure)
      if i.expectsResult && p.isQuery then
        Attempt.respond p (.ofBytes (Reply.ofOutcome (t.invoke i)).encode)) := by
  rw [serve, Surroundings.serve]
  cases (Source.read Invocation.reader p.content).1 with
  | error e => rfl
  | ok i =>
    simp only [Surroundings.invoke_acting]
    rfl

end Switchboard
