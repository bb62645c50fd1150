import Switchboard.Channel.Error
import Switchboard.Listener.Registry
import Switchboard.Rpc.Handlers

/-!
# What listeners do

A listener's run is an `Action`: the requests it makes of its channel and of the
registries, one after the other, each with what it does on the answer. Who runs it
decides what a request does; a query of the peer suspends it until the answer is there.
-/

namespace Switchboard

/-- How a listener's run ends. -/
inductive Outcome where
  | done
  | failed (causes : Causes)
  | panicked
  deriving DecidableEq, Repr

/-- The kinds of ready-made listeners. -/
inductive Behaviour where
  /-- Only leaves a note of the packet, as all of them do. -/
  | record
  | fail (message : String)
  | panic
  /-- Responds once with each content. -/
  | reply (contents : List (List UInt8))
  /-- Responds with the packet's own content. -/
  | echo
  /-- Reads a text and responds with it behind `lead`. -/
  | replyText (lead : String)
  /-- Sends the content on, without an id. -/
  | forward (channel : Int32)
  /-- Queries the peer with the content and passes the answer on. -/
  | ask (channel : Int32)
  | close
  | register (registry : String) (on : Int32) (name : String) (behaviour : Behaviour)
  | unregister (registry : String) (on : Int32) (id : ListenerId)
  | unregisterChannel (registry : String) (on : Int32)
  /-- Dispatches another packet right away. -/
  | dispatch (registry : String) (packet : Packet)
  deriving Inhabited

inductive Listener where
  | stock (name : String) (behaviour : Behaviour)
  /-- Serves the table of handlers. -/
  | service

inductive Note where
  | received (name : String) (packet : Packet)
  | failed (name : String) (text : String)
  | answered (name : String) (answer : Packet)
  | unregistered (name : String) (found : Bool)
  | removed (name : String) (count : Nat)
  | dispatched (name : String) (count : Nat)

inductive Action (α : Type) where
  | pure (a : α)
  | note (entry : Note) (next : Action α)
  | send (packet : Packet) (next : Except ChannelError Unit → Action α)
  /-- Send a query and wait for its answer. -/
  | ask (packet : Packet) (next : Except ChannelError Packet → Action α)
  | close (next : Action α)
  | register (registry : String) (on : Int32) (listener : Listener)
      (next : ListenerId → Action α)
  | unregister (registry : String) (on : Int32) (id : ListenerId) (next : Bool → Action α)
  | unregisterChannel (registry : String) (on : Int32) (next : Nat → Action α)
  /-- The names of a registry and its ancestors. -/
  | chain (registry : String) (next : List String → Action α)
  /-- The listeners that a registry has for a channel now. -/
  | snapshot (registry : String) (on : Int32) (next : List Listener → Action α)
  /-- The table of handlers as it is now. -/
  | handlers (next : Handlers → Action α)

namespace Action

def bind {α β : Type} : Action α → (α → Action β) → Action β
  | .pure a, f => f a
  | .note entry next, f => .note entry (next.bind f)
  | .send packet next, f => .send packet fun r => (next r).bind f
  | .ask packet next, f => .ask packet fun r => (next r).bind f
  | .close next, f => .close (next.bind f)
  | .register registry on listener next, f =>
    .register registry on listener fun r => (next r).bind f
  | .unregister registry on id next, f => .unregister registry on id fun r => (next r).bind f
  | .unregisterChannel registry on next, f =>
    .unregisterChannel registry on fun r => (next r).bind f
  | .chain registry next, f => .chain registry fun r => (next r).bind f
  | .snapshot registry on next, f => .snapshot registry on fun r => (next r).bind f
  | .handlers next, f => .handlers fun r => (next r).bind f

instance : Monad Action where
  pure := .pure
  bind := bind

end Action

/-- A part of a listener's run that may end it. -/
abbrev Attempt (α : Type) := ExceptT Outcome Action α

namespace Attempt

def request {α : Type} (a : Action α) : Attempt α := ExceptT.lift a

def failWith {α : Type} (causes : Causes) : Attempt α := throw (.failed causes)

section

variable {m : Type → Type} [Monad m] (send : Packet → m (Except ChannelError Unit))

def sendBy (p : Packet) : ExceptT Outcome m Unit := do
  match ← ExceptT.lift (send p) with
  | .ok () => return ()
  | .error e => throw (.failed e.causes)

def respondBy (p : Packet) (content : Buffer) : ExceptT Outcome m Unit :=
  match p.response content with
  | .ok r => sendBy send r
  | .error e => throw (.failed [e.message])

end

def send (p : Packet) : Attempt Unit := sendBy (fun p => .send p .pure) p

def respond (p : Packet) (content : Buffer) : Attempt Unit :=
  respondBy (fun p => .send p .pure) p content

def note (entry : Note) : Attempt Unit := request (.note entry (.pure ()))

/-- The outcome of a run. -/
def outcome (a : Attempt Unit) : Action Outcome := do
  match ← a.run with
  | .ok () => return .done
  | .error o => return o

end Attempt

end Switchboard
