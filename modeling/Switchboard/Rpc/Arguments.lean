import Switchboard.Rpc.Invocation

/-!
# Arguments of an invocation

Arguments are read in order, each from a buffer of its own.
-/

namespace Switchboard

structure Arguments where
  left : List Buffer
  /-- How many were asked for. -/
  position : Nat := 0
  deriving DecidableEq, Repr

namespace Arguments

/-- Read the next argument. It is used up whether it can be read or not. -/
def read {α : Type} (r : Reader α) (a : Arguments) : Except Causes α × Arguments :=
  let position := a.position + 1
  match a.left with
  | [] => (.error [s!"missing argument {position}"], { left := [], position })
  | b :: left =>
    match (Source.read r b).1 with
    | .ok v => (.ok v, { left, position })
    | .error e => (.error (s!"malformed argument {position}" :: e.causes), { left, position })

def remaining (a : Arguments) : Nat := a.left.length

end Arguments

inductive Fault where
  | failed (causes : Causes)
  | panicked
  deriving DecidableEq, Repr

/-- The work of a handler on its arguments. -/
abbrev Handling (α : Type) := ExceptT Fault (StateM Arguments) α

namespace Handling

/-- The next argument, of type `t`. -/
def argument (t : Ty) : Handling t.Value := fun a =>
  match a.read t.reader with
  | (.ok v, a) => (.ok v, a)
  | (.error causes, a) => (.error (.failed causes), a)

def remaining : Handling Nat := fun a => (.ok a.remaining, a)

def fail {α : Type} (causes : Causes) : Handling α := throw (.failed causes)

end Handling

abbrev Handler := Arguments → Except Fault Buffer

/-- The handler that does this work and returns a value of type `t`. -/
def Handling.handler (t : Ty) (work : Handling t.Value) : Handler := fun a =>
  match work.run a with
  | (.ok v, _) => .ok (Buffer.ofBytes (t.encode v))
  | (.error fault, _) => .error fault

end Switchboard
