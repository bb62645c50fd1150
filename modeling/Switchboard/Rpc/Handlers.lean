import Std.Data.TreeMap
import Switchboard.Rpc.Arguments

/-!
# The table of handlers

Handlers by target and method. A target without methods is not kept, so the targets
listed are those that have one.
-/

namespace Switchboard

structure Handlers where
  targets : Std.TreeMap String (Std.TreeMap String Handler) := {}

namespace Handlers

/-- Register a handler in place of any other of this target and method. -/
def register (t : Handlers) (target method : String) (h : Handler) : Handlers :=
  { targets := t.targets.alter target fun methods => some ((methods.getD {}).insert method h) }

def unregister (t : Handlers) (target method : String) : Bool × Handlers :=
  match t.targets[target]? with
  | none => (false, t)
  | some methods =>
    let rest := methods.erase method
    (methods.contains method,
      { targets := if rest.isEmpty then t.targets.erase target else t.targets.insert target rest })

def unregisterTarget (t : Handlers) (target : String) : Nat × Handlers :=
  ((t.targets[target]?).elim 0 (·.size), { targets := t.targets.erase target })

def find? (t : Handlers) (target method : String) : Option Handler :=
  (t.targets[target]?).bind (·[method]?)

def contains (t : Handlers) (target method : String) : Bool :=
  (t.find? target method).isSome

def names (t : Handlers) : List String := t.targets.keys

end Handlers

/-- The outcome of a handler as its caller is told it: a failure by a description. -/
def Invocation.told (i : Invocation) : Except Fault Buffer → Except String Buffer
  | .ok result => .ok result
  | .error (.failed causes) => .error s!"{i.name} failed: {causes.text}"
  | .error .panicked => .error s!"{i.name} panicked"

namespace Handlers

/-- Run an invocation, its handler in the way that `run` says. -/
def invokeBy {m : Type → Type} [Monad m] (run : Handler → Arguments → m (Except Fault Buffer))
    (t : Handlers) (i : Invocation) : m (Except String Buffer) :=
  match t.find? i.target i.method with
  | none => return .error s!"method not found: {i.name}"
  | some h => return i.told (← run h { left := i.arguments })

def invoke (t : Handlers) (i : Invocation) : Except String Buffer :=
  Id.run (t.invokeBy (fun h a => pure (h a)) i)

/-- An invocation runs the handler under its pair, if there is one. -/
theorem invoke_eq (t : Handlers) (i : Invocation) :
    t.invoke i = match t.find? i.target i.method with
      | none => .error s!"method not found: {i.name}"
      | some h => i.told (h { left := i.arguments }) := by
  rw [invoke, invokeBy]
  cases t.find? i.target i.method <;> rfl

end Handlers

end Switchboard
