import Switchboard.Listener.Run

/-!
# Listeners on a channel that leads nowhere

Runs actions against registries alone: until the channel is closed every packet is taken,
and none is answered.
-/

namespace Switchboard

structure Detached where
  directory : Directory Listener := {}
  /-- Whether the channel is still open. -/
  active : Bool := true
  /-- What listeners noted, the latest first. -/
  notes : List Note := []

namespace Detached

/-- How long a query waits here before it fails, in milliseconds. -/
def patience : Nat := 30000

def run {α : Type} : Action α → Detached → α × Detached
  | .pure a, d => (a, d)
  | .note entry next, d => run next { d with notes := entry :: d.notes }
  | .send _ next, d => run (next (if d.active then .ok () else .error .closed)) d
  | .ask _ next, d =>
    run (next (.error (if d.active then .query (.timeout patience) else .closed))) d
  | .close next, d => run next { d with active := false }
  | .register name on listener next, d =>
    let (id, r) := (d.directory.registry name).register on listener
    run (next id) { d with directory := d.directory.set name r }
  | .unregister name on id next, d =>
    let (found, r) := (d.directory.registry name).unregister on id
    run (next found) { d with directory := d.directory.set name r }
  | .unregisterChannel name on next, d =>
    let (count, r) := (d.directory.registry name).unregisterChannel on
    run (next count) { d with directory := d.directory.set name r }
  | .chain name next, d => run (next (d.directory.chain name)) d
  | .snapshot name on next, d =>
    run (next (((d.directory.registry name).listeners on).map (·.listener))) d
  | .handlers next, d => run (next {}) d

/-- Run an action and take what was noted, the earliest first. -/
def perform {α : Type} (a : Action α) (d : Detached) : α × List Note × Detached :=
  let (v, d) := run a { d with notes := [] }
  (v, d.notes.reverse, { d with notes := [] })

end Detached

end Switchboard
