import Switchboard.Query.Desk

/-!
# Callers who wait by name

A query desk under a clock that stands still until it is moved, with the callers that
wait for their queries. What a caller was told is handed out once.
-/

namespace Switchboard

structure Waiters where
  desk : Desk := {}
  now : Nat := 0
  /-- Callers whose query has not ended. -/
  waiting : List (String × Ticket) := []
  /-- Callers that have not let go of their query. -/
  names : List String := []

namespace Waiters

/-- Let the alarms that are due expire, and hand out what callers were told since. -/
def settle (w : Waiters) : List (String × Except QueryError Packet) × Waiters :=
  let desk := w.desk.expireDue w.now
  let told := w.waiting.filterMap fun c => (desk.outcome? c.2).map (c.1, ·)
  (told, { w with desk, waiting := w.waiting.filter fun c => (desk.outcome? c.2).isNone })

def register (w : Waiters) (name : String) (id : Identity) (timeout : Nat) :
    Except QueryError Unit × Waiters :=
  match w.desk.register id timeout w.now with
  | .ok (ticket, desk) =>
    (.ok (), { w with
      desk
      waiting := (name, ticket) :: w.waiting.filter (·.1 ≠ name)
      names := name :: w.names.filter (· ≠ name) })
  | .error e => (.error e, w)

/-- A caller lets go of its query, which stays pending; whether it held one. -/
def discard (w : Waiters) (name : String) : Bool × Waiters :=
  (w.names.contains name,
    { w with names := w.names.filter (· ≠ name), waiting := w.waiting.filter (·.1 ≠ name) })

def advance (w : Waiters) (millis : Nat) : Waiters := { w with now := w.now + millis }

end Waiters

namespace Desk

/-- What the caller of a registration learns when the desk is gone: a query without
outcome was never answered. -/
def finalOutcome (d : Desk) (t : Ticket) : Except QueryError Packet :=
  (d.outcome? t).getD (.error .closed)

/-- Register queries under these ids, each for a minute. -/
def registerAll (d : Desk) (ids : List Identity) : List (Except QueryError Ticket) × Desk :=
  ids.foldl (fun (done, d) id =>
    match d.register id 60000 0 with
    | .ok (t, d) => (done ++ [.ok t], d)
    | .error e => (done ++ [.error e], d)) ([], d)

/-- Offer packets as responses, one after the other; which of them settled a query. -/
def completeAll (d : Desk) (ps : List Packet) : List Bool × Desk :=
  ps.foldl (fun (done, d) p => let (b, d) := d.complete p; (done ++ [b], d)) ([], d)

end Desk

end Switchboard
