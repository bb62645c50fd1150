import Switchboard.Packet
import Switchboard.Duration

/-!
# The table of pending queries

Queries that wait for their response, by correlation id. Each operation here is one
locked section: only the caller that removed an entry may tell its outcome, so a
response, a timeout and a close that race for one query have a single winner.
-/

namespace Switchboard

inductive QueryError where
  /-- No response within so many milliseconds. -/
  | timeout (millis : Nat)
  | closed
  | duplicate (id : Identity)
  deriving DecidableEq, Repr

def QueryError.message : QueryError → String
  | timeout millis => s!"Query timed out after {Duration.ofMillis millis}"
  | closed => "Channel closed before the query completed"
  | duplicate id => s!"Correlation id {id.text} is already pending"

/-- The registration that a caller waits for. -/
abbrev Ticket := Nat

/-- A query that waits for its response. -/
structure Pending where
  ticket : Ticket
  deadline : Nat
  /-- The alarm to turn off when the query is settled, once attached. -/
  alarm : Option Ticket := none
  deriving DecidableEq, Repr

structure QueryTable where
  entries : List (Identity × Pending) := []
  /-- Set for ever once the channel closes. -/
  closed : Bool := false
  deriving DecidableEq, Repr, Inhabited

namespace QueryTable

def find? (t : QueryTable) (id : Identity) : Option Pending :=
  t.entries.lookup id

def isPending (t : QueryTable) (id : Identity) : Bool :=
  (t.find? id).isSome

/-- Add an entry, unless the table is closed or the id is taken. -/
def insert (t : QueryTable) (id : Identity) (p : Pending) : Except QueryError QueryTable :=
  if t.closed then .error .closed
  else if t.isPending id then .error (.duplicate id)
  else .ok { t with entries := t.entries ++ [(id, p)] }

/-- Store an alarm with whatever entry now has the id; without one nothing happens. -/
def attach (t : QueryTable) (id : Identity) (alarm : Ticket) : QueryTable :=
  { t with entries := t.entries.map fun e =>
      if e.1 = id then (e.1, { e.2 with alarm := some alarm }) else e }

def remove (t : QueryTable) (id : Identity) : Option Pending × QueryTable :=
  (t.find? id, { t with entries := t.entries.filter fun e => e.1 ≠ id })

def close (t : QueryTable) : List Pending × QueryTable :=
  (t.entries.map (·.2), { entries := [], closed := true })

end QueryTable

end Switchboard
