import Switchboard.Query.Table

/-!
# The query desk

The table of pending queries with the alarms that expire them and the outcomes that
were told. Registering a query inserts its entry, starts its alarm and attaches the
alarm to the entry, in three steps that others may come between; so each step is a
function of its own, and `register`, `complete`, `cancel` and `cancelAll` run them
without interruption.
-/

namespace Switchboard

/-- The timeout of a registration, on its way. -/
structure Alarm where
  ticket : Ticket
  id : Identity
  timeout : Nat
  due : Nat
  /-- Its time is over and it is about to expire the query: too late to turn it off. -/
  ringing : Bool := false
  deriving DecidableEq, Repr

structure Desk where
  table : QueryTable := {}
  alarms : List Alarm := []
  /-- What the callers were told, in order. -/
  outcomes : List (Ticket × Except QueryError Packet) := []
  nextTicket : Ticket := 0
  deriving Inhabited

namespace Desk

def isPending (d : Desk) (id : Identity) : Bool := d.table.isPending id

def pendingCount (d : Desk) : Nat := d.table.entries.length

def outcome? (d : Desk) (t : Ticket) : Option (Except QueryError Packet) :=
  d.outcomes.lookup t

def enter (d : Desk) (id : Identity) (deadline : Nat) : Except QueryError (Ticket × Desk) :=
  match d.table.insert id { ticket := d.nextTicket, deadline } with
  | .ok table => .ok (d.nextTicket, { d with table, nextTicket := d.nextTicket + 1 })
  | .error e => .error e

def arm (d : Desk) (ticket : Ticket) (id : Identity) (timeout due : Nat) : Desk :=
  { d with alarms := d.alarms ++ [{ ticket, id, timeout, due }] }

/-- Attach the alarm of a registration to the entry of its id, if there is one now. -/
def attach (d : Desk) (ticket : Ticket) (id : Identity) : Desk :=
  { d with table := d.table.attach id ticket }

/-- Turn an alarm off; one that rings already goes on. -/
def silence (d : Desk) (ticket : Ticket) : Desk :=
  { d with alarms := d.alarms.filter fun a => a.ringing || a.ticket ≠ ticket }

def tell (d : Desk) (p : Pending) (outcome : Except QueryError Packet) : Desk :=
  { d with outcomes := d.outcomes ++ [(p.ticket, outcome)] }

def settle (d : Desk) (p : Pending) (outcome : Except QueryError Packet) : Desk :=
  match p.alarm with
  | some a => (d.silence a).tell p outcome
  | none => d.tell p outcome

def take (d : Desk) (id : Identity) : Option Pending × Desk :=
  let (p, table) := d.table.remove id
  (p, { d with table })

def ring (d : Desk) (ticket : Ticket) : Desk :=
  { d with alarms := d.alarms.map fun a =>
      if a.ticket = ticket then { a with ringing := true } else a }

/-- Let an alarm expire: it removes the entry that its id has now, tells that caller of
its own timeout, and is gone. -/
def expire (d : Desk) (alarm : Alarm) : Desk :=
  let d := { d with alarms := d.alarms.filter fun a => a.ticket ≠ alarm.ticket }
  match d.take alarm.id with
  | (some p, d) => d.tell p (.error (.timeout alarm.timeout))
  | (none, d) => d

def register (d : Desk) (id : Identity) (timeout now : Nat) : Except QueryError (Ticket × Desk) :=
  match d.enter id (now + timeout) with
  | .ok (ticket, d) => .ok (ticket, (d.arm ticket id timeout (now + timeout)).attach ticket id)
  | .error e => .error e

/-- Settle the query that a packet answers; whether there was one. -/
def complete (d : Desk) (p : Packet) : Bool × Desk :=
  match p.id with
  | none => (false, d)
  | some id =>
    match d.take id with
    | (some entry, d) => (true, d.settle entry (.ok p))
    | (none, d) => (false, d)

def cancel (d : Desk) (id : Identity) : Bool × Desk :=
  match d.take id with
  | (some entry, d) => (true, d.settle entry (.error .closed))
  | (none, d) => (false, d)

/-- Fail every pending query and refuse new ones; how many were failed. -/
def cancelAll (d : Desk) : Nat × Desk :=
  let (entries, table) := d.table.close
  (entries.length, entries.foldl (fun d p => d.settle p (.error .closed)) { d with table })

/-- Let every alarm that is due by `now` expire, in the order in which they are due. -/
def expireDue (d : Desk) (now : Nat) : Desk :=
  let due := (d.alarms.filter fun a => a.due ≤ now).mergeSort fun a b => a.due ≤ b.due
  due.foldl (fun d a => (d.ring a.ticket).expire a) d

def nextDue? (d : Desk) : Option Nat :=
  (d.alarms.map (·.due)).min?

end Desk

end Switchboard
