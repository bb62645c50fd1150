import Switchboard.Query.Desk
import Switchboard.Proofs.Query.Table

/-!
# Calls that race for one desk

A desk together with every call that was made on it, finished or not. A call reads or
writes the table in its locked sections alone: a registration inserts its entry, then
starts its alarm, then attaches it; a call that takes entries out then turns their alarms
off and tells their callers, one after the other. Between two of these steps any other
call and any alarm may move, so a run is a list of such steps in an arbitrary order, by
any number of calls.
-/

namespace Switchboard

def Desk.dismiss (d : Desk) (alarm : Ticket) : Desk :=
  { d with alarms := d.alarms.filter fun a => a.ticket ≠ alarm }

namespace Traffic

structure Registration where
  ticket : Ticket
  id : Identity
  timeout : Nat
  deriving DecidableEq, Repr

/-- What takes entries out of the table. -/
inductive Cause where
  | response (p : Packet)
  | cancel (id : Identity)
  | cancelAll
  | expiry (alarm : Alarm)
  deriving DecidableEq, Repr

namespace Cause

def outcome : Cause → Except QueryError Packet
  | response p => .ok p
  | cancel _ | cancelAll => .error .closed
  | expiry alarm => .error (.timeout alarm.timeout)

def Fits : Cause → Identity → Prop
  | response p, id => p.id = some id
  | cancel asked, id => asked = id
  | cancelAll, _ => True
  | expiry alarm, id => alarm.id = id

end Cause

/-- What a call still owes to an entry that it took out. -/
inductive Task where
  | silence (alarm : Ticket)
  | tell (p : Pending) (outcome : Except QueryError Packet)

def Task.perform (d : Desk) : Task → Desk
  | silence alarm => d.silence alarm
  | tell p outcome => d.tell p outcome

/-- Turn the alarm of a removed entry off, unless it is the one that expires, then tell
its caller. -/
def Cause.tasks (c : Cause) (p : Pending) : List Task :=
  match c, p.alarm with
  | response _, some alarm | cancel _, some alarm | cancelAll, some alarm =>
    [.silence alarm, .tell p c.outcome]
  | _, _ => [.tell p c.outcome]

/-- What a call returns. -/
inductive Verdict where
  | found (b : Bool)
  | count (n : Nat)
  | nothing
  deriving DecidableEq, Repr

/-- Whether there was an entry, but for an alarm, which returns to no one. -/
def Cause.verdict (c : Cause) (b : Bool) : Verdict :=
  match c with
  | expiry _ => .nothing
  | response _ | cancel _ | cancelAll => .found b

/-- A call and how far it is. -/
inductive Call where
  /-- The entry is in the table; its alarm is not started yet. -/
  | entered (r : Registration)
  /-- The alarm is started, not attached yet. -/
  | armed (r : Registration)
  | registered (r : Registration)
  | refused (id : Identity) (e : QueryError)
  /-- The entries are out of the table; the call returns once its tasks are done. -/
  | ending (cause : Cause) (removed : List (Identity × Pending)) (tasks : List Task)
    (verdict : Verdict)

/-- The next step of a call that has locked the table once. -/
def Call.advance (d : Desk) (now : Nat) : Call → Option (Desk × Call)
  | .entered r => some (d.arm r.ticket r.id r.timeout (now + r.timeout), .armed r)
  | .armed r => some (d.attach r.ticket r.id, .registered r)
  | .ending cause removed (task :: tasks) verdict =>
    some (task.perform d, .ending cause removed tasks verdict)
  | .registered _ | .refused _ _ | .ending _ _ [] _ => none

end Traffic

structure Traffic where
  desk : Desk := {}
  now : Nat := 0
  /-- Every call so far; a call keeps its place. -/
  calls : List Traffic.Call := []

namespace Traffic

inductive Event where
  | register (id : Identity) (timeout : Nat)
  | complete (p : Packet)
  | cancel (id : Identity)
  /-- The entries may be taken out in any order. -/
  | cancelAll (order : List (Identity × Pending))
  /-- The next step of a call that is under way. -/
  | proceed (call : Nat)
  | elapse (millis : Nat)
  /-- The time of an alarm is over. -/
  | ring (alarm : Ticket)
  /-- An alarm that rings takes the entry of its id out. -/
  | expire (alarm : Ticket)

def opened (s : Traffic) (c : Call) : Traffic := { s with calls := s.calls ++ [c] }

/-- A new call whose locked section took the entry of an id out, if there was one. -/
def take (s : Traffic) (cause : Cause) (id : Identity) : Traffic :=
  match s.desk.take id with
  | (some p, desk) =>
    { s with
      desk
      calls := s.calls ++ [.ending cause [(id, p)] (cause.tasks p) (cause.verdict true)] }
  | (none, desk) =>
    { s with desk, calls := s.calls ++ [.ending cause [] [] (cause.verdict false)] }

/-- A new call whose locked section took all entries out and closed the table. -/
def close (s : Traffic) (order : List (Identity × Pending)) : Traffic :=
  { s with
    desk := { s.desk with table := s.desk.table.close.2 }
    calls := s.calls ++ [.ending .cancelAll order
      (order.flatMap fun e => Cause.cancelAll.tasks e.2) (.count order.length)] }

def dismiss (s : Traffic) (alarm : Ticket) : Traffic := { s with desk := s.desk.dismiss alarm }

def step (s : Traffic) : Event → Option Traffic
  | .register id timeout =>
    match s.desk.enter id (s.now + timeout) with
    | .ok (ticket, desk) =>
      some { s with desk, calls := s.calls ++ [.entered ⟨ticket, id, timeout⟩] }
    | .error e => some (s.opened (.refused id e))
  | .complete p =>
    match p.id with
    | some id => some (s.take (.response p) id)
    | none => some (s.opened (.ending (.response p) [] [] (.found false)))
  | .cancel id => some (s.take (.cancel id) id)
  | .cancelAll order =>
    if order.Perm s.desk.table.entries then some (s.close order) else none
  | .proceed n => do
    let c ← s.calls[n]?
    let (desk, next) ← c.advance s.desk s.now
    some { s with desk, calls := s.calls.set n next }
  | .elapse millis => some { s with now := s.now + millis }
  | .ring k =>
    if s.desk.alarms.any fun a => a.ticket = k ∧ a.due ≤ s.now
    then some { s with desk := s.desk.ring k }
    else none
  | .expire k =>
    (s.desk.alarms.find? fun a => a.ticket = k ∧ a.ringing).map fun a =>
      (s.dismiss k).take (.expiry a) a.id

/-- A new registration, its entry in the table and its alarm not started yet. -/
def enter (s : Traffic) (id : Identity) (timeout : Nat) : Traffic where
  desk := {
    table := s.desk.table.push id { ticket := s.desk.nextTicket, deadline := s.now + timeout }
    alarms := s.desk.alarms
    outcomes := s.desk.outcomes
    nextTicket := s.desk.nextTicket + 1 }
  now := s.now
  calls := s.calls ++ [.entered ⟨s.desk.nextTicket, id, timeout⟩]

theorem step_register_closed {s : Traffic} (h : s.desk.table.closed = true) (id : Identity)
    (timeout : Nat) : s.step (.register id timeout) = some (s.opened (.refused id .closed)) := by
  simp only [step, Desk.enter, QueryTable.insert_closed h]

theorem step_register_duplicate {s : Traffic} (h : s.desk.table.closed = false) {id : Identity}
    (hid : s.desk.table.isPending id = true) (timeout : Nat) :
    s.step (.register id timeout) = some (s.opened (.refused id (.duplicate id))) := by
  simp only [step, Desk.enter, QueryTable.insert_duplicate h hid]

theorem step_register_free {s : Traffic} (h : s.desk.table.closed = false) {id : Identity}
    (hid : s.desk.table.find? id = none) (timeout : Nat) :
    s.step (.register id timeout) = some (s.enter id timeout) := by
  simp only [step, Desk.enter, QueryTable.insert_free h hid, enter]

/-- What a call does next, by how far it is. -/
theorem Call.advance_cases {c next : Call} {d desk : Desk} {now : Nat}
    (h : c.advance d now = some (desk, next)) :
    (∃ r, c = .entered r ∧ desk = d.arm r.ticket r.id r.timeout (now + r.timeout) ∧
      next = .armed r) ∨
    (∃ r, c = .armed r ∧ desk = d.attach r.ticket r.id ∧ next = .registered r) ∨
    (∃ cause removed task tasks verdict, c = .ending cause removed (task :: tasks) verdict ∧
      desk = task.perform d ∧ next = .ending cause removed tasks verdict) := by
  cases c with
  | entered r =>
    cases h
    exact .inl ⟨r, rfl, rfl, rfl⟩
  | armed r =>
    cases h
    exact .inr (.inl ⟨r, rfl, rfl, rfl⟩)
  | registered r => cases h
  | refused id e => cases h
  | ending cause removed tasks verdict =>
    cases tasks with
    | nil => cases h
    | cons task tasks =>
      cases h
      exact .inr (.inr ⟨cause, removed, task, tasks, verdict, rfl, rfl, rfl⟩)

theorem take_of_find?_none {s : Traffic} {id : Identity} (h : s.desk.table.find? id = none)
    (cause : Cause) : s.take cause id = s.opened (.ending cause [] [] (cause.verdict false)) := by
  simp only [take, Desk.take, QueryTable.remove_none h, opened]

theorem take_of_find?_some {s : Traffic} {id : Identity} {p : Pending}
    (h : s.desk.table.find? id = some p) (cause : Cause) :
    s.take cause id = { s with
      desk := { s.desk with table := (s.desk.table.remove id).2 }
      calls := s.calls ++ [.ending cause [(id, p)] (cause.tasks p) (cause.verdict true)] } := by
  have hfound : (s.desk.table.remove id).1 = some p := h
  simp only [take, Desk.take, hfound]

/-- The states that one step can lead to, each with what lets the step happen. -/
inductive Move (s : Traffic) : Traffic → Prop where
  | enter {id : Identity} (timeout : Nat) (hopen : s.desk.table.closed = false)
      (hfree : s.desk.table.find? id = none) : Move s (s.enter id timeout)
  | refuse {id : Identity} {e : QueryError}
      (he : e = .closed ∧ s.desk.table.closed = true ∨
        e = .duplicate id ∧ s.desk.table.closed = false ∧ s.desk.table.isPending id = true) :
      Move s (s.opened (.refused id e))
  | pass (p : Packet) (hp : p.id = none) :
      Move s (s.opened (.ending (.response p) [] [] (.found false)))
  | complete {p : Packet} {id : Identity} (hp : p.id = some id) : Move s (s.take (.response p) id)
  | cancel (id : Identity) : Move s (s.take (.cancel id) id)
  | close {order : List (Identity × Pending)} (horder : order.Perm s.desk.table.entries) :
      Move s (s.close order)
  | proceed {n : Nat} {c next : Call} {desk : Desk} (hc : s.calls[n]? = some c)
      (hnext : c.advance s.desk s.now = some (desk, next)) :
      Move s { s with desk, calls := s.calls.set n next }
  | elapse (millis : Nat) : Move s { s with now := s.now + millis }
  | ring {a : Alarm} (ha : a ∈ s.desk.alarms) (hdue : a.due ≤ s.now) :
      Move s { s with desk := s.desk.ring a.ticket }
  | expire {a : Alarm} (ha : a ∈ s.desk.alarms) (hringing : a.ringing = true) :
      Move s ((s.dismiss a.ticket).take (.expiry a) a.id)

/-- Each step is one of these, with its guard. -/
theorem move_of_step {s s' : Traffic} {e : Event} (h : s.step e = some s') : Move s s' := by
  cases e with
  | register id timeout =>
    by_cases hclosed : s.desk.table.closed = true
    · rw [step_register_closed hclosed] at h
      cases h
      exact .refuse (.inl ⟨rfl, hclosed⟩)
    · have hopen : s.desk.table.closed = false := by simpa using hclosed
      cases hfind : s.desk.table.find? id with
      | some p =>
        have hpending : s.desk.table.isPending id = true := by simp [QueryTable.isPending, hfind]
        rw [step_register_duplicate hopen hpending] at h
        cases h
        exact .refuse (.inr ⟨rfl, hopen, hpending⟩)
      | none =>
        rw [step_register_free hopen hfind] at h
        cases h
        exact .enter timeout hopen hfind
  | complete p =>
    cases hid : p.id with
    | none =>
      simp only [step, hid] at h
      cases h
      exact .pass p hid
    | some id =>
      simp only [step, hid] at h
      cases h
      exact .complete hid
  | cancel id =>
    cases h
    exact .cancel id
  | cancelAll order =>
    simp only [step] at h
    split at h
    · rename_i horder
      cases h
      exact .close horder
    · cases h
  | proceed n =>
    obtain ⟨c, hc, hrest⟩ := Option.bind_eq_some_iff.mp h
    obtain ⟨⟨desk, next⟩, hnext, hs'⟩ := Option.bind_eq_some_iff.mp hrest
    cases hs'
    exact .proceed hc hnext
  | elapse millis =>
    cases h
    exact .elapse millis
  | ring k =>
    simp only [step] at h
    split at h
    · rename_i hany
      obtain ⟨a, ha, hkey⟩ := List.any_eq_true.mp hany
      simp only [decide_eq_true_eq] at hkey
      cases h
      rw [← hkey.1]
      exact .ring ha hkey.2
    · cases h
  | expire k =>
    obtain ⟨a, ha, hs'⟩ := Option.map_eq_some_iff.mp h
    have hkey := List.find?_some ha
    simp only [decide_eq_true_eq] at hkey
    rw [← hs', ← hkey.1]
    exact .expire (List.mem_of_find?_eq_some ha) hkey.2

theorem calls_take (s : Traffic) (cause : Cause) (id : Identity) :
    ∃ removed tasks verdict,
      (s.take cause id).calls = s.calls ++ [.ending cause removed tasks verdict] := by
  cases hfind : s.desk.table.find? id with
  | none => exact ⟨_, _, _, congrArg calls (take_of_find?_none hfind cause)⟩
  | some p => exact ⟨_, _, _, congrArg calls (take_of_find?_some hfind cause)⟩

theorem alarms_take (s : Traffic) (cause : Cause) (id : Identity) :
    (s.take cause id).desk.alarms = s.desk.alarms := by
  cases hfind : s.desk.table.find? id with
  | none => rw [take_of_find?_none hfind, opened]
  | some p => rw [take_of_find?_some hfind]

def Begins (s : Traffic) : Call → Prop
  | .entered r => s.desk.table.find? r.id = none
  | .ending (.expiry a) _ _ _ => a ∈ s.desk.alarms
  | .refused _ _ | .ending (.response _) _ _ _ | .ending (.cancel _) _ _ _
  | .ending .cancelAll _ _ _ => True
  | .armed _ | .registered _ => False

/-- A step adds a call, or one call goes on, or the calls stay as they are. -/
theorem Move.calls_cases {s s' : Traffic} (h : Move s s') :
    (∃ c, s'.calls = s.calls ++ [c] ∧ s.Begins c) ∨
    (∃ n c desk next, s.calls[n]? = some c ∧ c.advance s.desk s.now = some (desk, next) ∧
      s'.calls = s.calls.set n next) ∨
    s'.calls = s.calls := by
  cases h with
  | enter timeout hopen hfree => exact .inl ⟨_, rfl, hfree⟩
  | refuse he => exact .inl ⟨_, rfl, trivial⟩
  | pass p hp => exact .inl ⟨_, rfl, trivial⟩
  | complete hp =>
    obtain ⟨removed, tasks, verdict, hcalls⟩ := s.calls_take _ _
    exact .inl ⟨_, hcalls, trivial⟩
  | cancel id =>
    obtain ⟨removed, tasks, verdict, hcalls⟩ := s.calls_take _ _
    exact .inl ⟨_, hcalls, trivial⟩
  | close horder => exact .inl ⟨_, rfl, trivial⟩
  | @proceed n c next desk hc hnext => exact .inr (.inl ⟨n, c, desk, next, hc, hnext, rfl⟩)
  | elapse millis => exact .inr (.inr rfl)
  | ring ha hdue => exact .inr (.inr rfl)
  | @expire a ha hringing =>
    obtain ⟨removed, tasks, verdict, hcalls⟩ := (s.dismiss a.ticket).calls_take (.expiry a) a.id
    exact .inl ⟨_, hcalls, ha⟩

/-- A call after a step was there before, or went on, or begins. -/
theorem Move.mem_calls {s s' : Traffic} (h : Move s s') {c : Call} (hc : c ∈ s'.calls) :
    c ∈ s.calls ∨ (∃ c₀ ∈ s.calls, ∃ desk, c₀.advance s.desk s.now = some (desk, c)) ∨
      s.Begins c := by
  rcases h.calls_cases with ⟨new, hcalls, hnew⟩ | ⟨n, c₀, desk, next, hn, hnext, hcalls⟩ | hcalls
  · rw [hcalls] at hc
    rcases List.mem_append.mp hc with hold | heq
    · exact .inl hold
    · rw [List.mem_singleton] at heq
      exact .inr (.inr (heq ▸ hnew))
  · rw [hcalls] at hc
    rcases List.mem_or_eq_of_mem_set hc with hold | rfl
    · exact .inl hold
    · exact .inr (.inl ⟨c₀, List.mem_of_getElem? hn, desk, hnext⟩)
  · exact .inl (hcalls ▸ hc)

theorem closed_take (s : Traffic) (cause : Cause) (id : Identity) :
    (s.take cause id).desk.table.closed = s.desk.table.closed := by
  cases hfind : s.desk.table.find? id with
  | none => rw [take_of_find?_none hfind, opened]
  | some p => rw [take_of_find?_some hfind, QueryTable.remove]

theorem Call.closed_advance {c next : Call} {d desk : Desk} {now : Nat}
    (h : c.advance d now = some (desk, next)) : desk.table.closed = d.table.closed := by
  rcases c.advance_cases h with ⟨r, -, rfl, -⟩ | ⟨r, -, rfl, -⟩ | ⟨_, _, task, _, _, -, rfl, -⟩
  · rfl
  · rfl
  · cases task <;> rfl

/-- A closed table stays closed. -/
theorem Move.closed {s s' : Traffic} (h : Move s s') (hs : s.desk.table.closed = true) :
    s'.desk.table.closed = true := by
  cases h with
  | enter timeout hopen hfree => simp [hs] at hopen
  | refuse he | pass p hp | elapse millis | ring ha hdue => exact hs
  | complete hp | cancel id => rw [closed_take, hs]
  | close horder => rfl
  | proceed hc hnext => exact (Call.closed_advance hnext).trans hs
  | expire ha hringing => rw [closed_take, dismiss, Desk.dismiss, hs]

def run (s : Traffic) : List Event → Option Traffic
  | [] => some s
  | e :: es => (s.step e).bind fun s => s.run es

@[simp] theorem run_nil (s : Traffic) : s.run [] = some s := rfl

theorem run_cons (s : Traffic) (e : Event) (es : List Event) :
    s.run (e :: es) = (s.step e).bind fun s => s.run es := rfl

theorem run_append (s : Traffic) (es fs : List Event) :
    s.run (es ++ fs) = (s.run es).bind fun s => s.run fs := by
  induction es generalizing s with
  | nil => rfl
  | cons e es ih =>
    rw [List.cons_append, run_cons, run_cons, Option.bind_assoc]
    exact congrArg _ (funext fun s => ih s)

/-- What every move keeps, every run keeps. -/
theorem run_induction {P : Traffic → Prop} (hmove : ∀ s s', Move s s' → P s → P s')
    {s s' : Traffic} {es : List Event} (h : s.run es = some s') (hs : P s) : P s' := by
  induction es generalizing s with
  | nil =>
    rw [run_nil, Option.some.injEq] at h
    exact h ▸ hs
  | cons e es ih =>
    obtain ⟨mid, hmid, hrest⟩ := Option.bind_eq_some_iff.mp h
    exact ih hrest (hmove s mid (move_of_step hmid) hs)

/-- The tasks of a call that is no expiry settle the entry. -/
theorem foldl_tasks (c : Cause) (p : Pending) (d : Desk) (hc : ∀ a, c ≠ .expiry a) :
    (c.tasks p).foldl Task.perform d = d.settle p c.outcome := by
  cases c with
  | expiry a => exact absurd rfl (hc a)
  | response q => cases hp : p.alarm <;> simp [Cause.tasks, Desk.settle, Task.perform, hp]
  | cancel id => cases hp : p.alarm <;> simp [Cause.tasks, Desk.settle, Task.perform, hp]
  | cancelAll => cases hp : p.alarm <;> simp [Cause.tasks, Desk.settle, Task.perform, hp]

/-- A call that took entries out can always go on to its end, whatever the others do. -/
theorem run_tasks {s : Traffic} {n : Nat} {cause : Cause} {removed : List (Identity × Pending)}
    {tasks : List Task} {verdict : Verdict}
    (h : s.calls[n]? = some (.ending cause removed tasks verdict)) :
    s.run (List.replicate tasks.length (.proceed n)) =
      some { s with
        desk := tasks.foldl Task.perform s.desk
        calls := s.calls.set n (.ending cause removed [] verdict) } := by
  induction tasks generalizing s with
  | nil =>
    obtain ⟨hn, hget⟩ := List.getElem?_eq_some_iff.mp h
    simp only [List.length_nil, List.replicate_zero, run_nil, List.foldl_nil, ← hget,
      List.set_getElem_self]
  | cons task tasks ih =>
    have hn : n < s.calls.length := (List.getElem?_eq_some_iff.mp h).1
    have hstep : s.step (.proceed n) = some { s with
        desk := task.perform s.desk
        calls := s.calls.set n (.ending cause removed tasks verdict) } := by
      simp [step, h, Call.advance]
    rw [List.length_cons, List.replicate_succ, run_cons, hstep, Option.bind_some, ih (by simp [hn])]
    simp

/-- The same for the call that was made last. -/
theorem run_tasks_last {s : Traffic} {calls : List Call} {cause : Cause}
    {removed : List (Identity × Pending)} {tasks : List Task} {verdict : Verdict}
    (h : s.calls = calls ++ [.ending cause removed tasks verdict]) :
    s.run (List.replicate tasks.length (.proceed calls.length)) =
      some { s with
        desk := tasks.foldl Task.perform s.desk
        calls := calls ++ [.ending cause removed [] verdict] } := by
  have hlast : s.calls[calls.length]? = some (.ending cause removed tasks verdict) := by simp [h]
  rw [run_tasks hlast, h]
  simp

/-- Without interruption, the three steps of a registration are `register`. -/
theorem run_register {s : Traffic} {id : Identity} {timeout : Nat} {ticket : Ticket} {desk : Desk}
    (h : s.desk.register id timeout s.now = .ok (ticket, desk)) :
    s.run [.register id timeout, .proceed s.calls.length, .proceed s.calls.length] =
      some { s with desk, calls := s.calls ++ [.registered ⟨ticket, id, timeout⟩] } := by
  simp only [Desk.register] at h
  split at h
  · rename_i entered mid hmid
    cases h
    simp [run, step, hmid, Call.advance]
  · cases h

theorem step_register_error {s : Traffic} {id : Identity} {timeout : Nat} {e : QueryError}
    (h : s.desk.register id timeout s.now = .error e) :
    s.step (.register id timeout) = some (s.opened (.refused id e)) := by
  simp only [Desk.register] at h
  split at h
  · cases h
  · rename_i refusal hrefusal
    cases h
    simp [step, hrefusal]

def entryOf (s : Traffic) (id : Identity) : List (Identity × Pending) :=
  (s.desk.table.find? id).toList.map fun p => (id, p)

/-- The locked section of a call and then its tasks: the entry is settled. -/
theorem run_take (s : Traffic) (cause : Cause) (id : Identity) :
    ∃ steps, (s.take cause id).run (List.replicate steps (.proceed s.calls.length)) =
      some { s with
        desk := match s.desk.take id with
          | (some p, desk) => (cause.tasks p).foldl Task.perform desk
          | (none, desk) => desk
        calls := s.calls ++ [.ending cause (s.entryOf id) []
          (cause.verdict (s.desk.take id).1.isSome)] } := by
  cases hfind : s.desk.table.find? id with
  | none =>
    refine ⟨0, ?_⟩
    rw [take_of_find?_none hfind]
    simp [Desk.take, QueryTable.remove_none hfind, entryOf, hfind, opened]
  | some p =>
    have hfound : (s.desk.table.remove id).1 = some p := hfind
    refine ⟨(cause.tasks p).length, ?_⟩
    rw [take_of_find?_some hfind, run_tasks_last rfl]
    simp [Desk.take, hfound, entryOf, hfind]

/-- Likewise, completing is `complete`. -/
theorem run_complete (s : Traffic) (p : Packet) :
    ∃ steps, s.run (.complete p :: List.replicate steps (.proceed s.calls.length)) =
      some { s with
        desk := (s.desk.complete p).2
        calls := s.calls ++ [.ending (.response p) (p.id.toList.flatMap s.entryOf) []
          (.found (s.desk.complete p).1)] } := by
  cases hid : p.id with
  | none => exact ⟨0, by simp [run, step, hid, Desk.complete, opened]⟩
  | some id =>
    obtain ⟨steps, hrun⟩ := s.run_take (.response p) id
    refine ⟨steps, ?_⟩
    rw [run_cons, show s.step (.complete p) = some (s.take (.response p) id) by simp [step, hid],
      Option.bind_some, hrun]
    simp only [Desk.complete, hid, Option.toList_some, List.flatMap_singleton]
    cases htake : s.desk.take id with
    | mk found desk =>
      cases found with
      | none => rfl
      | some entry => simp [foldl_tasks, Cause.verdict, Cause.outcome]

/-- And cancelling is `cancel`. -/
theorem run_cancel (s : Traffic) (id : Identity) :
    ∃ steps, s.run (.cancel id :: List.replicate steps (.proceed s.calls.length)) =
      some { s with
        desk := (s.desk.cancel id).2
        calls := s.calls ++ [.ending (.cancel id) (s.entryOf id) []
          (.found (s.desk.cancel id).1)] } := by
  obtain ⟨steps, hrun⟩ := s.run_take (.cancel id) id
  refine ⟨steps, ?_⟩
  rw [run_cons, show s.step (.cancel id) = some (s.take (.cancel id) id) from rfl,
    Option.bind_some, hrun]
  simp only [Desk.cancel]
  cases htake : s.desk.take id with
  | mk found desk =>
    cases found with
    | none => rfl
    | some entry => simp [foldl_tasks, Cause.verdict, Cause.outcome]

/-- And an alarm that expires does what `expire` does. -/
theorem run_expire {s : Traffic} {k : Ticket} {a : Alarm}
    (h : s.desk.alarms.find? (fun a => a.ticket = k ∧ a.ringing) = some a) :
    ∃ steps, s.run (.expire k :: List.replicate steps (.proceed s.calls.length)) =
      some { s with
        desk := s.desk.expire a
        calls := s.calls ++ [.ending (.expiry a) (s.entryOf a.id) [] .nothing] } := by
  have hk : a.ticket = k := by
    have := List.find?_some h
    simp only [decide_eq_true_eq] at this
    exact this.1
  obtain ⟨steps, hrun⟩ := (s.dismiss k).run_take (.expiry a) a.id
  refine ⟨steps, ?_⟩
  rw [run_cons, show s.step (.expire k) = some ((s.dismiss k).take (.expiry a) a.id) by
    simp only [step, h, Option.map_some], Option.bind_some]
  refine hrun.trans ?_
  subst hk
  have hexpire : s.desk.expire a = match (s.dismiss a.ticket).desk.take a.id with
      | (some p, desk) => desk.tell p (.error (.timeout a.timeout))
      | (none, desk) => desk := rfl
  rw [hexpire]
  cases htake : (s.dismiss a.ticket).desk.take a.id with
  | mk found desk => cases found <;> rfl

/-- And cancelling all, in the order of the table, is `cancelAll`. -/
theorem run_cancelAll (s : Traffic) :
    ∃ steps, s.run (.cancelAll s.desk.table.entries ::
        List.replicate steps (.proceed s.calls.length)) =
      some { s with
        desk := s.desk.cancelAll.2
        calls := s.calls ++
          [.ending .cancelAll s.desk.table.entries [] (.count s.desk.cancelAll.1)] } := by
  refine ⟨(s.desk.table.entries.flatMap fun e => Cause.cancelAll.tasks e.2).length, ?_⟩
  rw [run_cons, show s.step (.cancelAll s.desk.table.entries) =
    some (s.close s.desk.table.entries) by simp [step], Option.bind_some]
  refine (run_tasks_last rfl).trans ?_
  simp only [close, Desk.cancelAll, QueryTable.close, List.length_map, List.foldl_flatMap,
    List.foldl_map]
  have hsettle (d : Desk) (p : Pending) :
      (Cause.cancelAll.tasks p).foldl Task.perform d = d.settle p (.error .closed) :=
    foldl_tasks .cancelAll p d fun a h => by cases h
  simp only [hsettle]

end Traffic

end Switchboard
