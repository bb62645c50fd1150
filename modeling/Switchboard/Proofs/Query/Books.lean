import Switchboard.Proofs.Query.Traffic

/-!
# The books of a desk

The entries that wait, together with those that some call took out, are the accepted
registrations; and what callers were told, together with what calls still have to tell,
is one outcome for each entry that was taken out (`Sound`). No step breaks these books,
whatever the order in which the calls move (`sound_run`).
-/

namespace Switchboard.Traffic

open QueryTable (owner Distinct)
open scoped List

/-- The registration that a call had accepted. -/
def Call.accepted : Call → List Registration
  | entered r | armed r | registered r => [r]
  | refused _ _ | ending _ _ _ _ => []

def Call.removed : Call → List (Identity × Pending)
  | ending _ removed _ _ => removed
  | entered _ | armed _ | registered _ | refused _ _ => []

/-- What the callers of the removed entries have to hear. -/
def Call.decided : Call → List (Ticket × Except QueryError Packet)
  | ending cause removed _ _ => removed.map fun e => (e.2.ticket, cause.outcome)
  | entered _ | armed _ | registered _ | refused _ _ => []

def Task.told : Task → List (Ticket × Except QueryError Packet)
  | silence _ => []
  | tell p outcome => [(p.ticket, outcome)]

def Call.untold : Call → List (Ticket × Except QueryError Packet)
  | ending _ _ tasks _ => tasks.flatMap Task.told
  | entered _ | armed _ | registered _ | refused _ _ => []

def Registration.owner (r : Registration) : Ticket × Identity := (r.ticket, r.id)

def accepted (s : Traffic) : List Registration := s.calls.flatMap Call.accepted

def removed (s : Traffic) : List (Ticket × Identity) :=
  s.calls.flatMap fun c => c.removed.map owner

def decided (s : Traffic) : List (Ticket × Except QueryError Packet) :=
  s.calls.flatMap Call.decided

def untold (s : Traffic) : List (Ticket × Except QueryError Packet) :=
  s.calls.flatMap Call.untold

def Cause.tally : Cause → List (Identity × Pending) → Verdict
  | response _, removed | cancel _, removed => .found (!removed.isEmpty)
  | cancelAll, removed => .count removed.length
  | expiry _, _ => .nothing

/-- The entries that a call took out may end that way, only closing takes out more than
one, and the verdict counts them. -/
def Call.Sound : Call → Prop
  | ending cause removed _ verdict =>
    (∀ e ∈ removed, cause.Fits e.1) ∧ (cause ≠ .cancelAll → removed.length ≤ 1) ∧
      verdict = cause.tally removed
  | entered _ | armed _ | registered _ | refused _ _ => True

structure Sound (s : Traffic) : Prop where
  distinct : s.desk.table.Distinct
  fresh : ∀ r ∈ s.accepted, r.ticket < s.desk.nextTicket
  tickets : (s.accepted.map (·.ticket)).Nodup
  owners : (s.desk.table.entries.map owner ++ s.removed).Perm (s.accepted.map Registration.owner)
  outcomes : (s.desk.outcomes ++ s.untold).Perm s.decided
  calls : ∀ c ∈ s.calls, c.Sound
  closed : s.desk.table.closed = true → s.desk.table.entries = []

theorem sound_empty : Sound {} where
  distinct := List.nodup_nil
  fresh := by simp [accepted]
  tickets := List.nodup_nil
  owners := .refl _
  outcomes := .refl _
  calls := by simp
  closed := fun _ => rfl

variable {s : Traffic}

/-- The list before and after the place that is set. -/
theorem exists_set_eq {α : Type} {l : List α} {n : Nat} {a : α} (h : l[n]? = some a) :
    ∃ before after, l = before ++ a :: after ∧ ∀ b, l.set n b = before ++ b :: after := by
  obtain ⟨hn, hget⟩ := List.getElem?_eq_some_iff.mp h
  have hset (b : α) : l.set n b = l.take n ++ b :: l.drop (n + 1) := by
    rw [List.set_eq_take_append_cons_drop, if_pos hn]
  refine ⟨l.take n, l.drop (n + 1), ?_, hset⟩
  rw [← hset, ← hget, List.set_getElem_self]

theorem flatMap_set {α β : Type} {l : List α} {n : Nat} {a b : α} {f : α → List β}
    (h : l[n]? = some a) (hf : f b = f a) : (l.set n b).flatMap f = l.flatMap f := by
  obtain ⟨before, after, hl, hset⟩ := exists_set_eq h
  rw [hset, hl]
  simp [hf]

theorem perm_flatMap_set {α β : Type} {l : List α} {n : Nat} {a b : α} {f : α → List β}
    {front : List β} (h : l[n]? = some a) (hf : f a = front ++ f b) :
    (l.flatMap f).Perm (front ++ (l.set n b).flatMap f) := by
  obtain ⟨before, after, hl, hset⟩ := exists_set_eq h
  rw [hset, hl, List.flatMap_append, List.flatMap_append, List.flatMap_cons, List.flatMap_cons, hf,
    List.append_assoc front]
  exact List.perm_append_comm_assoc _ _ _

/-- The books do not look at the clock or at the alarms. -/
theorem Sound.of_alarms (h : Sound s) (alarms : List Alarm) (now : Nat) :
    Sound { s with desk := { s.desk with alarms }, now } where
  distinct := h.distinct
  fresh := h.fresh
  tickets := h.tickets
  owners := h.owners
  outcomes := h.outcomes
  calls := h.calls
  closed := h.closed

/-- A call goes on: what it tells now, it had not told before. -/
theorem Sound.set (h : Sound s) {n : Nat} {c next : Call} {desk : Desk}
    {told : List (Ticket × Except QueryError Packet)} (hc : s.calls[n]? = some c)
    (hids : desk.table.entries.map (·.1) = s.desk.table.entries.map (·.1))
    (howners : desk.table.entries.map owner = s.desk.table.entries.map owner)
    (hclosed : desk.table.closed = s.desk.table.closed)
    (hfresh : desk.nextTicket = s.desk.nextTicket)
    (houtcomes : desk.outcomes = s.desk.outcomes ++ told)
    (huntold : c.untold = told ++ next.untold) (haccepted : next.accepted = c.accepted)
    (hremoved : next.removed = c.removed) (hdecided : next.decided = c.decided)
    (hsound : c.Sound → next.Sound) : Sound { s with desk, calls := s.calls.set n next } where
  distinct := by
    rw [Distinct, hids]
    exact h.distinct
  fresh := by
    rw [accepted, flatMap_set hc haccepted, hfresh]
    exact h.fresh
  tickets := by
    rw [accepted, flatMap_set hc haccepted]
    exact h.tickets
  owners := by
    have hset : (next.removed.map owner) = c.removed.map owner := by rw [hremoved]
    rw [accepted, removed, flatMap_set hc haccepted, flatMap_set hc hset, howners]
    exact h.owners
  outcomes := by
    rw [decided, flatMap_set hc hdecided, houtcomes, List.append_assoc]
    exact ((perm_flatMap_set hc huntold).symm.append_left _).trans h.outcomes
  calls := by
    intro c' hc'
    rcases List.mem_or_eq_of_mem_set hc' with hold | rfl
    · exact h.calls c' hold
    · exact hsound (h.calls c (List.mem_of_getElem? hc))
  closed := by
    intro hopen
    rw [hclosed] at hopen
    have hempty : desk.table.entries.map owner = [] := by rw [howners, h.closed hopen, List.map_nil]
    exact List.map_eq_nil_iff.mp hempty

/-- What a call goes on to tell was decided when it took the entries out. -/
theorem Sound.advance (h : Sound s) {n : Nat} {c next : Call} {desk : Desk}
    (hc : s.calls[n]? = some c) (hnext : c.advance s.desk s.now = some (desk, next)) :
    Sound { s with desk, calls := s.calls.set n next } := by
  rcases c.advance_cases hnext with
    ⟨r, rfl, rfl, rfl⟩ | ⟨r, rfl, rfl, rfl⟩ | ⟨cause, removed, task, tasks, verdict, rfl, rfl, rfl⟩
  · exact h.set hc rfl rfl rfl rfl (List.append_nil _).symm rfl rfl rfl rfl id
  · exact h.set hc (QueryTable.ids_attach _ _ _) (QueryTable.owners_attach _ _ _) rfl rfl
      (List.append_nil _).symm rfl rfl rfl rfl id
  · cases task with
    | silence alarm =>
      exact h.set hc rfl rfl rfl rfl (List.append_nil _).symm rfl rfl rfl rfl id
    | tell p outcome => exact h.set hc rfl rfl rfl rfl rfl rfl rfl rfl rfl id

/-- What the locked section of a new call must do to keep the books: entries come in only
with a fresh ticket, and go out only to be told. -/
theorem Sound.append (h : Sound s) {c : Call} {desk : Desk} (hdistinct : desk.table.Distinct)
    (hclosed : desk.table.closed = true → desk.table.entries = [])
    (hnext : s.desk.nextTicket ≤ desk.nextTicket)
    (hfresh : ∀ r ∈ c.accepted, s.desk.nextTicket ≤ r.ticket ∧ r.ticket < desk.nextTicket)
    (htickets : (c.accepted.map (·.ticket)).Nodup)
    (howners : (desk.table.entries.map owner ++ c.removed.map owner).Perm
      (s.desk.table.entries.map owner ++ c.accepted.map Registration.owner))
    (houtcomes : desk.outcomes = s.desk.outcomes) (huntold : c.untold.Perm c.decided)
    (hsound : c.Sound) : Sound { s with desk, calls := s.calls ++ [c] } := by
  have haccepted : accepted { s with desk, calls := s.calls ++ [c] } =
      s.accepted ++ c.accepted := by
    simp [accepted]
  refine ⟨hdistinct, ?_, ?_, ?_, ?_, ?_, hclosed⟩
  · intro r hr
    rw [haccepted, List.mem_append] at hr
    rcases hr with hold | hnew
    · exact Nat.lt_of_lt_of_le (h.fresh r hold) hnext
    · exact (hfresh r hnew).2
  · rw [haccepted, List.map_append, List.nodup_append]
    refine ⟨h.tickets, htickets, fun a ha b hb => ?_⟩
    obtain ⟨r, hr, rfl⟩ := List.mem_map.mp ha
    obtain ⟨r', hr', rfl⟩ := List.mem_map.mp hb
    exact Nat.ne_of_lt (Nat.lt_of_lt_of_le (h.fresh r hr) (hfresh r' hr').1)
  · have hremoved : removed { s with desk, calls := s.calls ++ [c] } =
        s.removed ++ c.removed.map owner := by
      simp [removed]
    rw [haccepted, hremoved, List.map_append]
    calc desk.table.entries.map owner ++ (s.removed ++ c.removed.map owner)
      _ ~ desk.table.entries.map owner ++ (c.removed.map owner ++ s.removed) :=
        List.perm_append_comm.append_left _
      _ ~ s.desk.table.entries.map owner ++ c.accepted.map Registration.owner ++ s.removed := by
        rw [← List.append_assoc]
        exact howners.append_right _
      _ ~ s.desk.table.entries.map owner ++ s.removed ++ c.accepted.map Registration.owner := by
        rw [List.append_assoc, List.append_assoc]
        exact List.perm_append_comm.append_left _
      _ ~ s.accepted.map Registration.owner ++ c.accepted.map Registration.owner :=
        h.owners.append_right _
  · have hdecided : decided { s with desk, calls := s.calls ++ [c] } = s.decided ++ c.decided := by
      simp [decided]
    have huntold' : untold { s with desk, calls := s.calls ++ [c] } = s.untold ++ c.untold := by
      simp [untold]
    rw [hdecided, huntold', houtcomes, ← List.append_assoc]
    exact h.outcomes.append huntold
  · intro c' hc'
    rcases List.mem_append.mp hc' with hold | hnew
    · exact h.calls c' hold
    · rw [List.mem_singleton] at hnew
      exact hnew ▸ hsound

/-- A call that took nothing out leaves the books as they are. -/
theorem Sound.opened (h : Sound s) {c : Call} (haccepted : c.accepted = [])
    (hremoved : c.removed = []) (huntold : c.untold = c.decided) (hsound : c.Sound) :
    Sound (s.opened c) := by
  refine h.append h.distinct h.closed (Nat.le_refl _) ?_ ?_ ?_ rfl (.of_eq huntold) hsound
  · simp [haccepted]
  · simp [haccepted]
  · simp [haccepted, hremoved]

/-- A new registration has a new ticket and an id that nobody waits under. -/
theorem Sound.enter (h : Sound s) (hopen : s.desk.table.closed = false) {id : Identity}
    (hid : s.desk.table.find? id = none) (timeout : Nat) : Sound (s.enter id timeout) := by
  refine h.append (h.distinct.push hid _) ?_ (Nat.le_succ _) ?_ ?_ ?_ rfl (.refl _) trivial
  · intro hclosed
    have hshut : s.desk.table.closed = true := hclosed
    simp [hshut] at hopen
  · simp [Call.accepted]
  · simp [Call.accepted]
  · simp [Call.accepted, Call.removed, QueryTable.push, owner, Registration.owner]

theorem told_tasks (cause : Cause) (p : Pending) :
    (cause.tasks p).flatMap Task.told = [(p.ticket, cause.outcome)] := by
  cases cause <;> cases hp : p.alarm <;> simp [Cause.tasks, Task.told, hp]

theorem Cause.verdict_false {cause : Cause} (h : cause ≠ .cancelAll) :
    cause.verdict false = cause.tally [] := by
  cases cause with
  | cancelAll => exact absurd rfl h
  | response p | cancel id | expiry a => rfl

theorem Cause.verdict_true {cause : Cause} (h : cause ≠ .cancelAll) (e : Identity × Pending) :
    cause.verdict true = cause.tally [e] := by
  cases cause with
  | cancelAll => exact absurd rfl h
  | response p | cancel id | expiry a => rfl

/-- The entry leaves the table and its outcome is decided in one step. -/
theorem Sound.take (h : Sound s) {cause : Cause} {id : Identity} (hfits : cause.Fits id)
    (hcause : cause ≠ .cancelAll) : Sound (s.take cause id) := by
  cases hfind : s.desk.table.find? id with
  | none =>
    rw [take_of_find?_none hfind]
    exact h.opened rfl rfl rfl ⟨by simp, by simp, Cause.verdict_false hcause⟩
  | some p =>
    have hperm := QueryTable.perm_remove h.distinct hfind
    rw [take_of_find?_some hfind]
    refine h.append (h.distinct.remove id) ?_ (Nat.le_refl _) ?_ ?_ ?_ rfl ?_
      ⟨?_, by simp, Cause.verdict_true hcause (id, p)⟩
    · intro hclosed
      have hempty := h.closed hclosed
      rw [hempty] at hperm
      exact absurd hperm.nil_eq (List.cons_ne_nil _ _).symm
    · simp [Call.accepted]
    · simp [Call.accepted]
    · rw [Call.accepted, List.map_nil, List.append_nil]
      exact List.perm_append_comm.trans (hperm.map owner).symm
    · simp [Call.untold, Call.decided, told_tasks]
    · simpa using hfits

/-- Closing decides all of them at once. -/
theorem Sound.close (h : Sound s) {order : List (Identity × Pending)}
    (horder : order.Perm s.desk.table.entries) : Sound (s.close order) := by
  refine h.append List.nodup_nil (fun _ => rfl) (Nat.le_refl _) ?_ ?_ ?_ rfl ?_
    ⟨by simp [Cause.Fits], by simp, rfl⟩
  · simp [Call.accepted]
  · simp [Call.accepted]
  · rw [Call.accepted, List.map_nil, List.append_nil]
    exact horder.map owner
  · simp only [Call.untold, Call.decided, List.flatMap_assoc, told_tasks, List.map_eq_flatMap]
    exact .refl _

/-- No step breaks the books. -/
theorem Sound.move (h : Sound s) {s' : Traffic} (hmove : Move s s') : Sound s' := by
  cases hmove with
  | enter timeout hopen hfree => exact h.enter hopen hfree timeout
  | refuse he => exact h.opened rfl rfl rfl trivial
  | pass p hp => exact h.opened rfl rfl rfl ⟨by simp, by simp, rfl⟩
  | complete hp => exact h.take hp (by simp)
  | cancel id => exact h.take rfl (by simp)
  | close horder => exact h.close horder
  | proceed hc hnext => exact h.advance hc hnext
  | elapse millis => exact h.of_alarms _ _
  | ring ha hdue => exact h.of_alarms _ _
  | @expire a ha hringing =>
    have hdismiss : Sound (s.dismiss a.ticket) := h.of_alarms _ _
    exact hdismiss.take rfl (by simp)

/-- The books are right after every run. -/
theorem sound_run {es : List Event} (h : run {} es = some s) : Sound s :=
  run_induction (fun _ _ hmove hs => hs.move hmove) h sound_empty

end Switchboard.Traffic
