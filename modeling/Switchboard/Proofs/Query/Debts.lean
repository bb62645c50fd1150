import Switchboard.Proofs.Query.Settlement

/-!
# What calls still owe

A call goes through its tasks in order, so what it still owes is a suffix of what it owed
when it took its entries out (`Owes`). Hence a caller whose entry is gone was told, or the
call that took the entry out has not told it yet; and a call that takes one entry out tells
its caller in its next step, or in the one after it turned the alarm off.
-/

namespace Switchboard.Traffic

open QueryTable (owner)
open scoped List

/-- How a call that this step begins stands right after its first locked section. -/
def Event.Begins : Event → Call → Prop
  | register id timeout, .entered r => r.id = id ∧ r.timeout = timeout
  | register id _, .refused id' _ => id' = id
  | complete p, .ending (.response q) _ _ _ => q = p
  | cancel id, .ending (.cancel id') _ _ _ => id' = id
  | cancelAll order, .ending .cancelAll removed _ _ => removed = order
  | expire k, .ending (.expiry a) _ _ _ => a.ticket = k
  | _, _ => False

/-- What a call owes is the rest of what its entries were due. -/
def Call.Owes : Call → Prop
  | ending cause removed tasks _ => tasks <:+ removed.flatMap fun e => cause.tasks e.2
  | entered _ | armed _ | registered _ | refused _ _ => True

def Owes (s : Traffic) : Prop := ∀ c ∈ s.calls, c.Owes

/-- A call that took the entry of the registration out has told its caller, or has nothing
left to do but to turn the alarm of the entry off and to tell the caller. -/
def Tells (s : Traffic) (r : Registration) : Prop :=
  ∀ (n : Nat) cause removed tasks verdict,
    s.calls[n]? = some (.ending cause removed tasks verdict) → r.owner ∈ removed.map owner →
    s.desk.outcome? r.ticket = some cause.outcome ∨ ∃ p : Pending, p.ticket = r.ticket ∧
      (tasks = [.tell p cause.outcome] ∨ ∃ alarm, tasks = [.silence alarm, .tell p cause.outcome])

variable {s s' : Traffic}

/-- A call keeps its place, where it stands as it did or has gone on. -/
theorem Move.call (h : Move s s') {n : Nat} {c : Call} (hn : s.calls[n]? = some c) :
    ∃ c', s'.calls[n]? = some c' ∧
      (c' = c ∨ ∃ desk, c.advance s.desk s.now = some (desk, c')) := by
  have hlt : n < s.calls.length := (List.getElem?_eq_some_iff.mp hn).1
  rcases h.calls_cases with ⟨new, hcalls, -⟩ | ⟨m, c₀, desk, next, hm, hnext, hcalls⟩ | hcalls
  · exact ⟨c, by rw [hcalls, List.getElem?_append_left hlt, hn], .inl rfl⟩
  · by_cases hmn : m = n
    · subst hmn
      rw [hn, Option.some.injEq] at hm
      subst hm
      exact ⟨next, by rw [hcalls, List.getElem?_set_self hlt], .inr ⟨desk, hnext⟩⟩
    · exact ⟨c, by rw [hcalls, List.getElem?_set_ne hmn, hn], .inl rfl⟩
  · exact ⟨c, by rw [hcalls, hn], .inl rfl⟩

/-- A step begins a call of its own kind, or one call goes on, or the calls stay as they are. -/
theorem begins_of_step {e : Event} (h : s.step e = some s') :
    (∃ c, s'.calls = s.calls ++ [c] ∧ e.Begins c) ∨
    (∃ n c desk next, s.calls[n]? = some c ∧ c.advance s.desk s.now = some (desk, next) ∧
      s'.calls = s.calls.set n next) ∨
    s'.calls = s.calls := by
  cases e with
  | register id timeout =>
    simp only [step] at h
    split at h <;> cases h
    · exact .inl ⟨_, rfl, rfl, rfl⟩
    · exact .inl ⟨_, rfl, rfl⟩
  | complete p =>
    simp only [step] at h
    split at h <;> cases h
    · obtain ⟨removed, tasks, verdict, hcalls⟩ := s.calls_take _ _
      exact .inl ⟨_, hcalls, rfl⟩
    · exact .inl ⟨_, rfl, rfl⟩
  | cancel id =>
    cases h
    obtain ⟨removed, tasks, verdict, hcalls⟩ := s.calls_take _ _
    exact .inl ⟨_, hcalls, rfl⟩
  | cancelAll order =>
    simp only [step] at h
    split at h <;> cases h
    exact .inl ⟨_, rfl, rfl⟩
  | proceed n =>
    obtain ⟨c, hc, hrest⟩ := Option.bind_eq_some_iff.mp h
    obtain ⟨⟨desk, next⟩, hnext, hs'⟩ := Option.bind_eq_some_iff.mp hrest
    cases hs'
    exact .inr (.inl ⟨n, c, desk, next, hc, hnext, rfl⟩)
  | elapse millis =>
    cases h
    exact .inr (.inr rfl)
  | ring k =>
    simp only [step] at h
    split at h <;> cases h
    exact .inr (.inr rfl)
  | expire k =>
    obtain ⟨a, ha, hs'⟩ := Option.map_eq_some_iff.mp h
    have hkey := List.find?_some ha
    simp only [decide_eq_true_eq] at hkey
    obtain ⟨removed, tasks, verdict, hcalls⟩ := (s.dismiss k).calls_take (.expiry a) a.id
    exact .inl ⟨.ending (.expiry a) removed tasks verdict, hs' ▸ hcalls, hkey.1⟩

/-- A call that took entries out did so before, with at least as much to do, or begins with
this step. -/
theorem ending_of_step {e : Event} (h : s.step e = some s') {n : Nat} {cause : Cause}
    {removed : List (Identity × Pending)} {tasks : List Task} {verdict : Verdict}
    (hn : s'.calls[n]? = some (.ending cause removed tasks verdict)) :
    (∃ rest, s.calls[n]? = some (.ending cause removed rest verdict) ∧ tasks <:+ rest) ∨
      n = s.calls.length ∧ e.Begins (.ending cause removed tasks verdict) := by
  rcases begins_of_step h with ⟨c, hcalls, hc⟩ | ⟨m, c, desk, next, hm, hnext, hcalls⟩ | hcalls
  · rw [hcalls] at hn
    rcases Nat.lt_or_ge n s.calls.length with hlt | hle
    · rw [List.getElem?_append_left hlt] at hn
      exact .inl ⟨tasks, hn, List.suffix_refl _⟩
    · rw [List.getElem?_append_right hle, List.getElem?_singleton] at hn
      split at hn
      · cases hn
        exact .inr ⟨by omega, hc⟩
      · cases hn
  · have hlt : m < s.calls.length := (List.getElem?_eq_some_iff.mp hm).1
    rw [hcalls] at hn
    by_cases hmn : m = n
    · subst hmn
      rw [List.getElem?_set_self hlt, Option.some.injEq] at hn
      subst hn
      rcases c.advance_cases hnext with
        ⟨r, -, -, heq⟩ | ⟨r, -, -, heq⟩ | ⟨_, _, task, _, _, rfl, -, heq⟩
      · cases heq
      · cases heq
      · cases heq
        exact .inl ⟨_, hm, List.suffix_cons task tasks⟩
    · rw [List.getElem?_set_ne hmn] at hn
      exact .inl ⟨tasks, hn, List.suffix_refl _⟩
  · rw [hcalls] at hn
    exact .inl ⟨tasks, hn, List.suffix_refl _⟩

theorem Event.Begins.eq_complete {e : Event} {p : Packet} {removed : List (Identity × Pending)}
    {tasks : List Task} {verdict : Verdict}
    (h : e.Begins (.ending (.response p) removed tasks verdict)) : e = .complete p := by
  cases e with
  | complete q => exact congrArg Event.complete (Eq.symm h)
  | _ => exact h.elim

theorem Event.Begins.eq_cancelAll {e : Event} {removed : List (Identity × Pending)}
    {tasks : List Task} {verdict : Verdict}
    (h : e.Begins (.ending .cancelAll removed tasks verdict)) : e = .cancelAll removed := by
  cases e with
  | cancelAll order => exact congrArg Event.cancelAll (Eq.symm h)
  | _ => exact h.elim

theorem Call.ids_advance {c next : Call} {d desk : Desk} {now : Nat}
    (h : c.advance d now = some (desk, next)) :
    desk.table.entries.map (·.1) = d.table.entries.map (·.1) := by
  rcases c.advance_cases h with ⟨r, -, rfl, -⟩ | ⟨r, -, rfl, -⟩ | ⟨_, _, task, _, _, -, rfl, -⟩
  · rfl
  · exact QueryTable.ids_attach _ _ _
  · cases task <;> rfl

theorem ids_take (s : Traffic) (cause : Cause) (id : Identity) :
    (s.take cause id).desk.table.entries.map (·.1) =
      (s.desk.table.entries.map (·.1)).filter (· ≠ id) := by
  cases hfind : s.desk.table.find? id with
  | none =>
    rw [take_of_find?_none hfind, opened, List.filter_eq_self.mpr]
    intro id' hid'
    obtain ⟨e, he, rfl⟩ := List.mem_map.mp hid'
    exact decide_eq_true (QueryTable.find?_eq_none.mp hfind e he)
  | some p =>
    rw [take_of_find?_some hfind, QueryTable.remove, List.filter_map]
    rfl

/-- The id of a call that took it out is not pending. -/
theorem isPending_take (s : Traffic) (cause : Cause) (id : Identity) :
    (s.take cause id).desk.isPending id = false := by
  rw [Desk.isPending, Bool.eq_false_iff, ne_eq, QueryTable.isPending_iff, ids_take]
  simp

/-- An id that is pending was so before, or is registered. -/
theorem pending_back {e : Event} (h : s.step e = some s') {id : Identity}
    (hid : s'.desk.isPending id = true) :
    s.desk.isPending id = true ∨ ∃ timeout, e = .register id timeout := by
  have htake (t : Traffic) (cause : Cause) (id' : Identity)
      (hpending : (t.take cause id').desk.isPending id = true) : t.desk.isPending id = true := by
    rw [Desk.isPending, QueryTable.isPending_iff, ids_take] at hpending
    exact QueryTable.isPending_iff.mpr (List.mem_filter.mp hpending).1
  cases e with
  | register id' timeout =>
    by_cases hclosed : s.desk.table.closed = true
    · rw [step_register_closed hclosed] at h
      cases h
      exact .inl hid
    · have hopen : s.desk.table.closed = false := by simpa using hclosed
      cases hfind : s.desk.table.find? id' with
      | some p =>
        rw [step_register_duplicate hopen (by simp [QueryTable.isPending, hfind])] at h
        cases h
        exact .inl hid
      | none =>
        rw [step_register_free hopen hfind] at h
        cases h
        rw [Desk.isPending, QueryTable.isPending_iff, enter, QueryTable.push, List.map_append,
          List.mem_append] at hid
        refine hid.imp QueryTable.isPending_iff.mpr fun hmem => ⟨timeout, ?_⟩
        rw [List.mem_singleton.mp hmem]
  | complete p =>
    simp only [step] at h
    split at h <;> cases h
    · exact .inl (htake _ _ _ hid)
    · exact .inl hid
  | cancel id' =>
    cases h
    exact .inl (htake _ _ _ hid)
  | cancelAll order =>
    simp only [step] at h
    split at h <;> cases h
    cases hid
  | proceed n =>
    obtain ⟨c, hc, hrest⟩ := Option.bind_eq_some_iff.mp h
    obtain ⟨⟨desk, next⟩, hnext, hs'⟩ := Option.bind_eq_some_iff.mp hrest
    cases hs'
    rw [Desk.isPending, QueryTable.isPending_iff, Call.ids_advance hnext] at hid
    exact .inl (QueryTable.isPending_iff.mpr hid)
  | elapse millis =>
    cases h
    exact .inl hid
  | ring k =>
    simp only [step] at h
    split at h <;> cases h
    exact .inl hid
  | expire k =>
    obtain ⟨a, ha, rfl⟩ := Option.map_eq_some_iff.mp h
    exact .inl (htake (s.dismiss k) _ _ hid)

/-- A response that took an entry out found its id pending. -/
theorem pending_of_complete {p : Packet} (h : s.step (.complete p) = some s')
    {removed : List (Identity × Pending)} {tasks : List Task} {verdict : Verdict}
    (hn : s'.calls[s.calls.length]? = some (.ending (.response p) removed tasks verdict))
    (hremoved : removed ≠ []) : ∃ id, p.id = some id ∧ s.desk.isPending id = true := by
  cases hid : p.id with
  | none =>
    simp only [step, hid] at h
    cases h
    rw [opened, List.getElem?_concat_length] at hn
    cases hn
    exact absurd rfl hremoved
  | some id =>
    simp only [step, hid] at h
    cases h
    cases hfind : s.desk.table.find? id with
    | none =>
      rw [take_of_find?_none hfind, opened, List.getElem?_concat_length] at hn
      cases hn
      exact absurd rfl hremoved
    | some e => exact ⟨id, rfl, by simp [Desk.isPending, QueryTable.isPending, hfind]⟩

/-- A call works its debts off from the front. -/
theorem Call.Owes.advance {c next : Call} {d desk : Desk} {now : Nat} (h : c.Owes)
    (hnext : c.advance d now = some (desk, next)) : next.Owes := by
  rcases c.advance_cases hnext with
    ⟨r, -, -, rfl⟩ | ⟨r, -, -, rfl⟩ | ⟨cause, removed, task, tasks, verdict, rfl, -, rfl⟩
  · trivial
  · trivial
  · exact (List.suffix_cons task tasks).trans h

theorem owes_take (s : Traffic) (cause : Cause) (id : Identity) (h : s.Owes) :
    (s.take cause id).Owes := by
  intro c hc
  cases hfind : s.desk.table.find? id with
  | none =>
    rw [take_of_find?_none hfind] at hc
    rcases List.mem_append.mp hc with hold | hnew
    · exact h c hold
    · obtain rfl := List.mem_singleton.mp hnew
      exact List.suffix_refl []
  | some p =>
    rw [take_of_find?_some hfind] at hc
    rcases List.mem_append.mp hc with hold | hnew
    · exact h c hold
    · obtain rfl := List.mem_singleton.mp hnew
      simp [Call.Owes]

/-- Debts are taken on with the entries and paid in order. -/
theorem Owes.move (h : s.Owes) (hmove : Move s s') : s'.Owes := by
  have happend {c : Call} (hc : c.Owes) (c' : Call) (hc' : c' ∈ s.calls ++ [c]) : c'.Owes := by
    rcases List.mem_append.mp hc' with hold | hnew
    · exact h c' hold
    · exact List.mem_singleton.mp hnew ▸ hc
  cases hmove with
  | enter timeout hopen hfree => exact happend trivial
  | refuse he => exact happend trivial
  | pass p hp => exact happend (List.suffix_refl [])
  | complete hp => exact s.owes_take _ _ h
  | cancel id => exact s.owes_take _ _ h
  | close horder => exact happend (List.suffix_refl _)
  | proceed hc hnext =>
    intro c hmem
    rcases List.mem_or_eq_of_mem_set hmem with hold | rfl
    · exact h c hold
    · exact (h _ (List.mem_of_getElem? hc)).advance hnext
  | elapse millis => exact h
  | ring ha hdue => exact h
  | @expire a ha hringing => exact (s.dismiss a.ticket).owes_take _ _ h

theorem lookup_of_mem {α β : Type} [DecidableEq α] {l : List (α × β)} (h : (l.map (·.1)).Nodup)
    {a : α} {b : β} (hmem : (a, b) ∈ l) : l.lookup a = some b := by
  obtain ⟨before, after, rfl⟩ := List.append_of_mem hmem
  refine List.lookup_eq_some_iff.mpr ⟨before, after, rfl, fun e he => ?_⟩
  rw [List.map_append, List.nodup_append] at h
  exact bne_iff_ne.mpr (Ne.symm (h.2.2 e.1 (List.mem_map_of_mem he) a (by simp)))

/-- What a call owes to tell is told of entries that it took out. -/
theorem Call.Owes.mem_removed {cause : Cause} {removed : List (Identity × Pending)}
    {tasks : List Task} {verdict : Verdict} (h : (Call.ending cause removed tasks verdict).Owes)
    {x : Ticket × Except QueryError Packet} (hx : x ∈ tasks.flatMap Task.told) :
    ∃ e ∈ removed, x = (e.2.ticket, cause.outcome) := by
  obtain ⟨task, htask, htold⟩ := List.mem_flatMap.mp hx
  obtain ⟨e, he, hdue⟩ := List.mem_flatMap.mp (h.subset htask)
  have hall : x ∈ (cause.tasks e.2).flatMap Task.told := List.mem_flatMap.mpr ⟨task, hdue, htold⟩
  rw [told_tasks, List.mem_singleton] at hall
  exact ⟨e, he, hall⟩

section

variable {r : Registration} {n : Nat} {cause : Cause} {removed : List (Identity × Pending)}
  {tasks : List Task} {verdict : Verdict}

/-- A ticket belongs to one of the entries that were taken out. -/
theorem Sound.owner_of_ticket (h : Sound s) {x y : Ticket × Identity} (hx : x ∈ s.removed)
    (hy : y ∈ s.removed) (hticket : x.1 = y.1) : x = y := by
  obtain ⟨r, hr, rfl⟩ := h.owner_mem_accepted hx
  obtain ⟨r', hr', rfl⟩ := h.owner_mem_accepted hy
  rw [h.eq_of_ticket hr hr' hticket]

/-- The caller of a removed entry was told once the call that removed it has nothing left to
do. -/
theorem Sound.told_of_done (h : Sound s) (howes : s.Owes)
    (hn : s.calls[n]? = some (.ending cause removed [] verdict))
    (hr : r.owner ∈ removed.map owner) : s.desk.outcome? r.ticket = some cause.outcome := by
  have hnodup := h.outcomes_nodup
  rw [List.map_append, List.nodup_append] at hnodup
  refine lookup_of_mem hnodup.1 ?_
  have hremoved : r.owner ∈ s.removed := mem_removed.mpr ⟨n, cause, removed, [], verdict, hn, hr⟩
  rcases List.mem_append.mp (h.outcomes.mem_iff.mpr (mem_decided hn hr)) with htold | huntold
  · exact htold
  · -- Whoever still had to tell it would be a second call that took the entry out.
    obtain ⟨c, hc, hx⟩ := List.mem_flatMap.mp huntold
    obtain ⟨m, hm⟩ := List.mem_iff_getElem?.mp hc
    cases c with
    | entered r' | armed r' | registered r' | refused id e => exact absurd hx List.not_mem_nil
    | ending cause' removed' tasks' verdict' =>
      obtain ⟨e, he, heq⟩ := (howes _ hc).mem_removed hx
      have hmem : owner e ∈ s.removed := List.mem_flatMap.mpr ⟨_, hc, List.mem_map_of_mem he⟩
      have hticket : r.ticket = e.2.ticket := congrArg Prod.fst heq
      have hsame : r.owner = owner e := h.owner_of_ticket hremoved hmem hticket
      have hremoves : r.owner ∈ removed'.map owner := hsame ▸ List.mem_map_of_mem he
      have hmn := h.removes_unique hn hm hr hremoves
      rw [hmn, hn] at hm
      cases hm
      exact absurd hx List.not_mem_nil

theorem Cause.tasks_cases (cause : Cause) (p : Pending) :
    cause.tasks p = [.tell p cause.outcome] ∨
      ∃ alarm, cause.tasks p = [.silence alarm, .tell p cause.outcome] := by
  cases cause with
  | expiry a => exact .inl rfl
  | response q | cancel id | cancelAll =>
    cases hp : p.alarm with
    | none => exact .inl (by simp [Cause.tasks, hp])
    | some alarm => exact .inr ⟨alarm, by simp [Cause.tasks, hp]⟩

/-- A call that took one entry out has told its caller, or tells it next, or turns the alarm
off and then tells it. -/
theorem Sound.told_or_next (h : Sound s) (howes : s.Owes)
    (hn : s.calls[n]? = some (.ending cause removed tasks verdict))
    (hr : r.owner ∈ removed.map owner) (hcause : cause ≠ .cancelAll) :
    s.desk.outcome? r.ticket = some cause.outcome ∨ ∃ p, p.ticket = r.ticket ∧
      (tasks = [.tell p cause.outcome] ∨
        ∃ alarm, tasks = [.silence alarm, .tell p cause.outcome]) := by
  have hc := List.mem_of_getElem? hn
  obtain ⟨e, he, howner⟩ := List.mem_map.mp hr
  have hticket : e.2.ticket = r.ticket := congrArg Prod.fst howner
  obtain rfl : removed = [e] := by
    have hlength := (h.calls _ hc).2.1 hcause
    cases removed with
    | nil => exact absurd he List.not_mem_nil
    | cons e' rest =>
      cases rest with
      | nil => rw [List.mem_singleton.mp he]
      | cons e'' rest => simp at hlength
  have hsuffix : tasks <:+ cause.tasks e.2 := by
    have := howes _ hc
    rwa [Call.Owes, List.flatMap_singleton] at this
  have hdone (htasks : tasks = []) : s.desk.outcome? r.ticket = some cause.outcome := by
    subst htasks
    exact h.told_of_done howes hn hr
  rcases cause.tasks_cases e.2 with hdue | ⟨alarm, hdue⟩
  · rw [hdue, List.suffix_cons_iff, List.suffix_nil] at hsuffix
    rcases hsuffix with htell | hnil
    · exact .inr ⟨e.2, hticket, .inl htell⟩
    · exact .inl (hdone hnil)
  · rw [hdue, List.suffix_cons_iff, List.suffix_cons_iff, List.suffix_nil] at hsuffix
    rcases hsuffix with hsilence | htell | hnil
    · exact .inr ⟨e.2, hticket, .inr ⟨alarm, hsilence⟩⟩
    · exact .inr ⟨e.2, hticket, .inl htell⟩
    · exact .inl (hdone hnil)

/-- The same, whichever call one asks about: no other took the entry out. -/
theorem Sound.tells (h : Sound s) (howes : s.Owes)
    (hn : s.calls[n]? = some (.ending cause removed tasks verdict))
    (hr : r.owner ∈ removed.map owner) (hcause : cause ≠ .cancelAll) : s.Tells r := by
  intro m cause' removed' tasks' verdict' hm hr'
  rw [h.removes_unique hn hm hr hr', hn] at hm
  cases hm
  exact h.told_or_next howes hn hr hcause

end

end Switchboard.Traffic
