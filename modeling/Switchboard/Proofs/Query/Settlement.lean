import Mathlib.Data.List.Nodup
import Switchboard.Proofs.Query.Books

/-!
# Every query is settled once

By the books, every accepted registration either waits or was taken out by exactly one
call, which alone decides what its caller is told.
-/

namespace Switchboard.Traffic

open QueryTable (owner)
open scoped List

/-- The entry of a registration is the one that is pending under its id. -/
def Waits (s : Traffic) (r : Registration) : Prop :=
  ∃ p, s.desk.table.find? r.id = some p ∧ p.ticket = r.ticket

def Call.Removes (c : Call) (r : Registration) : Prop := r.owner ∈ c.removed.map owner

/-- What the caller of a registration was told or is about to be told. -/
def outcomesOf (s : Traffic) (r : Registration) : List (Except QueryError Packet) :=
  ((s.desk.outcomes ++ s.untold).filter (·.1 = r.ticket)).map (·.2)

/-- The registration waits, and no call has decided it. -/
def Undecided (s : Traffic) (r : Registration) : Prop :=
  s.Waits r ∧ (∀ c ∈ s.calls, ¬ c.Removes r) ∧ s.outcomesOf r = []

/-- One call alone took the entry of the registration out, and its outcome is the only one
that the caller was told or is about to be told. -/
def DecidedOnce (s : Traffic) (r : Registration) : Prop :=
  ¬ s.Waits r ∧ ∃ n cause removed tasks verdict,
    s.calls[n]? = some (.ending cause removed tasks verdict) ∧ r.owner ∈ removed.map owner ∧
    (∀ (m : Nat) (c : Call), s.calls[m]? = some c → c.Removes r → m = n) ∧
    cause.Fits r.id ∧ s.outcomesOf r = [cause.outcome]

/-- A new call took out what the table lost, and its verdict counts it. -/
def Opens (s s' : Traffic) (cause : Cause) : Prop :=
  ∃ removed tasks, s'.calls = s.calls ++ [.ending cause removed tasks (cause.tally removed)] ∧
    s.desk.table.entries ~ removed ++ s'.desk.table.entries

variable {s : Traffic}

theorem Sound.eq_of_ticket (h : Sound s) {r r' : Registration} (hr : r ∈ s.accepted)
    (hr' : r' ∈ s.accepted) (hticket : r.ticket = r'.ticket) : r = r' :=
  List.inj_on_of_nodup_map h.tickets hr hr' hticket

theorem Sound.owners_nodup (h : Sound s) :
    (s.desk.table.entries.map owner ++ s.removed).Nodup := by
  refine h.owners.nodup_iff.mpr (List.Nodup.of_map Prod.fst ?_)
  rw [List.map_map]
  exact h.tickets

/-- Who waits is in the table under its own ticket and id. -/
theorem Sound.waits_iff (h : Sound s) {r : Registration} :
    s.Waits r ↔ r.owner ∈ s.desk.table.entries.map owner := by
  constructor
  · rintro ⟨p, hfind, hp⟩
    refine List.mem_map.mpr ⟨(r.id, p), QueryTable.mem_of_find? hfind, ?_⟩
    rw [owner, Registration.owner, hp]
  · intro hr
    obtain ⟨⟨id, p⟩, he, heq⟩ := List.mem_map.mp hr
    have hticket : p.ticket = r.ticket := congrArg Prod.fst heq
    have hid : id = r.id := congrArg Prod.snd heq
    subst hid
    exact ⟨p, QueryTable.find?_of_mem h.distinct he, hticket⟩

theorem mem_removed {r : Registration} :
    r.owner ∈ s.removed ↔ ∃ (n : Nat) (cause : Cause) (removed : List (Identity × Pending))
      (tasks : List Task) (verdict : Verdict),
      s.calls[n]? = some (.ending cause removed tasks verdict) ∧ r.owner ∈ removed.map owner := by
  simp only [removed, List.mem_flatMap]
  constructor
  · rintro ⟨c, hc, hr⟩
    obtain ⟨n, hn⟩ := List.mem_iff_getElem?.mp hc
    cases c with
    | ending cause removed tasks verdict => exact ⟨n, cause, removed, tasks, verdict, hn, hr⟩
    | entered r' | armed r' | registered r' | refused id e => exact absurd hr List.not_mem_nil
  · rintro ⟨n, cause, removed, tasks, verdict, hn, hr⟩
    exact ⟨_, List.mem_of_getElem? hn, hr⟩

/-- An accepted registration is in the table or was taken out. -/
theorem Sound.waits_or_removed (h : Sound s) {r : Registration} (hr : r ∈ s.accepted) :
    s.Waits r ∨ r.owner ∈ s.removed := by
  have hmem : r.owner ∈ s.desk.table.entries.map owner ++ s.removed :=
    h.owners.mem_iff.mpr (List.mem_map_of_mem hr)
  rw [h.waits_iff]
  exact List.mem_append.mp hmem

theorem Sound.not_waits_of_removed (h : Sound s) {r : Registration} (hr : r.owner ∈ s.removed) :
    ¬ s.Waits r := by
  rw [h.waits_iff]
  intro hwaits
  exact (List.nodup_append.mp h.owners_nodup).2.2 _ hwaits _ hr rfl

/-- What is listed at two places of a list is listed twice. -/
theorem place_unique {α β : Type} {l : List α} {f : α → List β} (h : (l.flatMap f).Nodup)
    {n m : Nat} {a b : α} (hn : l[n]? = some a) (hm : l[m]? = some b) {x : β} (ha : x ∈ f a)
    (hb : x ∈ f b) : m = n := by
  have hpair := (List.nodup_flatMap.mp h).2
  rw [List.pairwise_iff_getElem] at hpair
  obtain ⟨hnlt, rfl⟩ := List.getElem?_eq_some_iff.mp hn
  obtain ⟨hmlt, rfl⟩ := List.getElem?_eq_some_iff.mp hm
  rcases Nat.lt_trichotomy m n with hlt | heq | hgt
  · exact absurd ha (hpair m n hmlt hnlt hlt hb)
  · exact heq
  · exact absurd hb (hpair n m hnlt hmlt hgt ha)

/-- Two calls never take the same entry out. -/
theorem Sound.removes_unique (h : Sound s) {r : Registration} {n m : Nat} {c c' : Call}
    (hn : s.calls[n]? = some c) (hm : s.calls[m]? = some c') (hc : c.Removes r)
    (hc' : c'.Removes r) : m = n :=
  place_unique (List.nodup_append.mp h.owners_nodup).2.1 hn hm hc hc'

/-- What took an entry out was of a kind to do so. -/
theorem Sound.fits_of_removes (h : Sound s) {r : Registration} {cause : Cause}
    {removed : List (Identity × Pending)} {tasks : List Task} {verdict : Verdict}
    (hc : .ending cause removed tasks verdict ∈ s.calls) (hr : r.owner ∈ removed.map owner) :
    cause.Fits r.id := by
  obtain ⟨e, he, howner⟩ := List.mem_map.mp hr
  have hid : e.1 = r.id := congrArg Prod.snd howner
  rw [← hid]
  exact (h.calls _ hc).1 e he

theorem Sound.owner_mem_accepted (h : Sound s) {x : Ticket × Identity} (hx : x ∈ s.removed) :
    ∃ r ∈ s.accepted, r.owner = x := by
  have hmem := h.owners.mem_iff.mp (List.mem_append_right _ hx)
  exact List.mem_map.mp hmem

theorem tickets_decided : s.decided.map (·.1) = s.removed.map (·.1) := by
  simp only [decided, removed, List.map_flatMap]
  refine List.flatMap_congr fun c _ => ?_
  cases c <;> simp [Call.decided, Call.removed, owner]

/-- No registration is taken out twice. -/
theorem Sound.removed_nodup (h : Sound s) : (s.removed.map (·.1)).Nodup := by
  refine List.Nodup.map_on ?_ (List.nodup_append.mp h.owners_nodup).2.1
  intro x hx y hy hxy
  obtain ⟨r, hr, rfl⟩ := h.owner_mem_accepted hx
  obtain ⟨r', hr', rfl⟩ := h.owner_mem_accepted hy
  rw [h.eq_of_ticket hr hr' hxy]

/-- No registration has two outcomes. -/
theorem Sound.outcomes_nodup (h : Sound s) :
    ((s.desk.outcomes ++ s.untold).map (·.1)).Nodup := by
  refine (h.outcomes.map (·.1)).nodup_iff.mpr ?_
  rw [tickets_decided]
  exact h.removed_nodup

/-- Nobody is told while it waits. -/
theorem Sound.outcomesOf_of_waits (h : Sound s) {r : Registration} (hr : r ∈ s.accepted)
    (hwaits : s.Waits r) : s.outcomesOf r = [] := by
  refine List.map_eq_nil_iff.mpr (List.filter_eq_nil_iff.mpr fun x hx => ?_)
  have hticket : x.1 ∈ s.removed.map (·.1) := by
    rw [← tickets_decided]
    exact List.mem_map_of_mem (h.outcomes.mem_iff.mp hx)
  obtain ⟨y, hy, hxy⟩ := List.mem_map.mp hticket
  obtain ⟨r', hr', rfl⟩ := h.owner_mem_accepted hy
  intro heq
  have hsame : r' = r := h.eq_of_ticket hr' hr (hxy.trans (of_decide_eq_true heq))
  exact h.not_waits_of_removed (hsame ▸ hy) hwaits

theorem filter_eq_singleton {α β : Type} [DecidableEq α] {l : List (α × β)}
    (h : (l.map (·.1)).Nodup) {a : α} {b : β} (hmem : (a, b) ∈ l) :
    l.filter (·.1 = a) = [(a, b)] := by
  have hne (e : α × β) (he : e ∈ l) (ha : e.1 = a) : e = (a, b) :=
    List.inj_on_of_nodup_map h he hmem ha
  have hnodup : (l.filter (·.1 = a)).Nodup := (List.Nodup.of_map _ h).filter _
  have hsame := List.perm_ext_iff_of_nodup hnodup (List.nodup_singleton (a, b))
  refine List.perm_singleton.mp (hsame.mpr ?_)
  intro e
  rw [List.mem_filter, List.mem_singleton, decide_eq_true_eq]
  constructor
  · rintro ⟨he, ha⟩
    exact hne e he ha
  · rintro rfl
    exact ⟨hmem, rfl⟩

/-- A call that took the entry of a registration out decided what its caller hears. -/
theorem mem_decided {r : Registration} {n : Nat} {cause : Cause}
    {removed : List (Identity × Pending)} {tasks : List Task} {verdict : Verdict}
    (hn : s.calls[n]? = some (.ending cause removed tasks verdict))
    (hr : r.owner ∈ removed.map owner) : (r.ticket, cause.outcome) ∈ s.decided := by
  obtain ⟨e, he, howner⟩ := List.mem_map.mp hr
  refine List.mem_flatMap.mpr ⟨_, List.mem_of_getElem? hn, List.mem_map.mpr ⟨e, he, ?_⟩⟩
  rw [show e.2.ticket = r.ticket from congrArg Prod.fst howner]

/-- The call that took the entry out decided the outcome, and there is no other. -/
theorem Sound.outcomesOf_of_removes (h : Sound s) {r : Registration} {n : Nat} {cause : Cause}
    {removed : List (Identity × Pending)} {tasks : List Task} {verdict : Verdict}
    (hn : s.calls[n]? = some (.ending cause removed tasks verdict))
    (hr : r.owner ∈ removed.map owner) : s.outcomesOf r = [cause.outcome] := by
  have hmem := h.outcomes.mem_iff.mpr (mem_decided hn hr)
  rw [outcomesOf, filter_eq_singleton h.outcomes_nodup hmem]
  rfl

/-- Whoever was told anything was told it by the call that took the entry out. -/
theorem Sound.cause_of_told (h : Sound s) {r : Registration} (hr : r ∈ s.accepted)
    {outcome : Except QueryError Packet} (htold : (r.ticket, outcome) ∈ s.desk.outcomes) :
    ∃ (n : Nat) (cause : Cause) (removed : List (Identity × Pending)) (tasks : List Task)
      (verdict : Verdict), s.calls[n]? = some (.ending cause removed tasks verdict) ∧
      r.owner ∈ removed.map owner ∧ cause.outcome = outcome := by
  have hdecided := h.outcomes.mem_iff.mp (List.mem_append_left _ htold)
  obtain ⟨c, hc, hmem⟩ := List.mem_flatMap.mp hdecided
  obtain ⟨n, hn⟩ := List.mem_iff_getElem?.mp hc
  cases c with
  | ending cause removed tasks verdict =>
    obtain ⟨e, he, heq⟩ := List.mem_map.mp hmem
    have howner : owner e ∈ s.removed := List.mem_flatMap.mpr ⟨_, hc, List.mem_map_of_mem he⟩
    obtain ⟨r', hr', hre⟩ := h.owner_mem_accepted howner
    have hsame : r' = r := by
      refine h.eq_of_ticket hr' hr ?_
      exact (congrArg Prod.fst hre).trans (congrArg Prod.fst heq)
    have hremoved : r.owner ∈ removed.map owner := List.mem_map.mpr ⟨e, he, hsame ▸ hre.symm⟩
    exact ⟨n, cause, removed, tasks, verdict, hn, hremoved, congrArg Prod.snd heq⟩
  | entered r' | armed r' | registered r' | refused id e => exact absurd hmem List.not_mem_nil

theorem Call.advance_ending {next : Call} {d desk : Desk} {now : Nat} {cause : Cause}
    {removed : List (Identity × Pending)} {tasks : List Task} {verdict : Verdict}
    (h : (Call.ending cause removed tasks verdict).advance d now = some (desk, next)) :
    ∃ tasks', next = .ending cause removed tasks' verdict := by
  rcases Call.advance_cases h with ⟨r, hc, -⟩ | ⟨r, hc, -⟩ | ⟨_, _, _, rest, _, hc, -, rfl⟩
  · cases hc
  · cases hc
  · cases hc
    exact ⟨rest, rfl⟩

/-- A call keeps what it took out and what it returns. -/
theorem Move.ending {s' : Traffic} (hmove : Move s s') {n : Nat} {cause : Cause}
    {removed : List (Identity × Pending)} {verdict : Verdict}
    (h : ∃ tasks, s.calls[n]? = some (.ending cause removed tasks verdict)) :
    ∃ tasks, s'.calls[n]? = some (.ending cause removed tasks verdict) := by
  obtain ⟨tasks, hn⟩ := h
  have hlt : n < s.calls.length := (List.getElem?_eq_some_iff.mp hn).1
  rcases hmove.calls_cases with ⟨c, hcalls, -⟩ | ⟨m, c, desk, next, hm, hnext, hcalls⟩ | hcalls
  · refine ⟨tasks, ?_⟩
    rw [hcalls, List.getElem?_append_left hlt]
    exact hn
  · rw [hcalls]
    by_cases hmn : m = n
    · subst hmn
      rw [hm, Option.some.injEq] at hn
      subst hn
      obtain ⟨tasks', hnext'⟩ := Call.advance_ending hnext
      exact ⟨tasks', by rw [List.getElem?_set_self hlt, hnext']⟩
    · exact ⟨tasks, by rw [List.getElem?_set_ne hmn, hn]⟩
  · exact ⟨tasks, by rw [hcalls, hn]⟩

/-- By the books a registration waits or was taken out by one call, and not both. -/
theorem Sound.undecided_or_decided (h : Sound s) {r : Registration} (hr : r ∈ s.accepted) :
    Xor (s.Undecided r) (s.DecidedOnce r) := by
  by_cases hremoved : r.owner ∈ s.removed
  · have hwaits := h.not_waits_of_removed hremoved
    obtain ⟨n, cause, removed, tasks, verdict, hn, hc⟩ := mem_removed.mp hremoved
    refine .inr ⟨⟨hwaits, n, cause, removed, tasks, verdict, hn, hc, ?_,
      h.fits_of_removes (List.mem_of_getElem? hn) hc, h.outcomesOf_of_removes hn hc⟩,
      fun hun => hwaits hun.1⟩
    intro m c' hm hc'
    exact h.removes_unique hn hm hc hc'
  · have hwaits := (h.waits_or_removed hr).resolve_right hremoved
    refine .inl ⟨⟨hwaits, fun c hc hremoves => ?_, h.outcomesOf_of_waits hr hwaits⟩,
      fun hdecided => hdecided.1 hwaits⟩
    exact hremoved (List.mem_flatMap.mpr ⟨c, hc, hremoves⟩)

theorem Sound.opens_take (h : Sound s) {cause : Cause} (hcause : cause ≠ .cancelAll)
    (id : Identity) : s.Opens (s.take cause id) cause := by
  cases hfind : s.desk.table.find? id with
  | none =>
    rw [take_of_find?_none hfind, Cause.verdict_false hcause]
    exact ⟨[], [], rfl, .refl _⟩
  | some p =>
    rw [take_of_find?_some hfind, Cause.verdict_true hcause (id, p)]
    exact ⟨[(id, p)], cause.tasks p, rfl, QueryTable.perm_remove h.distinct hfind⟩

theorem Sound.opens_complete (h : Sound s) {p : Packet} {s' : Traffic}
    (hstep : s.step (.complete p) = some s') : s.Opens s' (.response p) := by
  cases hid : p.id with
  | none =>
    simp only [step, hid] at hstep
    cases hstep
    exact ⟨[], [], rfl, .refl _⟩
  | some id =>
    simp only [step, hid] at hstep
    cases hstep
    exact h.opens_take (by simp) id

theorem Sound.opens_cancel (h : Sound s) {id : Identity} {s' : Traffic}
    (hstep : s.step (.cancel id) = some s') : s.Opens s' (.cancel id) := by
  cases hstep
  exact h.opens_take (by simp) id

theorem opens_cancelAll {order : List (Identity × Pending)} {s' : Traffic}
    (hstep : s.step (.cancelAll order) = some s') : s.Opens s' .cancelAll := by
  simp only [step] at hstep
  split at hstep
  · rename_i horder
    cases hstep
    refine ⟨order, _, rfl, ?_⟩
    simpa [close, QueryTable.close] using horder.symm
  · cases hstep

/-- Once the table was closed it is empty and stays closed. -/
theorem closed_of_cancelAll {es : List Event} (h : run {} es = some s)
    {order : List (Identity × Pending)} (horder : .cancelAll order ∈ es) :
    s.desk.table = { entries := [], closed := true } := by
  have hsound := sound_run h
  obtain ⟨before, after, rfl⟩ := List.append_of_mem horder
  rw [run_append] at h
  obtain ⟨mid, -, hrest⟩ := Option.bind_eq_some_iff.mp h
  obtain ⟨next, hstep, hafter⟩ := Option.bind_eq_some_iff.mp hrest
  have hnext : next.desk.table.closed = true := by
    simp only [step] at hstep
    split at hstep
    · cases hstep
      rfl
    · cases hstep
  have hclosed : s.desk.table.closed = true :=
    run_induction (fun _ _ hmove hs => hmove.closed hs) hafter hnext
  have hempty := hsound.closed hclosed
  calc s.desk.table
    _ = ⟨s.desk.table.entries, s.desk.table.closed⟩ := rfl
    _ = ⟨[], true⟩ := by rw [hempty, hclosed]

/-- An alarm that expires takes the entry that its id has now. -/
theorem Sound.opens_expire (h : Sound s) {k : Ticket} {s' : Traffic}
    (hstep : s.step (.expire k) = some s') :
    ∃ a ∈ s.desk.alarms, a.ticket = k ∧ a.ringing = true ∧ s.Opens s' (.expiry a) := by
  obtain ⟨a, ha, rfl⟩ := Option.map_eq_some_iff.mp hstep
  have hkey := List.find?_some ha
  simp only [decide_eq_true_eq] at hkey
  have hdismiss : Sound (s.dismiss k) := h.of_alarms _ _
  exact ⟨a, List.mem_of_find?_eq_some ha, hkey.1, hkey.2, hdismiss.opens_take (by simp) a.id⟩

/-- A registration is accepted and waits, or it is refused and nothing changes. -/
theorem Sound.step_register (h : Sound s) (id : Identity) (timeout : Nat) :
    (∃ r s', s.step (.register id timeout) = some s' ∧ r.id = id ∧ r.timeout = timeout ∧
      s'.calls = s.calls ++ [.entered r] ∧ s'.Waits r) ∨
    (∃ e s', s.step (.register id timeout) = some s' ∧ s'.calls = s.calls ++ [.refused id e] ∧
      s'.desk = s.desk ∧ (e = .closed ∧ s.desk.table.closed = true ∨
        e = .duplicate id ∧ s.desk.isPending id = true)) := by
  by_cases hclosed : s.desk.table.closed = true
  · exact .inr ⟨.closed, _, step_register_closed hclosed id timeout, rfl, rfl, .inl ⟨rfl, hclosed⟩⟩
  · have hopen : s.desk.table.closed = false := by simpa using hclosed
    cases hfind : s.desk.table.find? id with
    | some p =>
      have hpending : s.desk.isPending id = true := by
        simp [Desk.isPending, QueryTable.isPending, hfind]
      exact .inr ⟨.duplicate id, _, step_register_duplicate hopen hpending timeout, rfl, rfl,
        .inr ⟨rfl, hpending⟩⟩
    | none =>
      refine .inl ⟨⟨s.desk.nextTicket, id, timeout⟩, s.enter id timeout,
        step_register_free hopen hfind timeout, rfl, rfl, rfl, ?_⟩
      have hdistinct := (h.enter hopen hfind timeout).distinct
      refine ⟨{ ticket := s.desk.nextTicket, deadline := s.now + timeout },
        QueryTable.find?_of_mem hdistinct ?_, rfl⟩
      exact List.mem_append_right _ (List.mem_singleton_self _)

/-- Whatever the order in which any number of calls and alarms move on one desk: no two
entries have the same id; an accepted registration either waits undecided or was decided
once; what a call returns counts the entries that it took out, and stays; once all
queries were cancelled the table is empty and refuses every registration for ever; and a
refused registration changes nothing. -/
theorem settled_once (es : List Event) (h : run {} es = some s) :
    (s.desk.table.entries.map (·.1)).Nodup ∧
    (∀ r ∈ s.accepted, Xor (s.Undecided r) (s.DecidedOnce r)) ∧
    ((∀ p s', s.step (.complete p) = some s' → s.Opens s' (.response p)) ∧
      (∀ id s', s.step (.cancel id) = some s' → s.Opens s' (.cancel id)) ∧
      (∀ order s', s.step (.cancelAll order) = some s' → s.Opens s' .cancelAll) ∧
      (∀ k s', s.step (.expire k) = some s' →
        ∃ a ∈ s.desk.alarms, a.ticket = k ∧ a.ringing = true ∧ s.Opens s' (.expiry a)) ∧
      ∀ (n : Nat) cause removed tasks verdict,
        s.calls[n]? = some (.ending cause removed tasks verdict) →
        verdict = cause.tally removed ∧ ∀ fs s', s.run fs = some s' →
          ∃ tasks', s'.calls[n]? = some (.ending cause removed tasks' verdict)) ∧
    (∀ order, .cancelAll order ∈ es → s.desk.table = { entries := [], closed := true } ∧
      ∀ id timeout, s.step (.register id timeout) = some (s.opened (.refused id .closed))) ∧
    (∀ id timeout,
      (∃ r s', s.step (.register id timeout) = some s' ∧ r.id = id ∧ r.timeout = timeout ∧
        s'.calls = s.calls ++ [.entered r] ∧ s'.Waits r) ∨
      (∃ e s', s.step (.register id timeout) = some s' ∧ s'.calls = s.calls ++ [.refused id e] ∧
        s'.desk = s.desk ∧ (e = .closed ∧ s.desk.table.closed = true ∨
          e = .duplicate id ∧ s.desk.isPending id = true))) := by
  have hs := sound_run h
  refine ⟨hs.distinct, fun r hr => hs.undecided_or_decided hr, ⟨?_, ?_, ?_, ?_, ?_⟩, ?_,
    hs.step_register⟩
  · exact fun p s' hstep => hs.opens_complete hstep
  · exact fun id s' hstep => hs.opens_cancel hstep
  · exact fun order s' hstep => opens_cancelAll hstep
  · exact fun k s' hstep => hs.opens_expire hstep
  · intro n cause removed tasks verdict hn
    refine ⟨(hs.calls _ (List.mem_of_getElem? hn)).2.2, fun fs s' hrun => ?_⟩
    exact run_induction (fun _ _ hmove hended => hmove.ending hended) hrun ⟨tasks, hn⟩
  · intro order horder
    have htable := closed_of_cancelAll h horder
    exact ⟨htable, step_register_closed (by rw [htable])⟩

/-- A response, an alarm that rings already and a close race for one id, which is registered
again in between. -/
def race : List Event :=
  [.register ⟨0, 7⟩ 100, .proceed 0, .proceed 0, .elapse 100, .ring 0,
    .complete { channel := -1, id := some ⟨0, 7⟩ }, .register ⟨0, 7⟩ 300, .expire 0,
    .proceed 1, .proceed 1, .cancelAll []]

theorem race_settled_once : ∃ s, run {} race = some s ∧ s.accepted.length = 2 ∧
    ∀ r ∈ s.accepted, Xor (s.Undecided r) (s.DecidedOnce r) :=
  ⟨_, rfl, rfl, (settled_once race rfl).2.1⟩

end Switchboard.Traffic
