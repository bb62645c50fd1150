import Switchboard.Proofs.Query.Alarms
import Switchboard.Proofs.Query.Debts

/-!
# A query that waits has its alarm

The last step of a registration attaches its alarm to whatever entry its id has by then, so
an entry may hold the alarm of another registration, and whoever settles the one query turns
the alarm of the other off. That is harmless: a registration finds an entry under its id that
is not its own only once its own was taken out (`Spent`), and then it never waits again. So
the alarm of a query that waits stays on its way, and when it expires it takes out that query.
-/

namespace Switchboard.Traffic

open QueryTable (owner)

/-- The alarm of the registration was started, and it was neither turned off nor has it
expired. -/
def Watched (s : Traffic) (r : Registration) : Prop := ∃ a ∈ s.desk.alarms, r.Owns a

def Spent (s : Traffic) (alarm : Ticket) : Prop := ∃ id, (alarm, id) ∈ s.removed

/-- Every entry that was ever in the table, as it is or as it was when it was taken out. -/
def entriesEver (s : Traffic) : List (Identity × Pending) :=
  s.desk.table.entries ++ s.calls.flatMap Call.removed

/-- By its alarm the registration lost its entry, and its caller is to hear of its timeout. -/
def Expires (s s' : Traffic) (r : Registration) (e : Identity × Pending) : Prop :=
  s'.desk.isPending e.1 = false ∧ ∃ a, r.Owns a ∧ s'.calls = s.calls ++
    [.ending (.expiry a) [e] [.tell e.2 (.error (.timeout r.timeout))] .nothing]

variable {s s' : Traffic}

theorem Move.spent (h : Move s s') {k : Ticket} (hk : s.Spent k) : s'.Spent k := by
  obtain ⟨id, hmem⟩ := hk
  exact ⟨id, h.removed (r := ⟨k, id, 0⟩) hmem⟩

/-- A registration whose entry was taken out does not wait. -/
theorem Sound.not_waits_of_spent (hs : Sound s) {r : Registration} (hr : r ∈ s.accepted)
    (hspent : s.Spent r.ticket) : ¬ s.Waits r := by
  obtain ⟨id, hmem⟩ := hspent
  obtain ⟨r', hr', howner⟩ := hs.owner_mem_accepted hmem
  have hsame : r' = r := hs.eq_of_ticket hr' hr (congrArg Prod.fst howner)
  rw [← howner, hsame] at hmem
  exact hs.not_waits_of_removed hmem

/-- A registration that is not the owner of the entry under its id is spent. -/
theorem Sound.spent_of_entry (hs : Sound s) {r : Registration} (hr : r ∈ s.accepted)
    {e : Identity × Pending} (he : e ∈ s.desk.table.entries) (hid : e.1 = r.id)
    (hticket : e.2.ticket ≠ r.ticket) : s.Spent r.ticket := by
  cases hs.waits_or_removed hr with
  | inl hwaits =>
    obtain ⟨p, hfind, hp⟩ := hwaits
    have hsame := QueryTable.find?_of_mem hs.distinct he
    rw [hid, hfind, Option.some.injEq] at hsame
    exact absurd (hsame ▸ hp) hticket
  | inr hremoved => exact ⟨r.id, hremoved⟩

theorem Call.advance_removed {c next : Call} {d desk : Desk} {now : Nat}
    (h : c.advance d now = some (desk, next)) : next.removed = c.removed := by
  obtain ⟨r, rfl, -, rfl⟩ | ⟨r, rfl, -, rfl⟩ | ⟨_, _, _, _, _, rfl, -, rfl⟩ := c.advance_cases h
  all_goals rfl

/-- Taking entries out brings no new ones. -/
theorem mem_entriesEver_take {cause : Cause} {id : Identity} {e : Identity × Pending}
    (he : e ∈ (s.take cause id).entriesEver) : e ∈ s.entriesEver := by
  cases hfind : s.desk.table.find? id with
  | none =>
    rw [take_of_find?_none hfind] at he
    simpa [entriesEver, opened, Call.removed] using he
  | some p =>
    rw [take_of_find?_some hfind] at he
    simp only [entriesEver, QueryTable.remove, List.flatMap_append, List.flatMap_singleton,
      Call.removed, List.mem_append, List.mem_filter, List.mem_singleton] at he ⊢
    obtain ⟨hkept, -⟩ | hbefore | rfl := he
    · exact .inl hkept
    · exact .inr hbefore
    · exact .inl (QueryTable.mem_of_find? hfind)

/-- An entry comes in without an alarm, and gets one only from a registration of its id. -/
theorem Move.entriesEver (h : Move s s') {e : Identity × Pending} (he : e ∈ s'.entriesEver) :
    e ∈ s.entriesEver ∨ e.2.alarm = none ∨
      ∃ r ∈ s.accepted, e ∈ s'.desk.table.entries ∧ e.1 = r.id ∧ e.2.alarm = some r.ticket := by
  cases h with
  | enter timeout hopen hfree =>
    simp only [Traffic.entriesEver, Traffic.enter, QueryTable.push, List.flatMap_append,
      Call.removed, List.flatMap_singleton, List.append_nil, List.mem_append,
      List.mem_singleton] at he ⊢
    obtain (hold | rfl) | hbefore := he
    · exact .inl (.inl hold)
    · exact .inr (.inl rfl)
    · exact .inl (.inr hbefore)
  | refuse | pass => exact .inl (by simpa [Traffic.entriesEver, opened, Call.removed] using he)
  | complete hp => exact .inl (mem_entriesEver_take he)
  | cancel id => exact .inl (mem_entriesEver_take he)
  | close horder =>
    simp only [Traffic.entriesEver, Traffic.close, QueryTable.close, List.flatMap_append,
      Call.removed, List.flatMap_singleton, List.nil_append, List.mem_append] at he ⊢
    exact .inl (he.symm.imp_left horder.mem_iff.mp)
  | proceed hc hnext =>
    simp only [Traffic.entriesEver, flatMap_set hc (Call.advance_removed hnext),
      List.mem_append] at he ⊢
    obtain ⟨r, rfl, rfl, -⟩ | ⟨r, rfl, rfl, -⟩ | ⟨_, _, task, _, _, rfl, rfl, -⟩ :=
      Call.advance_cases hnext
    · exact .inl he
    · cases he with
      | inr hbefore => exact .inl (.inr hbefore)
      | inl hnow =>
        obtain ⟨e₀, he₀, rfl⟩ := List.mem_map.mp hnow
        by_cases hid : e₀.1 = r.id
        · have hr : r ∈ s.accepted :=
            List.mem_flatMap.mpr ⟨_, List.mem_of_getElem? hc, List.mem_singleton_self r⟩
          refine .inr (.inr ⟨r, hr, hnow, ?_, ?_⟩)
          · simp [hid]
          · simp [hid]
        · exact .inl (.inl (by simpa [hid] using he₀))
    · cases task <;> exact .inl he
  | elapse millis => exact .inl he
  | ring ha hdue => exact .inl he
  | @expire a ha hringing => exact .inl (mem_entriesEver_take (s := s.dismiss a.ticket) he)

theorem Cause.alarm_of_silence {cause : Cause} {p : Pending} {k : Ticket}
    (h : .silence k ∈ cause.tasks p) : p.alarm = some k := by
  cases cause with
  | expiry a => simp [tasks] at h
  | response q | cancel id | cancelAll => cases hp : p.alarm <;> simp_all [tasks]

/-- An alarm goes on, unless a call turns it off or it expires. -/
theorem Move.watched (h : Move s s') {r : Registration} (hr : s.Watched r) :
    s'.Watched r ∨
    (∃ cause removed tasks verdict,
      .ending cause removed (.silence r.ticket :: tasks) verdict ∈ s.calls) ∨
    ∃ a ∈ s.desk.alarms, a.ticket = r.ticket ∧ s' = (s.dismiss a.ticket).take (.expiry a) a.id := by
  obtain ⟨a, ha, howns⟩ := hr
  cases h with
  | enter | refuse | pass | close | elapse => exact .inl ⟨a, ha, howns⟩
  | complete hp | cancel id => exact .inl ⟨a, by rwa [alarms_take], howns⟩
  | proceed hc hnext =>
    obtain ⟨r', -, rfl, -⟩ | ⟨r', -, rfl, -⟩ | ⟨_, _, task, _, _, rfl, rfl, -⟩ :=
      Call.advance_cases hnext
    · exact .inl ⟨a, List.mem_append_left _ ha, howns⟩
    · exact .inl ⟨a, ha, howns⟩
    · cases task with
      | tell p outcome => exact .inl ⟨a, ha, howns⟩
      | silence k =>
        by_cases hk : k = r.ticket
        · subst hk
          exact .inr (.inl ⟨_, _, _, _, List.mem_of_getElem? hc⟩)
        · have hkept : (a.ringing || decide (a.ticket ≠ k)) = true := by
            simp [howns.1, Ne.symm hk]
          exact .inl ⟨a, List.mem_filter.mpr ⟨ha, hkept⟩, howns⟩
  | @ring b hb hdue =>
    refine .inl ⟨_, List.mem_map_of_mem ha, ?_⟩
    split
    · exact howns
    · exact howns
  | @expire b hb hringing =>
    by_cases hticket : b.ticket = r.ticket
    · exact .inr (.inr ⟨b, hb, hticket, rfl⟩)
    · refine .inl ⟨a, ?_, howns⟩
      rw [alarms_take]
      exact List.mem_filter.mpr ⟨ha, by simp [howns.1, Ne.symm hticket]⟩

/-- A registration that is about to start its alarm stays so, or starts it. -/
theorem Move.starts (h : Move s s') {r : Registration} (hr : .entered r ∈ s.calls) :
    .entered r ∈ s'.calls ∨ s'.Watched r := by
  cases h with
  | enter | refuse | pass | close => exact .inl (List.mem_append_left _ hr)
  | complete hp | cancel id =>
    obtain ⟨_, _, _, hcalls⟩ := s.calls_take _ _
    exact .inl (hcalls ▸ List.mem_append_left _ hr)
  | @proceed n c next desk hc hnext =>
    by_cases hstarts : c = .entered r
    · subst hstarts
      cases hnext
      exact .inr ⟨_, List.mem_append_right _ (List.mem_singleton_self _), rfl, rfl, rfl⟩
    · obtain ⟨m, hm⟩ := List.mem_iff_getElem?.mp hr
      have hne : n ≠ m := by
        rintro rfl
        exact hstarts (Option.some.inj (hc.symm.trans hm))
      exact .inl (List.mem_of_getElem? (by rw [List.getElem?_set_ne hne, hm]))
  | elapse | ring => exact .inl hr
  | @expire a ha hringing =>
    obtain ⟨_, _, _, hcalls⟩ := (s.dismiss a.ticket).calls_take (.expiry a) a.id
    exact .inl (hcalls ▸ List.mem_append_left _ hr)

/-- A registration starts its alarm once. -/
theorem Sound.entered_unique (hs : Sound s) {r : Registration} {n : Nat}
    (hn : s.calls[n]? = some (.entered r)) : .entered r ∉ s.calls.set n (.armed r) := by
  intro hmem
  obtain ⟨m, hm⟩ := List.mem_iff_getElem?.mp hmem
  by_cases hnm : n = m
  · subst hnm
    rw [List.getElem?_set_self (List.getElem?_eq_some_iff.mp hn).1] at hm
    cases hm
  · rw [List.getElem?_set_ne hnm] at hm
    have haccepted : s.accepted.Nodup := .of_map _ hs.tickets
    exact hnm (place_unique haccepted hn hm (List.mem_singleton_self r)
      (List.mem_singleton_self r)).symm

def Unstarted (s : Traffic) : Prop :=
  ∀ r, .entered r ∈ s.calls → ∀ a ∈ s.desk.alarms, a.ticket ≠ r.ticket

theorem Unstarted.of_calls {s' : Traffic} (h : s.Unstarted)
    (hcalls : ∀ r, .entered r ∈ s'.calls → .entered r ∈ s.calls)
    (halarms : ∀ a ∈ s'.desk.alarms, ∃ b ∈ s.desk.alarms, b.ticket = a.ticket) :
    s'.Unstarted := by
  intro r hr a ha
  obtain ⟨b, hb, hticket⟩ := halarms a ha
  exact hticket ▸ h r (hcalls r hr) b hb

theorem Unstarted.take (h : s.Unstarted) (cause : Cause) (id : Identity) :
    (s.take cause id).Unstarted := by
  obtain ⟨_, _, _, hcalls⟩ := s.calls_take cause id
  refine h.of_calls (fun r hr => ?_) (fun a ha => ⟨a, by rwa [alarms_take] at ha, rfl⟩)
  simpa [hcalls] using hr

/-- An alarm is not on its way before the registration that it belongs to starts it. -/
theorem Unstarted.move (h : s.Unstarted) (hs : Sound s) (howned : s.Owned) (hmove : Move s s') :
    s'.Unstarted := by
  cases hmove with
  | @enter id timeout hopen hfree =>
    intro r hr a ha
    cases List.mem_append.mp hr with
    | inl hold => exact h r hold a ha
    | inr hnew =>
      have hlt := hs.fresh _ (howned _ (arms_of_alarm ha))
      cases List.mem_singleton.mp hnew
      exact Nat.ne_of_lt hlt
  | refuse | pass | close =>
    refine h.of_calls (fun r hr => ?_) fun a ha => ⟨a, ha, rfl⟩
    exact (List.mem_append.mp hr).resolve_right (by simp)
  | complete | cancel => exact h.take _ _
  | @proceed n c next desk hc hnext =>
    have hcalls (r : Registration) (hr : .entered r ∈ s.calls.set n next) :
        .entered r ∈ s.calls :=
      (List.mem_or_eq_of_mem_set hr).resolve_right fun heq =>
        Call.advance_ne_entered hnext r heq.symm
    intro r hr a ha
    cases Call.alarms_advance hnext ha with
    | inl hold => exact h r (hcalls r hr) a hold
    | inr hnew =>
      obtain ⟨r', rfl, howns⟩ := hnew
      intro hticket
      have hr' : r' ∈ s.accepted := accepted_of_entered (List.mem_of_getElem? hc)
      have hsame : r' = r := hs.eq_of_ticket hr' (accepted_of_entered (hcalls r hr))
        (howns.1.symm.trans hticket)
      subst hsame
      cases hnext
      exact hs.entered_unique hc hr
  | elapse => exact h
  | ring =>
    refine h.of_calls (fun r hr => hr) fun a ha => ?_
    obtain ⟨b, hb, rfl⟩ := List.mem_map.mp ha
    exact ⟨b, hb, by split <;> rfl⟩
  | @expire a ha hringing =>
    refine Unstarted.take ?_ _ _
    exact h.of_calls (fun r hr => hr) fun b hb => ⟨b, (List.mem_filter.mp hb).1, rfl⟩

/-- Who waits has its alarm, and no entry holds the alarm of another registration that may
still wait. -/
structure Guarded (s : Traffic) : Prop where
  waiting : ∀ r ∈ s.accepted, s.Waits r → .entered r ∈ s.calls ∨ s.Watched r
  attached : ∀ e ∈ s.entriesEver, ∀ k, e.2.alarm = some k → e.2.ticket = k ∨ s.Spent k
  unstarted : s.Unstarted

/-- An alarm is attached to the entry of its id, which is another's only if its own was taken out.
-/
theorem Guarded.attached_move (h : s.Guarded) (hs' : Sound s') (hmove : Move s s')
    {e : Identity × Pending} (he : e ∈ s'.entriesEver) {k : Ticket} (hk : e.2.alarm = some k) :
    e.2.ticket = k ∨ s'.Spent k := by
  obtain hold | hnone | ⟨r, hr, hentry, hid, hattached⟩ := hmove.entriesEver he
  · exact (h.attached e hold k hk).imp_right hmove.spent
  · rw [hk] at hnone
    cases hnone
  · rw [hk, Option.some.injEq] at hattached
    subst hattached
    by_cases hticket : e.2.ticket = r.ticket
    · exact .inl hticket
    · exact .inr (hs'.spent_of_entry (hmove.accepted hr) hentry hid hticket)

/-- An alarm that a call is about to turn off belongs to a registration that lost its entry. -/
theorem Guarded.spent_of_silence (h : s.Guarded) (howes : s.Owes) {cause : Cause}
    {removed : List (Identity × Pending)} {k : Ticket} {tasks : List Task} {verdict : Verdict}
    (hc : .ending cause removed (.silence k :: tasks) verdict ∈ s.calls) : s.Spent k := by
  have htask := (howes _ hc).subset List.mem_cons_self
  obtain ⟨e, he, hdue⟩ := List.mem_flatMap.mp htask
  have hk : e.2.alarm = some k := Cause.alarm_of_silence hdue
  have hmem : e ∈ s.calls.flatMap Call.removed := List.mem_flatMap.mpr ⟨_, hc, he⟩
  cases h.attached e (List.mem_append_right _ hmem) k hk with
  | inr hspent => exact hspent
  | inl hticket =>
    refine ⟨e.1, List.mem_flatMap.mpr ⟨_, hc, List.mem_map.mpr ⟨e, he, ?_⟩⟩⟩
    rw [owner, hticket]

/-- Who waits keeps its alarm until it does not wait any more. -/
theorem Guarded.waiting_move (h : s.Guarded) (hs : Sound s) (howned : s.Owned) (howes : s.Owes)
    (hmove : Move s s') {r : Registration} (hr : r ∈ s.accepted) (hwaits : s'.Waits r) :
    .entered r ∈ s'.calls ∨ s'.Watched r := by
  have hs' := hs.move hmove
  have hbefore : s.Waits r := by
    refine (hs.waits_or_removed hr).resolve_right fun hremoved => ?_
    exact hs'.not_waits_of_removed (hmove.removed hremoved) hwaits
  cases h.waiting r hr hbefore with
  | inl hentered => exact hmove.starts hentered
  | inr hwatched =>
    obtain hgoes | ⟨cause, removed, tasks, verdict, hc⟩ | ⟨a, ha, hticket, rfl⟩ :=
      hmove.watched hwatched
    · exact .inr hgoes
    · exact absurd hbefore (hs.not_waits_of_spent hr (h.spent_of_silence howes hc))
    · -- Its own alarm expires, and takes the entry out that still waited.
      obtain rfl := hs.eq_of_ticket (howned _ (arms_of_alarm ha)) hr hticket
      obtain ⟨p, hfind, -⟩ := hwaits
      have hgone := isPending_take (s.dismiss a.ticket) (.expiry a) a.id
      rw [Desk.isPending, QueryTable.isPending, Option.isSome_eq_false_iff,
        Option.isNone_iff_eq_none] at hgone
      cases hfind.symm.trans hgone

/-- A registration that is accepted in this step has its entry in the table and its alarm
still to start. -/
theorem Move.entered_of_new (h : Move s s') {r : Registration} (hr : r ∈ s'.accepted)
    (hnew : r ∉ s.accepted) : .entered r ∈ s'.calls := by
  obtain ⟨c, hc, haccepts⟩ := List.mem_flatMap.mp hr
  have hold (c₀ : Call) (hc₀ : c₀ ∈ s.calls) : r ∉ c₀.accepted := fun hmem =>
    hnew (List.mem_flatMap.mpr ⟨c₀, hc₀, hmem⟩)
  obtain hbefore | ⟨c₀, hc₀, desk, hnext⟩ | hbegins := h.mem_calls hc
  · exact absurd haccepts (hold c hbefore)
  · exact absurd (Call.advance_accepted hnext ▸ haccepts) (hold c₀ hc₀)
  · cases c with
    | entered r' => exact List.mem_singleton.mp haccepts ▸ hc
    | armed r' | registered r' => exact hbegins.elim
    | refused id e => exact absurd haccepts List.not_mem_nil
    | ending cause removed tasks verdict => exact absurd haccepts List.not_mem_nil

/-- One step keeps the watch. -/
theorem Guarded.move (h : s.Guarded) (hs : Sound s) (howned : s.Owned) (howes : s.Owes)
    (hmove : Move s s') : s'.Guarded where
  waiting r hr hwaits := by
    by_cases hold : r ∈ s.accepted
    · exact h.waiting_move hs howned howes hmove hold hwaits
    · exact .inl (hmove.entered_of_new hr hold)
  attached e he k hk := h.attached_move (hs.move hmove) hmove he hk
  unstarted := h.unstarted.move hs howned hmove

/-- So every run does. -/
theorem guarded_run {es : List Event} (h : run {} es = some s) : s.Guarded := by
  have hall : Sound s ∧ s.Owned ∧ s.Owes ∧ s.Guarded := by
    refine run_induction (P := fun t => Sound t ∧ t.Owned ∧ t.Owes ∧ t.Guarded) ?_ h ?_
    · rintro t t' hmove ⟨ht, howned, howes, hguarded⟩
      exact ⟨ht.move hmove, howned.move hmove, howes.move hmove,
        hguarded.move ht howned howes hmove⟩
    · refine ⟨sound_empty, owned_run (run_nil {}), by simp [Traffic.Owes], ⟨?_, ?_, ?_⟩⟩
      · simp [accepted]
      · simp [entriesEver]
      · simp [Unstarted]
  exact hall.2.2.2

theorem Sound.owner_of_entry (hs : Sound s) {e : Identity × Pending}
    (he : e ∈ s.desk.table.entries) : ∃ r ∈ s.accepted, r.owner = owner e ∧ s.Waits r := by
  have hmem := hs.owners.mem_iff.mp (List.mem_append_left _ (List.mem_map_of_mem he))
  obtain ⟨r, hr, howner⟩ := List.mem_map.mp hmem
  refine ⟨r, hr, howner, hs.waits_iff.mpr ?_⟩
  rw [howner]
  exact List.mem_map_of_mem he

/-- When the alarm of a query that waits expires, it finds the entry of that query. -/
theorem Sound.expires (hs : Sound s) (howned : s.Owned) {r : Registration} (hr : r ∈ s.accepted)
    {e : Identity × Pending} (he : e ∈ s.desk.table.entries) (howner : r.owner = owner e)
    (hstep : s.step (.expire r.ticket) = some s') : s.Expires s' r e := by
  obtain ⟨a, ha, rfl⟩ := Option.map_eq_some_iff.mp hstep
  have hkey := List.find?_some ha
  simp only [decide_eq_true_eq] at hkey
  have hsame : ⟨a.ticket, a.id, a.timeout⟩ = r :=
    hs.eq_of_ticket (howned _ (arms_of_alarm (List.mem_of_find?_eq_some ha))) hr hkey.1
  have hid : a.id = e.1 := by
    rw [show a.id = r.id from congrArg Registration.id hsame]
    exact congrArg Prod.snd howner
  have hfind : (s.dismiss r.ticket).desk.table.find? a.id = some e.2 := by
    rw [hid]
    exact QueryTable.find?_of_mem hs.distinct he
  refine ⟨hid ▸ isPending_take _ _ _, a, ?_, ?_⟩
  · rw [← hsame]
    exact ⟨rfl, rfl, rfl⟩
  · rw [take_of_find?_some hfind, hid, ← hsame]
    rfl

/-- An alarm on its way can ring and then expire. -/
theorem Watched.exists_step {r : Registration} (h : s.Watched r) (hs : Sound s)
    (howned : s.Owned) : ∃ millis s₁ s₂, s.run [.elapse millis, .ring r.ticket] = some s₁ ∧
      s₁.desk.table = s.desk.table ∧ s₁.step (.expire r.ticket) = some s₂ := by
  obtain ⟨a, ha, howns⟩ := h
  obtain ⟨b, hb, -⟩ := hs.find_ring howned ha howns
  have hexpire : ∃ s₂, Traffic.step
      { desk := s.desk.ring a.ticket, now := s.now + a.due, calls := s.calls }
      (.expire a.ticket) = some s₂ := by
    simp only [step, hb, Option.map_some, Option.some.injEq, exists_eq']
  obtain ⟨s₂, hs₂⟩ := hexpire
  rw [← howns.1]
  exact ⟨a.due, _, s₂, run_ring ha, rfl, hs₂⟩

/-- In every state that any calls and alarms can lead to, in whatever order they move, an
entry of the table belongs to a registration that either has still to start its alarm or has
it on its way; that alarm can ring and expire, and whenever it expires it takes out this
entry. -/
theorem entry_has_its_alarm (es : List Event) (h : run {} es = some s)
    {e : Identity × Pending} (he : e ∈ s.desk.table.entries) :
    ∃ r ∈ s.accepted, r.owner = owner e ∧ Xor (.entered r ∈ s.calls) (s.Watched r) ∧
      (∀ s', s.step (.expire r.ticket) = some s' → s.Expires s' r e) ∧
      (s.Watched r → ∃ millis s₁ s₂, s.run [.elapse millis, .ring r.ticket] = some s₁ ∧
        s₁.step (.expire r.ticket) = some s₂ ∧ s₁.Expires s₂ r e) := by
  have hs := sound_run h
  have howned := owned_run h
  have hguarded := guarded_run h
  obtain ⟨r, hr, howner, hwaits⟩ := hs.owner_of_entry he
  refine ⟨r, hr, howner, ?_, fun s' => hs.expires howned hr he howner, fun hwatched => ?_⟩
  · have hnotBoth (hentered : .entered r ∈ s.calls) : ¬ s.Watched r := by
      rintro ⟨a, ha, howns⟩
      exact hguarded.unstarted r hentered a ha howns.1
    cases hguarded.waiting r hr hwaits with
    | inl hentered => exact .inl ⟨hentered, hnotBoth hentered⟩
    | inr hwatched => exact .inr ⟨hwatched, fun hentered => hnotBoth hentered hwatched⟩
  · obtain ⟨millis, s₁, s₂, hring, htable, hexpire⟩ := hwatched.exists_step hs howned
    have hrun : run {} (es ++ [.elapse millis, .ring r.ticket]) = some s₁ := by
      rw [run_append, h, Option.bind_some, hring]
    have hr₁ : r ∈ s₁.accepted :=
      run_induction (fun _ _ hmove hmem => hmove.accepted hmem) hring hr
    exact ⟨millis, s₁, s₂, hring, hexpire,
      (sound_run hrun).expires (owned_run hrun) hr₁ (htable ▸ he) howner hexpire⟩

/-- A query is answered before its alarm is attached, and its id is registered again: the
alarm of the first query is attached to the entry of the second, which has its own. -/
def crossed : List Event :=
  [.register ⟨0, 7⟩ 100, .complete { channel := -1, id := some ⟨0, 7⟩ }, .register ⟨0, 7⟩ 300,
    .proceed 0, .proceed 0, .proceed 2]

theorem crossed_entry_has_its_alarm : ∃ s, run {} crossed = some s ∧
    s.desk.table.entries = [(⟨0, 7⟩, { ticket := 1, deadline := 300, alarm := some 0 })] ∧
    ∃ r ∈ s.accepted, r.owner = (1, ⟨0, 7⟩) ∧ Xor (.entered r ∈ s.calls) (s.Watched r) := by
  obtain ⟨r, hr, howner, hphase, -⟩ :=
    entry_has_its_alarm crossed rfl (List.mem_singleton_self _)
  exact ⟨_, rfl, rfl, r, hr, howner, hphase⟩

end Switchboard.Traffic
