import Switchboard.Proofs.Query.Settlement

/-!
# Whose alarm ends a query

An alarm expires whatever entry its id has by then. A registration that was answered
before its alarm was attached leaves that alarm behind, as does one that was answered
while its alarm rang; either can end a later query of the same id, with its own timeout.
While a query waits no new alarm of its id can come up, so it can be ended by an alarm
other than its own exactly if one is left over by then (`Stray`).
-/

namespace Switchboard.Traffic

open QueryTable (owner)

def Registration.Owns (r : Registration) (a : Alarm) : Prop :=
  a.ticket = r.ticket ∧ a.id = r.id ∧ a.timeout = r.timeout

/-- The alarm of a registration is on its way, or it is still to be started. -/
def Arms (s : Traffic) (r : Registration) : Prop :=
  (∃ a ∈ s.desk.alarms, r.Owns a) ∨ .entered r ∈ s.calls

/-- The alarm of another registration of the same id is left over. -/
def Stray (s : Traffic) (r : Registration) : Prop :=
  ∃ r', s.Arms r' ∧ r'.id = r.id ∧ r'.ticket ≠ r.ticket

def ExpiredBy (s : Traffic) (r : Registration) (a : Alarm) : Prop :=
  ∃ removed tasks verdict, .ending (.expiry a) removed tasks verdict ∈ s.calls ∧
    r.owner ∈ removed.map owner

variable {s s' : Traffic}

theorem Call.advance_accepted {c next : Call} {d desk : Desk} {now : Nat}
    (h : c.advance d now = some (desk, next)) : next.accepted = c.accepted := by
  rcases c.advance_cases h with
    ⟨r, rfl, -, rfl⟩ | ⟨r, rfl, -, rfl⟩ | ⟨_, _, _, _, _, rfl, -, rfl⟩ <;> rfl

theorem Call.advance_ne_entered {c next : Call} {d desk : Desk} {now : Nat}
    (h : c.advance d now = some (desk, next)) (r : Registration) : next ≠ .entered r := by
  rcases c.advance_cases h with
    ⟨r, -, -, rfl⟩ | ⟨r, -, -, rfl⟩ | ⟨_, _, _, _, _, -, -, rfl⟩ <;> simp

/-- An accepted registration stays accepted. -/
theorem Move.accepted (h : Move s s') {r : Registration} (hr : r ∈ s.accepted) :
    r ∈ s'.accepted := by
  rcases h.calls_cases with ⟨c, hcalls, -⟩ | ⟨n, c, desk, next, hc, hnext, hcalls⟩ | hcalls
  · rw [Traffic.accepted, hcalls, List.flatMap_append]
    exact List.mem_append_left _ hr
  · rw [Traffic.accepted, hcalls, flatMap_set hc (Call.advance_accepted hnext)]
    exact hr
  · rw [Traffic.accepted, hcalls]
    exact hr

/-- The only step that starts an alarm is that of the registration it belongs to. -/
theorem Call.alarms_advance {c next : Call} {d desk : Desk} {now : Nat} {a : Alarm}
    (h : c.advance d now = some (desk, next)) (ha : a ∈ desk.alarms) :
    a ∈ d.alarms ∨ ∃ r, c = .entered r ∧ r.Owns a := by
  rcases c.advance_cases h with
    ⟨r, hc, rfl, -⟩ | ⟨r, -, rfl, -⟩ | ⟨_, _, task, _, _, -, rfl, -⟩
  · rcases List.mem_append.mp ha with hold | hnew
    · exact .inl hold
    · rw [List.mem_singleton] at hnew
      subst hnew
      exact .inr ⟨r, hc, rfl, rfl, rfl⟩
  · exact .inl ha
  · cases task with
    | silence k => exact .inl (List.mem_filter.mp ha).1
    | tell p outcome => exact .inl ha

/-- An alarm that is on its way after a step was so before, or its registration was about
to start it. -/
theorem Move.alarms (h : Move s s') {r : Registration} {a : Alarm} (ha : a ∈ s'.desk.alarms)
    (hr : r.Owns a) : s.Arms r := by
  cases h with
  | enter timeout hopen hfree => exact .inl ⟨a, ha, hr⟩
  | refuse he => exact .inl ⟨a, ha, hr⟩
  | pass p hp => exact .inl ⟨a, ha, hr⟩
  | complete hp =>
    rw [alarms_take] at ha
    exact .inl ⟨a, ha, hr⟩
  | cancel id =>
    rw [alarms_take] at ha
    exact .inl ⟨a, ha, hr⟩
  | close horder => exact .inl ⟨a, ha, hr⟩
  | proceed hc hnext =>
    rcases Call.alarms_advance hnext ha with hold | ⟨r', rfl, hr'⟩
    · exact .inl ⟨a, hold, hr⟩
    · have hsame : r' = r := by
        cases r
        cases r'
        simp only [Registration.mk.injEq]
        exact ⟨hr'.1.symm.trans hr.1, hr'.2.1.symm.trans hr.2.1, hr'.2.2.symm.trans hr.2.2⟩
      exact .inr (hsame ▸ List.mem_of_getElem? hc)
  | elapse millis => exact .inl ⟨a, ha, hr⟩
  | ring _ hdue =>
    obtain ⟨b, hb, rfl⟩ := List.mem_map.mp ha
    refine .inl ⟨b, hb, ?_⟩
    split at hr
    · exact hr
    · exact hr
  | expire ha' hringing =>
    rw [alarms_take] at ha
    exact .inl ⟨a, (List.mem_filter.mp ha).1, hr⟩

/-- Only an id that is free is registered anew. -/
theorem Move.entered (h : Move s s') {r : Registration} (hr : .entered r ∈ s'.calls) :
    .entered r ∈ s.calls ∨ s.desk.table.find? r.id = none := by
  rcases h.mem_calls hr with hold | ⟨c, -, desk, hnext⟩ | hfree
  · exact .inl hold
  · exact absurd rfl (Call.advance_ne_entered hnext r)
  · exact .inr hfree

/-- Only a registration whose id is free brings an alarm. -/
theorem Move.arms (h : Move s s') {r : Registration} (hr : s'.Arms r) :
    s.Arms r ∨ s.desk.table.find? r.id = none := by
  rcases hr with ⟨a, ha, howns⟩ | hentered
  · exact .inl (h.alarms ha howns)
  · rcases h.entered hentered with hold | hfree
    · exact .inl (.inr hold)
    · exact .inr hfree

theorem arms_of_alarm {a : Alarm} (ha : a ∈ s.desk.alarms) : s.Arms ⟨a.ticket, a.id, a.timeout⟩ :=
  .inl ⟨a, ha, rfl, rfl, rfl⟩

theorem accepted_of_entered {r : Registration} (h : .entered r ∈ s.calls) : r ∈ s.accepted :=
  List.mem_flatMap.mpr ⟨_, h, List.mem_singleton_self r⟩

def Owned (s : Traffic) : Prop := ∀ r, s.Arms r → r ∈ s.accepted

/-- Alarms come from accepted registrations, and no acceptance is taken back. -/
theorem Owned.move (hs : s.Owned) (h : Move s s') : s'.Owned := by
  rintro r (⟨a, ha, howns⟩ | hentered)
  · exact h.accepted (hs r (h.alarms ha howns))
  · exact accepted_of_entered hentered

theorem owned_run {es : List Event} (h : run {} es = some s) : s.Owned := by
  refine run_induction (fun _ _ hmove hs => hs.move hmove) h ?_
  rintro r (⟨a, ha, -⟩ | hentered)
  · exact absurd ha List.not_mem_nil
  · exact absurd hentered List.not_mem_nil

/-- A registration that an alarm ended was ended so before, or the alarm was on its way. -/
theorem Move.expiredBy (h : Move s s') {r : Registration} {a : Alarm} (hr : s'.ExpiredBy r a) :
    s.ExpiredBy r a ∨ a ∈ s.desk.alarms := by
  obtain ⟨removed, tasks, verdict, hmem, hremoves⟩ := hr
  rcases h.mem_calls hmem with hold | ⟨c, hc, desk, hnext⟩ | ha
  · exact .inl ⟨removed, tasks, verdict, hold, hremoves⟩
  · rcases c.advance_cases hnext with
      ⟨_, -, -, hend⟩ | ⟨_, -, -, hend⟩ | ⟨_, _, task, _, _, rfl, -, hend⟩
    · cases hend
    · cases hend
    · cases hend
      exact .inl ⟨removed, task :: tasks, verdict, hc, hremoves⟩
  · exact .inr ha

theorem Move.removed (h : Move s s') {r : Registration} (hr : r.owner ∈ s.removed) :
    r.owner ∈ s'.removed := by
  obtain ⟨n, cause, removed, tasks, verdict, hn, hc⟩ := mem_removed.mp hr
  obtain ⟨tasks', hn'⟩ := h.ending ⟨tasks, hn⟩
  exact mem_removed.mpr ⟨n, cause, removed, tasks', verdict, hn', hc⟩

/-- An alarm that ended a registration is what any call ended it with. -/
theorem Sound.cause_of_expiredBy (hs : Sound s) {r : Registration} {a : Alarm} {n : Nat}
    {cause : Cause} {removed : List (Identity × Pending)} {tasks : List Task} {verdict : Verdict}
    (hn : s.calls[n]? = some (.ending cause removed tasks verdict))
    (hr : r.owner ∈ removed.map owner) (hexpired : s.ExpiredBy r a) : cause = .expiry a := by
  obtain ⟨removed', tasks', verdict', hmem, hr'⟩ := hexpired
  obtain ⟨m, hm⟩ := List.mem_iff_getElem?.mp hmem
  rw [hs.removes_unique hn hm hr hr', hn] at hm
  cases hm
  rfl

theorem Sound.expiredBy_unique (hs : Sound s) {r : Registration} {a b : Alarm}
    (ha : s.ExpiredBy r a) (hb : s.ExpiredBy r b) : a = b := by
  obtain ⟨removed, tasks, verdict, hmem, hr⟩ := ha
  obtain ⟨n, hn⟩ := List.mem_iff_getElem?.mp hmem
  exact Cause.expiry.inj (hs.cause_of_expiredBy hn hr hb)

/-- A registration that was taken out before a step did not end in that step. -/
theorem Sound.expiredBy_of_removed (hs' : Sound s') (h : Move s s') {r : Registration} {a : Alarm}
    (hr : r.owner ∈ s.removed) (hexpired : s'.ExpiredBy r a) : s.ExpiredBy r a := by
  obtain ⟨n, cause, removed, tasks, verdict, hn, hc⟩ := mem_removed.mp hr
  obtain ⟨tasks', hn'⟩ := h.ending ⟨tasks, hn⟩
  have hcause := hs'.cause_of_expiredBy hn' hc hexpired
  exact ⟨removed, tasks, verdict, hcause ▸ List.mem_of_getElem? hn, hc⟩

structure OwnAlarmOnly (s : Traffic) (r : Registration) : Prop where
  accepted : r ∈ s.accepted
  expired : ∀ a, s.ExpiredBy r a → r.Owns a
  waiting : s.Waits r → ¬ s.Stray r

/-- A step brings no other alarm of the same id, for that would need a registration, and the id is
taken. -/
theorem OwnAlarmOnly.move {r : Registration} (hr : s.OwnAlarmOnly r) (hs : Sound s)
    (howned : s.Owned) (h : Move s s') : s'.OwnAlarmOnly r := by
  have hs' := hs.move h
  refine ⟨h.accepted hr.accepted, fun a hexpired => ?_, fun hwaits hstray => ?_⟩
  · rcases hs.waits_or_removed hr.accepted with hwaits | hremoved
    · rcases h.expiredBy hexpired with hold | ha
      · exact hr.expired a hold
      · obtain ⟨removed, tasks, verdict, hmem, hremoves⟩ := hexpired
        have hid : a.id = r.id := hs'.fits_of_removes hmem hremoves
        by_cases hticket : a.ticket = r.ticket
        · have hsame := hs.eq_of_ticket (howned _ (arms_of_alarm ha)) hr.accepted hticket
          exact ⟨hticket, hid, congrArg Registration.timeout hsame⟩
        · exact absurd ⟨_, arms_of_alarm ha, hid, hticket⟩ (hr.waiting hwaits)
    · exact hr.expired a (hs'.expiredBy_of_removed h hremoved hexpired)
  · have hwaits' : s.Waits r := by
      refine (hs.waits_or_removed hr.accepted).resolve_right fun hremoved => ?_
      exact hs'.not_waits_of_removed (h.removed hremoved) hwaits
    obtain ⟨r', harms, hid, hticket⟩ := hstray
    rcases h.arms harms with hold | hfree
    · exact hr.waiting hwaits' ⟨r', hold, hid, hticket⟩
    · obtain ⟨p, hfind, -⟩ := hwaits'
      rw [hid, hfind] at hfree
      cases hfree

/-- So it is for the rest of the run. -/
theorem OwnAlarmOnly.run {r : Registration} (hr : s.OwnAlarmOnly r) (hs : Sound s)
    (howned : s.Owned) {es : List Event} (h : s.run es = some s') : s'.OwnAlarmOnly r := by
  have hall : Sound s' ∧ s'.Owned ∧ s'.OwnAlarmOnly r := by
    refine run_induction (P := fun t => Sound t ∧ t.Owned ∧ t.OwnAlarmOnly r) ?_ h
      ⟨hs, howned, hr⟩
    rintro t t' hmove ⟨ht, htowned, htr⟩
    exact ⟨ht.move hmove, htowned.move hmove, htr.move ht htowned hmove⟩
  exact hall.2.2

/-- Who was told of a timeout was ended by an alarm with that timeout. -/
theorem Sound.expiredBy_of_told (h : Sound s) {r : Registration} (hr : r ∈ s.accepted) {d : Nat}
    (htold : (r.ticket, .error (.timeout d)) ∈ s.desk.outcomes) :
    ∃ a, s.ExpiredBy r a ∧ a.timeout = d := by
  obtain ⟨n, cause, removed, tasks, verdict, hn, hremoved, houtcome⟩ := h.cause_of_told hr htold
  cases cause with
  | expiry a =>
    cases houtcome
    exact ⟨a, ⟨removed, tasks, verdict, List.mem_of_getElem? hn, hremoved⟩, rfl⟩
  | response p | cancel id | cancelAll => cases houtcome

/-- Time passes, and the alarm rings. -/
theorem run_ring {a : Alarm} (ha : a ∈ s.desk.alarms) :
    s.run [.elapse a.due, .ring a.ticket] =
      some { desk := s.desk.ring a.ticket, now := s.now + a.due, calls := s.calls } := by
  have hany : (s.desk.alarms.any fun x => x.ticket = a.ticket ∧ x.due ≤ s.now + a.due) = true :=
    List.any_eq_true.mpr ⟨a, ha, by simp⟩
  simp only [Traffic.run, step, Option.bind_some, hany, if_true]

/-- The alarm that is found to ring under a ticket belongs to the registration of that ticket. -/
theorem Sound.find_ring (hs : Sound s) (howned : s.Owned) {r : Registration} {a : Alarm}
    (ha : a ∈ s.desk.alarms) (hr : r.Owns a) :
    ∃ b, (s.desk.ring a.ticket).alarms.find? (fun x => x.ticket = a.ticket ∧ x.ringing) = some b ∧
      r.Owns b := by
  obtain ⟨b, hb⟩ : ∃ b, (s.desk.ring a.ticket).alarms.find?
      (fun x => x.ticket = a.ticket ∧ x.ringing) = some b := by
    refine Option.isSome_iff_exists.mp (List.find?_isSome.mpr ⟨{ a with ringing := true }, ?_, ?_⟩)
    · exact List.mem_map.mpr ⟨a, ha, if_pos rfl⟩
    · simp
  obtain ⟨x, hx, hxb⟩ := List.mem_map.mp (List.mem_of_find?_eq_some hb)
  have hsame : b.ticket = x.ticket ∧ b.id = x.id ∧ b.timeout = x.timeout := by
    rw [← hxb]
    split <;> exact ⟨rfl, rfl, rfl⟩
  have hkey := List.find?_some hb
  simp only [decide_eq_true_eq] at hkey
  have hxr : ⟨x.ticket, x.id, x.timeout⟩ = r :=
    hs.eq_of_ticket (howned _ (arms_of_alarm hx)) (howned _ (.inl ⟨a, ha, hr⟩))
      (hsame.1.symm.trans (hkey.1.trans hr.1))
  refine ⟨b, hb, ?_⟩
  rw [← hxr]
  exact hsame

theorem outcomes_expire {d : Desk} {a : Alarm} {p : Pending} (h : d.table.find? a.id = some p) :
    (d.expire a).outcomes = d.outcomes ++ [(p.ticket, .error (.timeout a.timeout))] := by
  have hfound : (d.table.remove a.id).1 = some p := h
  simp only [Desk.expire, Desk.take, hfound, Desk.tell]

/-- An alarm that is on its way can end the query that waits under its id by then. -/
theorem exists_run_expire (hs : Sound s) (howned : s.Owned) {r r' : Registration} {a : Alarm}
    (hwaits : s.Waits r) (ha : a ∈ s.desk.alarms) (howns : r'.Owns a) (hid : r'.id = r.id) :
    ∃ es s' b, s.run es = some s' ∧ r'.Owns b ∧ s'.ExpiredBy r b ∧
      (r.ticket, .error (.timeout b.timeout)) ∈ s'.desk.outcomes := by
  obtain ⟨p, hfind, hticket⟩ := hwaits
  obtain ⟨b, hb, hbowns⟩ := hs.find_ring howned ha howns
  have hbid : b.id = r.id := hbowns.2.1.trans hid
  obtain ⟨steps, hrun⟩ := run_expire
    (s := { desk := s.desk.ring a.ticket, now := s.now + a.due, calls := s.calls }) hb
  have hwhole := run_append s [.elapse a.due, .ring a.ticket]
    (.expire a.ticket :: List.replicate steps (.proceed s.calls.length))
  rw [run_ring ha, Option.bind_some] at hwhole
  refine ⟨_, _, b, hwhole.trans hrun, hbowns, ⟨_, _, _,
    List.mem_append_right _ (List.mem_singleton_self _), ?_⟩, ?_⟩
  · refine List.mem_map.mpr ⟨(r.id, p), ?_, ?_⟩
    · simp [entryOf, Desk.ring, hbid, hfind]
    · rw [owner, Registration.owner, hticket]
  · have htold := outcomes_expire (d := s.desk.ring a.ticket) (a := b) (hbid ▸ hfind)
    rw [htold, hticket]
    exact List.mem_append_right _ (List.mem_singleton_self _)

/-- A stray alarm that rings ends the query that has its id now. -/
theorem Stray.exists_run (hs : Sound s) (howned : s.Owned) {r : Registration}
    (hwaits : s.Waits r) (hstray : s.Stray r) :
    ∃ es s' b, s.run es = some s' ∧ s'.ExpiredBy r b ∧ b.ticket ≠ r.ticket ∧
      (r.ticket, .error (.timeout b.timeout)) ∈ s'.desk.outcomes := by
  obtain ⟨r', harms, hid, hticket⟩ := hstray
  rcases harms with ⟨a, ha, howns⟩ | hentered
  · obtain ⟨es, s', b, hrun, hb, hexpired, htold⟩ :=
      exists_run_expire hs howned hwaits ha howns hid
    exact ⟨es, s', b, hrun, hexpired, fun heq => hticket (hb.1.symm.trans heq), htold⟩
  · obtain ⟨n, hn⟩ := List.mem_iff_getElem?.mp hentered
    have hstep : s.step (.proceed n) = some { s with
        desk := s.desk.arm r'.ticket r'.id r'.timeout (s.now + r'.timeout)
        calls := s.calls.set n (.armed r') } := by
      simp [step, hn, Call.advance]
    have hmove := move_of_step hstep
    obtain ⟨es, s', b, hrun, hb, hexpired, htold⟩ :=
      exists_run_expire (hs.move hmove) (howned.move hmove) hwaits
        (List.mem_append_right _ (List.mem_singleton_self _)) ⟨rfl, rfl, rfl⟩ hid
    refine ⟨.proceed n :: es, s', b, ?_, hexpired, fun heq => hticket (hb.1.symm.trans heq), htold⟩
    rw [run_cons, hstep, Option.bind_some, hrun]

/-- Whatever its caller hears of a timeout later on, it is the timeout of the registration,
by the alarm that it started. -/
def TimesOutByOwnAlarm (s : Traffic) (r : Registration) : Prop :=
  ∀ es s', s.run es = some s' → ∀ d, (r.ticket, .error (.timeout d)) ∈ s'.desk.outcomes →
    d = r.timeout ∧ ∃ a, r.Owns a ∧ s'.ExpiredBy r a

theorem OwnAlarmOnly.timesOut {r : Registration} (hr : s.OwnAlarmOnly r) (hs : Sound s)
    (howned : s.Owned) : s.TimesOutByOwnAlarm r := by
  intro es s' hrun d htold
  have hs' : Sound s' := run_induction (fun _ _ hmove ht => ht.move hmove) hrun hs
  have hr' := hr.run hs howned hrun
  obtain ⟨a, hexpired, hd⟩ := hs'.expiredBy_of_told hr'.accepted htold
  have howns := hr'.expired a hexpired
  exact ⟨hd.symm.trans howns.2.2, a, howns, hexpired⟩

/-- Who waits with no stray alarm about can be ended by its own alarm alone. -/
theorem Sound.ownAlarmOnly (hs : Sound s) {r : Registration} (hr : r ∈ s.accepted)
    (hwaits : s.Waits r) (hstray : ¬ s.Stray r) : s.OwnAlarmOnly r := by
  refine ⟨hr, fun a hexpired => ?_, fun _ => hstray⟩
  obtain ⟨removed, tasks, verdict, hmem, hremoves⟩ := hexpired
  exact absurd hwaits (hs.not_waits_of_removed (List.mem_flatMap.mpr ⟨_, hmem, hremoves⟩))

/-- A query that waits can be told of a timeout by its own alarm only, if and only if no
alarm of another registration of its id is left over. -/
theorem times_out_by_own_alarm_iff (es : List Event) (h : run {} es = some s) {r : Registration}
    (hr : r ∈ s.accepted) (hwaits : s.Waits r) : s.TimesOutByOwnAlarm r ↔ ¬ s.Stray r := by
  have hs := sound_run h
  have howned := owned_run h
  constructor
  · intro hown hstray
    obtain ⟨fs, s', b, hrun, hb, hticket, htold⟩ := hstray.exists_run hs howned hwaits
    obtain ⟨-, a, howns, ha⟩ := hown fs s' hrun _ htold
    have hs' : Sound s' := run_induction (fun _ _ hmove ht => ht.move hmove) hrun hs
    exact hticket (hs'.expiredBy_unique ha hb ▸ howns.1)
  · intro hstray
    exact (hs.ownAlarmOnly hr hwaits hstray).timesOut hs howned

/-- A query alone under its id times out by its own alarm. -/
theorem first_times_out_by_own_alarm : ∃ s, run {} [.register ⟨0, 7⟩ 100] = some s ∧
    s.TimesOutByOwnAlarm ⟨0, ⟨0, 7⟩, 100⟩ := by
  refine ⟨_, rfl, (times_out_by_own_alarm_iff [.register ⟨0, 7⟩ 100] rfl ?_ ⟨_, rfl, rfl⟩).mpr ?_⟩
  · exact List.mem_singleton_self _
  · rintro ⟨r', ⟨a, ha, -⟩ | hentered, -, hticket⟩
    · exact absurd ha List.not_mem_nil
    · rw [Call.entered.inj (List.mem_singleton.mp hentered)] at hticket
      exact hticket rfl

/-- A query is answered before its alarm is attached, and its id is registered again with a
longer timeout: the first alarm ends the second query. -/
def overtaken : List Event :=
  [.register ⟨0, 7⟩ 100, .complete { channel := -1, id := some ⟨0, 7⟩ }, .proceed 1, .proceed 0,
    .proceed 0, .register ⟨0, 7⟩ 300, .proceed 2, .proceed 2, .elapse 100, .ring 0, .expire 0,
    .proceed 3]

theorem overtaken_times_out : ¬ ∀ es s, run {} es = some s → ∀ r ∈ s.accepted, ∀ d,
    (r.ticket, .error (.timeout d)) ∈ s.desk.outcomes →
      d = r.timeout ∧ ∃ a, r.Owns a ∧ s.ExpiredBy r a := by
  intro hall
  obtain ⟨s, hrun, haccepted, houtcomes⟩ : ∃ s, run {} overtaken = some s ∧
      s.accepted = [⟨0, ⟨0, 7⟩, 100⟩, ⟨1, ⟨0, 7⟩, 300⟩] ∧ s.desk.outcomes =
        [(0, .ok { channel := -1, id := some ⟨0, 7⟩ }), (1, .error (.timeout 100))] :=
    ⟨_, rfl, rfl, rfl⟩
  have hown := hall overtaken s hrun ⟨1, ⟨0, 7⟩, 300⟩ (by simp [haccepted]) 100
    (by simp [houtcomes])
  exact absurd hown.1 (by decide)

end Switchboard.Traffic
