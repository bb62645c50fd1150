import Switchboard.Proofs.Channel.Circuit

/-!
# What may come under an id

A packet with an id that one end hands over is a query or a response to a packet that the
other end was handed before. A query registers before its frame is queued, and until it is
queued nothing comes under its id at either end; so the first packet that comes back under it
answers it, and whatever took its entry out as a response did. The books of a circuit
(`Circuit.Sound`) say so, and no step breaks them.
-/

namespace Switchboard

namespace Line

open Traffic (Cause Task Verdict)

variable {s s' : Line} {p q : Packet} {id : Identity} {n : Nat} {stage : Sending}

/-- The packet is a response to the query as this end was handed it. -/
def Answers (s : Line) (q : Packet) (id : Identity) (p : Packet) : Prop :=
  ∃ x, s.Sent (.answer (q.asQuery id).received id x) ∧
    p = (Parcel.answer (q.asQuery id).received id x).packet.received

def Untouched (s : Line) (id : Identity) : Prop :=
  ∀ c ∈ s.calls, id ∉ c.removed.map (·.1)

instance (s : Line) (id : Identity) : Decidable (s.Untouched id) :=
  inferInstanceAs (Decidable (∀ c ∈ s.calls, id ∉ c.removed.map (·.1)))

theorem mem_queried : id ∈ s.queried ↔ ∃ n q stage, s.Queries n q id stage := by
  rw [queried, List.mem_flatMap]
  constructor
  · rintro ⟨u, hu, hid⟩
    obtain ⟨n, hn⟩ := List.mem_iff_getElem?.mp hu
    cases u with
    | sending w stage =>
      cases w with
      | query q id' timeout =>
        obtain rfl := List.mem_singleton.mp hid
        exact ⟨n, q, stage, timeout, hn⟩
      | plain p | answer r id' x => exact absurd hid List.not_mem_nil
    | closing stage => exact absurd hid List.not_mem_nil
  · rintro ⟨n, q, stage, timeout, hn⟩
    exact ⟨_, List.mem_of_getElem? hn, List.mem_singleton_self id⟩

theorem Move.queries (h : Move s s') (hq : s.Queries n q id stage) :
    ∃ next, s'.Queries n q id next := by
  obtain ⟨timeout, hn⟩ := hq
  obtain ⟨next, hn', -⟩ := h.sending hn
  exact ⟨next, timeout, hn'⟩

theorem Move.queried (h : Move s s') (hid : id ∈ s.queried) : id ∈ s'.queried := by
  obtain ⟨n, q, stage, hq⟩ := mem_queried.mp hid
  obtain ⟨next, hq'⟩ := h.queries hq
  exact mem_queried.mpr ⟨n, q, next, hq'⟩

theorem Move.answers (h : Move s s') (hp : s.Answers q id p) : s'.Answers q id p := by
  obtain ⟨x, hx, hpx⟩ := hp
  exact ⟨x, h.sent hx, hpx⟩

theorem Move.fits (h : Move s s') {w : Parcel} (hw : s.Fits w) : s'.Fits w := by
  cases w with
  | plain p => exact hw
  | answer r id x => exact ⟨h.handed hw.1, hw.2⟩
  | query q id timeout => trivial

end Line

namespace Circuit

open Line (Use Sending)
open Traffic (Cause Task Verdict)

variable {c c' : Circuit} {σ τ ρ : Side} {p q : Packet} {id : Identity} {n : Nat} {stage : Sending}

def Sized (c : Circuit) : Prop := ∀ σ w, (c.line σ).Sent w → (c.line σ).Sized w

/-- The books of two channels in use, which are kept as long as lengths are words. -/
structure Sound (c : Circuit) : Prop where
  lines : ∀ σ, (c.line σ).Sound
  conveys : ∀ σ, Line.Conveys (c.line σ) (c.line σ.other)
  fits : ∀ σ w stage, .sending w stage ∈ (c.line σ).uses → (c.line σ).Fits w
  /-- No two queries have the same id. -/
  distinct : ∀ {σ τ : Side} {n m q q' id stage stage'}, (c.line σ).Queries n q id stage →
    (c.line τ).Queries m q' id stage' → σ = τ ∧ n = m
  /-- What one end handed over, the other sent. -/
  emitted : ∀ {σ p}, p ∈ (c.line σ).handed → (c.line σ.other).Emits p
  /-- Nothing comes under an id that no query has. -/
  known : ∀ {σ p id}, p ∈ (c.line σ).handed → p.id = some id → ∃ τ, id ∈ (c.line τ).queried
  /-- Nothing comes under the id of a query before its frame is queued. -/
  after : ∀ {σ n q id stage}, (c.line σ).Queries n q id stage → ∀ {τ p},
    p ∈ (c.line τ).handed → p.id = some id → ∃ asks, stage = .sent asks
  /-- What came under an id took its entry out. -/
  taken : ∀ {σ p id}, p ∈ (c.line σ).handed → p.id = some id →
    (c.line σ).channel.desk.isPending id = false
  /-- A pending id is that of a query of this end. -/
  asked : ∀ {σ id}, (c.line σ).channel.desk.isPending id = true → id ∈ (c.line σ).queried
  /-- What took an entry out as a response is a response to its query. -/
  answered : ∀ {σ : Side} {n : Nat} {p : Packet} {removed : List (Identity × Pending)}
    {tasks : List Task} {verdict : Verdict},
    (c.line σ).calls[n]? = some (.ending (.response p) removed tasks verdict) → removed ≠ [] →
    ∃ m q id stage, (c.line σ).Queries m q id stage ∧ (c.line σ.other).Answers q id p

/-- A packet with an id that an end sends is a query or the response to a packet that it was
handed. -/
theorem Sound.emits_cases (hc : Sound c) (hp : (c.line σ).Emits p) (hid : p.id = some id) :
    (∃ n q asks, (c.line σ).Queries n q id (.sent asks) ∧ p = (q.asQuery id).received) ∨
    ∃ r x, (c.line σ).Sent (.answer r id x) ∧ p = (Parcel.answer r id x).packet.received ∧
      r ∈ (c.line σ).handed ∧ r.id = some id := by
  obtain ⟨w, ⟨asks, hw⟩, rfl⟩ := hp
  have hfits := hc.fits σ w _ hw
  cases w with
  | plain q =>
    have hnone : q.id = none := hfits
    exact absurd (hnone.symm.trans hid) (by simp)
  | query q id' timeout =>
    obtain rfl : id' = id := Option.some.inj hid
    obtain ⟨n, hn⟩ := List.mem_iff_getElem?.mp hw
    exact .inl ⟨n, q, asks, ⟨timeout, hn⟩, rfl⟩
  | answer r id' x =>
    obtain rfl : id' = id := Option.some.inj hid
    exact .inr ⟨r, x, ⟨asks, hw⟩, rfl, hfits⟩

/-- A packet with an id is a query or the answer to one, so its id was asked under. -/
theorem Sound.known_of_emits (hc : Sound c) (hp : (c.line σ).Emits p) (hid : p.id = some id) :
    ∃ τ, id ∈ (c.line τ).queried := by
  rcases hc.emits_cases hp hid with ⟨n, q, asks, hq, -⟩ | ⟨r, x, -, -, hr, hrid⟩
  · exact ⟨σ, Line.mem_queried.mpr ⟨n, q, _, hq⟩⟩
  · exact hc.known hr hrid

theorem Sound.after_of_emits (hc : Sound c) (hp : (c.line σ).Emits p) (hid : p.id = some id)
    (hq : (c.line τ).Queries n q id stage) : ∃ asks, stage = .sent asks := by
  rcases hc.emits_cases hp hid with ⟨m, q', asks, hq', -⟩ | ⟨r, x, -, -, hr, hrid⟩
  · obtain ⟨rfl, rfl⟩ := hc.distinct hq hq'
    obtain ⟨timeout, hn⟩ := hq
    obtain ⟨timeout', hn'⟩ := hq'
    rw [hn] at hn'
    cases hn'
    exact ⟨asks, rfl⟩
  · exact hc.after hq hr hrid

/-- As long as nothing came under the id of a query, whatever the other end sends under it
answers the query. -/
theorem Sound.answers_of_emits (hc : Sound c) (hp : (c.line σ.other).Emits p)
    (hid : p.id = some id) (hq : (c.line σ).Queries n q id stage)
    (hfirst : ∀ p' ∈ (c.line σ).handed, p'.id ≠ some id) :
    (c.line σ.other).Answers q id p := by
  rcases hc.emits_cases hp hid with ⟨m, q', asks, hq', -⟩ | ⟨r, x, hsent, hpx, hr, hrid⟩
  · exact absurd (hc.distinct hq hq').1.symm σ.other_ne
  · have hemits : (c.line σ).Emits r := by
      have hemitted := hc.emitted hr
      rwa [Side.other_other] at hemitted
    rcases hc.emits_cases hemits hrid with ⟨m, q', asks, hq', rfl⟩ | ⟨r', x', -, -, hr', hrid'⟩
    · obtain ⟨-, rfl⟩ := hc.distinct hq hq'
      obtain ⟨timeout, hn⟩ := hq
      obtain ⟨timeout', hn'⟩ := hq'
      rw [hn] at hn'
      cases hn'
      exact ⟨x, hsent, hpx⟩
    · exact absurd hrid' (hfirst r' hr')

theorem Move.handed_emits (h : Move c c' ρ) (hc : Sound c) (hp : p ∈ (c'.line σ).handed) :
    (c.line σ.other).Emits p := by
  rcases h.line σ with heq | hline
  · exact hc.emitted (heq ▸ hp)
  · rcases hline.handed_back hp with hold | ⟨hnext, -⟩
    · exact hc.emitted hold
    · have hconveys := hc.conveys σ.other
      rw [Side.other_other] at hconveys
      exact hconveys.emits hnext

theorem Move.emits (h : Move c c' ρ) (hp : (c.line σ).Emits p) : (c'.line σ).Emits p := by
  rcases h.line σ with heq | hline
  · exact heq ▸ hp
  · exact hline.emits hp

theorem Move.queried (h : Move c c' ρ) (hid : id ∈ (c.line σ).queried) :
    id ∈ (c'.line σ).queried := by
  rcases h.line σ with heq | hline
  · exact heq ▸ hid
  · exact hline.queried hid

/-- A send was there before, and had queued its frame only if it has now, or it is new and
was admitted. -/
theorem Move.sending_back (h : Move c c' ρ) {w : Parcel} {next : Sending}
    (hn : (c'.line σ).uses[n]? = some (.sending w next)) :
    (∃ stage, (c.line σ).uses[n]? = some (.sending w stage) ∧
      ∀ asks, stage = .sent asks → next = .sent asks) ∨
    σ = ρ ∧ n = (c.line σ).uses.length ∧ c.Admits σ (.send w) := by
  have hsame (hold : (c.line σ).uses[n]? = some (.sending w next)) :
      ∃ stage, (c.line σ).uses[n]? = some (.sending w stage) ∧
        ∀ asks, stage = .sent asks → next = .sent asks :=
    ⟨next, hold, fun asks heq => heq⟩
  have hgone {s : Line} (hs : (c.line σ).Move s) (hn : s.uses[n]? = some (.sending w next)) :
      (∃ stage, (c.line σ).uses[n]? = some (.sending w stage) ∧
        ∀ asks, stage = .sent asks → next = .sent asks) ∨
      n = (c.line σ).uses.length ∧ next = .begun ∧
        s = { c.line σ with uses := (c.line σ).uses ++ [.sending w .begun] } := by
    rcases hs.sending_back hn with ⟨stage, hn', rfl | ⟨mid, hmoves⟩⟩ | hnew
    · exact .inl (hsame hn')
    · refine .inl ⟨stage, hn', fun asks heq => ?_⟩
      subst heq
      cases hmoves
    · exact .inr hnew
  rcases ρ.eq_or_other σ with rfl | rfl
  · cases h with
    | begin hu hadmits hnear hfar =>
      refine (hgone (hnear ▸ .begin hu) hn).imp_right ?_
      rintro ⟨hlast, rfl, hs⟩
      rw [hnear] at hs
      have huses := List.append_cancel_left (congrArg Line.uses hs)
      exact ⟨rfl, hlast, hadmits w (List.singleton_inj.mp huses)⟩
    | turn h hfar =>
      refine (hgone (.turn h) hn).imp_right ?_
      rintro ⟨-, -, hs⟩
      have hlength := h.length_uses
      rw [hs] at hlength
      simp at hlength
    | carry hout hin hnear hfar =>
      rw [hnear] at hn
      exact .inl (hsame hn)
  · cases h with
    | begin hu hadmits hnear hfar => exact .inl (hsame (hfar ▸ hn))
    | turn h hfar => exact .inl (hsame (hfar ▸ hn))
    | carry hout hin hnear hfar =>
      rw [hfar] at hn
      exact .inl (hsame hn)

/-- A query was there before, or it is new and no query had its id. -/
theorem Move.queries_back (h : Move c c' ρ) {next : Sending}
    (hq : (c'.line σ).Queries n q id next) :
    (∃ stage, (c.line σ).Queries n q id stage ∧ ∀ asks, stage = .sent asks → next = .sent asks) ∨
    σ = ρ ∧ n = (c.line σ).uses.length ∧ ∀ τ, id ∉ (c.line τ).queried := by
  obtain ⟨timeout, hn⟩ := hq
  rcases h.sending_back hn with ⟨stage, hold, hsent⟩ | ⟨hσ, hlast, -, hfresh⟩
  · exact .inl ⟨stage, ⟨timeout, hold⟩, hsent⟩
  · obtain ⟨hleft, hright⟩ := hfresh id (List.mem_singleton_self id)
    refine .inr ⟨hσ, hlast, fun τ => ?_⟩
    cases τ with
    | left => exact hleft
    | right => exact hright

/-- What was queued before is queued now. -/
theorem Move.sized_back (h : Move c c' ρ) (hsized : c'.Sized) : c.Sized := by
  intro σ w hw
  rcases h.line σ with heq | hline
  · exact heq ▸ hsized σ w (heq.symm ▸ hw)
  · have hw' := hsized σ w (hline.sent hw)
    rwa [Line.Sized, hline.later.config] at hw'

/-- Nothing is on its way but packets that were sent, as long as the lengths are words. -/
theorem Sound.conveys_move (hc : Sound c) (h : Move c c' ρ) (hsized : c'.Sized) (σ : Side) :
    Line.Conveys (c'.line σ) (c'.line σ.other) := by
  have hthere := hc.conveys ρ
  have hback := hc.conveys ρ.other
  rw [Side.other_other] at hback
  rcases ρ.eq_or_other σ with rfl | rfl
  · cases h with
    | begin hu hadmits hnear hfar =>
      rw [hfar]
      have hmove : (c.line σ).Move (c'.line σ) := hnear ▸ .begin hu
      obtain ⟨ps, hcarries, hps⟩ := Line.conveys_iff.mp hthere
      refine Line.conveys_iff.mpr ⟨ps, ?_, fun p hp => hmove.emits (hps p hp)⟩
      rw [hnear]
      exact hcarries.of_upstream rfl rfl rfl
    | turn h hfar =>
      rw [hfar]
      refine h.conveys (hc.lines σ) (fun w hw => ?_) hthere
      have hw' := hsized σ w hw
      rwa [Line.Sized, (Line.Move.turn h).later.config] at hw'
    | carry hout hin hnear hfar =>
      rw [hnear, hfar]
      exact hthere.carry hout hin
  · rw [Side.other_other]
    cases h with
    | begin hu hadmits hnear hfar =>
      rw [hnear, hfar]
      exact hback
    | turn h hfar =>
      rw [hfar]
      exact h.conveyed hback
    | carry hout hin hnear hfar =>
      rw [hnear, hfar]
      exact hback

/-- Ids are used once, at whichever end the next query is asked. -/
theorem Sound.distinct_move (hc : Sound c) (h : Move c c' ρ) {m : Nat} {q' : Packet}
    {stage' : Sending} (hq : (c'.line σ).Queries n q id stage)
    (hq' : (c'.line τ).Queries m q' id stage') : σ = τ ∧ n = m := by
  rcases h.queries_back hq with ⟨stage₀, hold, -⟩ | ⟨hσ, hn, hfresh⟩
  · rcases h.queries_back hq' with ⟨stage₁, hold', -⟩ | ⟨-, -, hfresh⟩
    · exact hc.distinct hold hold'
    · exact absurd (Line.mem_queried.mpr ⟨n, q, stage₀, hold⟩) (hfresh σ)
  · rcases h.queries_back hq' with ⟨stage₁, hold', -⟩ | ⟨hτ, hm, -⟩
    · exact absurd (Line.mem_queried.mpr ⟨m, q', stage₁, hold'⟩) (hfresh τ)
    · subst hσ hτ
      exact ⟨rfl, hn.trans hm.symm⟩

theorem Sound.after_move (hc : Sound c) (h : Move c c' ρ)
    (hq : (c'.line σ).Queries n q id stage) (hp : p ∈ (c'.line τ).handed) (hid : p.id = some id) :
    ∃ asks, stage = .sent asks := by
  have hemits := h.handed_emits hc hp
  rcases h.queries_back hq with ⟨stage₀, hold, hsent⟩ | ⟨-, -, hfresh⟩
  · obtain ⟨asks, heq⟩ := hc.after_of_emits hemits hid hold
    exact ⟨asks, hsent asks heq⟩
  · obtain ⟨τ', hknown⟩ := hc.known_of_emits hemits hid
    exact absurd hknown (hfresh τ')

theorem Sound.taken_move (hc : Sound c) (h : Move c c' ρ) (hp : p ∈ (c'.line σ).handed)
    (hid : p.id = some id) : (c'.line σ).channel.desk.isPending id = false := by
  have hemits := h.handed_emits hc hp
  rcases h.line σ with heq | hline
  · rw [heq] at hp ⊢
    exact hc.taken hp hid
  · by_contra hpending
    rw [Bool.not_eq_false] at hpending
    rcases hline.pending_back hpending with hold | ⟨m, q, timeout, frame, hm⟩
    · rcases hline.handed_back hp with hbefore | ⟨-, hstep⟩
      · rw [hc.taken hbefore hid] at hold
        cases hold
      · simp only [Traffic.step, hid, Option.some.injEq] at hstep
        have hdesk := congrArg (fun t : Traffic => t.desk.isPending id) hstep
        rw [Traffic.isPending_take] at hdesk
        exact absurd (hdesk.trans hpending) (by simp)
    · -- A query that registers now has not queued its frame, so nothing came under its id.
      obtain ⟨asks, heq⟩ := hc.after_of_emits hemits hid ⟨timeout, hm⟩
      cases heq

theorem Sound.asked_move (hc : Sound c) (h : Move c c' ρ)
    (hid : (c'.line σ).channel.desk.isPending id = true) : id ∈ (c'.line σ).queried := by
  rcases h.line σ with heq | hline
  · rw [heq] at hid ⊢
    exact hc.asked hid
  · rcases hline.pending_back hid with hold | ⟨m, q, timeout, frame, hm⟩
    · exact hline.queried (hc.asked hold)
    · exact hline.queried (Line.mem_queried.mpr ⟨m, q, _, timeout, hm⟩)

/-- A response that takes an entry out answers the query of this entry, as ids are used once. -/
theorem Sound.answered_move (hc : Sound c) (h : Move c c' ρ)
    {removed : List (Identity × Pending)} {tasks : List Task} {verdict : Verdict}
    (hn : (c'.line σ).calls[n]? = some (.ending (.response p) removed tasks verdict))
    (hremoved : removed ≠ []) :
    ∃ m q id stage, (c'.line σ).Queries m q id stage ∧ (c'.line σ.other).Answers q id p := by
  have hkept {m q id stage} (hq : (c.line σ).Queries m q id stage)
      (hp : (c.line σ.other).Answers q id p) :
      ∃ m q id stage, (c'.line σ).Queries m q id stage ∧ (c'.line σ.other).Answers q id p := by
    have hanswers : (c'.line σ.other).Answers q id p := by
      rcases h.line σ.other with heq | hline
      · exact heq ▸ hp
      · exact hline.answers hp
    rcases h.line σ with heq | hline
    · exact ⟨m, q, id, stage, heq ▸ hq, hanswers⟩
    · obtain ⟨next, hq'⟩ := hline.queries hq
      exact ⟨m, q, id, next, hq', hanswers⟩
  rcases h.line σ with heq | hline
  · obtain ⟨m, q, id, stage, hq, hp⟩ := hc.answered (heq ▸ hn) hremoved
    exact hkept hq hp
  · rcases hline.ending_back hn with ⟨rest, hold, -⟩ | ⟨hlast, e, hstep, hprompts, hbegins⟩
    · obtain ⟨m, q, id, stage, hq, hp⟩ := hc.answered hold hremoved
      exact hkept hq hp
    · obtain rfl := hbegins.eq_complete
      subst hlast
      obtain ⟨id, hid, hpending⟩ := Traffic.pending_of_complete hstep hn hremoved
      obtain ⟨m, q, stage, hq⟩ := Line.mem_queried.mp (hc.asked hpending)
      have hemits := h.handed_emits hc (Line.mem_handed.mpr ⟨_, removed, tasks, verdict, hn⟩)
      refine hkept hq (hc.answers_of_emits hemits hid hq fun p' hp' hid' => ?_)
      exact absurd (hpending.symm.trans (hc.taken hp' hid')) (by simp)

theorem Move.lines (h : Move c c' ρ) (hlines : ∀ σ, (c.line σ).Sound) (σ : Side) :
    (c'.line σ).Sound := by
  rcases h.line σ with heq | hline
  · exact heq ▸ hlines σ
  · exact (hlines σ).move hline

/-- The books are kept by one step. -/
theorem Sound.move (hc : Sound c) (h : Move c c' ρ) (hsized : c'.Sized) : Sound c' where
  lines := h.lines hc.lines
  conveys := hc.conveys_move h hsized
  fits σ w stage hw := by
    obtain ⟨n, hn⟩ := List.mem_iff_getElem?.mp hw
    have hfits : (c.line σ).Fits w := by
      rcases h.sending_back hn with ⟨stage₀, hold, -⟩ | ⟨-, -, hfits, -⟩
      · exact hc.fits σ w _ (List.mem_of_getElem? hold)
      · exact hfits
    rcases h.line σ with heq | hline
    · exact heq ▸ hfits
    · exact hline.fits hfits
  distinct hq hq' := hc.distinct_move h hq hq'
  emitted hp := h.emits (h.handed_emits hc hp)
  known hp hid := by
    obtain ⟨τ, hknown⟩ := hc.known_of_emits (h.handed_emits hc hp) hid
    exact ⟨τ, h.queried hknown⟩
  after hq _ _ hp hid := hc.after_move h hq hp hid
  taken hp hid := hc.taken_move h hp hid
  asked hid := hc.asked_move h hid
  answered hn hremoved := hc.answered_move h hn hremoved

/-- Nothing was sent, handed over or asked at the start. -/
theorem sound_start (info : Side → ChannelInfo) (config : Side → ChannelConfig)
    (outgoing incoming : Side → Nat)
    (hlimit : (config .left).maxFrameSize = (config .right).maxFrameSize) :
    Sound (start info config outgoing incoming) := by
  have huses (σ : Side) : ((start info config outgoing incoming).line σ).uses = [] := by
    rw [line_start]
    rfl
  have hcalls (σ : Side) : ((start info config outgoing incoming).line σ).calls = [] := by
    rw [line_start]
    rfl
  have hhanded {σ : Side} {p : Packet}
      (hp : p ∈ ((start info config outgoing incoming).line σ).handed) : False := by
    rw [Line.handed, hcalls] at hp
    exact List.not_mem_nil hp
  have hqueries {σ : Side} {n : Nat} {q : Packet} {id : Identity} {stage : Sending}
      (hq : ((start info config outgoing incoming).line σ).Queries n q id stage) : False := by
    obtain ⟨timeout, hn⟩ := hq
    rw [huses] at hn
    cases hn
  constructor
  case lines =>
    intro σ
    rw [line_start]
    exact Line.sound_start ..
  case conveys =>
    intro σ decoder buffered hreader
    have hsame : (config σ.other).maxFrameSize = (config σ).maxFrameSize := by
      cases σ with
      | left => exact hlimit.symm
      | right => exact hlimit
    rw [line_start] at hreader
    cases hreader
    refine ⟨[], [], ?_, fun _ => rfl, fun p hp => absurd hp List.not_mem_nil⟩
    rw [line_start, line_start, hsame]
    exact .more rfl
  case fits =>
    intro σ w stage hw
    rw [huses] at hw
    exact absurd hw List.not_mem_nil
  case distinct => exact fun hq _ => (hqueries hq).elim
  case emitted => exact fun hp => (hhanded hp).elim
  case known => exact fun hp _ => (hhanded hp).elim
  case after => exact fun hq => (hqueries hq).elim
  case taken => exact fun hp _ => (hhanded hp).elim
  case asked =>
    intro σ id hid
    rw [line_start] at hid
    cases hid
  case answered =>
    intro σ n p removed tasks verdict hn
    rw [hcalls] at hn
    cases hn

/-- Under a limit that is a word, the length of every body that is queued is a word. -/
theorem sized_run {info : Side → ChannelInfo} {config : Side → ChannelConfig}
    {outgoing incoming : Side → Nat} (hword : ∀ σ, (config σ).maxFrameSize < UInt32.size)
    {es : List Event} (h : (start info config outgoing incoming).run es = some c) : c.Sized := by
  have hconfig : ∀ σ, (c.line σ).channel.config = config σ := by
    refine run_induction (P := fun c => ∀ σ, (c.line σ).channel.config = config σ)
      (fun c c' ρ hmove hkept σ => ?_) h fun σ => by rw [line_start]; rfl
    rcases hmove.line σ with heq | hline
    · exact heq ▸ hkept σ
    · exact hline.later.config.trans (hkept σ)
  intro σ w _ hle
  rw [hconfig] at hle
  exact Nat.lt_of_le_of_lt hle (hword σ)

/-- And so they are in every state that a run comes to. -/
theorem sound_run {info : Side → ChannelInfo} {config : Side → ChannelConfig}
    {outgoing incoming : Side → Nat}
    (hlimit : (config .left).maxFrameSize = (config .right).maxFrameSize) {es : List Event}
    (h : (start info config outgoing incoming).run es = some c) : c.Sized → Sound c :=
  run_induction (P := fun c => c.Sized → Sound c)
    (fun _ _ _ hmove hs hsized => (hs (hmove.sized_back hsized)).move hmove hsized) h
    fun _ => sound_start _ _ _ _ hlimit

end Circuit

end Switchboard
