import Switchboard.Proofs.Channel.Standing
import Switchboard.Proofs.Channel.Uninterrupted

/-!
# The count of queued frames

A sender counts its frame before it queues it, and the writer takes a frame off the queue before
it counts it off. So the count is never behind the queue: it is ahead by the frames on their way
in, by the one that the writer holds, and by those that were lost with the writer (`Tallied`).
As long as the writer is there no frame is lost and none is refused.
-/

namespace Switchboard

/-- How many frames the writer has taken and not counted off. -/
def Writer.held : Writer → Nat
  | holding _ => 1
  | waiting | writing _ _ | blocked _ _ | finishing | ended => 0

namespace Line

variable {s s' mid : Line}

/-- The frame is counted, and the queue has neither taken nor refused it. -/
def Use.isCounted : Use → Bool
  | sending _ (.counted _ _) => true
  | sending _ _ | closing _ => false

def Use.isRefused : Use → Bool
  | sending _ (.refused _) => true
  | sending _ _ | closing _ => false

def counting (s : Line) : Nat := s.uses.countP Use.isCounted

def refusing (s : Line) : Nat := s.uses.countP Use.isRefused

/-- What the count is made of. -/
structure Tallied (s : Line) : Prop where
  total : ∃ lost : Nat, (s.channel.writer ≠ .ended → lost = 0) ∧
    s.channel.queued =
      s.channel.queue.length + s.channel.writer.held + s.counting + s.refusing + lost
  taken : s.channel.writer ≠ .ended → s.refusing = 0

theorem countP_set_add {α : Type} (p : α → Bool) {l : List α} {n : Nat} {a : α}
    (hn : l[n]? = some a) (b : α) :
    (l.set n b).countP p + (if p a then 1 else 0) = l.countP p + (if p b then 1 else 0) := by
  obtain ⟨hlt, rfl⟩ := List.getElem?_eq_some_iff.mp hn
  have hle : (if p l[n] then 1 else 0) ≤ l.countP p := by
    split
    · exact List.countP_pos_iff.mpr ⟨l[n], List.getElem_mem hlt, by assumption⟩
    · exact Nat.zero_le _
  rw [List.countP_set hlt]
  omega

/-- How much a use has counted that is neither queued nor counted off. -/
def Use.owes (u : Use) : Nat := (if u.isCounted then 1 else 0) + (if u.isRefused then 1 else 0)

/-- A step of a use leaves the writer alone; what it adds to the count it adds to the queue or
owes, and only a queue whose writer is gone refuses a frame. -/
theorem Use.Moves.tally {u u' : Use} (h : u.Moves s mid u') :
    mid.channel.writer = s.channel.writer ∧
    mid.channel.queued + s.channel.queue.length + u.owes =
      s.channel.queued + mid.channel.queue.length + u'.owes ∧
    (u'.isRefused → s.channel.writer = .ended) := by
  cases h with
  | closing h =>
    cases h <;>
      exact ⟨rfl, by simp [Use.owes, Use.isCounted, Use.isRefused, withTraffic,
        Channel.deactivate, Channel.signal], by simp [Use.isRefused]⟩
  | sending h =>
    cases h with
    | count =>
      refine ⟨rfl, ?_, by simp [Use.isRefused]⟩
      simp only [Use.owes, Use.isCounted, Use.isRefused, Channel.countUp]
      simp
      omega
    | push h =>
      obtain ⟨-, rfl⟩ := push_eq_ok h
      refine ⟨rfl, ?_, by simp [Use.isRefused]⟩
      simp [Use.owes, Use.isCounted, Use.isRefused]
      omega
    | reject h =>
      refine ⟨rfl, ?_, fun _ => ?_⟩
      · simp [Use.owes, Use.isCounted, Use.isRefused]
      · simp only [Channel.push] at h
        split at h
        · assumption
        · cases h
    | uncount | withdraw =>
      refine ⟨rfl, ?_, by simp [Use.isRefused]⟩
      simp [Use.owes, Use.isCounted, Use.isRefused, Channel.countDown]
      omega
    | _ =>
      exact ⟨rfl, by simp [Use.owes, Use.isCounted, Use.isRefused, withTraffic],
        by simp [Use.isRefused]⟩

/-- What a step does to the frames that are counted. -/
inductive Stirs (s : Line) : Event → Line → Prop where
  | still {e : Event} {s' : Line} (hqueue : s'.channel.queue = s.channel.queue)
      (hqueued : s'.channel.queued = s.channel.queued)
      (hwriter : s'.channel.writer = s.channel.writer) (huses : s'.uses = s.uses) : Stirs s e s'
  | begin {e : Event} {u : Use} (h : u.Begins) : Stirs s e { s with uses := s.uses ++ [u] }
  | go {e : Event} {n : Nat} {u u' : Use} {mid : Line} (hn : s.uses[n]? = some u)
      (h : u.Moves s mid u') : Stirs s e { mid with uses := s.uses.set n u' }
  | write {e : Event} {w : Wired} (h : s.toWired.Writes w) (hw : w.channel.writer ≠ .ended) :
      Stirs s e { s with toWired := w }
  | retire : Stirs s .retire { s with channel := { s.channel with writer := .ended, queue := [] } }

/-- Each step does one of these things to the frames that are counted. -/
theorem stirs_of_step {e : Event} (h : s.step e = some s') : Stirs s e s' := by
  cases e with
  | send w | close =>
    cases h
    exact .begin rfl
  | go n order =>
    obtain ⟨u, hn, hrest⟩ := Option.bind_eq_some_iff.mp h
    obtain ⟨⟨mid, u'⟩, hnext, heq⟩ := Option.bind_eq_some_iff.mp hrest
    cases heq
    exact .go hn (Use.moves_of_advance hnext)
  | desk e =>
    simp only [step] at h
    split at h
    · obtain ⟨t, -, rfl⟩ := onDesk_eq_some h
      exact .still rfl rfl rfl rfl
    · cases h
  | write =>
    obtain ⟨w, hw, hrest⟩ := Option.bind_eq_some_iff.mp h
    split at hrest
    · cases hrest
    · rename_i hwriter
      cases hrest
      exact .write (Wired.writes_of_stepWriter hw) hwriter
  | retire =>
    cases h
    exact .retire
  | read =>
    obtain ⟨_, _, _, _, -, ⟨p, -, hreceive⟩ | ⟨_, _, _, -, -, rfl⟩⟩ := read_eq_some h
    · obtain ⟨stats, heq⟩ := receive_eq _ p
      rw [hreceive] at heq
      cases heq
      exact .still rfl rfl rfl rfl
    · exact .still rfl rfl rfl rfl
  | quit =>
    cases h
    exact .still rfl rfl rfl rfl
  | dispatch =>
    simp only [step] at h
    split at h
    · cases h
    · cases h
      exact .still rfl rfl rfl rfl
  | arrive octets =>
    obtain ⟨incoming, -, rfl⟩ := arrive_eq_some h
    exact .still rfl rfl rfl rfl
  | depart limit =>
    simp only [step] at h
    split at h
    · cases h
      exact .still rfl rfl rfl rfl
    · cases h

theorem Tallied.of_eq (h : Tallied s) (hqueue : s'.channel.queue = s.channel.queue)
    (hqueued : s'.channel.queued = s.channel.queued)
    (hwriter : s'.channel.writer = s.channel.writer) (huses : s'.uses = s.uses) : Tallied s' where
  total := by
    obtain ⟨lost, hlost, htotal⟩ := h.total
    refine ⟨lost, hwriter ▸ hlost, ?_⟩
    rw [counting, refusing, hqueue, hqueued, hwriter, huses]
    exact htotal
  taken := by
    rw [refusing, hwriter, huses]
    exact h.taken

/-- A use that begins has counted nothing. -/
theorem Tallied.begin (h : Tallied s) {u : Use} (hu : u.Begins) :
    Tallied { s with uses := s.uses ++ [u] } := by
  -- A use begins before it counts anything.
  have hnone : u.isCounted = false ∧ u.isRefused = false := by
    cases u with
    | sending w stage =>
      cases hu
      exact ⟨rfl, rfl⟩
    | closing stage => exact ⟨rfl, rfl⟩
  have hcounting : (s.uses ++ [u]).countP Use.isCounted = s.uses.countP Use.isCounted := by
    simp [hnone.1]
  have hrefusing : (s.uses ++ [u]).countP Use.isRefused = s.uses.countP Use.isRefused := by
    simp [hnone.2]
  constructor
  · simp only [counting, refusing, hcounting, hrefusing]
    exact h.total
  · simp only [refusing, hrefusing]
    exact h.taken

/-- What a send counts is its own to answer for until it is queued or counted off. -/
theorem Tallied.go (h : Tallied s) {n : Nat} {u u' : Use} (hn : s.uses[n]? = some u)
    (hmoves : u.Moves s mid u') : Tallied { mid with uses := s.uses.set n u' } := by
  obtain ⟨hwriter, htally, hrefused⟩ := hmoves.tally
  have hcounted := countP_set_add Use.isCounted hn u'
  have hrefusing := countP_set_add Use.isRefused hn u'
  constructor
  · obtain ⟨lost, hlost, htotal⟩ := h.total
    refine ⟨lost, hwriter ▸ hlost, ?_⟩
    simp only [Use.owes] at htally
    simp only [counting, refusing] at htotal ⊢
    rw [hwriter]
    omega
  · intro hw
    have halive : s.channel.writer ≠ .ended := hwriter ▸ hw
    have hnone : (if u'.isRefused then 1 else 0) = 0 := if_neg fun hr => halive (hrefused hr)
    have hold := h.taken halive
    simp only [refusing] at hold ⊢
    omega

/-- The writer holds a frame from taking it to counting it off. -/
theorem Tallied.write (h : Tallied s) {w : Wired} (hw : w.channel.writer ≠ .ended)
    (hwrites : Wired.Writes s.toWired w) : Tallied { s with toWired := w } := by
  -- A step that does not end the writer finds it there.
  have hbefore : s.channel.writer ≠ .ended := by
    cases hwrites with
    | take hwriter | finish hwriter | countOff hwriter | written hwriter | put hwriter
    | block hwriter | wake hwriter =>
      rw [hwriter]
      nofun
    | fail hended => exact absurd hended hw
  refine ⟨?_, fun _ => h.taken hbefore⟩
  obtain ⟨lost, hlost, htotal⟩ := h.total
  refine ⟨lost, fun _ => hlost hbefore, ?_⟩
  simp only [counting, refusing] at htotal ⊢
  cases hwrites with
  | take hwriter hqueue =>
    simp only [htotal, hwriter, hqueue, Writer.held, List.length_cons]
    omega
  | countOff hwriter =>
    simp only [Channel.countDown, htotal, hwriter, Writer.held]
    omega
  | finish hwriter hqueue => rw [htotal, hwriter]; rfl
  | written hwriter | put hwriter | block hwriter | wake hwriter =>
    rw [htotal, hwriter]
    rfl
  | fail hended => exact absurd hended hw

theorem Tallied.retire (h : Tallied s) :
    Tallied { s with channel := { s.channel with writer := .ended, queue := [] } } where
  total := by
    obtain ⟨lost, -, htotal⟩ := h.total
    refine ⟨s.channel.queue.length + s.channel.writer.held + lost, fun hw => absurd rfl hw, ?_⟩
    simp only [counting, refusing, Writer.held, List.length_nil] at htotal ⊢
    omega
  taken hw := absurd rfl hw

/-- One step keeps the tally. -/
theorem Tallied.move (h : Tallied s) {e : Event} (hstirs : Stirs s e s') : Tallied s' := by
  cases hstirs with
  | still hqueue hqueued hwriter huses => exact h.of_eq hqueue hqueued hwriter huses
  | begin hbegins => exact h.begin hbegins
  | go hn hmoves => exact h.go hn hmoves
  | write hwrites hw => exact h.write hw hwrites
  | retire => exact h.retire

/-- So it is kept by every run. -/
theorem Tallied.run {es : List Event} (h : Tallied s) (hrun : s.run es = some s') :
    Tallied s' := by
  induction es generalizing s with
  | nil =>
    cases hrun
    exact h
  | cons e es ih =>
    obtain ⟨mid, hmid, hrest⟩ := Option.bind_eq_some_iff.mp hrun
    exact ih (h.move (stirs_of_step hmid)) hrest

theorem tallied_start (info : ChannelInfo) (config : ChannelConfig) (outgoing incoming : Nat) :
    Tallied (start info config outgoing incoming) :=
  ⟨⟨0, fun _ => rfl, rfl⟩, fun _ => rfl⟩

/-- As long as there is a writer, the count is of the queue, the writer's frame and the sends
between. -/
theorem Tallied.queued_eq (h : Tallied s) (hwriter : s.channel.writer ≠ .ended) :
    s.channel.queued = s.channel.queue.length + s.channel.writer.held + s.counting := by
  obtain ⟨lost, hlost, htotal⟩ := h.total
  rw [htotal, h.taken hwriter, hlost hwriter]
  simp

theorem Tallied.queued_nonneg (h : Tallied s) : 0 ≤ s.channel.queued := by
  obtain ⟨lost, -, htotal⟩ := h.total
  omega

/-- The writer is gone at no time before the active flag is clear. -/
def ClosesFirst (s : Line) (es : List Event) : Prop :=
  ∀ fs gs mid, es = fs ++ .retire :: gs → s.run fs = some mid → mid.channel.active = false

theorem ClosesFirst.tail {e : Event} {es : List Event} (h : ClosesFirst s (e :: es))
    (hstep : s.step e = some mid) : ClosesFirst mid es := by
  intro fs gs last hes hrun
  refine h (e :: fs) gs last (by rw [hes, List.cons_append]) ?_
  rw [Line.run, hstep]
  exact hrun

theorem active_of_run {es : List Event} (hrun : s.run es = some s')
    (hactive : s'.channel.active = true) : s.channel.active = true := by
  by_contra hclosed
  have hlater : s'.channel.active = false :=
    run_induction (P := fun t => t.channel.active = false)
      (fun _ _ hmove ht => hmove.later.active ht) hrun (eq_false_of_ne_true hclosed)
  rw [hactive] at hlater
  cases hlater

/-- On a channel that is active the writer is there. -/
theorem ClosesFirst.writer_ne_ended {es : List Event} (h : ClosesFirst s es)
    (hrun : s.run es = some s') (hactive : s'.channel.active = true)
    (hwriter : s.channel.writer ≠ .ended) : s'.channel.writer ≠ .ended := by
  induction es generalizing s with
  | nil =>
    cases hrun
    exact hwriter
  | cons e es ih =>
    obtain ⟨mid, hmid, hrest⟩ := Option.bind_eq_some_iff.mp hrun
    refine ih (h.tail hmid) hrest ?_
    cases stirs_of_step hmid with
    | still _ _ hsame _ => exact hsame ▸ hwriter
    | begin _ => exact hwriter
    | go hn hmoves => exact hmoves.tally.1 ▸ hwriter
    | write _ hw => exact hw
    | retire =>
      have hclosed := h [] es s rfl rfl
      rw [active_of_run hrun hactive] at hclosed
      cases hclosed

/-- Whatever sends, queries, closes and steps of the loops come in between: as long as the
writer is there the count is that of the frames in the queue, the frame that the writer holds
and the frames that are counted and have not got to the queue; it never falls below zero, also
when the writer is gone; and an active channel, on which none of these frames is under way, is
writable exactly if its queue is below the mark. The steps of a send or a query that nobody
disturbs come to what the channel does at once. -/
theorem backlog_is_exact {info : ChannelInfo} {config : ChannelConfig} {outgoing incoming : Nat}
    {es : List Event} (hrun : (start info config outgoing incoming).run es = some s) :
    (s.channel.writer ≠ .ended → s.channel.queued =
      s.channel.queue.length + s.channel.writer.held + s.counting) ∧
    0 ≤ s.channel.queued ∧
    (s.channel.active = true →
      s.channel.writer ≠ .ended ∨ ClosesFirst (start info config outgoing incoming) es →
      s.channel.writer.held = 0 → s.counting = 0 →
      (s.channel.isWritable = true ↔ s.channel.queue.length < config.writeHighWater)) ∧
    (∀ (n : Nat) (w : Parcel), s.uses[n]? = some (.sending w .begun) →
      (∀ p id timeout, w ≠ .query p id timeout) →
      s.Reaches ({ s with channel := (s.channel.send w.packet).2 }.withUse n
        (.sending w (.ended (fun _ => none) (s.channel.send w.packet).1)))) ∧
    ∀ (n : Nat) p id timeout, s.uses[n]? = some (.sending (.query p id timeout) .begun) →
      p.id.getD id = id → ∃ calls, s.Reaches ({ s with
        channel := (s.channel.sendQuery p id timeout s.now).2
        calls := s.calls ++ calls }.withUse n (.sending (.query p id timeout)
          (.ended (fun asked : Identity × Ticket => some ⟨asked.2, asked.1, timeout⟩)
            (s.channel.sendQuery p id timeout s.now).1))) := by
  have htallied : Tallied s := (tallied_start info config outgoing incoming).run hrun
  refine ⟨htallied.queued_eq, htallied.queued_nonneg, fun hactive hthere hheld hcounting => ?_,
    fun n w => reaches_send, fun n p id timeout => reaches_query⟩
  have hwriter : s.channel.writer ≠ .ended := by
    rcases hthere with hwriter | hfirst
    · exact hwriter
    · exact hfirst.writer_ne_ended hrun hactive nofun
  have hqueued : s.channel.queued = s.channel.queue.length := by
    rw [htallied.queued_eq hwriter, hheld, hcounting]
    simp
  have hconfig : s.channel.config = config :=
    run_induction (P := fun t => t.channel.config = config)
      (fun _ _ hmove ht => hmove.later.config.trans ht) hrun rfl
  rw [Channel.isWritable, hactive, hqueued, hconfig, Bool.true_and, decide_eq_true_iff,
    Int.ofNat_lt]

/-- Three frames: the writer has taken the first and not counted it off, the second is queued
and the third is counted; then all of them get on. -/
def rush : List Event :=
  let frame (n : Nat) : List Event := [.go n [], .go n [], .go n [], .go n []]
  [.send (.plain { channel := 5 }), .send (.plain { channel := 6 }),
      .send (.plain { channel := 7 })] ++
    frame 0 ++ [.go 0 [], .write] ++ frame 1 ++ [.go 1 []] ++ frame 2

theorem rush_backlog_is_exact : ∃ s s' : Line,
    (start ⟨0, "here", "there", true⟩ { writeHighWater := 2 } 64 64).run rush = some s ∧
    s.channel.queue.length = 1 ∧ s.channel.writer.held = 1 ∧ s.counting = 1 ∧
    s.channel.queued = 3 ∧
    (start ⟨0, "here", "there", true⟩ { writeHighWater := 2 } 64 64).run
      (rush ++ [.write, .go 2 []]) = some s' ∧
    s'.channel.active = true ∧ s'.channel.writer ≠ .ended ∧ s'.channel.writer.held = 0 ∧
    s'.counting = 0 ∧ s'.channel.isWritable = false := by
  obtain ⟨s, hrun, hqueue, hheld, hcounting, hwriter⟩ : ∃ s : Line,
      (start ⟨0, "here", "there", true⟩ { writeHighWater := 2 } 64 64).run rush = some s ∧
      s.channel.queue.length = 1 ∧ s.channel.writer.held = 1 ∧ s.counting = 1 ∧
      s.channel.writer ≠ .ended := ⟨_, rfl, rfl, rfl, rfl, nofun⟩
  obtain ⟨s', hrun', hqueue', hactive', hwriter', hheld', hcounting'⟩ : ∃ s' : Line,
      (start ⟨0, "here", "there", true⟩ { writeHighWater := 2 } 64 64).run
        (rush ++ [.write, .go 2 []]) = some s' ∧
      s'.channel.queue.length = 2 ∧ s'.channel.active = true ∧ s'.channel.writer ≠ .ended ∧
      s'.channel.writer.held = 0 ∧ s'.counting = 0 := ⟨_, rfl, rfl, rfl, nofun, rfl, rfl⟩
  have hqueued : s.channel.queued = 3 := by
    rw [(backlog_is_exact hrun).1 hwriter, hqueue, hheld, hcounting]
    rfl
  have hfull : s'.channel.isWritable = false := by
    have hiff := (backlog_is_exact hrun').2.2.1 hactive' (.inl hwriter') hheld' hcounting'
    rw [hqueue'] at hiff
    exact eq_false_of_ne_true fun h => absurd (hiff.mp h) (by decide)
  exact ⟨s, s', hrun, hqueue, hheld, hcounting, hqueued, hrun', hactive', hwriter', hheld',
    hcounting', hfull⟩

end Line

end Switchboard
