import Switchboard.Proofs.Channel.Standing
import Switchboard.Proofs.Channel.Uninterrupted

/-!
# Closing leaves no caller behind

Of all closes one alone finds the active flag set (`OneCloser`); it alone cancels all
queries, and by then the flag is clear, so whoever begins later is turned away. Once it has
told every caller the table is empty and closed for ever. An accepted query was then taken
out by some call, and each of them but the close takes one entry out and has only its caller
left to tell.
-/

namespace Switchboard.Line

open Traffic (Registration Call Cause Task Verdict)

variable {s s' : Line}

def Closing.Won : Closing → Prop
  | won | draining _ | cancelled | done => True
  | begun | lost => False

/-- The close has cancelled all queries and told their callers. -/
def Closing.Emptied : Closing → Prop
  | cancelled | done => True
  | begun | won | draining _ | lost => False

/-- At most one close found the active flag set, and what is left to do of cancelling all
queries is its to do. -/
structure OneCloser (s : Line) : Prop where
  unique : ∀ {n m : Nat} {c c' : Closing}, s.uses[n]? = some (.closing c) →
    s.uses[m]? = some (.closing c') → c.Won → c'.Won → n = m
  drains : ∀ {n : Nat} {removed : List (Identity × Pending)} {tasks : List Task}
    {verdict : Verdict}, s.calls[n]? = some (.ending .cancelAll removed tasks verdict) →
    tasks = [] ∨ ∃ k : Nat, s.uses[k]? = some (.closing (.draining n))

theorem Closing.Emptied.won {c : Closing} (h : c.Emptied) : c.Won := by
  cases c with
  | cancelled | done => trivial
  | begun | won | draining call | lost => exact h.elim

theorem Sound.inactive (h : Sound s) {n : Nat} {c : Closing} (hn : s.uses[n]? = some (.closing c))
    (hc : c.Won) : s.channel.active = false := by
  have hstands : c.Stands s := h.uses _ (List.mem_of_getElem? hn)
  cases c with
  | won => exact hstands
  | draining call | cancelled | done => exact hstands.1
  | begun | lost => exact hc.elim

/-- A close that has won did so before, or it wins now. -/
theorem Move.won_back (h : Move s s') {n : Nat} {c : Closing}
    (hn : s'.uses[n]? = some (.closing c)) (hc : c.Won) :
    (∃ c₀, s.uses[n]? = some (.closing c₀) ∧ c₀.Won) ∨
      s.channel.active = true ∧ s.uses[n]? = some (.closing .begun) ∧
        s'.uses = s.uses.set n (.closing c) := by
  rcases h.use_back hn with ⟨u, hu, rfl | ⟨mid, hmoves, rfl⟩⟩ | ⟨-, hbegins, -⟩
  · exact .inl ⟨c, hu, hc⟩
  · cases hmoves with
    | closing hmoves =>
      cases hmoves with
      | win hactive => exact .inr ⟨hactive, hu, rfl⟩
      | lose hactive => exact hc.elim
      | cancelAll hstep | drained hcall | signal => exact .inl ⟨_, hu, trivial⟩
  · cases hbegins
    exact hc.elim

/-- A close that finds the flag set clears it in the same step, so no other one can. -/
theorem OneCloser.move (h : OneCloser s) (hs : Sound s) (hmove : Move s s') : OneCloser s' := by
  constructor
  · intro n m c c' hn hm hc hc'
    rcases hmove.won_back hn hc with ⟨c₀, hn₀, hc₀⟩ | ⟨hactive, hn₀, huses⟩
    · rcases hmove.won_back hm hc' with ⟨c₁, hm₁, hc₁⟩ | ⟨hactive, -, -⟩
      · exact h.unique hn₀ hm₁ hc₀ hc₁
      · rw [hs.inactive hn₀ hc₀] at hactive
        cases hactive
    · rcases hmove.won_back hm hc' with ⟨c₁, hm₁, hc₁⟩ | ⟨-, hm₁, -⟩
      · rw [hs.inactive hm₁ hc₁] at hactive
        cases hactive
      · -- The one step cannot have been a step of both.
        by_contra hne
        rw [huses, List.getElem?_set_ne hne, hm₁] at hm
        cases hm
        exact hc'
  · intro n removed tasks verdict hn
    rcases hmove.ending_back hn with ⟨rest, hold, hsuffix⟩ | ⟨rfl, e, -, hprompts, hbegins⟩
    · rcases h.drains hold with rfl | ⟨k, hk⟩
      · exact .inl (List.suffix_nil.mp hsuffix)
      · obtain ⟨u', hk', rfl | ⟨mid, hmoves, rfl⟩⟩ := hmove.use hk
        · exact .inr ⟨k, hk'⟩
        · cases hmoves with
          | closing hmoves =>
            cases hmoves with
            | drained hcall =>
              rw [hold] at hcall
              cases hcall
              exact .inl (List.suffix_nil.mp hsuffix)
    · rw [hbegins.eq_cancelAll] at hprompts
      exact .inr hprompts

/-- The close in this place has cancelled all queries, and those who began to send after so
many uses are turned away. -/
structure Shut (k bound : Nat) (s : Line) : Prop where
  sound : Sound s
  closer : OneCloser s
  emptied : ∃ c, s.uses[k]? = some (.closing c) ∧ c.Emptied
  barred : ∀ n, bound ≤ n → ∀ w stage, s.uses[n]? = some (.sending w stage) →
    stage = .begun ∨ stage = .failed .closed

variable {k bound : Nat}

theorem Shut.inactive (h : Shut k bound s) : s.channel.active = false := by
  obtain ⟨c, hk, hc⟩ := h.emptied
  exact h.sound.inactive hk hc.won

/-- Behind the close the flag stays clear and the table empty. -/
theorem Shut.move (h : Shut k bound s) (hmove : Move s s') : Shut k bound s' := by
  refine ⟨h.sound.move hmove, h.closer.move h.sound hmove, ?_, fun n hn w stage hstage => ?_⟩
  · obtain ⟨c, hk, hc⟩ := h.emptied
    obtain ⟨u', hk', rfl | ⟨mid, hmoves, -⟩⟩ := hmove.use hk
    · exact ⟨c, hk', hc⟩
    · cases hmoves with
      | closing hmoves =>
        cases hmoves with
        | signal => exact ⟨_, hk', trivial⟩
        | win _ | lose _ | cancelAll _ | drained _ => exact hc.elim
  · rcases hmove.use_back hstage with ⟨u, hu, rfl | ⟨mid, hmoves, -⟩⟩ | ⟨-, hbegins, -⟩
    · exact h.barred n hn w stage hu
    · cases hmoves with
      | sending hmoves =>
        rcases h.barred n hn w _ hu with rfl | rfl
        · cases hmoves with
          | allow hactive =>
            rw [h.inactive] at hactive
            cases hactive
          | bar hactive => exact .inr rfl
        · cases hmoves
    · exact .inl hbegins

theorem Shut.table (h : Shut k bound s) :
    s.channel.desk.table = { entries := [], closed := true } := by
  obtain ⟨c, hk, hc⟩ := h.emptied
  have hstands : c.Stands s := h.sound.uses _ (List.mem_of_getElem? hk)
  have hclosed : s.channel.desk.table.closed = true := by
    cases c with
    | cancelled | done => exact hstands.2
    | begun | won | draining call | lost => exact hc.elim
  have hempty : s.channel.desk.table.entries = [] := h.sound.books.closed hclosed
  calc s.channel.desk.table
    _ = ⟨s.channel.desk.table.entries, s.channel.desk.table.closed⟩ := rfl
    _ = ⟨[], true⟩ := by rw [hempty, hclosed]

/-- Once all queries are cancelled, none waits. -/
theorem Shut.not_waits (h : Shut k bound s) (r : Registration) : ¬ s.traffic.Waits r := by
  rintro ⟨p, hfind, -⟩
  have htable : s.traffic.desk.table = { entries := [], closed := true } := h.table
  rw [htable] at hfind
  cases hfind

theorem Shut.drained (h : Shut k bound s) {n : Nat} {removed : List (Identity × Pending)}
    {tasks : List Task} {verdict : Verdict}
    (hn : s.calls[n]? = some (.ending .cancelAll removed tasks verdict)) : tasks = [] := by
  refine (h.closer.drains hn).resolve_right ?_
  rintro ⟨m, hm⟩
  obtain ⟨c, hk, hc⟩ := h.emptied
  obtain rfl := h.closer.unique hk hm hc.won trivial
  rw [hk] at hm
  cases hm
  exact hc

/-- And each has been told. -/
theorem Shut.tells (h : Shut k bound s) (r : Registration) : s.traffic.Tells r := by
  intro n cause removed tasks verdict hn hr
  by_cases hcause : cause = .cancelAll
  · subst hcause
    obtain rfl := h.drained hn
    exact .inl (h.sound.books.told_of_done h.sound.owes hn hr)
  · exact h.sound.books.told_or_next h.sound.owes hn hr hcause

/-- A caller is told what the call that took the entry out decided, whenever one looks. -/
theorem Shut.outcomesOf_run (h : Shut k bound s) {r : Registration} (hr : s.traffic.DecidedOnce r)
    {es : List Event} (hrun : s.run es = some s') :
    s'.traffic.outcomesOf r = s.traffic.outcomesOf r := by
  obtain ⟨-, n, cause, removed, tasks, verdict, hn, howner, -, -, houtcomes⟩ := hr
  obtain ⟨hs', tasks', hn'⟩ : Sound s' ∧
      ∃ tasks, s'.traffic.calls[n]? = some (.ending cause removed tasks verdict) := by
    refine run_induction (P := fun t => Sound t ∧
      ∃ tasks, t.traffic.calls[n]? = some (.ending cause removed tasks verdict))
      (fun t t' hmove ht => ⟨ht.1.move hmove, ?_⟩) hrun ⟨h.sound, tasks, hn⟩
    exact hmove.later.follows.keeps (fun _ _ hm hc => hm.ending hc) ht.2
  rw [houtcomes, hs'.books.outcomesOf_of_removes hn' howner]

/-- A send that begins when the channel is closed fails in its first step, which changes
nothing else. -/
theorem step_bar (hactive : s.channel.active = false) {n : Nat} {w : Parcel}
    (hn : s.uses[n]? = some (.sending w .begun)) (order : List (Identity × Pending)) :
    s.step (.go n order) =
      some { s with uses := s.uses.set n (.sending w (.failed .closed)) } := by
  simp [step, hn, Use.advance, Sending.advance, hactive]

theorem step_lose (hactive : s.channel.active = false) {n : Nat}
    (hn : s.uses[n]? = some (.closing .begun)) (order : List (Identity × Pending)) :
    s.step (.go n order) = some { s with uses := s.uses.set n (.closing .lost) } := by
  have hsame : s.channel.deactivate = (false, s.channel) := by
    rw [Channel.deactivate, hactive]
    exact congrArg (Prod.mk false) (by rw [← hactive])
  simp [step, hn, Use.advance, Closing.advance, hsame]

/-- Once the close that found the active flag set has cancelled all queries, whatever happens
from then on: nothing is pending, and nothing can be; whoever has or gets the handle of a
query is told once, or is told next by the one call that took its entry out; a send or a
query that begins afterwards fails and changes nothing; nor does another close. The steps of a
close that nobody disturbs come to what the channel does at once. -/
theorem close_leaves_no_caller {info : ChannelInfo} {config : ChannelConfig}
    {outgoing incoming : Nat} {es fs : List Event}
    (hrun : (start info config outgoing incoming).run es = some s) {c : Closing}
    (hk : s.uses[k]? = some (.closing c)) (hc : c.Emptied) (hlater : s.run fs = some s') :
    s'.channel.desk.table = { entries := [], closed := true } ∧
    (∀ w r, .sending w (.sent (some r)) ∈ s'.uses →
      s'.traffic.DecidedOnce r ∧ s'.traffic.Tells r ∧
      ∀ gs s'', s'.run gs = some s'' → s''.traffic.outcomesOf r = s'.traffic.outcomesOf r) ∧
    (∀ n w stage, s.uses.length ≤ n → s'.uses[n]? = some (.sending w stage) →
      stage = .failed .closed ∨ stage = .begun ∧ ∀ order, s'.step (.go n order) =
        some { s' with uses := s'.uses.set n (.sending w (.failed .closed)) }) ∧
    (∀ n stage, n ≠ k → s'.uses[n]? = some (.closing stage) →
      stage = .lost ∨ stage = .begun ∧ ∀ order, s'.step (.go n order) =
        some { s' with uses := s'.uses.set n (.closing .lost) }) ∧
    ∀ (t : Line) n, t.uses[n]? = some (.closing .begun) → ∃ calls,
      t.Reaches ({ t with channel := t.channel.close, calls := t.calls ++ calls }.withUse n
        (.closing (if t.channel.active then .done else .lost))) := by
  have hcloser : Sound s ∧ OneCloser s := by
    refine run_induction (P := fun t => Sound t ∧ OneCloser t)
      (fun t t' hmove ht => ⟨ht.1.move hmove, ht.2.move ht.1 hmove⟩) hrun ⟨sound_start .., ?_⟩
    constructor
    · intro n m c c' hn
      cases hn
    · intro n removed tasks verdict hn
      cases hn
  have hshut : Shut k s.uses.length s' := by
    refine run_induction (fun _ _ hmove ht => Shut.move ht hmove) hlater
      ⟨hcloser.1, hcloser.2, ⟨c, hk, hc⟩, fun n hn w stage hstage => ?_⟩
    rw [List.getElem?_eq_none hn] at hstage
    cases hstage
  refine ⟨hshut.table, fun w r hr => ?_, fun n w stage hn hstage => ?_,
    fun n stage hne hstage => ?_, fun t n => reaches_close⟩
  · have hholds : w.Holds s'.traffic (some r) := hshut.sound.uses _ hr
    have hdecided : s'.traffic.DecidedOnce r := by
      rcases hshut.sound.books.undecided_or_decided hholds.2 with ⟨hun, -⟩ | ⟨hdecided, -⟩
      · exact absurd hun.1 (hshut.not_waits r)
      · exact hdecided
    exact ⟨hdecided, hshut.tells r, fun gs s'' hgs => hshut.outcomesOf_run hdecided hgs⟩
  · rcases hshut.barred n hn w stage hstage with rfl | rfl
    · exact .inr ⟨rfl, step_bar hshut.inactive hstage⟩
    · exact .inl rfl
  · obtain ⟨c', hk', hc'⟩ := hshut.emptied
    cases stage with
    | begun => exact .inr ⟨rfl, step_lose hshut.inactive hstage⟩
    | lost => exact .inl rfl
    | won | draining call | cancelled | done =>
      exact absurd (hshut.closer.unique hstage hk' trivial hc'.won) hne

/-- A query is registered before a close and its frame is queued after it; then another send
begins. -/
def overrun : List Event :=
  [.send (.query { channel := 5 } ⟨0, 7⟩ 100), .close, .go 0 [], .go 0 [], .go 0 [],
    .desk (.proceed 0), .desk (.proceed 0), .go 1 [], .go 0 [],
    .go 1 [(⟨0, 7⟩, { ticket := 0, deadline := 100, alarm := some 0 })],
    .desk (.proceed 1), .desk (.proceed 1), .go 1 []]

def aftermath : List Event := [.go 0 [], .go 0 [], .send (.plain { channel := 5 }), .go 2 []]

theorem overrun_leaves_no_caller : ∃ s s' : Line,
    (start ⟨0, "here", "there", true⟩ {} 64 64).run overrun = some s ∧
    s.uses[1]? = some (.closing .cancelled) ∧ Closing.cancelled.Emptied ∧
    s.run aftermath = some s' ∧
    s'.uses[0]? = some (.sending (.query { channel := 5 } ⟨0, 7⟩ 100)
      (.sent (some ⟨0, ⟨0, 7⟩, 100⟩))) ∧
    s'.uses[2]? = some (.sending (.plain { channel := 5 }) (.failed .closed)) ∧
    s'.channel.desk.table = { entries := [], closed := true } ∧
    s'.traffic.DecidedOnce ⟨0, ⟨0, 7⟩, 100⟩ ∧ s'.traffic.Tells ⟨0, ⟨0, 7⟩, 100⟩ := by
  obtain ⟨s, s', hrun, hk, hlater, hquery, hsend⟩ : ∃ s s' : Line,
      (start ⟨0, "here", "there", true⟩ {} 64 64).run overrun = some s ∧
      s.uses[1]? = some (.closing .cancelled) ∧ s.run aftermath = some s' ∧
      s'.uses[0]? = some (.sending (.query { channel := 5 } ⟨0, 7⟩ 100)
        (.sent (some ⟨0, ⟨0, 7⟩, 100⟩))) ∧
      s'.uses[2]? = some (.sending (.plain { channel := 5 }) (.failed .closed)) :=
    ⟨_, _, rfl, rfl, rfl, rfl, rfl⟩
  obtain ⟨htable, htold, -⟩ := close_leaves_no_caller hrun hk trivial hlater
  obtain ⟨hdecided, htells, -⟩ := htold _ _ (List.mem_of_getElem? hquery)
  exact ⟨s, s', hrun, hk, trivial, hlater, hquery, hsend, htable, hdecided, htells⟩

end Switchboard.Line
