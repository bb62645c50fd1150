import Switchboard.Proofs.Channel.Line
import Switchboard.Proofs.Query.Alarms
import Switchboard.Proofs.Query.Debts

/-!
# Where the users of a channel stand

The steps of a channel in use are steps of its desk or leave the desk alone, the limit stays
and a clear active flag stays clear (`Later`). So what a use knows from its own steps stays
true whatever the others do (`Use.Stands`): a query keeps its registration, a frame is still
the frame of its packet, and a close that has cancelled all queries leaves the table closed.
-/

namespace Switchboard

open Traffic (Registration Call Cause Task Verdict)

namespace Parcel

def Asks : Parcel → Registration → Prop
  | query _ id timeout, r => r.id = id ∧ r.timeout = timeout
  | plain _, _ | answer _ _ _, _ => False

/-- A query has an accepted registration, and nothing else has one. -/
def Holds (w : Parcel) (t : Traffic) : Option Registration → Prop
  | some r => w.Asks r ∧ r ∈ t.accepted
  | none => ∀ p id timeout, w ≠ query p id timeout

/-- The call registers the query. -/
def Registers (w : Parcel) : Call → Prop
  | .entered r | .armed r | .registered r => w.Asks r
  | .refused _ _ => True
  | .ending _ _ _ _ => False

end Parcel

namespace Line

variable {s s' mid : Line} {w : Parcel}

def Follows (s s' : Line) : Prop :=
  s'.traffic = s.traffic ∨ ∃ e, s.traffic.step e = some s'.traffic

namespace Follows

/-- What the desk keeps, a step of the channel keeps. -/
theorem keeps {P : Traffic → Prop} (h : Follows s s')
    (hmove : ∀ t t', Traffic.Move t t' → P t → P t') (hs : P s.traffic) : P s'.traffic := by
  rcases h with heq | ⟨e, hstep⟩
  · exact heq ▸ hs
  · exact hmove _ _ (Traffic.move_of_step hstep) hs

theorem accepted (h : Follows s s') {r : Registration} (hr : r ∈ s.traffic.accepted) :
    r ∈ s'.traffic.accepted :=
  h.keeps (P := fun t => r ∈ t.accepted) (fun _ _ hmove ht => hmove.accepted ht) hr

/-- A call stays in its place and at most goes on. -/
theorem call (h : Follows s s') {n : Nat} {c : Call} (hn : s.calls[n]? = some c) :
    ∃ c', s'.calls[n]? = some c' ∧
      (c' = c ∨ ∃ desk, c.advance s.channel.desk s.now = some (desk, c')) := by
  rcases h with heq | ⟨e, hstep⟩
  · have hcalls : s'.calls = s.calls := congrArg Traffic.calls heq
    exact ⟨c, by rw [hcalls, hn], .inl rfl⟩
  · exact (Traffic.move_of_step hstep).call hn

theorem closed (h : Follows s s') (hs : s.channel.desk.table.closed = true) :
    s'.channel.desk.table.closed = true :=
  h.keeps (P := fun t => t.desk.table.closed = true) (fun _ _ hmove ht => hmove.closed ht) hs

end Follows

structure Later (s s' : Line) : Prop where
  follows : Follows s s'
  config : s'.channel.config = s.channel.config
  active : s.channel.active = false → s'.channel.active = false

theorem Later.of_channel (htraffic : s'.traffic = s.traffic)
    (hconfig : s'.channel.config = s.channel.config)
    (hactive : s'.channel.active = s.channel.active) : Later s s' :=
  ⟨.inl htraffic, hconfig, fun h => hactive.trans h⟩

theorem later_withTraffic {e : Traffic.Event} {t : Traffic} (h : s.traffic.step e = some t) :
    Later s (s.withTraffic t) :=
  ⟨.inr ⟨e, h⟩, rfl, id⟩

theorem push_eq_ok {c c' : Channel} {frame : List UInt8} (h : c.push frame = .ok c') :
    c.writer ≠ .ended ∧ c' = { c with queue := c.queue ++ [frame] } := by
  simp only [Channel.push] at h
  split at h <;> cases h
  rename_i hwriter
  exact ⟨hwriter, rfl⟩

/-- No use undoes what was found out by another. -/
theorem Use.Moves.later {u u' : Use} (h : u.Moves s mid u') : Later s mid := by
  cases h with
  | sending h =>
    cases h with
    | register hw h => exact later_withTraffic h
    | cancel h => exact later_withTraffic h
    | push h =>
      obtain ⟨-, rfl⟩ := push_eq_ok h
      exact .of_channel rfl rfl rfl
    | _ => exact .of_channel rfl rfl rfl
  | closing h =>
    cases h with
    | win h => exact ⟨.inl rfl, rfl, fun _ => rfl⟩
    | lose h => exact ⟨.inl rfl, rfl, fun _ => rfl⟩
    | cancelAll h => exact later_withTraffic h
    | _ => exact .of_channel rfl rfl rfl

theorem Turn.later (h : Turn s s') : Later s s' := by
  cases h with
  | go hn h => exact ⟨h.later.follows, h.later.config, h.later.active⟩
  | desk he h => exact later_withTraffic h
  | @complete _ _ _ _ p id _ _ hreader hdecode hp hinbox =>
    refine ⟨.inr ⟨.complete p, ?_⟩, rfl, fun h => h⟩
    simp only [Traffic.step, hp, traffic_withTraffic]
  | _ => exact .of_channel rfl rfl rfl

/-- Likewise for every step of the machine. -/
theorem Move.later (h : Move s s') : Later s s' := by
  cases h with
  | turn h => exact h.later
  | _ => exact .of_channel rfl rfl rfl

/-- A step begins a use, or one use goes on, or the uses stay as they are. -/
theorem Move.uses_cases (h : Move s s') :
    (∃ u, u.Begins ∧ s' = { s with uses := s.uses ++ [u] }) ∨
    (∃ (n : Nat) (u u' : Use) (mid : Line), s.uses[n]? = some u ∧ u.Moves s mid u' ∧
      s' = { mid with uses := s.uses.set n u' }) ∨
    s'.uses = s.uses := by
  cases h with
  | begin h => exact .inl ⟨_, h, rfl⟩
  | turn h =>
    cases h with
    | go hn h => exact .inr (.inl ⟨_, _, _, _, hn, h, rfl⟩)
    | _ => exact .inr (.inr rfl)
  | _ => exact .inr (.inr rfl)

/-- A use keeps its place, where it stands as it did or has gone on. -/
theorem Move.use (h : Move s s') {n : Nat} {u : Use} (hn : s.uses[n]? = some u) :
    ∃ u', s'.uses[n]? = some u' ∧
      (u' = u ∨ ∃ mid, u.Moves s mid u' ∧ s' = { mid with uses := s.uses.set n u' }) := by
  have hlt : n < s.uses.length := (List.getElem?_eq_some_iff.mp hn).1
  rcases h.uses_cases with ⟨v, -, rfl⟩ | ⟨m, v, v', mid, hm, hmoves, rfl⟩ | huses
  · exact ⟨u, by rw [List.getElem?_append_left hlt, hn], .inl rfl⟩
  · by_cases hmn : m = n
    · subst hmn
      rw [hn, Option.some.injEq] at hm
      subst hm
      exact ⟨v', by rw [List.getElem?_set_self hlt], .inr ⟨mid, hmoves, rfl⟩⟩
    · exact ⟨u, by rw [List.getElem?_set_ne hmn, hn], .inl rfl⟩
  · exact ⟨u, by rw [huses, hn], .inl rfl⟩

/-- A use after a step was there before and stood so or has gone on, or it begins. -/
theorem Move.use_back (h : Move s s') {n : Nat} {u' : Use} (hn : s'.uses[n]? = some u') :
    (∃ u, s.uses[n]? = some u ∧
      (u' = u ∨ ∃ mid, u.Moves s mid u' ∧ s' = { mid with uses := s.uses.set n u' })) ∨
    n = s.uses.length ∧ u'.Begins ∧ s' = { s with uses := s.uses ++ [u'] } := by
  rcases Nat.lt_or_ge n s.uses.length with hlt | hle
  · obtain ⟨u₁, hn', hu⟩ := h.use (List.getElem?_eq_getElem hlt)
    rw [hn, Option.some.injEq] at hn'
    subst hn'
    exact .inl ⟨_, List.getElem?_eq_getElem hlt, hu⟩
  · rcases h.uses_cases with ⟨v, hv, rfl⟩ | ⟨m, v, v', mid, hm, hmoves, rfl⟩ | huses
    · rw [List.getElem?_append_right hle, List.getElem?_singleton] at hn
      split at hn
      · cases hn
        exact .inr ⟨by omega, hv, rfl⟩
      · cases hn
    · rw [List.getElem?_eq_none (by rw [List.length_set]; exact hle)] at hn
      cases hn
    · rw [huses, List.getElem?_eq_none hle] at hn
      cases hn

/-- The packet that the reader decodes in its next step. -/
def next? (s : Line) : Option Packet :=
  match s.channel.reader with
  | .ended => none
  | .reading decoder buffered =>
    match decoder.decode buffered with
    | (.packet p, _, _) => some p
    | _ => none

theorem next?_eq_some {p : Packet} : s.next? = some p ↔ ∃ decoder buffered decoder' buffered',
    s.channel.reader = .reading decoder buffered ∧
      decoder.decode buffered = (.packet p, decoder', buffered') := by
  constructor
  · intro h
    simp only [next?] at h
    split at h
    · cases h
    · rename_i decoder buffered hreader
      split at h
      · rename_i decoder' buffered' hdecode
        cases h
        exact ⟨decoder, buffered, decoder', buffered', hreader, hdecode⟩
      · cases h
  · rintro ⟨decoder, buffered, decoder', buffered', hreader, hdecode⟩
    simp only [next?, hreader, hdecode]

def waiting? (s : Line) (p : Packet) : Option Pending := p.id.bind s.channel.desk.table.find?

/-- A packet that is handed over goes to the query that waits for it, which is out of the
table then, or else to the dispatcher. -/
theorem receive_eq (s : Line) (p : Packet) : ∃ stats, s.receive p = some (withTraffic
    { s with channel := { s.channel with
      stats
      inbox := if (s.waiting? p).isSome then s.channel.inbox else s.channel.inbox ++ [p] } }
    (p.id.elim s.traffic (s.traffic.take (.response p)))) := by
  refine ⟨{ s.channel.stats with packetsReceived := s.channel.stats.packetsReceived + 1 }, ?_⟩
  cases hid : p.id with
  | none =>
    rw [receive_of_none s hid, waiting?, hid]
    rfl
  | some id =>
    have hentry : (s.waiting? p).isSome = s.channel.desk.isPending id := by
      rw [waiting?, hid]
      rfl
    rw [hentry]
    rw [receive_of_some s hid]
    simp only [hid, onDesk, Traffic.step, Option.map_some]
    by_cases hpending : s.channel.desk.isPending id = true
    · rw [if_pos hpending, if_pos hpending]
      rfl
    · rw [if_neg hpending, if_neg hpending]
      rfl

/-- The packet that the reader decodes is handed over. -/
theorem exists_read {p : Packet} (hnext : s.next? = some p) : ∃ s', s.read = some s' ∧
    s'.channel.inbox =
      (if (s.waiting? p).isSome then s.channel.inbox else s.channel.inbox ++ [p]) ∧
    s'.traffic = p.id.elim s.traffic (s.traffic.take (.response p)) := by
  obtain ⟨decoder, buffered, decoder', buffered', hreader, hdecode⟩ := next?_eq_some.mp hnext
  obtain ⟨stats, hreceive⟩ := receive_eq { s with channel := { s.channel with
    reader := .reading decoder' buffered' } } p
  simp only [read, hreader, hdecode]
  exact ⟨_, hreceive, rfl, rfl⟩

/-- What a step must have been to take this step on the desk: a query whose frame is ready
registers, the reader hands a packet over, a close that has won cancels all queries. -/
def Prompts (s s' : Line) : Traffic.Event → Prop
  | .register id timeout =>
    ∃ (n : Nat) (q : Packet) (frame : List UInt8),
      s.uses[n]? = some (.sending (.query q id timeout) (.framed frame))
  | .complete p => s.next? = some p
  | .cancelAll _ => ∃ k : Nat, s'.uses[k]? = some (.closing (.draining s.calls.length))
  | .cancel _ | .proceed _ | .elapse _ | .ring _ | .expire _ => True

/-- Whoever moves the desk was prompted by what the channel is at. -/
theorem Move.desk (h : Move s s') :
    s'.traffic = s.traffic ∨ ∃ e, s.traffic.step e = some s'.traffic ∧ s.Prompts s' e := by
  cases h with
  | begin h => exact .inl rfl
  | arrive h => exact .inl rfl
  | depart h => exact .inl rfl
  | turn h =>
    cases h with
    | @go n u u' mid hn h =>
      cases h with
      | sending h =>
        cases h with
        | register hw h => exact .inr ⟨_, h, n, _, _, hw ▸ hn⟩
        | cancel h => exact .inr ⟨_, h, trivial⟩
        | push h =>
          obtain ⟨-, rfl⟩ := push_eq_ok h
          exact .inl rfl
        | _ => exact .inl rfl
      | closing h =>
        cases h with
        | cancelAll h =>
          exact .inr ⟨_, h, n, List.getElem?_set_self (List.getElem?_eq_some_iff.mp hn).1⟩
        | _ => exact .inl rfl
    | @desk e t he h =>
      refine .inr ⟨e, h, ?_⟩
      cases e with
      | proceed call | elapse millis | ring alarm | expire alarm => trivial
      | register id timeout | complete p | cancel id | cancelAll order => cases he
    | @complete _ _ _ _ p id _ _ hreader hdecode hp hinbox =>
      refine .inr ⟨.complete p, ?_, next?_eq_some.mpr ⟨_, _, _, _, hreader, hdecode⟩⟩
      simp only [Traffic.step, hp, traffic_withTraffic]
    | _ => exact .inl rfl

/-- A call that took entries out did so before, with at least as much to do, or the step
begins it. -/
theorem Move.ending_back (h : Move s s') {n : Nat} {cause : Cause}
    {removed : List (Identity × Pending)} {tasks : List Task} {verdict : Verdict}
    (hn : s'.calls[n]? = some (.ending cause removed tasks verdict)) :
    (∃ rest, s.calls[n]? = some (.ending cause removed rest verdict) ∧ tasks <:+ rest) ∨
      n = s.calls.length ∧ ∃ e, s.traffic.step e = some s'.traffic ∧ s.Prompts s' e ∧
        e.Begins (.ending cause removed tasks verdict) := by
  rcases h.desk with heq | ⟨e, hstep, he⟩
  · have hcalls : s'.calls = s.calls := congrArg Traffic.calls heq
    exact .inl ⟨tasks, hcalls ▸ hn, List.suffix_refl _⟩
  · exact (Traffic.ending_of_step hstep hn).imp_right fun hbegins =>
      ⟨hbegins.1, e, hstep, he, hbegins.2⟩

/-- An id that is pending was so before, or a query of that id registers. -/
theorem Move.pending_back (h : Move s s') {id : Identity}
    (hid : s'.channel.desk.isPending id = true) :
    s.channel.desk.isPending id = true ∨ ∃ (n : Nat) (q : Packet) (timeout : Nat)
      (frame : List UInt8), s.uses[n]? = some (.sending (.query q id timeout) (.framed frame)) := by
  rcases h.desk with heq | ⟨e, hstep, he⟩
  · have hdesk : s'.channel.desk = s.channel.desk := congrArg Traffic.desk heq
    exact .inl (hdesk ▸ hid)
  · rcases Traffic.pending_back hstep hid with hold | ⟨timeout, rfl⟩
    · exact .inl hold
    · obtain ⟨n, q, frame, hn⟩ := he
      exact .inr ⟨n, q, timeout, frame, hn⟩

/-- What a send has found out so far is so. -/
def Sending.Stands (s : Line) (w : Parcel) : Sending → Prop
  | framed frame => s.channel.frame w.packet = .ok frame
  | registering frame call =>
    s.channel.frame w.packet = .ok frame ∧ ∃ c, s.calls[call]? = some c ∧ w.Registers c
  | queueing frame asks | counted frame asks =>
    s.channel.frame w.packet = .ok frame ∧ w.Holds s.traffic asks
  | refused asks | sent asks => w.Holds s.traffic asks
  | withdrawing r => w.Holds s.traffic (some r)
  | begun | admitted | cancelling _ | failed _ => True

/-- What a close has done so far is so. -/
def Closing.Stands (s : Line) : Closing → Prop
  | won => s.channel.active = false
  | draining call => s.channel.active = false ∧ s.channel.desk.table.closed = true ∧
    ∃ removed tasks verdict, s.calls[call]? = some (.ending .cancelAll removed tasks verdict)
  | cancelled | done => s.channel.active = false ∧ s.channel.desk.table.closed = true
  | begun | lost => True

def Use.Stands (s : Line) : Use → Prop
  | sending w stage => stage.Stands s w
  | closing stage => stage.Stands s

structure Sound (s : Line) : Prop where
  books : s.traffic.Sound
  owes : s.traffic.Owes
  uses : ∀ u ∈ s.uses, u.Stands s

theorem Parcel.Holds.later (asks : Option Registration) (h : w.Holds s.traffic asks)
    (hlater : Later s s') : w.Holds s'.traffic asks := by
  cases asks with
  | none => exact h
  | some r => exact ⟨h.1, hlater.follows.accepted h.2⟩

theorem Parcel.Registers.advance {c c' : Call} {d desk : Desk} {now : Nat} (h : w.Registers c)
    (hnext : c.advance d now = some (desk, c')) : w.Registers c' := by
  rcases c.advance_cases hnext with
    ⟨r, rfl, -, rfl⟩ | ⟨r, rfl, -, rfl⟩ | ⟨_, _, _, _, _, rfl, -, -⟩
  · exact h
  · exact h
  · exact h.elim

theorem Later.frame (h : Later s s') (p : Packet) : s'.channel.frame p = s.channel.frame p := by
  rw [Channel.frame, Channel.frame, h.config]

/-- What a send has found out stays so, whatever others do. -/
theorem Sending.Stands.later {stage : Sending} (h : stage.Stands s w) (hlater : Later s s') :
    stage.Stands s' w := by
  cases stage with
  | framed frame => exact (hlater.frame _).trans h
  | registering frame call =>
    obtain ⟨hframe, c, hc, hregisters⟩ := h
    obtain ⟨c', hc', hsame | ⟨desk, hnext⟩⟩ := hlater.follows.call hc
    · exact ⟨(hlater.frame _).trans hframe, c', hc', hsame ▸ hregisters⟩
    · exact ⟨(hlater.frame _).trans hframe, c', hc', Parcel.Registers.advance hregisters hnext⟩
  | queueing frame asks | counted frame asks =>
    exact ⟨(hlater.frame _).trans h.1, Parcel.Holds.later _ h.2 hlater⟩
  | refused asks | sent asks => exact Parcel.Holds.later asks h hlater
  | withdrawing r => exact Parcel.Holds.later (some r) h hlater
  | begun | admitted | cancelling call | failed e => trivial

/-- Likewise for a close. -/
theorem Closing.Stands.later {stage : Closing} (h : stage.Stands s) (hlater : Later s s') :
    stage.Stands s' := by
  cases stage with
  | won => exact hlater.active h
  | draining call =>
    obtain ⟨hactive, hclosed, removed, tasks, verdict, hc⟩ := h
    obtain ⟨c', hc', rfl | ⟨desk, hnext⟩⟩ := hlater.follows.call hc
    · exact ⟨hlater.active hactive, hlater.follows.closed hclosed, removed, tasks, verdict, hc'⟩
    · obtain ⟨tasks', rfl⟩ := Traffic.Call.advance_ending hnext
      exact ⟨hlater.active hactive, hlater.follows.closed hclosed, removed, tasks', verdict, hc'⟩
  | cancelled | done => exact ⟨hlater.active h.1, hlater.follows.closed h.2⟩
  | begun | lost => trivial

theorem Use.Stands.later {u : Use} (h : u.Stands s) (hlater : Later s s') : u.Stands s' := by
  cases u with
  | sending w stage => exact Sending.Stands.later h hlater
  | closing stage => exact Closing.Stands.later h hlater

theorem registers_of_step {p : Packet} {id : Identity} {timeout : Nat} {t : Traffic}
    (h : s.traffic.step (.register id timeout) = some t) :
    ∃ c, t.calls[s.calls.length]? = some c ∧ (Parcel.query p id timeout).Registers c := by
  have happend (c : Call) (hcalls : t.calls = s.calls ++ [c]) :
      t.calls[s.calls.length]? = some c := by
    rw [hcalls, List.getElem?_concat_length]
  simp only [Traffic.step] at h
  split at h <;> cases h
  · exact ⟨_, happend _ rfl, rfl, rfl⟩
  · exact ⟨_, happend _ rfl, trivial⟩

/-- Each step of a send finds out what it then stands on. -/
theorem Sending.Moves.stands {stage next : Sending} (h : stage.Moves s w mid next)
    (hs : stage.Stands s w) : next.Stands mid w := by
  have hlater : Later s mid := (Use.Moves.sending h).later
  cases h with
  | allow h | bar h | oversize h | refuse h | uncount | cancel h | cancelled => trivial
  | frame h => exact h
  | pass h => exact ⟨hs, h⟩
  | register hw h =>
    obtain ⟨c, hc, hregisters⟩ := registers_of_step h
    exact ⟨(hlater.frame _).trans hs, c, hc, hw ▸ hregisters⟩
  | @registered frame call r h =>
    obtain ⟨hframe, c, hc, hregisters⟩ := hs
    rw [h, Option.some.injEq] at hc
    subst hc
    refine ⟨hframe, hregisters, ?_⟩
    exact List.mem_flatMap.mpr ⟨_, List.mem_of_getElem? h, List.mem_singleton_self r⟩
  | count => exact ⟨hs.1, Parcel.Holds.later _ hs.2 hlater⟩
  | push h => exact Parcel.Holds.later _ hs.2 hlater
  | reject h => exact hs.2
  | withdraw => exact Parcel.Holds.later (some _) hs hlater

theorem Closing.Moves.stands {stage next : Closing} (h : stage.Moves s mid next)
    (hs : stage.Stands s) : next.Stands mid := by
  cases h with
  | win h => rfl
  | lose h => trivial
  | @cancelAll order t h =>
    simp only [Traffic.step] at h
    split at h <;> cases h
    exact ⟨hs, rfl, _, _, _, List.getElem?_concat_length⟩
  | drained h => exact ⟨hs.1, hs.2.1⟩
  | signal => exact hs

theorem Use.Moves.stands {u u' : Use} (h : u.Moves s mid u') (hs : u.Stands s) :
    u'.Stands mid := by
  cases h with
  | sending h => exact h.stands hs
  | closing h => exact h.stands hs

theorem Use.Begins.stands {u : Use} (h : u.Begins) (s : Line) : u.Stands s := by
  cases u with
  | sending w stage =>
    cases h
    trivial
  | closing stage =>
    cases h
    trivial

/-- No step breaks the books of the channel. -/
theorem Sound.move (h : Sound s) (hmove : Move s s') : Sound s' := by
  have hlater := hmove.later
  refine ⟨hlater.follows.keeps (fun _ _ hm ht => ht.move hm) h.books,
    hlater.follows.keeps (fun _ _ hm ht => ht.move hm) h.owes, fun u' hu' => ?_⟩
  obtain ⟨n, hn⟩ := List.mem_iff_getElem?.mp hu'
  rcases hmove.use_back hn with ⟨u, hu, rfl | ⟨mid, hmoves, rfl⟩⟩ | ⟨-, hbegins, -⟩
  · exact (h.uses _ (List.mem_of_getElem? hu)).later hlater
  · exact hmoves.stands (h.uses u (List.mem_of_getElem? hu))
  · exact hbegins.stands s'

theorem Sound.withTraffic (h : Sound s) {e : Traffic.Event} {t : Traffic}
    (ht : s.traffic.step e = some t) : Sound (s.withTraffic t) where
  books := h.books.move (Traffic.move_of_step ht)
  owes := h.owes.move (Traffic.move_of_step ht)
  uses := fun u hu => (h.uses u hu).later (later_withTraffic ht)

theorem sound_start (info : ChannelInfo) (config : ChannelConfig) (outgoing incoming : Nat) :
    Sound (start info config outgoing incoming) :=
  ⟨Traffic.sound_empty, fun _ hc => absurd hc List.not_mem_nil,
    fun _ hu => absurd hu List.not_mem_nil⟩

/-- The books are right in every state that a run comes to. -/
theorem sound_run {info : ChannelInfo} {config : ChannelConfig} {outgoing incoming : Nat}
    {es : List Event} (h : (start info config outgoing incoming).run es = some s) : Sound s :=
  run_induction (fun _ _ hmove hs => hs.move hmove) h (sound_start info config outgoing incoming)

end Line

end Switchboard
