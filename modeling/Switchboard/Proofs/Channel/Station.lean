import Switchboard.Proofs.Channel.Dispatcher
import Switchboard.Proofs.Channel.Stream
import Switchboard.Proofs.Query.Answers

/-!
# A channel with its dispatcher

A channel in use and the dispatcher that takes packets off its inbox, with account of what
went through: the packets whose frames were queued, those that the reader handed over and what
became of each, those that were dispatched, and the runs of listeners. Whatever else moves,
what was handed over to queries are the responses that queries were told, what was posted is
what was dispatched and what waits for it, in this order, and the listeners run one after the
other with the packets that were dispatched (`Station.Sound`).
-/

namespace Switchboard

namespace Line

variable {s s' mid : Line} {p : Packet}

/-- The packets that a step has queued the frame of, in the state after it. -/
def queuedBy (s : Line) : Event → List Packet
  | .go n _ => (s.uses[n]?).elim [] Use.queued
  | .send _ | .close | .desk _ | .write | .retire | .read | .quit | .dispatch | .arrive _
  | .depart _ => []

/-- What everybody but the reader and the dispatcher keeps: the inbox, the responses that
found their queries, and the reader unless it is gone. -/
structure Aside (s s' : Line) : Prop where
  inbox : s'.channel.inbox = s.channel.inbox
  answers : s'.traffic.answers = s.traffic.answers
  reader : s'.channel.reader = s.channel.reader ∧ s'.incoming = s.incoming ∨
    s'.channel.reader = .ended

theorem Aside.of_traffic (hinbox : s'.channel.inbox = s.channel.inbox)
    (htraffic : s'.traffic = s.traffic) (hreader : s'.channel.reader = s.channel.reader)
    (hin : s'.incoming = s.incoming) : Aside s s' :=
  ⟨hinbox, congrArg Traffic.answers htraffic, .inl ⟨hreader, hin⟩⟩

theorem aside_withTraffic {e : Traffic.Event} {t : Traffic} (h : s.traffic.step e = some t)
    (he : ∀ p, e ≠ .complete p) : Aside s (s.withTraffic t) :=
  ⟨rfl, Traffic.answers_of_step h he, .inl ⟨rfl, rfl⟩⟩

theorem Use.Moves.aside {u u' : Use} (h : u.Moves s mid u') : Aside s mid := by
  cases h with
  | sending h =>
    cases h with
    | register hw h => exact aside_withTraffic h nofun
    | cancel h => exact aside_withTraffic h nofun
    | push h =>
      obtain ⟨-, rfl⟩ := push_eq_ok h
      exact .of_traffic rfl rfl rfl rfl
    | _ => exact .of_traffic rfl rfl rfl rfl
  | closing h =>
    cases h with
    | cancelAll h => exact aside_withTraffic h nofun
    | _ => exact .of_traffic rfl rfl rfl rfl

def Event.isOwn : Event → Bool
  | send _ | close | go _ _ | desk _ | write | retire | read | quit => true
  | arrive _ | depart _ | dispatch => false

/-- Only the reader and the dispatcher touch the inbox and the responses. -/
theorem aside_of_step {e : Event} (h : s.step e = some s') (hown : e.isOwn = true)
    (hread : e ≠ .read) : Aside s s' := by
  cases e with
  | read => exact absurd rfl hread
  | arrive octets | depart limit | dispatch => cases hown
  | send w | close | retire =>
    cases h
    exact .of_traffic rfl rfl rfl rfl
  | quit =>
    cases h
    exact ⟨rfl, rfl, .inr rfl⟩
  | go n order =>
    obtain ⟨u, -, hrest⟩ := Option.bind_eq_some_iff.mp h
    obtain ⟨⟨mid, u'⟩, hnext, heq⟩ := Option.bind_eq_some_iff.mp hrest
    cases heq
    have haside := (Use.moves_of_advance hnext).aside
    exact ⟨haside.inbox, haside.answers, haside.reader⟩
  | desk e =>
    simp only [step] at h
    split at h
    · rename_i he
      obtain ⟨t, ht, rfl⟩ := onDesk_eq_some h
      refine aside_withTraffic ht ?_
      rintro p rfl
      cases he
    · cases h
  | write =>
    obtain ⟨w, hw, hrest⟩ := Option.bind_eq_some_iff.mp h
    split at hrest
    · cases hrest
    · rename_i hwriter
      cases hrest
      obtain ⟨-, _, _, _, _, _, rfl, -⟩ := stepWriter_eq_some hw hwriter
      exact .of_traffic rfl rfl rfl rfl

/-- The reader hands the packet over that it finds, or it finds none and leaves everybody
alone. -/
theorem handOver_of_read (h : s.read = some s') :
    (∃ p, s.next? = some p ∧
      s'.channel.inbox =
        (if (s.waiting? p).isSome then s.channel.inbox else s.channel.inbox ++ [p]) ∧
      s'.traffic = p.id.elim s.traffic (s.traffic.take (.response p))) ∨
    s.next? = none ∧ s'.channel.inbox = s.channel.inbox ∧ s'.traffic = s.traffic := by
  cases hnext : s.next? with
  | some p =>
    obtain ⟨s'', hread, hinbox, htraffic⟩ := exists_read hnext
    rw [h, Option.some.injEq] at hread
    subst hread
    exact .inl ⟨p, rfl, hinbox, htraffic⟩
  | none =>
    obtain ⟨_, _, _, _, hreader, ⟨p, hdecode, -⟩ | ⟨_, _, _, -, -, rfl⟩⟩ := read_eq_some h
    · rw [next?_eq_some.mpr ⟨_, _, _, _, hreader, hdecode⟩] at hnext
      cases hnext
    · exact .inr ⟨rfl, rfl, rfl⟩

/-- The desk gives the packet to the query that waits for it. -/
theorem answers_handOver (s : Line) (p : Packet) :
    (p.id.elim s.traffic (s.traffic.take (.response p))).answers =
      s.traffic.answers ++ ((s.waiting? p).map fun e => (p, e.ticket)).toList := by
  cases hid : p.id with
  | none => simp [waiting?, hid]
  | some id =>
    rw [waiting?, hid]
    exact s.traffic.answers_take p id

variable {far : Line} {ps : List Packet}

/-- A step of the end that sends puts what it queues behind what is on its way. -/
theorem Carries.step (hc : Carries s far ps) {e : Event} (h : s.step e = some s')
    (hown : e.isOwn = true) (hs : Sound s) (hsized : ∀ w, s.Sized w) :
    Carries s' far (ps ++ (s'.queuedBy e).map Packet.received) := by
  have hsame (hnone : s'.queuedBy e = []) (hcarries : Carries s' far ps) :
      Carries s' far (ps ++ (s'.queuedBy e).map Packet.received) := by
    rw [hnone, List.map_nil, List.append_nil]
    exact hcarries
  cases e with
  | arrive octets | depart limit | dispatch => cases hown
  | send w | close | quit =>
    cases h
    exact hsame rfl (hc.of_upstream rfl rfl rfl)
  | retire =>
    cases h
    refine hsame rfl (hc.flow rfl (s.channel.writer.unwritten ++ s.channel.queue.flatten) ?_
      fun hw => absurd rfl hw)
    simp [upstream, Writer.unwritten]
  | go n order =>
    obtain ⟨u, hn, hrest⟩ := Option.bind_eq_some_iff.mp h
    obtain ⟨⟨mid, u'⟩, hnext, heq⟩ := Option.bind_eq_some_iff.mp hrest
    cases heq
    have hset : (s.uses.set n u')[n]? = some u' :=
      List.getElem?_set_self (List.getElem?_eq_some_iff.mp hn).1
    simp only [queuedBy, hset, Option.elim_some]
    exact (Use.moves_of_advance hnext).carries (hs.uses u (List.mem_of_getElem? hn))
      (fun w _ _ => hsized w) hc
  | desk e =>
    simp only [Line.step] at h
    split at h
    · obtain ⟨t, -, rfl⟩ := onDesk_eq_some h
      exact hsame rfl (hc.of_upstream rfl rfl rfl)
    · cases h
  | write =>
    obtain ⟨w, hw, hrest⟩ := Option.bind_eq_some_iff.mp h
    split at hrest
    · cases hrest
    · rename_i hwriter
      cases hrest
      obtain ⟨hbefore, _, _, _, _, _, rfl, hflow⟩ := stepWriter_eq_some hw hwriter
      refine hsame rfl (hc.flow rfl [] ?_ fun _ => ⟨rfl, hbefore⟩)
      rw [List.append_nil]
      exact hflow
  | read =>
    obtain ⟨decoder, buffered, decoder', buffered', -,
      ⟨p, -, hreceive⟩ | ⟨octets, incoming, stats, -, -, rfl⟩⟩ := read_eq_some h
    · obtain ⟨stats, heq⟩ := receive_eq _ p
      rw [hreceive] at heq
      cases heq
      exact hsame rfl (hc.of_upstream rfl rfl rfl)
    · exact hsame rfl (hc.of_upstream rfl rfl rfl)

end Line

/-- What became of a packet that the reader handed over. -/
inductive Fate where
  /-- It was the response to the query of this ticket. -/
  | answered (ticket : Ticket)
  | posted
  /-- The dispatcher was gone. -/
  | dropped
  deriving DecidableEq, Repr

/-- A step on the desk by somebody who holds it, apart from the channel. Responses come from
the reader alone. -/
def Traffic.Event.isAsked : Event → Bool
  | register _ _ | cancel _ | cancelAll _ => true
  | complete _ | proceed _ | elapse _ | ring _ | expire _ => false

structure Station where
  line : Line
  dispatcher : Dispatcher := .idle
  /-- The dispatcher takes no packet any more. -/
  halted : Bool := false
  /-- The packets whose frames were queued. -/
  queued : List Packet := []
  /-- The packets that the reader handed over. -/
  handed : List (Packet × Fate) := []
  /-- The packets that the dispatcher took. -/
  dispatched : List Packet := []
  heard : List Hearing := []

namespace Station

inductive Event where
  | line (e : Line.Event)
  /-- Somebody registers a query on the desk, or cancels queries. -/
  | desk (e : Traffic.Event)
  /-- The dispatcher takes a packet. -/
  | dispatch
  /-- The dispatcher goes on with its packet. -/
  | work (names : List String) (ls : List Listener)
  /-- The dispatch at hand is given up between two listeners. -/
  | lapse
  /-- The dispatcher is gone; a listener that runs goes on. -/
  | halt

def fate (s : Station) (p : Packet) : Fate :=
  match s.line.waiting? p with
  | some e => .answered e.ticket
  | none => if s.halted then .dropped else .posted

/-- The packets that a step hands over, in the state before it. -/
def handedBy (s : Station) : Line.Event → List (Packet × Fate)
  | .read => s.line.next?.toList.map fun p => (p, s.fate p)
  | .send _ | .close | .go _ _ | .desk _ | .write | .retire | .quit | .dispatch | .arrive _
  | .depart _ => []

def step (s : Station) : Event → Option Station
  | .line e =>
    if e.isOwn then
      (s.line.step e).map fun line =>
        { s with line, queued := s.queued ++ line.queuedBy e, handed := s.handed ++ s.handedBy e }
    else none
  | .desk e => if e.isAsked then (s.line.onDesk e).map fun line => { s with line } else none
  | .dispatch =>
    match s.dispatcher, s.halted, s.line.channel.inbox with
    | .idle, false, p :: _ =>
      (s.line.step .dispatch).map fun line =>
        { s with line, dispatcher := .busy p .dispatch, dispatched := s.dispatched ++ [p] }
    | _, _, _ => none
  | .work names ls =>
    (s.dispatcher.advance names ls).map fun (dispatcher, hs) =>
      { s with dispatcher, heard := s.heard ++ hs }
  | .lapse =>
    match s.dispatcher with
    | .busy _ _ => some { s with dispatcher := .idle }
    | .idle | .waiting _ _ _ => none
  | .halt => some { s with halted := true }

def posted (s : Station) : List Packet :=
  s.handed.filterMap fun
    | (p, .posted) => some p
    | (_, .answered _) | (_, .dropped) => none

def answered (s : Station) : List (Packet × Ticket) :=
  s.handed.filterMap fun
    | (p, .answered k) => some (p, k)
    | (_, .posted) | (_, .dropped) => none

def start (info : ChannelInfo) (config : ChannelConfig) (outgoing incoming : Nat) : Station :=
  { line := .start info config outgoing incoming }

/-- The states that one step can lead to, each with what lets it happen. -/
inductive Move (s : Station) : Station → Prop where
  | line {e : Line.Event} {line : Line} (hown : e.isOwn = true) (h : s.line.step e = some line) :
      Move s { s with
        line, queued := s.queued ++ line.queuedBy e, handed := s.handed ++ s.handedBy e }
  | desk {e : Traffic.Event} {t : Traffic} (hasked : e.isAsked = true)
      (h : s.line.traffic.step e = some t) : Move s { s with line := s.line.withTraffic t }
  | dispatch {p : Packet} {inbox : List Packet} (hidle : s.dispatcher = .idle)
      (hlive : s.halted = false) (hinbox : s.line.channel.inbox = p :: inbox) :
      Move s { s with
        line := { s.line with channel := { s.line.channel with inbox } }
        dispatcher := .busy p .dispatch
        dispatched := s.dispatched ++ [p] }
  | work {names : List String} {ls : List Listener} {dispatcher : Dispatcher}
      {hs : List Hearing} (h : s.dispatcher.advance names ls = some (dispatcher, hs)) :
      Move s { s with dispatcher, heard := s.heard ++ hs }
  | lapse {p : Packet} {rest : Script Nat} (h : s.dispatcher = .busy p rest) :
      Move s { s with dispatcher := .idle }
  | halt : Move s { s with halted := true }

variable {s s' : Station} {line : Line}

/-- A step of a station is one of its channel or of its dispatcher. -/
theorem move_of_step {e : Event} (h : s.step e = some s') : Move s s' := by
  cases e with
  | line e =>
    simp only [step] at h
    split at h
    · rename_i hown
      obtain ⟨line, hline, rfl⟩ := Option.map_eq_some_iff.mp h
      exact .line hown hline
    · cases h
  | desk e =>
    simp only [step] at h
    split at h
    · rename_i hasked
      obtain ⟨line, hline, rfl⟩ := Option.map_eq_some_iff.mp h
      obtain ⟨t, ht, rfl⟩ := Line.onDesk_eq_some hline
      exact .desk hasked ht
    · cases h
  | dispatch =>
    simp only [step] at h
    split at h
    · rename_i p inbox hidle hlive hinbox
      simp only [Line.step, hinbox] at h
      cases h
      exact .dispatch hidle hlive hinbox
    · cases h
  | work names ls =>
    obtain ⟨_, hnext, rfl⟩ := Option.map_eq_some_iff.mp h
    exact .work hnext
  | lapse =>
    cases hat : s.dispatcher with
    | busy p rest =>
      simp only [step, hat] at h
      cases h
      exact .lapse hat
    | idle | waiting p l rest =>
      simp only [step, hat] at h
      cases h
  | halt =>
    cases h
    exact .halt

structure Sound (s : Station) : Prop where
  line : s.line.Sound
  answers : s.line.traffic.answers = s.answered
  inbox : s.halted = false →
    s.posted = s.dispatched ++ s.line.channel.inbox ∧ ∀ x ∈ s.handed, x.2 ≠ .dropped
  taken : s.dispatched <+: s.posted
  follows : s.dispatcher.Follows s.dispatched s.heard

theorem sound_start (info : ChannelInfo) (config : ChannelConfig) (outgoing incoming : Nat) :
    Sound (start info config outgoing incoming) where
  line := Line.sound_start info config outgoing incoming
  answers := rfl
  inbox := fun _ => ⟨rfl, fun _ hx => absurd hx List.not_mem_nil⟩
  taken := List.prefix_refl []
  follows := ⟨[], rfl, rfl, nofun⟩

/-- The line moves and nothing is handed over. -/
theorem Sound.of_line (h : Sound s) (hline : line.Sound)
    (hinbox : line.channel.inbox = s.line.channel.inbox)
    (hanswers : line.traffic.answers = s.line.traffic.answers) (queued : List Packet) :
    Sound { s with line, queued } where
  line := hline
  answers := hanswers.trans h.answers
  inbox := fun hlive => ⟨hinbox ▸ (h.inbox hlive).1, (h.inbox hlive).2⟩
  taken := h.taken
  follows := h.follows

theorem handedBy_of_ne {e : Line.Event} (h : e ≠ .read) : s.handedBy e = [] := by
  cases e with
  | read => exact absurd rfl h
  | _ => rfl

theorem answered_append (s : Station) (p : Packet) (fate : Fate) :
    answered { s with handed := s.handed ++ [(p, fate)] } = s.answered ++ match fate with
      | .answered k => [(p, k)]
      | .posted | .dropped => [] := by
  cases fate <;> simp [answered]

theorem posted_append (s : Station) (p : Packet) (fate : Fate) :
    posted { s with handed := s.handed ++ [(p, fate)] } = s.posted ++ match fate with
      | .posted => [p]
      | .answered _ | .dropped => [] := by
  cases fate <;> simp [posted]

/-- A packet is handed over. -/
theorem Sound.handOver (h : Sound s) (hline : line.Sound) (p : Packet)
    (hinbox : line.channel.inbox = if (s.line.waiting? p).isSome then s.line.channel.inbox
      else s.line.channel.inbox ++ [p])
    (hanswers : line.traffic.answers =
      s.line.traffic.answers ++ ((s.line.waiting? p).map fun e => (p, e.ticket)).toList)
    (queued : List Packet) :
    Sound { s with line, queued, handed := s.handed ++ [(p, s.fate p)] } := by
  have hanswered := s.answered_append p (s.fate p)
  have hposted := s.posted_append p (s.fate p)
  refine ⟨hline, ?_, fun hlive => ?_, ?_, h.follows⟩
  · refine Eq.trans ?_ hanswered.symm
    rw [hanswers, h.answers, fate]
    cases s.line.waiting? p with
    | some e => rfl
    | none => by_cases hhalted : s.halted = true <;> simp [hhalted]
  · obtain ⟨hqueue, hdropped⟩ := h.inbox hlive
    have hlive : s.halted = false := hlive
    constructor
    · refine hposted.trans ?_
      show _ = s.dispatched ++ line.channel.inbox
      rw [hinbox, hqueue, fate]
      cases s.line.waiting? p with
      | some e => simp
      | none => simp [hlive]
    · intro x hx
      rcases List.mem_append.mp hx with hold | hnew
      · exact hdropped x hold
      · rw [List.mem_singleton.mp hnew, fate]
        cases s.line.waiting? p with
        | some e => simp
        | none => simp [hlive]
  · exact h.taken.trans ⟨_, hposted.symm⟩

/-- The accounts are kept by a step of the channel. -/
theorem Sound.line_step (h : Sound s) {e : Line.Event} (hown : e.isOwn = true)
    (hstep : s.line.step e = some line) :
    Sound { s with
      line, queued := s.queued ++ line.queuedBy e, handed := s.handed ++ s.handedBy e } := by
  have hline := h.line.move (Line.move_of_step hstep)
  by_cases hread : e = .read
  · subst hread
    obtain ⟨p, hnext, hinbox, htraffic⟩ | ⟨hnext, hinbox, htraffic⟩ :=
      Line.handOver_of_read hstep
    · simp only [handedBy, hnext, Option.toList_some, List.map_cons, List.map_nil]
      refine h.handOver hline p hinbox ?_ _
      rw [htraffic, Line.answers_handOver]
    · simp only [handedBy, hnext, Option.toList_none, List.map_nil, List.append_nil]
      exact h.of_line hline hinbox (congrArg Traffic.answers htraffic) _
  · have haside := Line.aside_of_step hstep hown hread
    rw [handedBy_of_ne hread, List.append_nil]
    exact h.of_line hline haside.inbox haside.answers _

/-- The dispatcher takes the first packet of the inbox. -/
theorem Sound.dispatch (h : Sound s) {p : Packet} {inbox : List Packet}
    (hidle : s.dispatcher = .idle) (hlive : s.halted = false)
    (hinbox : s.line.channel.inbox = p :: inbox) :
    Sound { s with
      line := { s.line with channel := { s.line.channel with inbox } }
      dispatcher := .busy p .dispatch
      dispatched := s.dispatched ++ [p] } := by
  obtain ⟨hqueue, hdropped⟩ := h.inbox hlive
  have hposted : s.posted = s.dispatched ++ [p] ++ inbox := by
    rw [hqueue, hinbox, List.append_assoc, List.singleton_append]
  refine ⟨h.line.move (.turn .dispatch), h.answers, fun _ => ⟨hposted, hdropped⟩,
    ⟨inbox, hposted.symm⟩, ?_⟩
  have hfollows := h.follows
  rw [hidle] at hfollows
  exact hfollows.take p _

/-- No step breaks the accounts. -/
theorem Sound.move (h : Sound s) (hmove : Move s s') : Sound s' := by
  cases hmove with
  | line hown hline => exact h.line_step hown hline
  | @desk e t hasked ht =>
    refine h.of_line (h.line.withTraffic ht) rfl (Traffic.answers_of_step ht ?_) s.queued
    rintro p rfl
    cases hasked
  | dispatch hidle hlive hinbox => exact h.dispatch hidle hlive hinbox
  | work hnext => exact { h with follows := h.follows.advance hnext }
  | lapse hbusy =>
    have hfollows := h.follows
    rw [hbusy] at hfollows
    exact { h with follows := hfollows.of_due rfl nofun }
  | halt => exact { h with inbox := nofun }

/-- The limit of the channel stays. -/
theorem Move.config (hmove : Move s s') :
    s'.line.channel.config = s.line.channel.config := by
  cases hmove with
  | line hown hline => exact (Line.move_of_step hline).later.config
  | _ => rfl

end Station

end Switchboard
