import Switchboard.Proofs.Channel.Standing
import Switchboard.Proofs.Frame.Chunks

/-!
# What is on its way between two ends

What one end has queued and the other has not decoded yet: the octets that the reader holds,
those in the two pipes, what the writer has left of its frame, and the frames in the queue.
However they are cut, they decode to packets that the one end has sent, without a rest
(`Conveys`). Once the writer has ended the octets that it took along complete the row.
-/

namespace Switchboard

/-- Two decoders that agree on their next answer drain alike. -/
theorem Decoder.Drains.congr {d d' e : Decoder} {s s' r : List UInt8} {ps : List Packet}
    {a : Decoder.Answer} (h : d.Drains s ps a e r) (heq : d.decode s = d'.decode s') :
    d'.Drains s' ps a e r := by
  cases h with
  | more h => exact .more (heq.symm.trans h)
  | failed h => exact .failed (heq.symm.trans h)
  | packet h hrest => exact .packet (heq.symm.trans h) hrest

namespace Line

open Traffic (Call Cause Task Verdict)

variable {s s' near near' far far' : Line} {w : Parcel} {p : Packet} {ps : List Packet}

def Sent (s : Line) (w : Parcel) : Prop := ∃ asks, .sending w (.sent asks) ∈ s.uses

def Emits (s : Line) (p : Packet) : Prop := ∃ w, s.Sent w ∧ p = w.packet.received

/-- The packets with an id that the reader has handed over. -/
def handed (s : Line) : List Packet :=
  s.calls.filterMap fun
    | .ending (.response p) _ _ _ => some p
    | _ => none

theorem mem_handed : p ∈ s.handed ↔ ∃ (n : Nat) (removed : List (Identity × Pending))
    (tasks : List Task) (verdict : Verdict),
    s.calls[n]? = some (.ending (.response p) removed tasks verdict) := by
  rw [handed, List.mem_filterMap]
  constructor
  · rintro ⟨c, hc, heq⟩
    obtain ⟨n, hn⟩ := List.mem_iff_getElem?.mp hc
    split at heq
    · cases heq
      exact ⟨n, _, _, _, hn⟩
    · cases heq
  · rintro ⟨n, removed, tasks, verdict, hn⟩
    exact ⟨_, List.mem_of_getElem? hn, rfl⟩

/-- A send goes on with the same parcel. -/
theorem Move.sending (h : Move s s') {n : Nat} {stage : Sending}
    (hn : s.uses[n]? = some (.sending w stage)) :
    ∃ next, s'.uses[n]? = some (.sending w next) ∧
      (next = stage ∨ ∃ mid, stage.Moves s w mid next) := by
  obtain ⟨u', hn', rfl | ⟨mid, hmoves, -⟩⟩ := h.use hn
  · exact ⟨stage, hn', .inl rfl⟩
  · cases hmoves with
    | sending hmoves => exact ⟨_, hn', .inr ⟨mid, hmoves⟩⟩

/-- A send was there before the step, or it begins with it. -/
theorem Move.sending_back (h : Move s s') {n : Nat} {next : Sending}
    (hn : s'.uses[n]? = some (.sending w next)) :
    (∃ stage, s.uses[n]? = some (.sending w stage) ∧
      (next = stage ∨ ∃ mid, stage.Moves s w mid next)) ∨
    n = s.uses.length ∧ next = .begun ∧
      s' = { s with uses := s.uses ++ [.sending w .begun] } := by
  rcases h.use_back hn with ⟨u, hu, rfl | ⟨mid, hmoves, -⟩⟩ | ⟨hlast, hbegins, hs'⟩
  · exact .inl ⟨next, hu, .inl rfl⟩
  · cases hmoves with
    | sending hmoves => exact .inl ⟨_, hu, .inr ⟨mid, hmoves⟩⟩
  · cases hbegins
    exact .inr ⟨hlast, rfl, hs'⟩

theorem Turn.length_uses (h : Turn s s') : s'.uses.length = s.uses.length := by
  cases h with
  | go hn h => exact List.length_set
  | _ => rfl

theorem Move.sent (h : Move s s') (hw : s.Sent w) : s'.Sent w := by
  obtain ⟨asks, hw⟩ := hw
  obtain ⟨n, hn⟩ := List.mem_iff_getElem?.mp hw
  obtain ⟨next, hn', rfl | ⟨mid, hmoves⟩⟩ := h.sending hn
  · exact ⟨asks, List.mem_of_getElem? hn'⟩
  · cases hmoves

theorem Move.emits (h : Move s s') (hp : s.Emits p) : s'.Emits p := by
  obtain ⟨w, hw, hpw⟩ := hp
  exact ⟨w, h.sent hw, hpw⟩

theorem Move.handed (h : Move s s') (hp : p ∈ s.handed) : p ∈ s'.handed := by
  obtain ⟨n, removed, tasks, verdict, hn⟩ := mem_handed.mp hp
  have hkept : ∃ tasks, s'.calls[n]? = some (.ending (.response p) removed tasks verdict) :=
    h.later.follows.keeps
      (P := fun t => ∃ tasks, t.calls[n]? = some (.ending (.response p) removed tasks verdict))
      (fun _ _ hm hc => hm.ending hc) ⟨tasks, hn⟩
  obtain ⟨tasks', hn'⟩ := hkept
  exact mem_handed.mpr ⟨n, removed, tasks', verdict, hn'⟩

/-- A packet that is handed over was so before, or the reader decodes it now. -/
theorem Move.handed_back (h : Move s s') (hp : p ∈ s'.handed) :
    p ∈ s.handed ∨ s.next? = some p ∧ s.traffic.step (.complete p) = some s'.traffic := by
  obtain ⟨n, removed, tasks, verdict, hn⟩ := mem_handed.mp hp
  rcases h.ending_back hn with ⟨rest, hold, -⟩ | ⟨-, e, hstep, hprompts, hbegins⟩
  · exact .inl (mem_handed.mpr ⟨n, removed, rest, verdict, hold⟩)
  · obtain rfl := hbegins.eq_complete
    exact .inr ⟨hprompts, hstep⟩

/-- What this end has queued and not passed on, in order. -/
def upstream (s : Line) : List UInt8 :=
  s.outgoing.content ++ s.channel.writer.unwritten ++ s.channel.queue.flatten

/-- What is on its way decodes to these packets, as long as somebody reads. -/
def Carries (near far : Line) (ps : List Packet) : Prop :=
  ∀ decoder buffered, far.channel.reader = .reading decoder buffered →
    ∃ lost, decoder.Drains (buffered ++ (far.incoming.content ++ (near.upstream ++ lost))) ps
        .more { limit := near.channel.config.maxFrameSize } [] ∧
      (near.channel.writer ≠ .ended → lost = [])

/-- What is on its way decodes to packets that were sent. -/
def Conveys (near far : Line) : Prop :=
  ∀ decoder buffered, far.channel.reader = .reading decoder buffered →
    ∃ ps lost, decoder.Drains (buffered ++ (far.incoming.content ++ (near.upstream ++ lost))) ps
        .more { limit := near.channel.config.maxFrameSize } [] ∧
      (near.channel.writer ≠ .ended → lost = []) ∧ ∀ p ∈ ps, near.Emits p

/-- The limit refuses the packet, or the length of its body fits a word. -/
def Sized (s : Line) (w : Parcel) : Prop :=
  Frame.bodySize w.packet ≤ s.channel.config.maxFrameSize → Frame.bodySize w.packet < UInt32.size

theorem Carries.of_ended (h : far.channel.reader = .ended) : Carries near far ps := by
  intro decoder buffered hreader
  rw [h] at hreader
  cases hreader

/-- What is on its way is some list of packets, each of which was sent. -/
theorem conveys_iff :
    Conveys near far ↔ ∃ ps, Carries near far ps ∧ ∀ p ∈ ps, near.Emits p := by
  constructor
  · intro h
    cases hreader : far.channel.reader with
    | ended => exact ⟨[], .of_ended hreader, by simp⟩
    | reading decoder buffered =>
      obtain ⟨ps, lost, hdrains, hlost, hps⟩ := h decoder buffered hreader
      refine ⟨ps, fun d b hreading => ?_, hps⟩
      rw [hreader, ChannelReader.reading.injEq] at hreading
      obtain ⟨rfl, rfl⟩ := hreading
      exact ⟨lost, hdrains, hlost⟩
  · rintro ⟨ps, h, hps⟩ decoder buffered hreader
    obtain ⟨lost, hdrains, hlost⟩ := h decoder buffered hreader
    exact ⟨ps, lost, hdrains, hlost, hps⟩

/-- Octets move along, or are lost with the writer. -/
theorem Carries.flow (h : Carries near far ps)
    (hconfig : near'.channel.config = near.channel.config) (rest : List UInt8)
    (hup : near'.upstream ++ rest = near.upstream)
    (hrest : near'.channel.writer ≠ .ended → rest = [] ∧ near.channel.writer ≠ .ended) :
    Carries near' far ps := by
  intro decoder buffered hreader
  obtain ⟨lost, hdrains, hlost⟩ := h decoder buffered hreader
  refine ⟨rest ++ lost, ?_, fun hwriter => ?_⟩
  · rw [hconfig, ← List.append_assoc near'.upstream, hup]
    exact hdrains
  · obtain ⟨rfl, hbefore⟩ := hrest hwriter
    exact hlost hbefore

theorem Carries.of_upstream (h : Carries near far ps)
    (hconfig : near'.channel.config = near.channel.config)
    (hwriter : near'.channel.writer = near.channel.writer)
    (hup : near'.upstream = near.upstream) : Carries near' far ps :=
  h.flow hconfig [] (by rw [List.append_nil, hup]) fun hw => ⟨rfl, hwriter ▸ hw⟩

/-- A frame that a channel makes of a packet drains to that packet. -/
theorem drains_frame {c : Channel} {frame : List UInt8} (h : c.frame p = .ok frame)
    (hword : Frame.bodySize p ≤ c.config.maxFrameSize → Frame.bodySize p < UInt32.size) :
    ({ limit := c.config.maxFrameSize } : Decoder).Drains frame [p.received] .more
      { limit := c.config.maxFrameSize } [] := by
  have hencode : Frame.encode c.config.maxFrameSize p = .ok frame := by
    rw [Channel.frame] at h
    split at h
    · rename_i hframe
      rw [hframe]
      cases h
      rfl
    · cases h
  obtain ⟨hsize, rfl⟩ := Frame.encode_eq_ok hencode
  have hdecode := Decoder.decode_frame c.config.maxFrameSize p [] hsize (hword hsize)
  rw [List.append_nil] at hdecode
  exact .packet hdecode (.more rfl)

/-- A frame is queued behind the others. -/
theorem Carries.push (h : Carries near far ps)
    (hconfig : near'.channel.config = near.channel.config) {frame : List UInt8}
    (hwriter : near.channel.writer ≠ .ended) (hup : near'.upstream = near.upstream ++ frame)
    (hframe : ({ limit := near.channel.config.maxFrameSize } : Decoder).Drains frame [p] .more
      { limit := near.channel.config.maxFrameSize } []) : Carries near' far (ps ++ [p]) := by
  intro decoder buffered hreader
  obtain ⟨lost, hdrains, hlost⟩ := h decoder buffered hreader
  obtain rfl := hlost hwriter
  refine ⟨[], ?_, fun _ => rfl⟩
  rw [hconfig, hup, List.append_nil, ← List.append_assoc far.incoming.content,
    ← List.append_assoc buffered]
  rw [List.append_nil] at hdrains
  exact hdrains.append hframe

def Use.queued : Use → List Packet
  | sending w (.sent _) => [w.packet]
  | sending _ _ | closing _ => []

/-- A use that goes on queues a frame behind what is on its way, or leaves that alone. -/
theorem Use.Moves.carries {u u' : Use} (h : u.Moves near near' u') (hstands : u.Stands near)
    (hsized : ∀ w asks, u' = .sending w (.sent asks) → near.Sized w) (hc : Carries near far ps) :
    Carries near' far (ps ++ u'.queued.map Packet.received) := by
  have hconfig := h.later.config
  -- All but one step leave what this end has queued as it is.
  have hsame (hqueued : u'.queued = []) (hwriter : near'.channel.writer = near.channel.writer)
      (hup : near'.upstream = near.upstream) :
      Carries near' far (ps ++ u'.queued.map Packet.received) := by
    rw [hqueued, List.map_nil, List.append_nil]
    exact hc.of_upstream hconfig hwriter hup
  cases h with
  | @sending w stage next s' h =>
    cases h with
    | push hpush =>
      obtain ⟨hwriter, rfl⟩ := push_eq_ok hpush
      refine hc.push hconfig hwriter ?_ (drains_frame hstands.1 (hsized w _ rfl))
      simp [upstream]
    | _ => exact hsame rfl rfl rfl
  | closing h => cases h <;> exact hsame rfl rfl rfl

/-- A turn of the near end adds at most a frame behind what is on its way. -/
theorem Turn.conveys (h : Turn near near') (hs : Sound near)
    (hsized : ∀ w, near'.Sent w → near.Sized w) (hc : Conveys near far) :
    Conveys near' far := by
  have hmove := Move.turn h
  have hconfig := hmove.later.config
  obtain ⟨ps, hcarries, hps⟩ := conveys_iff.mp hc
  have hemits (p : Packet) (hp : p ∈ ps) : near'.Emits p := hmove.emits (hps p hp)
  cases h with
  | @go n u u' mid hn h =>
    have hlt : n < near.uses.length := (List.getElem?_eq_some_iff.mp hn).1
    have hnext := h.carries (hs.uses u (List.mem_of_getElem? hn))
      (fun w asks hu => hsized w ⟨asks, hu ▸ List.mem_set hlt _⟩) hcarries
    refine conveys_iff.mpr ⟨_, hnext, fun p hp => ?_⟩
    rcases List.mem_append.mp hp with hold | hnew
    · exact hemits p hold
    · obtain ⟨q, hq, rfl⟩ := List.mem_map.mp hnew
      cases u' with
      | sending w stage =>
        cases stage with
        | sent asks =>
          rw [Use.queued, List.mem_singleton] at hq
          exact ⟨w, ⟨asks, List.mem_set hlt _⟩, congrArg Packet.received hq⟩
        | _ => exact absurd hq List.not_mem_nil
      | closing stage => exact absurd hq List.not_mem_nil
  | write hwriter hflow =>
    refine conveys_iff.mpr ⟨ps, hcarries.flow hconfig [] ?_ fun _ => ⟨rfl, hwriter⟩, hemits⟩
    rw [List.append_nil]
    exact hflow
  | retire =>
    refine conveys_iff.mpr ⟨ps, hcarries.flow hconfig
      (near.channel.writer.unwritten ++ near.channel.queue.flatten) ?_
      fun hw => absurd rfl hw, hemits⟩
    simp [upstream, Writer.unwritten]
  | _ => exact conveys_iff.mpr ⟨ps, hcarries.of_upstream hconfig rfl rfl, hemits⟩

theorem Carries.of_reader (h : Carries near far ps)
    (hreader : far'.channel.reader = far.channel.reader)
    (hin : far'.incoming.content = far.incoming.content) : Carries near far' ps := by
  intro decoder buffered hreading
  rw [hin]
  exact h decoder buffered (hreader.symm.trans hreading)

/-- The reader has no packet yet and takes octets in. -/
theorem Carries.load (h : Carries near far ps) {decoder decoder' : Decoder}
    {buffered buffered' octets : List UInt8}
    (hreader : far.channel.reader = .reading decoder buffered)
    (hdecode : decoder.decode buffered = (.more, decoder', buffered'))
    (hreader' : far'.channel.reader = .reading decoder' (buffered' ++ octets))
    (hin : far.incoming.content = octets ++ far'.incoming.content) : Carries near far' ps := by
  intro d b hreading
  rw [hreader', ChannelReader.reading.injEq] at hreading
  obtain ⟨rfl, rfl⟩ := hreading
  obtain ⟨lost, hdrains, hlost⟩ := h decoder buffered hreader
  refine ⟨lost, ?_, hlost⟩
  rw [hin, List.append_assoc octets] at hdrains
  rw [List.append_assoc]
  exact hdrains.congr (decoder.decode_append_more decoder' hdecode _)

/-- The packet that the reader finds is the first of those on their way. -/
theorem Carries.packet (h : Carries near far ps) {decoder decoder' : Decoder}
    {buffered buffered' : List UInt8} (hreader : far.channel.reader = .reading decoder buffered)
    (hdecode : decoder.decode buffered = (.packet p, decoder', buffered')) :
    ∃ qs, ps = p :: qs ∧ ∀ far' : Line, far'.channel.reader = .reading decoder' buffered' →
      far'.incoming.content = far.incoming.content → Carries near far' qs := by
  obtain ⟨lost, hdrains, hlost⟩ := h decoder buffered hreader
  have hnext := decoder.decode_append decoder' hdecode (by simp)
    (far.incoming.content ++ (near.upstream ++ lost))
  cases hdrains with
  | more hmore =>
    rw [hnext] at hmore
    cases hmore
  | @packet d₁ d₂ d₃ s₁ s₂ s₃ q qs a hfirst hrest =>
    rw [hnext] at hfirst
    cases hfirst
    refine ⟨qs, rfl, fun far' hreader' hin d b hreading => ⟨lost, ?_, hlost⟩⟩
    rw [hreader', ChannelReader.reading.injEq] at hreading
    obtain ⟨rfl, rfl⟩ := hreading
    rw [hin]
    exact hrest

/-- The next packet of the reader was sent. -/
theorem Conveys.emits (h : Conveys near far) (hp : far.next? = some p) : near.Emits p := by
  obtain ⟨decoder, buffered, decoder', buffered', hreader, hdecode⟩ := next?_eq_some.mp hp
  obtain ⟨ps, hcarries, hps⟩ := conveys_iff.mp h
  obtain ⟨qs, rfl, -⟩ := hcarries.packet hreader hdecode
  exact hps p (List.mem_cons_self ..)

/-- What a step of the other end does to its reader: nothing, or the reader decodes a packet,
takes octets in, or is gone. -/
theorem Turn.reader_cases (h : Turn s s') :
    (s'.channel.reader = s.channel.reader ∧ s'.incoming = s.incoming) ∨
    (∃ decoder buffered decoder' buffered' octets, s.channel.reader = .reading decoder buffered ∧
      s'.channel.reader = .reading decoder' (buffered' ++ octets) ∧
      s.incoming.content = octets ++ s'.incoming.content ∧
      (decoder.decode buffered = (.more, decoder', buffered') ∨
        octets = [] ∧ ∃ p, decoder.decode buffered = (.packet p, decoder', buffered'))) ∨
    s'.channel.reader = .ended := by
  cases h with
  | go hn h =>
    cases h with
    | sending h =>
      cases h with
      | push hpush =>
        obtain ⟨-, rfl⟩ := push_eq_ok hpush
        exact .inl ⟨rfl, rfl⟩
      | _ => exact .inl ⟨rfl, rfl⟩
    | closing h => cases h <;> exact .inl ⟨rfl, rfl⟩
  | @pass decoder decoder' buffered buffered' p _ hreader hdecode hp =>
    exact .inr (.inl ⟨decoder, buffered, decoder', buffered', [], hreader,
      by rw [List.append_nil], rfl, .inr ⟨rfl, p, hdecode⟩⟩)
  | @complete decoder decoder' buffered buffered' p _ _ _ hreader hdecode hp hinbox =>
    exact .inr (.inl ⟨decoder, buffered, decoder', buffered', [], hreader,
      by rw [List.append_nil]; rfl, rfl, .inr ⟨rfl, p, hdecode⟩⟩)
  | @load decoder decoder' buffered buffered' octets incoming _ hreader hdecode htake =>
    exact .inr (.inl ⟨decoder, buffered, decoder', buffered', octets, hreader, rfl, htake,
      .inl hdecode⟩)
  | quit => exact .inr (.inr rfl)
  | desk he h | write hwriter hflow | retire | dispatch => exact .inl ⟨rfl, rfl⟩

/-- A turn of the far end takes at most a packet off its front. -/
theorem Turn.conveyed (h : Turn far far') (hc : Conveys near far) : Conveys near far' := by
  obtain ⟨ps, hcarries, hps⟩ := conveys_iff.mp hc
  rcases h.reader_cases with ⟨hreader, hin⟩ |
    ⟨decoder, buffered, decoder', buffered', octets, hreader, hreader', hin, hdecode⟩ | hended
  · exact conveys_iff.mpr ⟨ps, hcarries.of_reader hreader (congrArg Pipe.content hin), hps⟩
  · rcases hdecode with hmore | ⟨rfl, p, hpacket⟩
    · exact conveys_iff.mpr ⟨ps, hcarries.load hreader hmore hreader' hin, hps⟩
    · rw [List.append_nil] at hreader'
      obtain ⟨qs, rfl, hrest⟩ := hcarries.packet hreader hpacket
      exact conveys_iff.mpr ⟨qs, hrest far' hreader' hin.symm,
        fun q hq => hps q (List.mem_cons_of_mem p hq)⟩
  · exact conveys_iff.mpr ⟨ps, .of_ended hended, hps⟩

/-- Octets get from one end to the other. -/
theorem Carries.carry (h : Carries near far ps) {octets : List UInt8} {outgoing incoming : Pipe}
    (hout : near.outgoing.content = octets ++ outgoing.content)
    (hin : incoming.content = far.incoming.content ++ octets) :
    Carries { near with outgoing } { far with incoming } ps := by
  intro decoder buffered hreader
  obtain ⟨lost, hdrains, hlost⟩ := h decoder buffered hreader
  refine ⟨lost, ?_, hlost⟩
  simpa only [upstream, hout, hin, List.append_assoc] using hdrains

/-- Octets that get across stay in their order. -/
theorem Conveys.carry (h : Conveys near far) {octets : List UInt8} {outgoing incoming : Pipe}
    (hout : near.outgoing.content = octets ++ outgoing.content)
    (hin : incoming.content = far.incoming.content ++ octets) :
    Conveys { near with outgoing } { far with incoming } := by
  obtain ⟨ps, hcarries, hps⟩ := conveys_iff.mp h
  exact conveys_iff.mpr ⟨ps, hcarries.carry hout hin, hps⟩

end Line

end Switchboard
