import Switchboard.Proofs.Channel.Correlation
import Switchboard.Proofs.Channel.Sending
import Switchboard.Proofs.Channel.Uninterrupted

/-!
# Responses reach their queries

A caller is told a packet only by a call that handed it over as a response, and what took an
entry out as a response is a response to that query. The other way round, the first packet
that comes under the id of a query comes after its frame was queued and so after it was
registered; it finds the entry if nothing else took that out. All of this is about lengths that
are 32-bit words: the header of a longer body tells another length, and a response with such a
body reaches its query with another content (`vast_answer_misread`).
-/

namespace Switchboard

/-- The reader hands a packet over to the query that waits for it. -/
theorem Line.read_of_next {s : Line} {p : Packet} {id : Identity} (hp : s.next? = some p)
    (hid : p.id = some id) (hpending : s.channel.desk.isPending id = true) :
    ∃ s', s.read = some s' ∧ s'.traffic = s.traffic.take (.response p) id ∧
      s'.channel.inbox = s.channel.inbox := by
  obtain ⟨s', hread, hinbox, htraffic⟩ := exists_read hp
  have hentry : (s.waiting? p).isSome = true := by
    rw [waiting?, hid]
    exact hpending
  rw [hid, Option.elim_some] at htraffic
  rw [if_pos hentry] at hinbox
  exact ⟨s', hread, htraffic, hinbox⟩

/-- A send of a frame whose front fills the pipe, on a channel that nobody has used for sending. -/
theorem Line.reaches_front {s : Line} {w : Parcel} {front rest : List UInt8}
    (hw : ∀ p id timeout, w ≠ .query p id timeout) (huses : s.uses = [.sending w .begun])
    (hsend : s.channel.send w.packet = (.ok (), s.channel.queueing (front ++ rest)))
    (hwriter : s.channel.writer = .waiting) (hqueue : s.channel.queue = [])
    (hbroken : s.broken = false) (hout : s.outgoing = { capacity := front.length })
    (hfront : front ≠ []) :
    ∃ channel, s.Reaches { s with
      channel
      outgoing := { capacity := front.length, content := front }
      uses := [.sending w (.sent none)] } := by
  let sent := { s with
    channel := s.channel.queueing (front ++ rest), uses := [.sending w (.sent none)] }
  have hsent : s.Reaches sent := by
    have hreaches := reaches_send (s := s) (n := 0) (by rw [huses]; rfl) hw
    rw [hsend, withUse, huses] at hreaches
    exact hreaches
  have hput : sent.outgoing.put (front ++ rest) =
      (.accepted front.length, { capacity := front.length, content := front }) := by
    have hpos := List.length_pos_iff.mpr hfront
    have hroom : min (front ++ rest).length (front.length - 0) = front.length := by
      rw [List.length_append]
      omega
    simp only [Pipe.put, sent, hout, List.length_nil, hroom, Bool.false_eq_true, if_false,
      List.take_left, List.nil_append]
    exact if_neg fun h => Nat.ne_of_gt hpos h.1
  have hqueued : sent.channel.queue = [front ++ rest] := by
    simp [sent, Channel.queueing, hqueue]
  have hwritten := reaches_written (s := sent) hwriter hqueued (by simp [hfront]) hbroken hput
  exact ⟨_, hsent.trans hwritten⟩

namespace Circuit

open Line (Sending)
open Traffic (Cause Task Verdict)

variable {c c' : Circuit} {σ : Side} {p q : Packet} {id : Identity} {n : Nat} {stage : Sending}

/-- The caller of a query is told a response to that query or no response. -/
theorem Sound.answers_of_told (hc : Sound c) {timeout : Nat} {r : Traffic.Registration}
    (hn : (c.line σ).uses[n]? = some (.sending (.query q id timeout) (.sent (some r))))
    (htold : (c.line σ).channel.desk.outcome? r.ticket = some (.ok p)) :
    (c.line σ.other).Answers q id p := by
  have hbooks := (hc.lines σ).books
  obtain ⟨⟨hid, -⟩, hr⟩ : (Parcel.query q id timeout).Holds (c.line σ).traffic (some r) :=
    (hc.lines σ).uses _ (List.mem_of_getElem? hn)
  have hmem : (r.ticket, .ok p) ∈ (c.line σ).channel.desk.outcomes := by
    obtain ⟨before, after, heq, -⟩ := List.lookup_eq_some_iff.mp htold
    rw [heq]
    exact List.mem_append_right before (List.mem_cons_self ..)
  obtain ⟨m, cause, removed, tasks, verdict, hm, hremoved, houtcome⟩ := hbooks.cause_of_told hr hmem
  cases cause with
  | response p' =>
    cases houtcome
    have hpid : p.id = some r.id := hbooks.fits_of_removes (List.mem_of_getElem? hm) hremoved
    have hne : removed ≠ [] := by
      rintro rfl
      exact absurd hremoved List.not_mem_nil
    obtain ⟨k, q', id', stage, hq', x, hx, hpx⟩ := hc.answered hm hne
    have hid' : id' = id := by
      rw [hpx] at hpid
      exact (Option.some.inj hpid).trans hid
    subst hid'
    obtain ⟨-, rfl⟩ := hc.distinct hq' ⟨timeout, hn⟩
    obtain ⟨timeout', hk⟩ := hq'
    rw [hn] at hk
    cases hk
    exact ⟨x, hx, hpx⟩
  | cancel id' | cancelAll | expiry a => cases houtcome

/-- The first packet that comes under the id of a query finds the query waiting, unless its
entry was taken out before. -/
theorem Sound.waits_of_first (hc : Sound c) {timeout : Nat}
    (hn : (c.line σ).uses[n]? = some (.sending (.query q id timeout) stage))
    (hnext : (c.line σ).next? = some p) (hid : p.id = some id)
    (hfirst : ∀ p' ∈ (c.line σ).handed, p'.id ≠ some id) (hopen : (c.line σ).Untouched id) :
    ∃ r, stage = .sent (some r) ∧ r.id = id ∧ (c.line σ).traffic.Waits r := by
  have hbooks := (hc.lines σ).books
  have hemits : (c.line σ.other).Emits p := by
    have hconveys := hc.conveys σ.other
    rw [Side.other_other] at hconveys
    exact hconveys.emits hnext
  obtain ⟨x, ⟨asks', hx⟩, hpx⟩ := hc.answers_of_emits hemits hid ⟨timeout, hn⟩ hfirst
  -- The response answers what the other end was handed, so the frame of the query is queued.
  obtain ⟨hhanded, -⟩ : (q.asQuery id).received ∈ (c.line σ.other).handed ∧ _ :=
    hc.fits σ.other _ _ hx
  obtain ⟨asks, rfl⟩ := hc.after ⟨timeout, hn⟩ hhanded rfl
  have hholds : (Parcel.query q id timeout).Holds (c.line σ).traffic asks :=
    (hc.lines σ).uses _ (List.mem_of_getElem? hn)
  cases asks with
  | none => exact absurd rfl (hholds q id timeout)
  | some r =>
    obtain ⟨⟨hrid, -⟩, hr⟩ := hholds
    refine ⟨r, rfl, hrid, (hbooks.waits_or_removed hr).resolve_right fun hremoved => ?_⟩
    obtain ⟨m, cause, removed, tasks, verdict, hm, howner⟩ := Traffic.mem_removed.mp hremoved
    obtain ⟨e, he, heq⟩ := List.mem_map.mp howner
    refine hopen _ (List.mem_of_getElem? hm) (List.mem_map.mpr ⟨e, he, ?_⟩)
    exact (congrArg Prod.snd heq).trans hrid

/-- What a response has taken out, its caller is told once and for all. -/
theorem told_run (hlines : ∀ τ, (c.line τ).Sound) {k : Nat} {r : Traffic.Registration}
    {removed : List (Identity × Pending)} {tasks : List Task} {verdict : Verdict}
    (hk : (c.line σ).calls[k]? = some (.ending (.response p) removed tasks verdict))
    (hr : r.owner ∈ removed.map QueryTable.owner) {es : List Event} (h : c.run es = some c') :
    (c'.line σ).traffic.outcomesOf r = [.ok p] ∧ (c'.line σ).traffic.Tells r := by
  obtain ⟨hlines', tasks', hk'⟩ : (∀ τ, (c'.line τ).Sound) ∧
      ∃ tasks, (c'.line σ).calls[k]? = some (.ending (.response p) removed tasks verdict) := by
    refine run_induction (P := fun c => (∀ τ, (c.line τ).Sound) ∧
      ∃ tasks, (c.line σ).calls[k]? = some (.ending (.response p) removed tasks verdict))
      (fun c c' ρ hmove hk => ⟨hmove.lines hk.1, ?_⟩) h ⟨hlines, tasks, hk⟩
    rcases hmove.line σ with heq | hline
    · exact heq ▸ hk.2
    · exact hline.later.follows.keeps
        (P := fun t => ∃ tasks, t.calls[k]? = some (.ending (.response p) removed tasks verdict))
        (fun _ _ hm hending => hm.ending hending) hk.2
  have hline := hlines' σ
  exact ⟨hline.books.outcomesOf_of_removes hk' hr,
    hline.books.tells hline.owes hk' hr (by simp)⟩

/-- The right end, where nobody else is, sends a packet whose content is told as empty: what fits
into its pipe is the frame of the packet without the content. -/
theorem reaches_hollow {c : Circuit} {w : Parcel} (hadmits : c.Admits .right (.send w))
    (hw : ∀ p id timeout, w ≠ .query p id timeout) (huses : c.right.uses = [])
    (hactive : c.right.channel.active = true) (hwriter : c.right.channel.writer = .waiting)
    (hqueue : c.right.channel.queue = []) (hbroken : c.right.broken = false)
    (hfits : Frame.bodySize w.packet ≤ c.right.channel.config.maxFrameSize)
    (hdvd : UInt32.size ∣ w.packet.content.unread.length) :
    let hollow := Frame.hollow w.packet
    let front := Frame.lengthField (Frame.bodySize hollow) ++ Frame.body hollow
    c.right.outgoing = { capacity := front.length } → ∃ channel, Reaches c { c with
      right := { c.right with
        channel
        outgoing := { capacity := front.length, content := front }
        uses := [.sending w (.sent none)] } } := by
  intro hollow front hout
  let begun := { c.right with uses := [.sending w .begun] }
  have hbegin : c.step (.turn .right (.send w)) = some (c.setLine .right begun) := by
    simp only [Circuit.step, if_pos hadmits, Line.step, line, huses, begun, Option.map_some,
      List.nil_append]
  have hsend : begun.channel.send w.packet =
      (.ok (), begun.channel.queueing (front ++ w.packet.content.unread)) := by
    have hframe := Frame.frame_of_dvd (Frame.encode_of_le hfits) hdvd
    rw [Channel.send_of_fits ⟨hactive, by simp [hwriter]⟩ hfits, hframe]
  have hfront : front ≠ [] := by
    have hbody := Frame.length_body hollow
    have hsize := Frame.content_lt_bodySize hollow
    exact List.append_ne_nil_of_right_ne_nil _ (List.ne_nil_of_length_pos (by omega))
  obtain ⟨channel, hsent⟩ := Line.reaches_front (s := begun) hw rfl hsend hwriter hqueue hbroken
    hout hfront
  exact ⟨channel, (Reaches.step hbegin).trans (.turns (σ := .right) hsent)⟩

/-- What the right end has written gets to the left end at once, where it is a packet. -/
theorem reaches_arrived {c : Circuit} {octets rest : List UInt8} {room : Nat}
    {decoder decoder' : Decoder} {p : Packet}
    (hout : c.right.outgoing.content = octets) (hoctets : octets ≠ [])
    (hreader : c.left.channel.reader = .reading decoder [])
    (hin : c.left.incoming = { capacity := room }) (hroom : octets.length ≤ room)
    (hwindow : octets.length ≤ Wired.readWindow) (hbroken : c.left.broken = false)
    (hmore : decoder.decode [] = (.more, decoder, []))
    (hdecode : decoder.decode octets = (.packet p, decoder', rest)) :
    ∃ c', Reaches c c' ∧ c'.right.uses = c.right.uses ∧ c'.left.uses = c.left.uses ∧
      c'.left.channel.desk = (c.left.channel.desk.complete p).2 := by
  let arrived := { c.left with incoming := { capacity := room, content := octets } }
  have htake : c.right.outgoing.take octets.length =
      (.octets octets, { c.right.outgoing with content := [] }) := by
    simp [Pipe.take, hout, hoctets]
  have harrive : c.left.step (.arrive octets) = some arrived := by
    simp [Line.step, Pipe.put, hin, hoctets, hroom, arrived]
  let carried : Circuit :=
    { left := arrived, right := { c.right with outgoing.content := [] } }
  have hcarry : c.step (.carry .right octets.length) = some carried := by
    simp only [Circuit.step, line, htake, Side.other, harrive, Option.map_some]
    rfl
  have htaken : arrived.incoming.take Wired.readWindow =
      (.octets octets, { capacity := room }) := by
    simp [Pipe.take, arrived, hoctets, List.take_of_length_le hwindow, hwindow]
  obtain ⟨stats, hloaded⟩ := Line.reaches_loaded (s := arrived) hreader hmore htaken hbroken
  let loaded := { c.left with
    incoming := { capacity := room }
    channel := { c.left.channel with reader := .reading decoder octets, stats } }
  let w : Wired := { loaded.toWired with
    channel := Channel.receive { loaded.channel with reader := .reading decoder' rest } p }
  have hstep : loaded.stepReader = some w := by
    simp only [Wired.stepReader, loaded, hdecode, w]
  obtain ⟨calls, hread⟩ := Line.reaches_read hstep (by simp [w, Channel.reader_receive])
  have hleft := hloaded.trans hread
  exact ⟨_, (Reaches.step hcarry).trans (.turns (σ := .left) hleft), rfl, rfl,
    Channel.desk_receive _ p⟩

/-- Two channels with the same frame limit, on which both ends query, answer what they were
handed and send packets without an id, in any interleaving of all their steps and with the
streams cut anywhere; the limit, or else the length of every body queued so far, is a 32-bit
word. A caller who is told a packet is told a response to this query: it has
its id, it is on the response channel, and it has the content that the other end gave when it
answered the query. And the first packet that comes under the id of a query ends the query
and goes to no listener, unless an expiry, a cancel or a close took its entry out before;
undisturbed, the reader's steps come to what the channel does with the packet at once. -/
theorem responses_reach_their_queries {info : Side → ChannelInfo} {config : Side → ChannelConfig}
    {outgoing incoming : Side → Nat}
    (hlimit : (config .left).maxFrameSize = (config .right).maxFrameSize) {es : List Event}
    (h : (start info config outgoing incoming).run es = some c)
    (hsized : (config .left).maxFrameSize < UInt32.size ∨ c.Sized) {timeout : Nat}
    (hn : (c.line σ).uses[n]? = some (.sending (.query q id timeout) stage)) :
    (∀ r p, stage = .sent (some r) →
      (c.line σ).channel.desk.outcome? r.ticket = some (.ok p) →
      p.channel = Routing.response ∧ p.id = some id ∧
      (q.asQuery id).received ∈ (c.line σ.other).handed ∧
      ∃ x, (c.line σ.other).Sent (.answer (q.asQuery id).received id x) ∧
        (q.asQuery id).received.response x =
          .ok (Parcel.answer (q.asQuery id).received id x).packet ∧
        p.content = .ofBytes x.unread) ∧
    (∀ p, (c.line σ).next? = some p → p.id = some id → (∀ p' ∈ (c.line σ).handed, p'.id ≠ some id) →
      (c.line σ).Untouched id →
      ∃ r entry c', stage = .sent (some r) ∧ entry.ticket = r.ticket ∧
        c.step (.turn σ .read) = some c' ∧
        (c'.line σ).calls = (c.line σ).calls ++ [.ending (.response p) [(id, entry)]
          ((Cause.response p).tasks entry) (.found true)] ∧
        (c'.line σ).channel.inbox = (c.line σ).channel.inbox ∧
        ∀ fs c'', c'.run fs = some c'' → (c''.line σ).traffic.outcomesOf r = [.ok p] ∧
          (c''.line σ).traffic.Tells r) ∧
    ∀ w, (c.line σ).stepReader = some w → w.channel.reader ≠ .ended → ∃ calls,
      (c.line σ).Reaches { c.line σ with toWired := w, calls := (c.line σ).calls ++ calls } := by
  have hwords : (config .left).maxFrameSize < UInt32.size → c.Sized := fun hword =>
    sized_run (fun σ => by cases σ; exacts [hword, hlimit ▸ hword]) h
  have hc := sound_run hlimit h (hsized.elim hwords fun hsized => hsized)
  refine ⟨?_, ?_, fun w hstep hreading => Line.reaches_read hstep hreading⟩
  · rintro r p rfl htold
    obtain ⟨x, hx, rfl⟩ := hc.answers_of_told hn htold
    obtain ⟨asks, hmem⟩ := hx
    have hfits : (q.asQuery id).received ∈ (c.line σ.other).handed ∧ _ := hc.fits σ.other _ _ hmem
    exact ⟨rfl, rfl, hfits.1, x, ⟨asks, hmem⟩, Parcel.response_eq rfl x, rfl⟩
  · intro p hnext hid hfirst hopen
    obtain ⟨r, rfl, hrid, entry, hfind, hticket⟩ := hc.waits_of_first hn hnext hid hfirst hopen
    rw [hrid] at hfind
    have hpending : (c.line σ).channel.desk.isPending id = true := by
      rw [Desk.isPending, QueryTable.isPending, show (c.line σ).channel.desk.table.find? id =
        some entry from hfind]
      rfl
    obtain ⟨s', hread, htraffic, hinbox⟩ := Line.read_of_next hnext hid hpending
    have hcalls : s'.calls = (c.line σ).calls ++ [.ending (.response p) [(id, entry)]
        ((Cause.response p).tasks entry) (.found true)] := by
      rw [Traffic.take_of_find?_some hfind] at htraffic
      exact congrArg Traffic.calls htraffic
    have hstep : c.step (.turn σ .read) = some (c.setLine σ s') := by
      simp only [step, Line.step, hread, Option.map_some]
      exact if_pos trivial
    have hlast : ((c.setLine σ s').line σ).calls[(c.line σ).calls.length]? =
        some (.ending (.response p) [(id, entry)] ((Cause.response p).tasks entry)
          (.found true)) := by
      rw [line_setLine_self, hcalls, List.getElem?_concat_length]
    have hremoved : r.owner ∈ [(id, entry)].map QueryTable.owner := by
      refine List.mem_map.mpr ⟨(id, entry), List.mem_singleton_self _, ?_⟩
      rw [QueryTable.owner, Traffic.Registration.owner, hticket, hrid]
    obtain ⟨ρ, hmove⟩ := move_of_step hstep
    refine ⟨r, entry, c.setLine σ s', rfl, hticket, hstep, ?_, ?_,
      fun fs c'' hfs => told_run (hmove.lines hc.lines) hlast hremoved hfs⟩
    · rw [line_setLine_self, hcalls]
    · rw [line_setLine_self, hinbox]

/-- A query from the left, cut in two on its way, which the right end has handed over. -/
def asking : List Event :=
  let q : Packet := { channel := 5, content := .ofBytes [1] }
  [.turn .left (.send (.query q ⟨0, 7⟩ 100))] ++ List.replicate 3 (.turn .left (.go 0 [])) ++
    List.replicate 2 (.turn .left (.desk (.proceed 0))) ++
    List.replicate 3 (.turn .left (.go 0 [])) ++ List.replicate 3 (.turn .left .write) ++
    [.carry .left 9, .turn .right .read, .carry .left 64, .turn .right .read, .turn .right .read]

def exchange : List Event :=
  let q : Packet := { channel := 5, content := .ofBytes [1] }
  asking ++
    [.turn .right (.send (.answer (q.asQuery ⟨0, 7⟩).received ⟨0, 7⟩ (.ofBytes [2])))] ++
    List.replicate 5 (.turn .right (.go 0 [])) ++ List.replicate 3 (.turn .right .write) ++
    [.carry .right 64, .turn .left .read]

def delivery : List Event :=
  [.turn .left .read, .turn .left (.desk (.proceed 1)), .turn .left (.desk (.proceed 1))]

theorem exchange_reaches_query :
    let c := start (fun _ => ⟨0, "here", "there", true⟩) (fun _ => {}) (fun _ => 64) (fun _ => 64)
    let q : Packet := { channel := 5, content := .ofBytes [1] }
    let p : Packet := { channel := -1, id := some ⟨0, 7⟩, content := .ofBytes [2] }
    (∃ c₁ c₂, c.run exchange = some c₁ ∧ c₁.left.next? = some p ∧
      c₁.step (.turn .left .read) = some c₂ ∧
      c₂.left.traffic.outcomesOf ⟨0, ⟨0, 7⟩, 100⟩ = [.ok p]) ∧
    ∃ c₁, c.run (exchange ++ delivery) = some c₁ ∧
      c₁.left.channel.desk.outcome? 0 = some (.ok p) ∧
      ∃ x, c₁.right.Sent (.answer (q.asQuery ⟨0, 7⟩).received ⟨0, 7⟩ x) ∧
        p.content = .ofBytes x.unread := by
  intro c q p
  constructor
  · obtain ⟨c₁, hrun, hquery, hnext, hhanded, huntouched⟩ : ∃ c₁ ∈ c.run exchange,
        c₁.left.uses[0]? =
          some (.sending (.query q ⟨0, 7⟩ 100) (.sent (some ⟨0, ⟨0, 7⟩, 100⟩))) ∧
        c₁.left.next? = some p ∧ (∀ p' ∈ c₁.left.handed, p'.id ≠ some ⟨0, 7⟩) ∧
        c₁.left.Untouched ⟨0, 7⟩ := by
      decide +kernel
    obtain ⟨-, hfirst, -⟩ :=
      responses_reach_their_queries (σ := .left) rfl hrun (.inl (by decide)) hquery
    obtain ⟨r, entry, c₂, hstage, -, hstep, -, -, htold⟩ :=
      hfirst p hnext rfl hhanded huntouched
    cases hstage
    exact ⟨c₁, c₂, hrun, hnext, hstep, (htold [] c₂ rfl).1⟩
  · obtain ⟨c₁, hrun, hquery, htold⟩ : ∃ c₁ ∈ c.run (exchange ++ delivery),
        c₁.left.uses[0]? =
          some (.sending (.query q ⟨0, 7⟩ 100) (.sent (some ⟨0, ⟨0, 7⟩, 100⟩))) ∧
        (c₁.left.channel.desk.outcome? 0).map Except.toOption = some (some p) := by
      decide +kernel
    have houtcome : c₁.left.channel.desk.outcome? 0 = some (.ok p) := by
      obtain ⟨outcome, houtcome, hp⟩ := Option.map_eq_some_iff.mp htold
      cases outcome with
      | ok p' =>
        cases hp
        exact houtcome
      | error e => cases hp
    obtain ⟨htold, -⟩ :=
      responses_reach_their_queries (σ := .left) rfl hrun (.inl (by decide)) hquery
    obtain ⟨-, -, -, x, hx, -, hcontent⟩ := htold _ p rfl houtcome
    exact ⟨c₁, hrun, houtcome, x, hx, hcontent⟩

/-- Under a limit of 2^33 the right end answers with 2^32 octets, and the caller is told a response
without any: the two lengths in front of them are written as those of an empty content. -/
theorem vast_answer_misread :
    let c := start (fun _ => ⟨0, "here", "there", true⟩) (fun _ => { maxFrameSize := 8589934592 })
      (fun σ => if σ = .left then 64 else 23) (fun _ => 64)
    let q : Packet := { channel := 5, content := .ofBytes [1] }
    let vast : Buffer := .ofBytes (List.replicate UInt32.size 0)
    ∃ es c', c.run es = some c' ∧
      c'.left.uses[0]? = some (.sending (.query q ⟨0, 7⟩ 100) (.sent (some ⟨0, ⟨0, 7⟩, 100⟩))) ∧
      c'.left.channel.desk.outcome? 0 = some (.ok { channel := -1, id := some ⟨0, 7⟩ }) ∧
      c'.right.Sent (.answer (q.asQuery ⟨0, 7⟩).received ⟨0, 7⟩ vast) ∧
      ∀ x, c'.right.Sent (.answer (q.asQuery ⟨0, 7⟩).received ⟨0, 7⟩ x) →
        x.unread.length = UInt32.size := by
  intro c q vast
  let answer : Parcel := .answer (q.asQuery ⟨0, 7⟩).received ⟨0, 7⟩ vast
  let hollow : Packet := { channel := -1, id := some ⟨0, 7⟩ }
  let front := Frame.lengthField (Frame.bodySize hollow) ++ Frame.body hollow
  obtain ⟨c₁, hrun, huses, hactive, hwriter, hqueue, hlimit, hout, hbroken, hhanded, hquery,
    hreader, hin, hbroken', htold⟩ : ∃ c₁ ∈ c.run asking,
      c₁.right.uses = [] ∧ c₁.right.channel.active = true ∧ c₁.right.channel.writer = .waiting ∧
      c₁.right.channel.queue = [] ∧ c₁.right.channel.config.maxFrameSize = 8589934592 ∧
      c₁.right.outgoing = { capacity := 23 } ∧ c₁.right.broken = false ∧
      (q.asQuery ⟨0, 7⟩).received ∈ c₁.right.handed ∧
      c₁.left.uses[0]? =
        some (.sending (.query q ⟨0, 7⟩ 100) (.sent (some ⟨0, ⟨0, 7⟩, 100⟩))) ∧
      c₁.left.channel.reader = .reading { limit := 8589934592 } [] ∧
      c₁.left.incoming = { capacity := 64 } ∧ c₁.left.broken = false ∧
      ((c₁.left.channel.desk.complete hollow).2.outcome? 0).map
        Except.toOption = some (some hollow) := by
    decide +kernel
  have hlength : vast.unread.length = UInt32.size := List.length_replicate
  have hdvd : UInt32.size ∣ answer.packet.content.unread.length := by
    show UInt32.size ∣ vast.unread.length
    exact hlength ▸ Nat.dvd_refl _
  have hfits : Frame.bodySize answer.packet ≤ 8589934592 := by
    have hhollow : Frame.bodySize hollow = 22 := by decide +kernel
    rw [Frame.bodySize_of_dvd hdvd, show Frame.hollow answer.packet = hollow from rfl, hhollow]
    show 22 + vast.unread.length ≤ _
    rw [hlength]
    decide
  have hadmits : c₁.Admits .right (.send answer) := ⟨⟨hhanded, rfl⟩, by rintro _ ⟨⟩⟩
  have hplain : ∀ p id timeout, answer ≠ .query p id timeout := by
    intro p id timeout h
    exact Parcel.noConfusion h
  have hfront : front.length = 23 := by decide +kernel
  have hdecode : ({ limit := 8589934592 } : Decoder).decode front =
      (.packet hollow, { limit := 8589934592 }, []) := by decide +kernel
  obtain ⟨channel, hanswered⟩ := reaches_hollow hadmits hplain huses hactive hwriter hqueue
    hbroken (hlimit ▸ hfits) hdvd (hfront ▸ hout)
  let c₂ : Circuit := { c₁ with right := { c₁.right with
    channel
    outgoing := { capacity := front.length, content := front }
    uses := [.sending answer (.sent none)] } }
  have hcontent : c₂.right.outgoing.content = front := rfl
  obtain ⟨c', hread, hright, hleft, hdesk⟩ := reaches_arrived hcontent (by decide +kernel) hreader
    hin (by decide +kernel) (by decide +kernel) hbroken' (by rfl) hdecode
  obtain ⟨es, hes⟩ := hanswered.trans hread
  refine ⟨asking ++ es, c', ?_, ?_, ?_, ⟨none, ?_⟩, fun x hx => ?_⟩
  · rw [run_append, hrun, Option.bind_some, hes]
  · rw [hleft]
    exact hquery
  · rw [hdesk]
    obtain ⟨outcome, houtcome, hp⟩ := Option.map_eq_some_iff.mp htold
    cases outcome with
    | ok p =>
      cases hp
      exact houtcome
    | error e => cases hp
  · rw [hright]
    exact List.mem_singleton_self _
  · obtain ⟨asks, hx⟩ := hx
    rw [hright] at hx
    obtain ⟨hanswer, -⟩ := Line.Use.sending.inj (List.mem_singleton.mp hx)
    obtain ⟨-, -, rfl⟩ := Parcel.answer.inj hanswer
    exact hlength

end Circuit

end Switchboard
