import Switchboard.Channel.Basic
import Switchboard.Proofs.Frame.Headers
import Switchboard.Proofs.Query.Table

/-!
# A packet is queued or refused

What `send` and `sendQuery` can come to is said once, by `Sent` and `Asked`. A query is
registered before its frame is queued, so a refused frame takes the registration back; it is
the one just made, for a query under an id that is pending is refused before. What the desk
has left of that is a ticket nobody holds (`Desk.cancel_registering`).
-/

namespace Switchboard

namespace QueryTable

variable {t : QueryTable} {id : Identity}

theorem find?_push (h : t.find? id = none) (p : Pending) : (t.push id p).find? id = some p := by
  rw [find?, push, List.lookup_append, ← find?, h, Option.none_or, List.lookup_cons_self]

theorem attach_push (h : t.find? id = none) (p : Pending) (alarm : Ticket) :
    (t.push id p).attach id alarm = t.push id { p with alarm := some alarm } := by
  have hothers : t.entries.map (fun e =>
      if e.1 = id then (e.1, { e.2 with alarm := some alarm }) else e) = t.entries := by
    rw [List.map_congr_left fun e he => if_neg (find?_eq_none.mp h e he), List.map_id']
  simp only [attach, push, List.map_append, hothers, List.map_cons, List.map_nil, if_true]

theorem remove_push (h : t.find? id = none) (p : Pending) :
    (t.push id p).remove id = (some p, t) := by
  have hothers : t.entries.filter (fun e => e.1 ≠ id) = t.entries :=
    congrArg (fun r => r.2.entries) (remove_none h)
  have hself : [(id, p)].filter (fun e => e.1 ≠ id) = [] := by simp
  rw [remove, find?_push h, push, List.filter_append, hothers, hself, List.append_nil]

end QueryTable

namespace Desk

def registering (d : Desk) (id : Identity) (timeout now : Nat) : Desk :=
  { d with
    table := d.table.push id
      { ticket := d.nextTicket, deadline := now + timeout, alarm := some d.nextTicket }
    alarms := d.alarms ++ [{ ticket := d.nextTicket, id, timeout, due := now + timeout }]
    nextTicket := d.nextTicket + 1 }

theorem register_free {d : Desk} (h : d.table.closed = false) {id : Identity}
    (hid : d.table.find? id = none) (timeout now : Nat) :
    d.register id timeout now = .ok (d.nextTicket, d.registering id timeout now) := by
  simp only [register, enter, QueryTable.insert_free h hid, arm, attach,
    QueryTable.attach_push hid, registering]

/-- A registration that succeeds finds the id free and adds one entry and one alarm. -/
theorem register_eq_ok {d e : Desk} {id : Identity} {timeout now : Nat} {ticket : Ticket}
    (h : d.register id timeout now = .ok (ticket, e)) :
    d.table.find? id = none ∧ ticket = d.nextTicket ∧ e = d.registering id timeout now := by
  cases hclosed : d.table.closed with
  | true =>
    rw [register, enter, QueryTable.insert_closed hclosed] at h
    cases h
  | false =>
    cases hid : d.table.find? id with
    | none =>
      rw [register_free hclosed hid] at h
      cases h
      exact ⟨rfl, rfl, rfl⟩
    | some entry =>
      have hpending : d.table.isPending id = true := by rw [QueryTable.isPending, hid]; rfl
      rw [register, enter, QueryTable.insert_duplicate hclosed hpending] at h
      cases h

/-- The desk once the query that was registered last is taken back: its ticket is used up and
its alarm is off. -/
def revoking (d : Desk) : Desk :=
  { d with
    alarms := d.alarms.filter fun a => a.ringing || a.ticket ≠ d.nextTicket
    outcomes := d.outcomes ++ [(d.nextTicket, .error .closed)]
    nextTicket := d.nextTicket + 1 }

/-- Taking the query back leaves the desk as if it had not been, but for a used ticket. -/
theorem cancel_registering {d : Desk} {id : Identity} (hid : d.table.find? id = none)
    (timeout now : Nat) : ((d.registering id timeout now).cancel id).2 = d.revoking := by
  have htake : (d.registering id timeout now).take id =
      (some { ticket := d.nextTicket, deadline := now + timeout, alarm := some d.nextTicket },
        { d.registering id timeout now with table := d.table }) := by
    rw [take, registering, QueryTable.remove_push hid]
  rw [cancel, htake]
  simp [settle, silence, tell, registering, revoking]

end Desk

namespace Channel

/-- The channel with one more frame in its queue. -/
def queueing (c : Channel) (frame : List UInt8) : Channel :=
  { c with queue := c.queue ++ [frame], queued := c.queued + 1 }

structure Open (c : Channel) : Prop where
  active : c.active = true
  writer : c.writer ≠ .ended

variable {c : Channel}

theorem enqueue_of_ended (h : c.writer = .ended) (frame : List UInt8) :
    c.enqueue frame = (.error .closed, c) := by
  have hpush : c.countUp.push frame = .error .closed := by
    have hwriter : c.countUp.writer = .ended := h
    rw [push, hwriter]
  have hcount : c.countUp.countDown = c := by
    simp only [countUp, countDown, Int.add_sub_cancel]
  simp only [enqueue, hpush, hcount]

/-- With a writer the frame is counted and queued. -/
theorem enqueue_of_not_ended (h : c.writer ≠ .ended) (frame : List UInt8) :
    c.enqueue frame = (.ok (), c.queueing frame) := by
  have hpush : c.countUp.push frame = .ok (c.queueing frame) := by
    have hwriter : c.countUp.writer ≠ .ended := h
    rw [push]
    split
    · contradiction
    · rfl
  simp only [enqueue, hpush]

inductive Sent (c : Channel) (p : Packet) : Except ChannelError Unit × Channel → Prop
  | inactive (h : c.active = false) : Sent c p (.error .closed, c)
  | tooLarge (h : c.active = true) {e : FrameError}
      (hframe : Frame.encode c.config.maxFrameSize p = .error e) : Sent c p (.error (.frame e), c)
  | refused (h : c.active = true) (hwriter : c.writer = .ended) : Sent c p (.error .closed, c)
  | queued (h : c.Open) {frame : List UInt8}
      (hframe : Frame.encode c.config.maxFrameSize p = .ok frame) : Sent c p (.ok (), c.queueing frame)

/-- The cases of `send`, each with its result. -/
theorem sent_send (c : Channel) (p : Packet) : c.Sent p (c.send p) := by
  cases h : c.active with
  | false =>
    simp only [send, h]
    exact .inactive h
  | true =>
    simp only [send, h, if_true, frame]
    cases hframe : Frame.encode c.config.maxFrameSize p with
    | error e => exact .tooLarge h hframe
    | ok frame =>
      by_cases hwriter : c.writer = .ended
      · simp only [enqueue_of_ended hwriter]
        exact .refused h hwriter
      · simp only [enqueue_of_not_ended hwriter]
        exact .queued ⟨h, hwriter⟩ hframe

theorem send_of_fits (h : c.Open) {p : Packet} (hfits : Frame.bodySize p ≤ c.config.maxFrameSize) :
    c.send p = (.ok (), c.queueing (Frame.lengthField (Frame.bodySize p) ++ Frame.body p)) := by
  simp only [send, h.active, if_true, frame, Frame.encode_of_le hfits, enqueue_of_not_ended h.writer]

theorem send_of_tooLarge (h : c.active = true) {p : Packet}
    (hlarge : c.config.maxFrameSize < Frame.bodySize p) : (c.send p).2 = c := by
  simp only [send, h, frame, Frame.encode_eq_ite, if_pos hlarge, if_true]

/-- What `sendQuery` comes to. -/
inductive Asked (c : Channel) (p : Packet) (fresh : Identity) (timeout now : Nat) :
    Except ChannelError (Identity × Ticket) × Channel → Prop
  | inactive (h : c.active = false) : Asked c p fresh timeout now (.error .closed, c)
  | tooLarge (h : c.active = true) {e : FrameError}
      (hframe : Frame.encode c.config.maxFrameSize (p.asQuery (p.id.getD fresh)) = .error e) :
      Asked c p fresh timeout now (.error (.frame e), c)
  | unregistered (h : c.active = true) {e : QueryError}
      (hregister : c.desk.register (p.id.getD fresh) timeout now = .error e) :
      Asked c p fresh timeout now (.error (.query e), c)
  | refused (h : c.active = true) (hfree : c.desk.table.find? (p.id.getD fresh) = none)
      (hwriter : c.writer = .ended) :
      Asked c p fresh timeout now (.error .closed, { c with desk := c.desk.revoking })
  | queued (h : c.Open) (hfree : c.desk.table.find? (p.id.getD fresh) = none)
      {frame : List UInt8}
      (hframe : Frame.encode c.config.maxFrameSize (p.asQuery (p.id.getD fresh)) = .ok frame) :
      Asked c p fresh timeout now (.ok (p.id.getD fresh, c.desk.nextTicket),
        { c.queueing frame with desk := c.desk.registering (p.id.getD fresh) timeout now })

/-- The cases of `sendQuery`: what was registered is taken back when the frame is refused. -/
theorem asked_sendQuery (c : Channel) (p : Packet) (fresh : Identity) (timeout now : Nat) :
    c.Asked p fresh timeout now (c.sendQuery p fresh timeout now) := by
  cases h : c.active with
  | false =>
    simp only [sendQuery, h]
    exact .inactive h
  | true =>
    simp only [sendQuery, h, if_true, frame]
    cases hframe : Frame.encode c.config.maxFrameSize (p.asQuery (p.id.getD fresh)) with
    | error e => exact .tooLarge h hframe
    | ok frame =>
      cases hregister : c.desk.register (p.id.getD fresh) timeout now with
      | error e =>
        simp only [register, hregister]
        exact .unregistered h hregister
      | ok registered =>
        obtain ⟨ticket, desk⟩ := registered
        obtain ⟨hfree, rfl, rfl⟩ := Desk.register_eq_ok hregister
        simp only [register, hregister]
        by_cases hwriter : c.writer = .ended
        · rw [enqueue_of_ended (by exact hwriter)]
          simp only [cancel, Desk.cancel_registering hfree]
          exact .refused h hfree hwriter
        · rw [enqueue_of_not_ended (by exact hwriter)]
          exact .queued ⟨h, hwriter⟩ hfree hframe

/-- A packet that is not queued leaves its channel as it was. So does a query, but for its own
registration: where that had to be taken back, a ticket is used up, and told that the channel
is closed; the pending queries and their alarms stay. A query that is queued is one frame more
and one entry more, under an id that was free, and its frame is read back exactly if the size
of its body is below 2 ^ 32, which it is under every limit that is. -/
theorem sends_all_or_nothing (c : Channel) (p : Packet) (fresh : Identity) (timeout now : Nat) :
    (∀ e, (c.send p).1 = .error e → (c.send p).2 = c) ∧
    let (answer, after) := c.sendQuery p fresh timeout now
    (∀ e, answer = .error e →
      after.queue = c.queue ∧ after.queued = c.queued ∧ after.desk.table = c.desk.table ∧
      after = { c with desk := after.desk } ∧
      (after.desk = c.desk ∨ after.desk.outcomes =
        c.desk.outcomes ++ [(c.desk.nextTicket, .error .closed)]) ∧
      ((∀ a ∈ c.desk.alarms, a.ticket ≠ c.desk.nextTicket) →
        after.desk.alarms = c.desk.alarms)) ∧
    (∀ id ticket, answer = .ok (id, ticket) →
      id = p.id.getD fresh ∧ c.desk.isPending id = false ∧
      after.desk.table = c.desk.table.push id
        { ticket, deadline := now + timeout, alarm := some ticket } ∧
      ∃ frame, after.queue = c.queue ++ [frame] ∧ after.queued = c.queued + 1 ∧
        (Frame.ReadsBack c.config.maxFrameSize (p.asQuery id) frame ↔
          Frame.bodySize (p.asQuery id) < UInt32.size) ∧
        (c.config.maxFrameSize < UInt32.size →
          Frame.ReadsBack c.config.maxFrameSize (p.asQuery id) frame)) := by
  constructor
  · intro e he
    have hsent := c.sent_send p
    generalize c.send p = r at hsent he ⊢
    cases hsent with
    | inactive | tooLarge | refused => rfl
    | queued => cases he
  · have hasked := c.asked_sendQuery p fresh timeout now
    generalize c.sendQuery p fresh timeout now = r at hasked ⊢
    cases hasked with
    | inactive | tooLarge | unregistered =>
      exact ⟨fun e he => ⟨rfl, rfl, rfl, rfl, .inl rfl, fun _ => rfl⟩, fun _ _ h => (nomatch h)⟩
    | refused =>
      refine ⟨fun e he => ⟨rfl, rfl, rfl, rfl, .inr rfl, fun halarms => ?_⟩, fun _ _ h => (nomatch h)⟩
      refine List.filter_eq_self.mpr fun a ha => ?_
      rw [decide_eq_true (halarms a ha), Bool.or_true]
    | queued h hfree hframe =>
      refine ⟨fun e he => (nomatch he), fun id ticket hok => ?_⟩
      obtain ⟨rfl, rfl⟩ := Prod.mk.inj (Except.ok.inj hok)
      refine ⟨rfl, ?_, rfl, _, rfl, rfl, Frame.readsBack_iff hframe, fun hlimit => ?_⟩
      · rw [Desk.isPending, QueryTable.isPending, hfree, Option.isSome_none]
      · have hle := (Frame.encode_eq_ok hframe).1
        exact (Frame.readsBack_iff hframe).mpr (Nat.lt_of_le_of_lt hle hlimit)

/-- A query under an id that is pending, and one under a fresh id. -/
theorem sends_all_or_nothing_busy :
    let c : Channel :=
      { info := ⟨7, "127.0.0.1:2000", "127.0.0.1:1000", false⟩
        config := { maxFrameSize := 64 }
        desk := { table := { entries := [(⟨0, 9⟩, { ticket := 0, deadline := 100 })] },
                  nextTicket := 1 } }
    let p : Packet := { channel := 3, id := some ⟨0, 9⟩, content := .ofBytes [1, 2] }
    let q : Packet := { channel := 3, content := .ofBytes [1, 2] }
    (c.sendQuery p ⟨0, 1⟩ 100 0).1 = .error (.query (.duplicate ⟨0, 9⟩)) ∧
    (c.sendQuery p ⟨0, 1⟩ 100 0).2.desk.table = c.desk.table ∧
    (c.sendQuery q ⟨0, 1⟩ 100 0).1 = .ok (⟨0, 1⟩, 1) ∧
    ∃ frame, (c.sendQuery q ⟨0, 1⟩ 100 0).2.queue = [frame] ∧
      Frame.ReadsBack 64 (q.asQuery ⟨0, 1⟩) frame := by
  intro c p q
  have hrefused : (c.sendQuery p ⟨0, 1⟩ 100 0).1 = .error (.query (.duplicate ⟨0, 9⟩)) := by rfl
  have hqueued : (c.sendQuery q ⟨0, 1⟩ 100 0).1 = .ok (⟨0, 1⟩, 1) := by rfl
  obtain ⟨-, hfailed, -⟩ := c.sends_all_or_nothing p ⟨0, 1⟩ 100 0
  obtain ⟨-, -, hasked⟩ := c.sends_all_or_nothing q ⟨0, 1⟩ 100 0
  obtain ⟨-, -, htable, -⟩ := hfailed _ hrefused
  obtain ⟨-, -, -, frame, hqueue, -, -, hread⟩ := hasked _ _ hqueued
  exact ⟨hrefused, htable, hqueued, frame, hqueue, hread (by decide)⟩

/-- Under a limit of 2 ^ 33 a response of 2 ^ 32 octets that is sent on as a query, under the id
that it has, is queued, and its frame is read as a query without any. -/
theorem vast_query_misread :
    let c : Channel :=
      { info := ⟨7, "127.0.0.1:2000", "127.0.0.1:1000", false⟩
        config := { maxFrameSize := 2 ^ 33 } }
    let request : Packet := { channel := 3, id := some ⟨0, 9⟩ }
    let p : Packet := { Frame.vast with channel := Routing.response, id := some ⟨0, 9⟩ }
    request.response Frame.vast.content = .ok p ∧
    (c.sendQuery p ⟨0, 1⟩ 100 0).1 = .ok (⟨0, 9⟩, 0) ∧
    ∃ frame, (c.sendQuery p ⟨0, 1⟩ 100 0).2.queue = [frame] ∧
      ¬Frame.ReadsBack (2 ^ 33) p frame ∧
      ({ limit := 2 ^ 33 } : Decoder).decode frame =
        (.packet { channel := Routing.response, id := some ⟨0, 9⟩ }, { limit := 2 ^ 33 },
          p.content.unread) := by
  intro c request p
  have hlength : p.content.unread.length = UInt32.size := Frame.length_vast
  have hdvd : UInt32.size ∣ p.content.unread.length := hlength ▸ Nat.dvd_refl _
  have hsize : Frame.bodySize p = 22 + UInt32.size := by
    have hhollow : Frame.bodySize (Frame.hollow p) = 22 := by decide
    rw [Frame.bodySize_of_dvd hdvd, hlength, hhollow]
  have hle : Frame.bodySize p ≤ 2 ^ 33 := by
    rw [hsize]
    decide
  have hencode := Frame.encode_of_le hle
  have hasked := c.asked_sendQuery p ⟨0, 1⟩ 100 0
  generalize c.sendQuery p ⟨0, 1⟩ 100 0 = r at hasked ⊢
  cases hasked with
  | inactive h => cases h
  | tooLarge _ hframe => cases hencode.symm.trans hframe
  | unregistered _ hregister => cases hregister
  | refused _ _ hwriter => cases hwriter
  | queued _ _ hframe =>
    refine ⟨rfl, rfl, _, rfl, fun hread => ?_, Frame.decode_of_dvd hframe hdvd⟩
    have hword := (Frame.readsBack_iff hframe).mp hread
    change Frame.bodySize p < UInt32.size at hword
    omega

end Channel

end Switchboard
