import Switchboard.Channel.Party
import Switchboard.Proofs.Buffer.Faults
import Switchboard.Proofs.Buffer.Source
import Switchboard.Proofs.Channel.Sending
import Switchboard.Proofs.Frame.RoundTrip

/-!
# What becomes of a query to the handlers

A query that is no invocation and an invocation that expects a result are due one reply.
The service makes one attempt to send it: the response is queued if its frame is within the
limit of the channel, and otherwise nothing is, so that the caller waits for its timeout
(`service_answers_if_fits`). Every reply is sent whose result or description is 32 octets
shorter than the limit; that a query is malformed is told in so few words that the reply is
sent whenever the limit is 1024 octets or more.
-/

namespace Switchboard

theorem VarInt.length_le_five (n : UInt32) : VarInt.length n ≤ 5 := by
  simp only [VarInt.length]
  grind

namespace Reply

def payload : Reply → List UInt8
  | success result => result.unread
  | failure description => Utf8.encode description

/-- The reply as it is read: of a result the unread octets. -/
def received : Reply → Reply
  | success result => success (.ofBytes result.unread)
  | failure description => failure description

def response (r : Reply) (id : Identity) : Packet :=
  { channel := Routing.response, id := some id, content := .ofBytes r.encode }

theorem length_encode (r : Reply) :
    r.encode.length = 1 + (lengthPrefix r.payload.length).length + r.payload.length := by
  cases r <;>
    simp only [encode, payload, Ty.encode, block, List.length_append, List.length_singleton,
      Nat.add_assoc]

/-- What goes around a result or a description takes 32 octets at most. -/
theorem bodySize_response_le (r : Reply) (id : Identity) :
    Frame.bodySize (r.response id) ≤ r.payload.length + 32 := by
  have hcontent := VarInt.length_le_five (UInt32.ofNat r.encode.length)
  have hpayload : (lengthPrefix r.payload.length).length ≤ 5 := by
    have hlt : min r.payload.length (UInt32.size - 1) < UInt32.size := by
      have hsize : UInt32.size = 4294967296 := rfl
      omega
    have hword := VarInt.length_le_five (UInt32.ofNat (min r.payload.length (UInt32.size - 1)))
    rwa [VarInt.length_eq, UInt32.toNat_ofNat_of_lt' hlt] at hword
  have hunread : (r.response id).content.unread = r.encode := rfl
  simp only [Frame.bodySize, hunread, length_encode, Frame.headerSize, Frame.identitySize] at *
  simp only [response, Option.isSome_some, if_true]
  omega

theorem reads_encode (r : Reply) (h : r.payload.length < UInt32.size) :
    reader.Reads r.encode r.received := by
  cases r with
  | success result =>
    exact (Reader.reads_bool true).bind ((Reader.reads_buffer _ h).map success)
  | failure description =>
    exact (Reader.reads_bool false).bind ((Reader.reads_text _ h).map failure)

end Reply

/-- The reply that the content of a query is due, if it is due one. -/
def Handlers.due (t : Handlers) (content : Buffer) : Option Reply :=
  match (Source.read Invocation.reader content).1 with
  | .error e => some (.failure s!"malformed invocation: {e.message}")
  | .ok i => if i.expectsResult then some (.ofOutcome (t.invoke i)) else none

section

variable {inner : String → Packet → Action Nat} {p : Packet} {id : Identity}

theorem run_service_of_error {e : BufferError}
    (h : (Source.read Invocation.reader p.content).1 = .error e) (hid : p.id = some id) :
    Listener.run inner p .service =
      .send ((Reply.failure s!"malformed invocation: {e.message}").response id)
        fun _ => .pure () := by
  simp only [Listener.run, serve_eq, h, Packet.isQuery, hid, Attempt.respond, Attempt.respondBy,
    Packet.response]
  exact congrArg (Action.send _) (funext fun r => by cases r <;> rfl)

theorem run_service_of_ok {i : Invocation}
    (h : (Source.read Invocation.reader p.content).1 = .ok i) (hid : p.id = some id)
    (hexpects : i.expectsResult = true) :
    Listener.run inner p .service =
      .handlers fun t => .send ((Reply.ofOutcome (t.invoke i)).response id) fun _ => .pure () := by
  simp only [Listener.run, serve_eq, h, Packet.isQuery, hid, hexpects, Attempt.respond,
    Attempt.respondBy, Packet.response]
  exact congrArg Action.handlers (funext fun t =>
    congrArg₂ Action.send rfl (funext fun r => by cases r <;> rfl))

end

theorem brief_invocation : Invocation.reader.FailsOnly BufferError.Brief := by
  have hbrief {α : Type} {r : Reader α} (h : r.FailsOnly BufferError.Structural) :
      r.FailsOnly BufferError.Brief := h.mono fun _ => BufferError.brief_of_structural
  exact Reader.brief_text.bind fun _ => Reader.brief_text.bind fun _ =>
    (hbrief Reader.fails_bool).bind fun _ => (hbrief Reader.fails_varInt).bind fun count =>
      (hbrief (Reader.fails_ensure count.toNat_lt)).bind fun _ =>
        (Reader.fails_timesAfter (hbrief Reader.fails_buffer) [] count.toNat).map

/-- The message of an error in an invocation is short, so its reply has a length. -/
theorem length_malformed_le {content : Buffer} {e : BufferError}
    (h : (Source.read Invocation.reader content).1 = .error e) :
    (Reply.failure s!"malformed invocation: {e.message}").payload.length ≤ 488 := by
  have hbrief : e.message.length ≤ 100 :=
    brief_invocation (Source.unread content) (Invocation.reader.on (Source.unread content)).2 e
      (Prod.ext h rfl)
  have hwords : "malformed invocation: ".length = 22 := by decide
  have hpayload : (Utf8.encode ("malformed invocation: " ++ e.message)).length ≤
      4 * (22 + e.message.length) := by
    rw [← hwords, ← String.length_append]
    exact Utf8.length_encode_le _
  exact Nat.le_trans hpayload (by omega)

/-- The reply to a query that is no invocation is within every limit of 1024 octets or more. -/
theorem malformed_fits {t : Handlers} {content : Buffer} {e : BufferError} {reply : Reply}
    (h : (Source.read Invocation.reader content).1 = .error e)
    (hdue : t.due content = some reply) (id : Identity) :
    Frame.bodySize (reply.response id) ≤ 1024 := by
  simp only [Handlers.due, h] at hdue
  obtain rfl := Option.some.inj hdue
  have hsize := Reply.bodySize_response_le (.failure s!"malformed invocation: {e.message}") id
  exact Nat.le_trans hsize (Nat.add_le_add_right (Nat.le_trans (length_malformed_le h) (by decide)) 32)

namespace Party

variable {inner : String → Packet → Action Nat} {party : Party} {t : Moment} {p : Packet}
  {id : Identity} {reply : Reply}

/-- The service sends the reply that a query is due, and whether it can be sent or not ends
there. -/
theorem run_service (hid : p.id = some id) (hdue : party.handlers.due p.content = some reply) :
    run (Listener.run inner p .service) party t =
      ({ party with
          channel := (party.channel.send (reply.response id)).2, suspended := none }, t) := by
  simp only [Handlers.due] at hdue
  split at hdue
  · rename_i e h
    obtain rfl := Option.some.inj hdue
    rw [run_service_of_error h hid]
    rfl
  · rename_i i h
    split at hdue
    · rename_i hexpects
      obtain rfl := Option.some.inj hdue
      rw [run_service_of_ok h hid hexpects]
      rfl
    · cases hdue

/-- The response to a query is queued once, and reads back as the reply with the query's id,
if its frame is within the limit of the channel; otherwise nothing is queued at all. It is
within the limit if its result or description is 32 octets shorter than that, and, with a
limit of 1024 octets or more, if the query is malformed. -/
theorem service_answers_if_fits (inner : String → Packet → Action Nat) (party : Party)
    (t : Moment) (p : Packet) (id : Identity) (reply : Reply) (hopen : party.channel.Open)
    (hid : p.id = some id) (hdue : party.handlers.due p.content = some reply) :
    let limit := party.channel.config.maxFrameSize
    let size := Frame.bodySize (reply.response id)
    (size ≤ limit → ∃ frame,
      run (Listener.run inner p .service) party t =
        ({ party with channel := party.channel.queueing frame, suspended := none }, t) ∧
      (size < UInt32.size → ∃ q, ({ limit } : Decoder).decode frame = (.packet q, { limit }, []) ∧
        q.channel = Routing.response ∧ q.id = some id ∧
        (Source.read Reply.reader q.content).1 = .ok reply.received)) ∧
    (limit < size →
      run (Listener.run inner p .service) party t = ({ party with suspended := none }, t)) ∧
    (reply.payload.length + 32 ≤ limit → size ≤ limit) ∧
    (1024 ≤ limit → ∀ e, (Source.read Invocation.reader p.content).1 = .error e →
      size ≤ limit) := by
  intro limit size
  rw [run_service hid hdue]
  refine ⟨fun hfits => ?_, fun hlarge => ?_, fun hshort => ?_, fun hlimit e h => ?_⟩
  · rw [Channel.send_of_fits hopen hfits]
    refine ⟨_, rfl, fun hword => ⟨(reply.response id).received, ?_, rfl, rfl, ?_⟩⟩
    · have hdecode := Decoder.decode_frame limit (reply.response id) [] hfits hword
      rwa [List.append_nil] at hdecode
    · have hpayload : reply.payload.length < UInt32.size := by
        have hcontent := Frame.content_lt_bodySize (reply.response id)
        have hencode : (reply.response id).content.unread.length = reply.encode.length := rfl
        rw [hencode, reply.length_encode] at hcontent
        omega
      have hread := Source.read_of_reads (reply.reads_encode hpayload)
        (reply.response id).received.content (List.append_nil _).symm
      rw [hread]
  · rw [Channel.send_of_tooLarge hopen.active hlarge]
  · exact Nat.le_trans (reply.bodySize_response_le id) hshort
  · exact Nat.le_trans (malformed_fits h hdue id) hlimit

/-- A panic is told to the caller. -/
theorem service_answers_if_fits_panic :
    let party : Party :=
      { channel := { info := ⟨7, "127.0.0.1:2000", "127.0.0.1:1000", false⟩,
                     config := { maxFrameSize := 1024 } },
        directory := {},
        handlers := ({} : Handlers).register "Shop" "order" fun _ => .error .panicked }
    let query : Invocation := { target := "Shop", method := "order" }
    let p : Packet := { channel := Routing.rpc, id := some ⟨0, 9⟩, content := .ofBytes query.encode }
    let reply := Reply.failure "Shop#order panicked"
    party.channel.Open ∧ p.id = some ⟨0, 9⟩ ∧ party.handlers.due p.content = some reply ∧
      ∃ frame, run (Listener.run (fun _ _ => .pure 0) p .service) party {} =
          ({ party with channel := party.channel.queueing frame, suspended := none }, {}) ∧
        ∃ q, ({ limit := 1024 } : Decoder).decode frame = (.packet q, { limit := 1024 }, []) ∧
          q.channel = Routing.response ∧ q.id = some ⟨0, 9⟩ ∧
          (Source.read Reply.reader q.content).1 = .ok reply := by
  intro party query p reply
  have hopen : party.channel.Open := ⟨rfl, by simp [party]⟩
  have hdue : party.handlers.due p.content = some reply := by decide +kernel
  have hsize : Frame.bodySize (reply.response ⟨0, 9⟩) ≤ 1024 := by decide +kernel
  obtain ⟨hfits, -⟩ :=
    service_answers_if_fits (fun _ _ => .pure 0) party {} p ⟨0, 9⟩ reply hopen rfl hdue
  obtain ⟨frame, hrun, hread⟩ := hfits hsize
  exact ⟨hopen, rfl, hdue, frame, hrun, hread (Nat.lt_of_le_of_lt hsize (by decide))⟩

/-- A handler fails with a text of 1200 characters, and under a limit of 1024 octets the
caller is told nothing. -/
theorem long_failure_unanswered :
    let party : Party :=
      { channel := { info := ⟨7, "127.0.0.1:2000", "127.0.0.1:1000", false⟩,
                     config := { maxFrameSize := 1024 } },
        directory := {},
        handlers := ({} : Handlers).register "Shop" "order" fun _ =>
          .error (.failed [String.ofList (List.replicate 1200 'x')]) }
    let query : Invocation := { target := "Shop", method := "order" }
    let p : Packet := { channel := Routing.rpc, id := some ⟨0, 9⟩, content := .ofBytes query.encode }
    party.channel.Open ∧ (Source.read Invocation.reader p.content).1.toOption = some query ∧
      query.expectsResult = true ∧ (party.handlers.due p.content).isSome = true ∧
      (run (Listener.run (fun _ _ => .pure 0) p .service) party {}).1.channel.queue = [] := by
  intro party query p
  exact ⟨⟨rfl, by simp [party]⟩, by decide +kernel, rfl, by decide +kernel, by decide +kernel⟩

end Party

end Switchboard
