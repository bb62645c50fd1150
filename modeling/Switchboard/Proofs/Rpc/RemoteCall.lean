import Switchboard.Proofs.Buffer.RoundTrip
import Switchboard.Proofs.Rpc.Wire

/-!
# A remote call

Values are written each to a buffer of its own, the buffers to an invocation, the invocation
to a query; its frame is read back at the other end, where the handler finds the values in
their order. What the handler comes to is written to a reply, a response and a frame, and
the caller reads it back from these (`remote_call`).
-/

namespace Switchboard

/-- The frame of the packet is within the limits of both ends, and its size is a 32-bit
word. -/
structure Frame.Passes (near far : Nat) (p : Packet) : Prop where
  near : bodySize p ≤ near
  far : bodySize p ≤ far
  word : bodySize p < UInt32.size

theorem Frame.Passes.encode_eq {near far : Nat} {p : Packet} (h : Passes near far p) :
    encode near p = .ok (lengthField (bodySize p) ++ body p) := by
  rw [encode_eq_ite, if_neg (Nat.not_lt.mpr h.near)]

/-- The other end takes the frame for the packet and nothing more. -/
theorem Frame.Passes.decode_eq {near far : Nat} {p : Packet} (h : Passes near far p) :
    ({ limit := far } : Decoder).decode (lengthField (bodySize p) ++ body p) =
      (.packet p.received, { limit := far }, []) := by
  have hdecode := Decoder.decode_frame far p [] h.far h.word
  rwa [List.append_nil] at hdecode

theorem Frame.Passes.content_lt {near far : Nat} {p : Packet} (h : Passes near far p) :
    p.content.unread.length < UInt32.size :=
  Nat.lt_trans (content_lt_bodySize p) h.word

theorem length_lt_block (s : List UInt8) : s.length < (block s).length := by
  have hword : min s.length (UInt32.size - 1) < 2 ^ VarInt.Width.int.bits := by
    have hbits : 2 ^ VarInt.Width.int.bits = UInt32.size := rfl
    have hsize : UInt32.size = 4294967296 := rfl
    omega
  have := (VarInt.spells_encode .int hword).groups.length_pos
  rw [block, lengthPrefix, List.length_append]
  omega

namespace Invocation

/-- The invocation of a method on these values. -/
def ofValues (target method : String) (vs : List Typed) : Invocation :=
  vs.foldl push { target, method }

theorem foldl_push (i : Invocation) (vs : List Typed) :
    vs.foldl push i =
      { i with arguments := i.arguments ++ vs.map fun v => Buffer.ofBytes v.encode } := by
  induction vs generalizing i with
  | nil => simp
  | cons v vs ih => rw [List.foldl_cons, ih, push, List.map_cons, List.append_assoc]; rfl

theorem ofValues_eq (target method : String) (vs : List Typed) :
    ofValues target method vs =
      { target, method, arguments := vs.map fun v => Buffer.ofBytes v.encode } :=
  foldl_push { target, method } vs

def query (i : Invocation) (id : Identity) : Packet :=
  { channel := Routing.rpc, id := some id, content := .ofBytes i.encode }

theorem received_ofValues (target method : String) (vs : List Typed) :
    (ofValues target method vs).received = ofValues target method vs := by
  rw [ofValues_eq, received, List.map_map]
  rfl

/-- Each argument takes an octet at least, so an announced count is never refused. -/
theorem length_le_flatMap_block (bs : List Buffer) :
    bs.length ≤ (bs.flatMap fun b => block b.unread).length := by
  induction bs with
  | nil => exact Nat.zero_le _
  | cons b bs ih =>
    have := length_lt_block b.unread
    rw [List.flatMap_cons, List.length_append, List.length_cons]
    omega

/-- An argument is shorter than all of them as they are written. -/
theorem length_lt_of_mem {bs : List Buffer} {b : Buffer} (h : b ∈ bs) :
    b.unread.length < (bs.flatMap fun b => block b.unread).length := by
  obtain ⟨front, back, rfl⟩ := List.append_of_mem h
  have := length_lt_block b.unread
  simp only [List.flatMap_append, List.flatMap_cons, List.length_append]
  omega

/-- All lengths are those of parts of the octets. -/
theorem fits_of_length_encode {i : Invocation} (h : i.encode.length < UInt32.size) : i.Fits := by
  have htarget := length_lt_block (Utf8.encode i.target)
  have hmethod := length_lt_block (Utf8.encode i.method)
  have hcount := length_le_flatMap_block i.arguments
  simp only [encode, List.length_append] at h
  refine ⟨by omega, by omega, by omega, fun b hb => ?_⟩
  have := length_lt_of_mem hb
  omega

theorem reads_encode (i : Invocation) (h : i.encode.length < UInt32.size) :
    reader.Reads i.encode i.received :=
  parses_reader.reads (word_encode (fits_of_length_encode h))

end Invocation

namespace Arguments

def ofValues (vs : List Typed) (k : Nat) : Arguments :=
  { left := (vs.drop k).map fun v => .ofBytes v.encode, position := k }

end Arguments

namespace Handling

/-- Read arguments of these types in turn. -/
def arguments : List Ty → Handling (List Typed)
  | [] => return []
  | t :: ts => do
    let v ← argument t
    let vs ← arguments ts
    return ⟨t, v⟩ :: vs

/-- What comes after a step that succeeds goes on with its value and the arguments it left. -/
theorem run_bind {α β : Type} {work : Handling α} {next : α → Handling β} {a b : Arguments} {v : α}
    (h : work.run a = (.ok v, b)) : (work >>= next).run a = (next v).run b := by
  simp only [ExceptT.run] at h
  simp only [ExceptT.run, bind, ExceptT.bind, ExceptT.mk, StateT.bind, ExceptT.bindCont, h]

section

variable {vs : List Typed}

/-- A handler that asks for the next argument with the type it was written with gets it,
whatever it did before. -/
theorem argument_ofValues (hvs : ∀ v ∈ vs, v.Fits) {k : Nat} (hk : k < vs.length) :
    (argument vs[k].type).run (Arguments.ofValues vs k) =
      (.ok (vs[k].type.reread vs[k].value), Arguments.ofValues vs (k + 1)) := by
  have hread := Source.read_of_reads (vs[k].type.reads_encode vs[k].value
    (hvs _ (List.getElem_mem hk))) (Buffer.ofBytes vs[k].encode) (List.append_nil _).symm
  simp only [argument, ExceptT.run, Arguments.read, Arguments.ofValues, List.drop_eq_getElem_cons hk,
    List.map_cons, hread]

/-- One argument after the other, those behind `front` are read as they were written. -/
theorem arguments_ofValues (hvs : ∀ v ∈ vs, v.Fits) (front : List Typed) {back : List Typed}
    (h : vs = front ++ back) :
    (arguments (back.map Typed.type)).run (Arguments.ofValues vs front.length) =
      (.ok (back.map Typed.reread), Arguments.ofValues vs vs.length) := by
  induction back generalizing front with
  | nil =>
    rw [h, List.append_nil]
    rfl
  | cons v back ih =>
    have hk : front.length < vs.length := by
      rw [h, List.length_append, List.length_cons]
      omega
    have hv : vs[front.length] = v := by
      simp only [h, List.getElem_append_right (Nat.le_refl _), Nat.sub_self, List.getElem_cons_zero]
    have hfirst := argument_ofValues hvs hk
    have hrest := ih (front ++ [v]) (by rw [h, List.append_assoc]; rfl)
    rw [List.length_append, List.length_singleton] at hrest
    rw [hv] at hfirst
    rw [List.map_cons, arguments, run_bind hfirst, run_bind hrest]
    rfl

end

end Handling

namespace Reply

theorem value_failure {description : String} (t : Ty)
    (h : (failure description).payload.length < UInt32.size) :
    value t (.ofBytes (failure description).encode) = .error (.remote description) := by
  have hread := Source.read_of_reads ((failure description).reads_encode h)
    (Buffer.ofBytes (failure description).encode) (List.append_nil _).symm
  simp only [value, hread, received, result]

/-- The value of a successful call is read back as it was written. -/
theorem value_success {t : Ty} {v : t.Value} (hv : t.Fits v)
    (h : (success (.ofBytes (t.encode v))).payload.length < UInt32.size) :
    value t (.ofBytes (success (.ofBytes (t.encode v))).encode) = .ok (t.reread v) := by
  have hread := Source.read_of_reads ((success (.ofBytes (t.encode v))).reads_encode h)
    (Buffer.ofBytes (success (.ofBytes (t.encode v))).encode) (List.append_nil _).symm
  have hresult := Source.read_of_reads (t.reads_encode v hv) (Buffer.ofBytes (t.encode v))
    (List.append_nil _).symm
  have hbuffer : (Buffer.ofBytes (t.encode v)).unread = t.encode v := rfl
  simp only [value, hread, received, result, hbuffer, hresult]

end Reply

namespace Handlers

variable {t : Handlers} {target method : String} {vs : List Typed}

theorem invoke_of_none (h : t.find? target method = none) :
    t.invoke (.ofValues target method vs) =
      .error s!"method not found: {target}#{method}" := by
  simp only [invoke_eq, Invocation.ofValues_eq, h]
  rfl

theorem invoke_of_some {h : Handler} (hfind : t.find? target method = some h) :
    t.invoke (.ofValues target method vs) =
      match h (.ofValues vs 0) with
      | .ok result => .ok result
      | .error (.failed causes) => .error s!"{target}#{method} failed: {causes.text}"
      | .error .panicked => .error s!"{target}#{method} panicked" := by
  simp only [invoke_eq, Invocation.ofValues_eq, hfind]
  rfl

end Handlers

/-- What the caller reads in the reply to a handler that comes to `outcome`. -/
def Handling.told (name : String) (ty : Ty) : Except Fault ty.Value → Except RpcError ty.Value
  | .ok v => .ok (ty.reread v)
  | .error (.failed causes) => .error (.remote s!"{name} failed: {causes.text}")
  | .error .panicked => .error (.remote s!"{name} panicked")

namespace Handlers

/-- The caller reads what the handler came to, if the reply can be read at all. -/
theorem value_of_handler {t : Handlers} {target method : String} {vs : List Typed} {ty : Ty}
    {work : Handling ty.Value} (hfind : t.find? target method = some (work.handler ty))
    (hfits : ∀ v, (work.run (.ofValues vs 0)).1 = .ok v → ty.Fits v)
    (h : (Reply.ofOutcome (t.invoke (.ofValues target method vs))).payload.length < UInt32.size) :
    Reply.value ty (.ofBytes (Reply.ofOutcome (t.invoke (.ofValues target method vs))).encode) =
      Handling.told s!"{target}#{method}" ty (work.run (.ofValues vs 0)).1 := by
  rw [invoke_of_some hfind, Handling.handler] at h ⊢
  cases hrun : work.run (Arguments.ofValues vs 0) with
  | mk outcome rest =>
    rw [hrun] at h hfits
    cases outcome with
    | ok v => exact Reply.value_success (hfits v rfl) h
    | error fault =>
      cases fault with
      | failed causes => exact Reply.value_failure ty h
      | panicked => exact Reply.value_failure ty h

end Handlers

/-- The invocation is read from the query, and its outcome is the reply. -/
theorem Invocation.due_ofValues {t : Handlers} {target method : String} {vs : List Typed}
    (h : (ofValues target method vs).encode.length < UInt32.size) :
    t.due (.ofBytes (ofValues target method vs).encode) =
      some (.ofOutcome (t.invoke (ofValues target method vs))) := by
  have hread := Source.read_of_reads ((ofValues target method vs).reads_encode h)
    (Buffer.ofBytes (ofValues target method vs).encode) (List.append_nil _).symm
  rw [received_ofValues] at hread
  have hexpects : (ofValues target method vs).expectsResult = true := by rw [ofValues_eq]
  simp only [Handlers.due, hread, hexpects, if_true]

/-- A query that is an invocation of a method on these values reaches the handlers of the
other end as it was built. A handler that asks for the values with the types they were written
with gets them in their order. Its result is what the caller reads; and if there is no handler,
or it fails or panics, the caller is told so. -/
theorem remote_call (inner : String → Packet → Action Nat) (party : Party) (t : Moment) (near : Nat)
    (id : Identity) (target method : String) (vs : List Typed) (hopen : party.channel.Open)
    (hvs : ∀ v ∈ vs, v.Fits) :
    let far := party.channel.config.maxFrameSize
    let i := Invocation.ofValues target method vs
    let answer := (Reply.ofOutcome (party.handlers.invoke i)).response id
    Frame.Passes near far (i.query id) → Frame.Passes far near answer →
    ∃ frame request frame' reply,
      (Frame.encode near (i.query id) = .ok frame ∧
        ({ limit := far } : Decoder).decode frame = (.packet request, { limit := far }, [])) ∧
      (party.run (Listener.run inner request .service) t =
          ({ party with channel := party.channel.queueing frame', suspended := none }, t) ∧
        ({ limit := near } : Decoder).decode frame' = (.packet reply, { limit := near }, [])) ∧
      (reply.channel = Routing.response ∧ reply.id = some id) ∧
      (∀ k (hk : k < vs.length), (Handling.argument vs[k].type).run (.ofValues vs k) =
        (.ok (vs[k].type.reread vs[k].value), .ofValues vs (k + 1))) ∧
      (Handling.arguments (vs.map Typed.type)).run (.ofValues vs 0) =
        (.ok (vs.map Typed.reread), .ofValues vs vs.length) ∧
      (party.handlers.find? target method = none → ∀ ty, Reply.value ty reply.content =
        .error (.remote s!"method not found: {target}#{method}")) ∧
      ∀ ty (work : Handling ty.Value),
        party.handlers.find? target method = some (work.handler ty) →
        let outcome := (work.run (.ofValues vs 0)).1
        (∀ v, outcome = .ok v → ty.Fits v) →
        (∀ w, Reply.value ty reply.content = .ok w ↔ ∃ v, outcome = .ok v ∧ w = ty.reread v) ∧
        (∀ causes, outcome = .error (.failed causes) → Reply.value ty reply.content =
          .error (.remote s!"{target}#{method} failed: {causes.text}")) ∧
        (outcome = .error .panicked → Reply.value ty reply.content =
          .error (.remote s!"{target}#{method} panicked")) := by
  intro far i answer hrequest hanswer
  have hsize : i.encode.length < UInt32.size := hrequest.content_lt
  have hreply : (Reply.ofOutcome (party.handlers.invoke i)).payload.length < UInt32.size := by
    have hcontent : (Reply.ofOutcome (party.handlers.invoke i)).encode.length < UInt32.size :=
      hanswer.content_lt
    rw [Reply.length_encode] at hcontent
    omega
  have hrun : party.run (Listener.run inner (i.query id).received .service) t =
      ({ party with channel := (party.channel.send answer).2, suspended := none }, t) :=
    Party.run_service rfl (Invocation.due_ofValues hsize)
  rw [Channel.send_of_fits hopen hanswer.near] at hrun
  refine ⟨_, _, _, answer.received, ⟨hrequest.encode_eq, hrequest.decode_eq⟩,
    ⟨hrun, hanswer.decode_eq⟩, ⟨rfl, rfl⟩, fun k hk => Handling.argument_ofValues hvs hk,
    Handling.arguments_ofValues hvs [] rfl, fun hnone ty => ?_, fun ty work hfind => ?_⟩
  · rw [Handlers.invoke_of_none hnone] at hreply
    have hvalue := Reply.value_failure ty hreply
    rwa [← Reply.ofOutcome, ← Handlers.invoke_of_none hnone] at hvalue
  · intro outcome hfits
    have hvalue : Reply.value ty answer.received.content =
        Handling.told s!"{target}#{method}" ty outcome :=
      Handlers.value_of_handler hfind hfits hreply
    rw [hvalue]
    refine ⟨fun w => ?_, fun causes h => ?_, fun h => ?_⟩
    · cases outcome with
      | ok v => simp [Handling.told, eq_comm]
      | error fault => cases fault <;> simp [Handling.told]
    · rw [h]
      rfl
    · rw [h]
      rfl

/-- A text and a number are sent to a method that adds one to the number. -/
theorem remote_call_adds_one :
    let work : Handling UInt32 := do
      let _ ← Handling.argument .string
      let n ← Handling.argument .u32
      return n + 1
    let party : Party :=
      { channel := { info := ⟨7, "127.0.0.1:2000", "127.0.0.1:1000", false⟩,
                     config := { maxFrameSize := 1024 } },
        directory := {},
        handlers := ({} : Handlers).register "Shop" "order" (Handling.handler .u32 work) }
    let vs : List Typed := [⟨.string, "λ"⟩, ⟨.u32, 7⟩]
    let i := Invocation.ofValues "Shop" "order" vs
    let answer := (Reply.ofOutcome (party.handlers.invoke i)).response ⟨0, 9⟩
    party.channel.Open ∧ (∀ v ∈ vs, v.Fits) ∧ Frame.Passes 512 1024 (i.query ⟨0, 9⟩) ∧
      Frame.Passes 1024 512 answer ∧
      ∃ frame request frame' reply, Frame.encode 512 (i.query ⟨0, 9⟩) = .ok frame ∧
        ({ limit := 1024 } : Decoder).decode frame = (.packet request, { limit := 1024 }, []) ∧
        party.run (Listener.run (fun _ _ => .pure 0) request .service) {} =
          ({ party with channel := party.channel.queueing frame', suspended := none }, {}) ∧
        ({ limit := 512 } : Decoder).decode frame' = (.packet reply, { limit := 512 }, []) ∧
        Reply.value .u32 reply.content = .ok (8 : UInt32) := by
  intro work party vs i answer
  have hopen : party.channel.Open := ⟨rfl, by simp [party]⟩
  have hvs : ∀ v ∈ vs, v.Fits := by
    simp [vs, Typed.Fits, Ty.Fits]
    decide +kernel
  have hrequest : Frame.Passes 512 1024 (i.query ⟨0, 9⟩) :=
    ⟨by decide +kernel, by decide +kernel, by decide +kernel⟩
  have hanswer : Frame.Passes 1024 512 answer :=
    ⟨by decide +kernel, by decide +kernel, by decide +kernel⟩
  obtain ⟨frame, request, frame', reply, ⟨hencode, hdecode⟩, ⟨hrun, hdecode'⟩, -, -, -, -, hvalue⟩ :=
    remote_call (fun _ _ => .pure 0) party {} 512 ⟨0, 9⟩ "Shop" "order" vs hopen hvs hrequest hanswer
  have hfind : party.handlers.find? "Shop" "order" = some (Handling.handler .u32 work) := by rfl
  have hresult : (work.run (.ofValues vs 0)).1 = .ok (8 : UInt32) := by decide +kernel
  exact ⟨hopen, hvs, hrequest, hanswer, frame, request, frame', reply, hencode, hdecode, hrun,
    hdecode', ((hvalue .u32 work hfind fun _ _ => trivial).1 8).mpr ⟨8, hresult, rfl⟩⟩

end Switchboard
