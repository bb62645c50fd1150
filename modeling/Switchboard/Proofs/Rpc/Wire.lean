import Switchboard.Proofs.Buffer.Listing
import Switchboard.Proofs.Buffer.Uses
import Switchboard.Proofs.Rpc.Service

/-!
# The wire forms of invocations and replies

An invocation can be spelled in more than one way, for its lengths and its count need not be
the shortest and its flag is any octet. Whatever the spelling, the reader takes it to its last
octet (`Invocation.parses_reader`), and writing what was read gives the shortest of its
spellings (`Invocation.Word.length_encode_le`).
-/

namespace Switchboard

/-- What a reader takes off a buffer is a word of its language. -/
theorem Source.word_of_read {σ α : Type} [Source σ] {r : Reader α} {L : α → List UInt8 → Prop}
    (hr : r.Parses L) {b c : σ} {a : α} (h : read r b = (.ok a, c)) :
    ∃ s rest, L a s ∧ unread b = s ++ rest ∧ c = consume s.length b := by
  obtain ⟨hon, rfl⟩ := Prod.mk.inj h
  obtain ⟨s, hword, hsplit⟩ := hr.splits (Prod.ext hon rfl)
  refine ⟨s, _, hword, hsplit, congrArg (consume · b) ?_⟩
  have hlength := congrArg List.length hsplit
  rw [List.length_append] at hlength
  exact Nat.sub_eq_of_eq_add hlength

namespace Draft

def embedEach (d : Draft) : List Buffer → Draft × List Buffer
  | [] => (d, [])
  | b :: bs =>
    let (d, b) := d.embed b
    let (d, bs) := d.embedEach bs
    (d, b :: bs)

theorem embedEach_eq (d : Draft) (bs : List Buffer) :
    d.embedEach bs = (d.write (bs.flatMap fun b => block b.unread), bs) := by
  induction bs generalizing d with
  | nil => rw [embedEach, List.flatMap_nil, write_nil]
  | cons b bs ih =>
    simp only [embedEach, embed_buffer, ih, write_write]
    rfl

theorem freeze_ofBytes (s : List UInt8) : (ofBytes s).freeze = Buffer.ofBytes s := by
  simp [freeze, ofBytes, Buffer.ofBytes]

end Draft

namespace Invocation

/-- Write the invocation part by part, its arguments from where they are. -/
def write (i : Invocation) (d : Draft) : Draft × List Buffer :=
  ((((d.write (block (Utf8.encode i.target))).write (block (Utf8.encode i.method))).write
    (Ty.bool.encode i.expectsResult)).write (lengthPrefix i.arguments.length)).embedEach i.arguments

theorem write_eq (i : Invocation) (d : Draft) : i.write d = (d.write i.encode, i.arguments) := by
  simp only [write, encode, Draft.embedEach_eq, Draft.write_write, List.append_assoc]

structure Fits (i : Invocation) : Prop where
  target : (Utf8.encode i.target).length < UInt32.size
  method : (Utf8.encode i.method).length < UInt32.size
  count : i.arguments.length < UInt32.size
  arguments : ∀ b ∈ i.arguments, b.unread.length < UInt32.size

def received (i : Invocation) : Invocation :=
  { i with arguments := i.arguments.map fun b => .ofBytes b.unread }

theorem agrees_received (i : Invocation) : i.received.agrees i = true := by
  simp [agrees, received, Function.comp_def, Buffer.unread, Buffer.ofBytes]

def IsArgument (b : Buffer) (s : List UInt8) : Prop :=
  ∃ content, Reader.Blocked content s ∧ b = Buffer.ofBytes content

inductive Word : Invocation → List UInt8 → Prop
  | mk {target method : String} {arguments : List Buffer} {t m count as : List UInt8} (flag : UInt8)
      (htarget : Reader.Blocked (Utf8.encode target) t)
      (hmethod : Reader.Blocked (Utf8.encode method) m)
      (hcount : VarInt.Spells .int arguments.length count)
      (harguments : Reader.Listed IsArgument arguments as) :
      Word { target, method, expectsResult := flag != 0, arguments }
        (t ++ (m ++ ([flag] ++ (count ++ as))))

theorem IsArgument.length_pos (b : Buffer) (s : List UInt8) (h : IsArgument b s) :
    0 < s.length := by
  obtain ⟨content, hcontent, -⟩ := h
  exact hcontent.length_pos

theorem IsArgument.length_block_le (b : Buffer) (s : List UInt8) (h : IsArgument b s) :
    (block b.unread).length ≤ s.length := by
  obtain ⟨content, hcontent, rfl⟩ := h
  exact hcontent.length_block_le

/-- An invocation is read from its words and from nothing else. -/
theorem parses_reader : reader.Parses Word := by
  -- Every argument has an octet, so that the check of the count turns no list away.
  have harguments (target method : String) (expectsResult : Bool) (count : UInt32) :=
    Reader.Parses.ensure (n := count.toNat)
      ((Reader.parses_times Reader.parses_blocked count.toNat).map (g := fun arguments =>
        ({ target, method, expectsResult, arguments } : Invocation)))
      (by
        rintro i s ⟨arguments, ⟨hlength, hlisted⟩, -⟩
        rw [← hlength]
        exact hlisted.length_le IsArgument.length_pos)
  refine (Reader.parses_text.bind fun target => Reader.parses_text.bind fun method =>
    Reader.parses_bool.bind fun expectsResult => Reader.parses_varInt.bind fun count =>
      harguments target method expectsResult count).congr fun i s => ?_
  constructor
  · rintro ⟨target, t, _, ht, ⟨method, m, _, hm, ⟨_, _, _, ⟨flag, rfl, rfl⟩, ⟨count, c, as, hc,
      ⟨arguments, ⟨hlength, hlisted⟩, rfl⟩, rfl⟩, rfl⟩, rfl⟩, rfl⟩
    exact .mk flag ht hm (hlength ▸ hc) hlisted
  · rintro ⟨flag, ht, hm, hc, hlisted⟩
    have hword := UInt32.toNat_ofNat_of_lt' hc.lt_size
    exact ⟨_, _, _, ht, ⟨_, _, _, hm, ⟨_, _, _, ⟨flag, rfl, rfl⟩, ⟨UInt32.ofNat _, _, _,
      by rwa [hword], ⟨_, ⟨hword.symm, hlisted⟩, rfl⟩, rfl⟩, rfl⟩, rfl⟩, rfl⟩

theorem encode_received (i : Invocation) : i.received.encode = i.encode := by
  simp only [encode, received, List.length_map, List.flatMap_map]
  rfl

/-- What is written of an invocation is one of the words it is read from. -/
theorem word_encode {i : Invocation} (h : i.Fits) : Word i.received i.encode := by
  have harguments : Reader.Listed IsArgument i.received.arguments
      (i.received.arguments.flatMap fun b => block b.unread) := by
    refine .flatMap fun c hc => ?_
    obtain ⟨b, hb, rfl⟩ := List.mem_map.mp hc
    exact ⟨b.unread, Reader.blocked_block (h.arguments b hb), rfl⟩
  have hcount : i.received.arguments.length < UInt32.size := by
    rw [received, List.length_map]
    exact h.count
  have hword := Word.mk (if i.expectsResult then 1 else 0) (Reader.blocked_block h.target)
    (Reader.blocked_block h.method) (VarInt.spells_encode .int hcount) harguments
  have hflag : ((if i.expectsResult then 1 else 0 : UInt8) != 0) = i.expectsResult := by
    cases i.expectsResult <;> rfl
  rw [hflag, ← Reader.lengthPrefix_eq hcount] at hword
  rw [← encode_received, encode]
  simp only [List.append_assoc]
  exact hword

namespace Word

variable {i : Invocation} {s : List UInt8}

theorem fits (h : Word i s) : i.Fits := by
  obtain ⟨flag, ht, hm, hc, harguments⟩ := h
  refine ⟨ht.lt_size, hm.lt_size, hc.lt_size, harguments.forall_mem ?_⟩
  rintro b t ⟨content, hcontent, rfl⟩
  exact hcontent.lt_size

/-- What is read has its arguments in buffers of their own. -/
theorem received_eq (h : Word i s) : i.received = i := by
  obtain ⟨flag, ht, hm, hc, harguments⟩ := h
  have hfresh := harguments.forall_mem (P := fun b => Buffer.ofBytes b.unread = b) (by
    rintro b t ⟨content, -, rfl⟩
    rfl)
  simp only [received, mk.injEq, true_and]
  exact (List.map_congr_left hfresh).trans (List.map_id' _)

/-- What is written is the shortest of the words that are read alike. -/
theorem length_encode_le (h : Word i s) : i.encode.length ≤ s.length := by
  have hcount := Reader.lengthPrefix_eq h.fits.count
  obtain ⟨flag, ht, hm, hc, harguments⟩ := h
  have htarget := ht.length_block_le
  have hmethod := hm.length_block_le
  have hprefix := hc.groups.length_encode_le
  have hlist := harguments.length_flatMap_le IsArgument.length_block_le
  simp only [encode, Ty.encode, List.length_append, List.length_singleton] at hcount ⊢
  rw [hcount]
  omega

end Word

end Invocation

namespace Reply

variable {σ : Type} [Source σ]

def decode (b : σ) : Except RpcError Buffer × σ :=
  match Source.read reader b with
  | (.ok reply, b) => (reply.result, b)
  | (.error e, b) => (.error (.buffer e), b)

/-- A reply is read whole from its octets, and the cursor stops behind them. -/
theorem decode_of_unread (r : Reply) (h : r.payload.length < UInt32.size) {b : σ}
    {rest : List UInt8} (hb : Source.unread b = r.encode ++ rest) :
    decode b = (r.received.result, Source.consume r.encode.length b) := by
  rw [decode, Source.read_of_reads (r.reads_encode h) b hb]

def Behind : Bool → Reply → List UInt8 → Prop
  | true, success result, s => ∃ content, Reader.Blocked content s ∧ result = .ofBytes content
  | false, failure description, s => Reader.Blocked (Utf8.encode description) s
  | _, _, _ => False

theorem parses_behind (flag : Bool) :
    Reader.Parses (if flag = true then Reader.buffer >>= fun result => pure (success result)
      else Reader.text >>= fun description => pure (failure description)) (Behind flag) := by
  cases flag with
  | true =>
    refine (Reader.parses_blocked.map (g := success)).congr fun reply s => ?_
    cases reply <;> simp [Behind]
  | false =>
    refine (Reader.parses_text.map (g := failure)).congr fun reply s => ?_
    cases reply <;> simp [Behind]

/-- Whatever the octets, the length of a result or of a description that is read is a 32-bit
word. -/
theorem length_payload_lt {s rest : List UInt8} {reply : Reply}
    (h : reader.on s = (.ok reply, rest)) : reply.payload.length < UInt32.size := by
  obtain ⟨_, ⟨flag, _, u, -, hu, -⟩, -⟩ := (Reader.parses_bool.bind parses_behind).splits h
  cases flag <;> cases reply
  case false.success | true.failure => exact hu.elim
  case false.failure => exact Reader.Blocked.lt_size hu
  case true.success =>
    obtain ⟨content, hcontent, rfl⟩ := hu
    exact hcontent.lt_size

/-- And so is the length of a result that was decoded. -/
theorem length_result_lt {b : σ} {r : Buffer} (h : (decode b).1 = .ok r) :
    r.unread.length < UInt32.size := by
  rw [decode, Source.read] at h
  cases hread : reader.on (Source.unread b) with
  | mk outcome rest =>
    rw [hread] at h
    cases outcome with
    | error e => cases h
    | ok reply =>
      have hlength := length_payload_lt hread
      cases reply with
      | failure description => cases h
      | success result =>
        obtain rfl := Except.ok.inj h
        exact hlength

/-- So no reply at all gives a longer result. -/
theorem decode_ne_of_vast {r : Buffer} (h : UInt32.size ≤ r.unread.length) (b : σ) :
    (decode b).1 ≠ .ok (.ofBytes r.unread) := by
  intro hdecode
  have hlength := length_result_lt hdecode
  exact Nat.not_lt.mpr h hlength

end Reply

/-- An invocation is read back from what is written of it and no octet further, with its own
arguments as they were. What is read in any spelling is written in no more octets, and these
are read alike. A reply gives its result, or tells its failure. -/
theorem invocations_and_replies_read_back {σ : Type} [Source σ] [LawfulSource σ] :
    (∀ i : Invocation, i.Fits →
      (i.write {}).1.freeze = Buffer.ofBytes i.encode ∧ (i.write {}).2 = i.arguments ∧
      ∀ (b : σ) (rest : List UInt8), Source.unread b = i.encode ++ rest →
        ∃ j c, Source.read Invocation.reader b = (.ok j, c) ∧ j.agrees i = true ∧
          c = Source.consume i.encode.length b ∧ Source.unread c = rest) ∧
    (∀ (b c : σ) (i : Invocation), Source.read Invocation.reader b = (.ok i, c) →
      ∃ n ≤ (Source.unread b).length, c = Source.consume n b ∧ i.encode.length ≤ n ∧
        Source.read Invocation.reader (Buffer.ofBytes i.encode) =
          (.ok i, Source.consume i.encode.length (Buffer.ofBytes i.encode))) ∧
    (∀ r : Buffer, r.unread.length < UInt32.size → ∀ (b : σ) (rest : List UInt8),
      Source.unread b = (Reply.success r).encode ++ rest →
        Reply.decode b = (.ok (Buffer.ofBytes r.unread),
          Source.consume (Reply.success r).encode.length b)) ∧
    (∀ d : String, (Utf8.encode d).length < UInt32.size → ∀ (b : σ) (rest : List UInt8),
      Source.unread b = (Reply.failure d).encode ++ rest →
        Reply.decode b = (.error (.remote d),
          Source.consume (Reply.failure d).encode.length b)) := by
  refine ⟨fun i h => ⟨?_, ?_, fun b rest hb => ?_⟩, fun b c i h => ?_,
    fun r h b rest hb => Reply.decode_of_unread (.success r) h hb,
    fun d h b rest hb => Reply.decode_of_unread (.failure d) h hb⟩
  · rw [Invocation.write_eq]
    exact Draft.freeze_ofBytes i.encode
  · rw [Invocation.write_eq]
  · have hreads := Invocation.parses_reader.reads (Invocation.word_encode h)
    refine ⟨_, _, Source.read_of_reads hreads b hb, i.agrees_received, rfl, ?_⟩
    rw [LawfulSource.unread_consume, hb, List.drop_left]
  · obtain ⟨s, rest, hword, hb, rfl⟩ := Source.word_of_read Invocation.parses_reader h
    have hreads := Invocation.parses_reader.reads (Invocation.word_encode hword.fits)
    rw [hword.received_eq] at hreads
    refine ⟨s.length, ?_, rfl, hword.length_encode_le, ?_⟩
    · rw [hb, List.length_append]
      exact Nat.le_add_right _ _
    · exact Source.read_of_reads hreads _ (List.append_nil _).symm

/-- The octets of this result are one more than a length prefix can tell. Its writer asserts
that there are none such, and nothing that could be written for it would be read as it. -/
theorem vast_result_unreadable :
    let r : Buffer := .ofBytes (List.replicate UInt32.size 0)
    hasLength r.unread.length = false ∧
      (Reply.decode (Draft.ofBytes (Reply.success r).encode)).1 ≠ .ok (.ofBytes r.unread) := by
  intro r
  have hlength : r.unread.length = UInt32.size := List.length_replicate
  exact ⟨by rw [hlength]; decide, Reply.decode_ne_of_vast (Nat.le_of_eq hlength.symm) _⟩

/-- An argument that was read in part, and a spelling whose first length takes two octets and
whose flag is 2. -/
theorem invocations_and_replies_read_back_shortened :
    let i : Invocation := { target := "S", method := "m", arguments := [{ bytes := [7, 8], cursor := 1 }] }
    let long : Draft := .ofBytes [0x81, 0x00, 83, 1, 109, 2, 1, 1, 8, 5]
    let read : Invocation := { i with arguments := [.ofBytes [8]] }
    let result : Buffer := { bytes := [7, 8], cursor := 1 }
    (i.write {}).2 = i.arguments ∧
    (∃ j c, Source.read Invocation.reader (Draft.ofBytes (i.encode ++ [5])) = (.ok j, c) ∧
      j.agrees i = true ∧ Source.unread c = [5]) ∧
    (∃ n ≤ 10, long.seek 9 = Source.consume n long ∧ read.encode.length ≤ n ∧
      Source.read Invocation.reader (Buffer.ofBytes read.encode) =
        (.ok read, Source.consume read.encode.length (Buffer.ofBytes read.encode))) ∧
    (Reply.decode (Draft.ofBytes (Reply.success result).encode)).1 = .ok (.ofBytes [8]) ∧
    (Reply.decode (Draft.ofBytes (Reply.failure "late").encode)).1 = .error (.remote "late") := by
  intro i long read result
  have hfits : i.Fits := ⟨by decide, by decide, by decide, by decide⟩
  obtain ⟨hwritten, hspelled, hsuccess, hfailure⟩ := invocations_and_replies_read_back (σ := Draft)
  obtain ⟨-, hunmoved, hread⟩ := hwritten i hfits
  obtain ⟨j, c, hj, hagrees, -, hrest⟩ := hread (Draft.ofBytes (i.encode ++ [5])) [5] rfl
  have hlong : Source.read Invocation.reader long = (.ok read, long.seek 9) := by
    have hvalue : (Source.read Invocation.reader long).1.toOption = some read := by decide +kernel
    have hcursor : (Source.read Invocation.reader long).2 = long.seek 9 := by decide +kernel
    refine Prod.ext ?_ hcursor
    cases hfound : (Source.read Invocation.reader long).1 with
    | ok found =>
      rw [hfound] at hvalue
      exact congrArg Except.ok (Option.some.inj hvalue)
    | error e =>
      rw [hfound] at hvalue
      cases hvalue
  refine ⟨hunmoved, ⟨j, c, hj, hagrees, hrest⟩, hspelled long _ read hlong, ?_, ?_⟩
  · exact congrArg Prod.fst (hsuccess result (by decide) _ [] (List.append_nil _).symm)
  · exact congrArg Prod.fst (hfailure "late" (by decide) _ [] (List.append_nil _).symm)

end Switchboard
