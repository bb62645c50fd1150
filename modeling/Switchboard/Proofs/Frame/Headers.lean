import Switchboard.Proofs.Frame.Grammar

/-!
# What the headers of a frame say

A length goes into a header as a 32-bit word, while the limit is compared with the whole
size of the body. So the headers of a frame that was accepted tell the sizes modulo 2 ^ 32
(`opens_encode`), and they are right, and the frame is read back, exactly if the size of the
body is a word (`headers_exact_iff`). A limit below 2 ^ 32 lets nothing else through.
-/

namespace Switchboard

namespace Frame

def routing (p : Packet) : List UInt8 :=
  Octet.bigEndian 4 p.channel.toUInt32.toNat ++ idField p.id

/-- The length in front of the frame is that of the octets after it, which are the routing
of the packet and then the content behind its own length. -/
def Exact (p : Packet) (frame : List UInt8) : Prop :=
  ∃ body rest, Opens body.length frame body ∧ body = routing p ++ rest ∧
    Opens p.content.unread.length rest p.content.unread

/-- A decoder with this limit takes the frame for the packet, and takes nothing that follows. -/
def ReadsBack (limit : Nat) (p : Packet) (frame : List UInt8) : Prop :=
  ∀ rest, ({ limit } : Decoder).decode (frame ++ rest) = (.packet p.received, { limit }, rest)

theorem body_eq (p : Packet) :
    body p = routing p ++ (lengthField p.content.unread.length ++ p.content.unread) := by
  rw [body, routing, List.append_assoc]

theorem encode_of_le {limit : Nat} {p : Packet} (h : bodySize p ≤ limit) :
    encode limit p = .ok (lengthField (bodySize p) ++ body p) := by
  rw [encode_eq_ite, if_neg (Nat.not_lt.mpr h)]

/-- A length field tells the length modulo 2 ^ 32, whatever follows it. -/
theorem opens_lengthField (n : Nat) (rest : List UInt8) :
    Opens (n % UInt32.size) (lengthField n ++ rest) rest := by
  have hword : n % UInt32.size < 2 ^ VarInt.Width.int.bits := Nat.mod_lt _ (by decide)
  have hopens := opens_of_peek (VarInt.peek_encode .int _ hword rest)
  rw [List.drop_left] at hopens
  rwa [lengthField, UInt32.toNat_ofNat']

/-- The headers of an accepted frame tell the sizes of the body and of the content modulo
2 ^ 32. -/
theorem opens_encode {limit : Nat} {p : Packet} {frame : List UInt8}
    (h : encode limit p = .ok frame) :
    Opens (bodySize p % UInt32.size) frame (body p) ∧ (body p).length = bodySize p ∧
      ∃ rest, body p = routing p ++ rest ∧
        Opens (p.content.unread.length % UInt32.size) rest p.content.unread := by
  obtain ⟨-, rfl⟩ := encode_eq_ok h
  exact ⟨opens_lengthField _ _, length_body p, _, body_eq p, opens_lengthField _ _⟩

/-- The lengths in the frame are right exactly if that of the body is a word. -/
theorem exact_iff {limit : Nat} {p : Packet} {frame : List UInt8}
    (h : encode limit p = .ok frame) : Exact p frame ↔ bodySize p < UInt32.size := by
  obtain ⟨hopens, hlength, rest, hbody, hcontent⟩ := opens_encode h
  constructor
  · rintro ⟨body', rest', hopens', -⟩
    obtain ⟨-, rfl⟩ := hopens'.unique hopens
    rw [← hlength]
    exact hopens'.lt_size
  · intro hword
    have hcontentWord := Nat.lt_trans (content_lt_bodySize p) hword
    rw [Nat.mod_eq_of_lt hword, ← hlength] at hopens
    rw [Nat.mod_eq_of_lt hcontentWord] at hcontent
    exact ⟨body p, rest, hopens, hbody, hcontent⟩

/-- A decoder takes as many octets of the body as the header tells. -/
theorem decode_encode {limit : Nat} {p : Packet} {frame : List UInt8}
    (h : encode limit p = .ok frame) :
    ({ limit } : Decoder).decode frame =
      (.ofBody (decodeBody ((body p).take (bodySize p % UInt32.size))), { limit },
        (body p).drop (bodySize p % UInt32.size)) := by
  obtain ⟨hopens, hlength, -⟩ := opens_encode h
  have hle := (encode_eq_ok h).1
  have hmod := Nat.mod_le (bodySize p) UInt32.size
  have htake : ((body p).take (bodySize p % UInt32.size)).length = bodySize p % UInt32.size := by
    rw [List.length_take, hlength, Nat.min_eq_left hmod]
  have hfits := Nat.le_trans (Nat.le_of_eq htake) (Nat.le_trans hmod hle)
  refine Decoder.decode_of_body ?_ hfits
  rwa [htake, List.take_append_drop]

/-- And exactly then it is read back. -/
theorem readsBack_iff {limit : Nat} {p : Packet} {frame : List UInt8}
    (h : encode limit p = .ok frame) : ReadsBack limit p frame ↔ bodySize p < UInt32.size := by
  constructor
  · intro hreads
    have hwhole := hreads []
    rw [List.append_nil, decode_encode h, Prod.mk.injEq, Prod.mk.injEq] at hwhole
    have hnothing := congrArg List.length hwhole.2.2
    rw [List.length_drop, length_body, List.length_nil] at hnothing
    have hmod := Nat.mod_lt (bodySize p) (show 0 < UInt32.size by decide)
    omega
  · intro hword rest
    obtain ⟨hle, rfl⟩ := encode_eq_ok h
    exact Decoder.decode_frame limit p rest hle hword

/-- The outline of a frame is that of the frame written out. -/
theorem outline_eq (limit : Nat) (channel : Int32) (id : Option Identity) {width : Nat}
    {r : Repeated} (hunit : r.unit ≠ []) (h : width ≤ r.length) :
    outline width limit channel id r =
      (encode limit { channel, id, content := .ofBytes r.octets }).map (Outline.of width) := by
  have hunread : (Buffer.ofBytes r.octets).unread = r.octets := rfl
  rw [outline, encode, hunread, Repeated.length_octets]
  cases front limit channel id r.length with
  | error e => rfl
  | ok s => exact congrArg Except.ok (Outline.before_eq s hunit h)

/-- Of every frame that was accepted under any limit: the headers tell the sizes of the body
and of the content, and a decoder with this limit reads the packet back and stops behind the
frame, exactly if the size of the body is below 2 ^ 32; so both hold under every limit that is. The
outline of a frame with a repeated content is told without writing the content out. -/
theorem headers_exact_iff {limit : Nat} {p : Packet} {frame : List UInt8}
    (h : encode limit p = .ok frame) :
    (Exact p frame ↔ bodySize p < UInt32.size) ∧
    (ReadsBack limit p frame ↔ bodySize p < UInt32.size) ∧
    (limit < UInt32.size → Exact p frame ∧ ReadsBack limit p frame) ∧
    (∀ (width : Nat) (r : Repeated), r.unit ≠ [] → width ≤ r.length →
      p.content = .ofBytes r.octets →
        outline width limit p.channel p.id r = .ok (.of width frame)) := by
  refine ⟨exact_iff h, readsBack_iff h, fun hlimit => ?_, fun width r hunit hwidth hcontent => ?_⟩
  · have hword : bodySize p < UInt32.size := Nat.lt_of_le_of_lt (encode_eq_ok h).1 hlimit
    exact ⟨(exact_iff h).mpr hword, (readsBack_iff h).mpr hword⟩
  · rw [outline_eq limit p.channel p.id hunit hwidth, ← hcontent, h]
    rfl

theorem small_headers_exact : ∃ frame,
    encode 64 { channel := 7, content := .ofBytes [1, 2, 3] } = .ok frame ∧
      ReadsBack 64 { channel := 7, content := .ofBytes [1, 2, 3] } frame :=
  ⟨_, rfl, (headers_exact_iff rfl).2.1.mpr (by decide)⟩

def hollow (p : Packet) : Packet := { p with content := {} }

theorem lengthField_congr {n m : Nat} (h : n % UInt32.size = m % UInt32.size) :
    lengthField n = lengthField m := by
  rw [lengthField, lengthField, UInt32.toNat_ofNat', UInt32.toNat_ofNat']
  exact congrArg VarInt.encode h

/-- A content of a multiple of 2^32 octets is told as empty. -/
theorem bodySize_of_dvd {p : Packet} (h : UInt32.size ∣ p.content.unread.length) :
    bodySize p = bodySize (hollow p) + p.content.unread.length := by
  have hword : UInt32.ofNat p.content.unread.length = UInt32.ofNat 0 := by
    rw [← UInt32.toNat_inj, UInt32.toNat_ofNat', UInt32.toNat_ofNat']
    exact Nat.mod_eq_zero_of_dvd h
  have hempty : (hollow p).content.unread.length = 0 := rfl
  have hid : (hollow p).id = p.id := rfl
  simp only [bodySize, hword, hempty, hid]
  omega

theorem bodySize_hollow_lt (p : Packet) : bodySize (hollow p) < UInt32.size := by
  have hempty : (hollow p).content.unread.length = 0 := rfl
  simp only [bodySize, hempty]
  split <;> decide

/-- A content of a multiple of 2 ^ 32 octets is announced as none, so its frame is the frame
of the packet without it, and then the content. -/
theorem frame_of_dvd {limit : Nat} {p : Packet} {frame : List UInt8}
    (h : encode limit p = .ok frame) (hdvd : UInt32.size ∣ p.content.unread.length) :
    frame = lengthField (bodySize (hollow p)) ++ body (hollow p) ++ p.content.unread := by
  have hfield : lengthField p.content.unread.length = lengthField 0 :=
    lengthField_congr (Nat.mod_eq_zero_of_dvd hdvd)
  have hsize : lengthField (bodySize p) = lengthField (bodySize (hollow p)) := by
    rw [bodySize_of_dvd hdvd]
    refine lengthField_congr ?_
    rw [Nat.add_mod, Nat.mod_eq_zero_of_dvd hdvd, Nat.add_zero, Nat.mod_mod]
  have hhollow : body (hollow p) = routing p ++ (lengthField 0 ++ []) := body_eq (hollow p)
  obtain ⟨-, rfl⟩ := encode_eq_ok h
  rw [hsize, body_eq p, hfield, hhollow, List.append_nil]
  simp only [List.append_assoc]

/-- Such a packet is read as one with nothing in it, and its content is left for the frames
to come. -/
theorem decode_of_dvd {limit : Nat} {p : Packet} {frame : List UInt8}
    (h : encode limit p = .ok frame) (hdvd : UInt32.size ∣ p.content.unread.length) :
    ({ limit } : Decoder).decode frame = (.packet (hollow p), { limit }, p.content.unread) := by
  have hle := (encode_eq_ok h).1
  rw [bodySize_of_dvd hdvd] at hle
  rw [frame_of_dvd h hdvd]
  exact Decoder.decode_frame limit (hollow p) p.content.unread (by omega) (bodySize_hollow_lt p)

/-- As many octets as a word has values. -/
def vast : Packet := { channel := 0, content := .ofBytes (List.replicate UInt32.size 0) }

theorem length_vast : vast.content.unread.length = UInt32.size := List.length_replicate

/-- Under a limit of 2 ^ 33 a packet of 2 ^ 32 octets is framed as a body of six octets, and
read as a packet without any. -/
theorem vast_frame_misread : ∃ frame, encode (2 ^ 33) vast = .ok frame ∧
    Opens 6 frame (body vast) ∧ (body vast).length = UInt32.size + 6 ∧ ¬ Exact vast frame ∧
    ({ limit := 2 ^ 33 } : Decoder).decode frame =
      (.packet { channel := 0 }, { limit := 2 ^ 33 }, vast.content.unread) := by
  have hdvd : UInt32.size ∣ vast.content.unread.length := length_vast ▸ Nat.dvd_refl _
  have hhollow : bodySize (hollow vast) = 6 := by decide
  have hsize : bodySize vast = 6 + UInt32.size := by
    rw [bodySize_of_dvd hdvd, length_vast, hhollow]
  have hmod : bodySize vast % UInt32.size = 6 := by
    rw [hsize]
    decide
  have hle : bodySize vast ≤ 2 ^ 33 := by
    rw [hsize]
    decide
  have hframe := encode_of_le hle
  obtain ⟨hopens, hlength, -⟩ := opens_encode hframe
  refine ⟨_, hframe, ?_, ?_, ?_, decode_of_dvd hframe hdvd⟩
  · rwa [hmod] at hopens
  · rw [hlength, hsize, Nat.add_comm]
  · rw [exact_iff hframe, hsize]
    decide

end Frame

end Switchboard
