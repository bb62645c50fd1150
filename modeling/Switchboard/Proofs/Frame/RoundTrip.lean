import Switchboard.Proofs.Buffer.Reads
import Switchboard.Frame

/-!
# A frame is read back

The size that a frame announces is the size of its body, computed before the body is
written; so a decoder that has read the length takes exactly the body, whatever follows,
and the packet in it is the one that was written, its content being the octets that were
unread.
-/

namespace Switchboard

/-- The packet as the other end has it: the unread octets of its content are a new
buffer. -/
def Packet.received (p : Packet) : Packet :=
  { p with content := Buffer.ofBytes p.content.unread }

namespace Frame

theorem lengthField_eq {n : Nat} (h : n < UInt32.size) : lengthField n = VarInt.encode n := by
  rw [lengthField, UInt32.toNat_ofNat_of_lt' h]

theorem length_idField (id : Option Identity) :
    (idField id).length = 1 + if id.isSome then identitySize else 0 := by
  cases id with
  | none => rfl
  | some id => simp [idField, Identity.octets, identitySize]

/-- The size told in advance is the size of the body, for a content of any length. -/
theorem length_body (p : Packet) : (body p).length = bodySize p := by
  have hlength : VarInt.length (UInt32.ofNat p.content.unread.length) =
      (lengthField p.content.unread.length).length := VarInt.length_eq _
  simp only [body, bodySize, List.length_append, Octet.length_bigEndian, length_idField, hlength,
    headerSize]
  omega

theorem content_lt_bodySize (p : Packet) : p.content.unread.length < bodySize p := by
  simp only [bodySize, headerSize]
  omega

/-- The frame stands or falls by the size of its body. -/
theorem encode_eq_ite (limit : Nat) (p : Packet) :
    encode limit p = if limit < bodySize p then .error (.tooLarge (bodySize p) limit)
      else .ok (lengthField (bodySize p) ++ body p) := by
  have hfront : front limit p.channel p.id p.content.unread.length =
      if limit < bodySize p then .error (.tooLarge (bodySize p) limit)
      else .ok (lengthField (bodySize p) ++ (Octet.bigEndian 4 p.channel.toUInt32.toNat ++
        (idField p.id ++ lengthField p.content.unread.length))) := rfl
  rw [encode, hfront]
  split
  · rfl
  · simp only [Except.map, body, List.append_assoc]

theorem encode_eq_ok {limit : Nat} {p : Packet} {frame : List UInt8}
    (h : encode limit p = .ok frame) :
    bodySize p ≤ limit ∧ frame = lengthField (bodySize p) ++ body p := by
  rw [encode_eq_ite] at h
  split at h
  · cases h
  · rename_i hle
    cases h
    exact ⟨Nat.le_of_not_lt hle, rfl⟩

theorem reads_idField (id : Option Identity) :
    (Reader.nullable Identity.reader).Reads (idField id) id := by
  cases id with
  | none => exact Reader.reads_nullable_none Identity.reader
  | some id => exact Reader.reads_nullable_some (Reader.reads_identity id)

/-- The fields are read back from the body, the content as a new buffer. -/
theorem reads_body (p : Packet) (h : p.content.unread.length < UInt32.size) :
    packetReader.Reads (body p) p.received := by
  have hcontent : Reader.buffer.Reads
      (lengthField p.content.unread.length ++ p.content.unread)
      (Buffer.ofBytes p.content.unread) := by
    have hmin : min p.content.unread.length (UInt32.size - 1) = p.content.unread.length := by omega
    rw [lengthField_eq h]
    simpa only [block, lengthPrefix, hmin] using Reader.reads_buffer p.content.unread h
  exact (Reader.reads_i32 p.channel).bind ((reads_idField p.id).bind
    (hcontent.map fun content => (⟨p.channel, p.id, content⟩ : Packet)))

theorem decodeBody_body (p : Packet) (h : p.content.unread.length < UInt32.size) :
    decodeBody (body p) = .ok p.received := by
  have hread := reads_body p h []
  rw [List.append_nil] at hread
  simp only [decodeBody, hread]

end Frame

namespace Decoder

/-- A body that is there is taken, whatever follows it. -/
theorem stepBody_append (d : Decoder) (s rest : List UInt8) {p : Packet}
    (h : Frame.decodeBody s = .ok p) :
    d.stepBody s.length (s ++ rest) = (.packet p, { d with awaiting := none }, rest) := by
  have hreach : Octet.reaches s.length (s ++ rest) = true := by simp
  simp only [stepBody, hreach, if_true, List.take_left, List.drop_left, h]

/-- A decoder that awaits a length takes a whole frame off the front of what it is given,
under any limit that is not below the size of the body. -/
theorem decode_frame (limit : Nat) (p : Packet) (rest : List UInt8)
    (hlimit : Frame.bodySize p ≤ limit) (hword : Frame.bodySize p < UInt32.size) :
    ({ limit } : Decoder).decode (Frame.lengthField (Frame.bodySize p) ++ Frame.body p ++ rest) =
      (.packet p.received, { limit }, rest) := by
  have hpeek := VarInt.peek_encode .int (Frame.bodySize p) hword (Frame.body p ++ rest)
  have hbody := Frame.decodeBody_body p (Nat.lt_trans (Frame.content_lt_bodySize p) hword)
  have hstep := ({ limit } : Decoder).stepBody_append (Frame.body p) rest hbody
  rw [Frame.length_body] at hstep
  rw [List.append_assoc, Frame.lengthField_eq hword]
  simp only [decode, hpeek, if_neg (Nat.not_lt.mpr hlimit), List.drop_left, hstep]

end Decoder

end Switchboard
