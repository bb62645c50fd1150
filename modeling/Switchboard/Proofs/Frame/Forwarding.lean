import Switchboard.Proofs.Frame.Limits

/-!
# A packet is sent on

A frame can be spelled in several ways: its two lengths need not be the shortest, and any
octet but zero flags an id (`Spelling`). Whoever reads a packet under a limit can write it
under that limit, for the frame that is written is the shortest of all that spell the packet;
it is the one that was read exactly if that was plain (`forwarding_normalises`).
-/

namespace Switchboard.Frame

/-- What a frame shows that its packet does not tell. -/
structure Spelling where
  /-- The octets of the length of the body. -/
  length : List UInt8
  flag : UInt8
  /-- The octets of the length of the content. -/
  content : List UInt8

namespace Spelling

def body (w : Spelling) (p : Packet) : List UInt8 :=
  Octet.bigEndian 4 p.channel.toUInt32.toNat ++
    (w.flag :: (p.id.elim [] Identity.octets ++ (w.content ++ p.content.unread)))

def frame (w : Spelling) (p : Packet) : List UInt8 := w.length ++ w.body p

/-- The lengths are those of the packet in some spelling, and the flag is that of its id. -/
structure Admitted (w : Spelling) (p : Packet) : Prop where
  length : VarInt.Spells .int (w.body p).length w.length
  flag : w.flag = 0 ↔ p.id = none
  content : VarInt.Spells .int p.content.unread.length w.content

/-- Both lengths are spelled the shortest way, and the flag is zero or one. -/
structure Plain (w : Spelling) (p : Packet) : Prop where
  length : VarInt.Shortest .int (w.body p).length w.length
  flag : w.flag = 0 ∨ w.flag = 1
  content : VarInt.Shortest .int p.content.unread.length w.content

/-- The length of a body, whatever the spelling of the length in it. -/
theorem length_body (w : Spelling) (p : Packet) :
    (w.body p).length = headerSize + w.content.length + p.content.unread.length +
      (if p.id.isSome then identitySize else 0) := by
  cases hid : p.id with
  | none =>
    simp only [body, hid, Option.elim_none, List.nil_append, List.length_append, List.length_cons,
      Octet.length_bigEndian, Option.isSome_none, Bool.false_eq_true, if_false, headerSize]
    omega
  | some id =>
    simp only [body, hid, Option.elim_some, List.length_append, List.length_cons,
      Octet.length_bigEndian, Option.isSome_some, if_true, headerSize, identitySize,
      Identity.octets]
    omega

end Spelling

variable {limit : Nat} {s rest : List UInt8} {p : Packet} {w : Spelling}

/-- What stands behind a flag is the id, and the flag is zero exactly if there is none. -/
theorem flagged_iff (o : Option Identity) (t : List UInt8) :
    Reader.Flagged (fun id t => t = id.octets) o t ↔
      ∃ b, (b = 0 ↔ o = none) ∧ t = b :: o.elim [] Identity.octets := by
  constructor
  · intro h
    cases h with
    | absent => exact ⟨0, by simp, rfl⟩
    | @present b id t hb ht => exact ⟨b, by simp [hb], by rw [ht]; rfl⟩
  · rintro ⟨b, hb, rfl⟩
    cases o with
    | none =>
      obtain rfl : b = 0 := hb.mpr rfl
      exact .absent
    | some id => exact .present (by simp [hb]) rfl

/-- The frames of a packet are its spellings. -/
theorem whole_iff_spelled :
    Whole limit p s rest ↔ p.received = p ∧
      ∃ w : Spelling, w.Admitted p ∧ (w.body p).length ≤ limit ∧ s = w.frame p ++ rest := by
  constructor
  · rintro ⟨_, ⟨head, hhead, rfl⟩, hle, flagged, inner, content, hflagged, hinner, hcontent, rfl⟩
    obtain ⟨b, hb, rfl⟩ := (flagged_iff p.id flagged).mp hflagged
    obtain rfl : p.content.unread = content := by rw [hcontent]; rfl
    have hreceived : p.received = p := by rw [Packet.received, ← hcontent]
    exact ⟨hreceived, ⟨head, b, inner⟩, ⟨hhead, hb, hinner⟩, hle, (List.append_assoc ..).symm⟩
  · rintro ⟨hreceived, w, hw, hle, rfl⟩
    have hflagged := (flagged_iff p.id _).mpr ⟨w.flag, hw.flag, rfl⟩
    exact ⟨w.body p, ⟨w.length, hw.length, List.append_assoc ..⟩, hle, _, w.content, _, hflagged,
      hw.content, (congrArg Packet.content hreceived).symm, rfl⟩

section

variable (hw : w.Admitted p)
include hw

/-- No spelling has a shorter body than the one that is written. -/
theorem bodySize_le_spelled : bodySize p ≤ (w.body p).length := by
  have hword : p.content.unread.length < UInt32.size := hw.content.lt_size
  have hcontent := hw.content.groups.length_encode_le
  rw [w.length_body, bodySize, VarInt.length_eq, UInt32.toNat_ofNat_of_lt' hword]
  omega

theorem bodySize_lt_of_spelled : bodySize p < UInt32.size :=
  Nat.lt_of_le_of_lt (bodySize_le_spelled hw) hw.length.lt_size

theorem length_lengthField_le : (lengthField (bodySize p)).length ≤ w.length.length := by
  rw [lengthField_eq (bodySize_lt_of_spelled hw)]
  calc (VarInt.encode (bodySize p)).length
      ≤ (VarInt.encode (w.body p).length).length :=
        VarInt.length_encode_mono (bodySize_le_spelled hw)
    _ ≤ w.length.length := hw.length.groups.length_encode_le

/-- In plain spelling a packet has the frame that is written. -/
theorem frame_eq_of_plain (h : w.Plain p) :
    lengthField (bodySize p) ++ body p = w.frame p := by
  have hcontent : w.content = lengthField p.content.unread.length := by
    rw [lengthField_eq hw.content.lt_size]
    exact hw.content.shortest_iff.mp h.content
  have hflag : w.flag :: p.id.elim [] Identity.octets = idField p.id := by
    cases hid : p.id with
    | none => rw [hw.flag.mpr hid]; rfl
    | some id =>
      have hne : w.flag ≠ 0 := fun h0 => by simpa [hid] using hw.flag.mp h0
      rw [h.flag.resolve_left hne]
      rfl
  have hbody : w.body p = body p := by
    rw [Spelling.body, ← List.cons_append, hflag, hcontent, body]
  have hlength : w.length = lengthField (bodySize p) := by
    rw [lengthField_eq (bodySize_lt_of_spelled hw), ← Frame.length_body, ← hbody]
    exact hw.length.shortest_iff.mp h.length
  rw [Spelling.frame, hbody, hlength]

/-- The frame that is written is a plain spelling. -/
theorem plain_of_frame_eq (h : lengthField (bodySize p) ++ body p = w.frame p) : w.Plain p := by
  have hbody := bodySize_le_spelled hw
  have hhead := length_lengthField_le hw
  have htotal := congrArg List.length h
  rw [Spelling.frame, List.length_append, List.length_append, Frame.length_body] at htotal
  have hsize : bodySize p = (w.body p).length := by omega
  obtain ⟨hlength, hbodies⟩ := List.append_inj h (by omega)
  have hfields : idField p.id ++ (lengthField p.content.unread.length ++ p.content.unread) =
      w.flag :: (p.id.elim [] Identity.octets ++ (w.content ++ p.content.unread)) :=
    List.append_cancel_left hbodies
  refine ⟨hw.length.shortest_iff.mpr ?_, ?_, hw.content.shortest_iff.mpr ?_⟩
  · rw [← hlength, hsize, lengthField_eq (hsize ▸ bodySize_lt_of_spelled hw)]
  · cases hid : p.id with
    | none => exact .inl (hw.flag.mpr hid)
    | some id =>
      rw [hid] at hfields
      exact .inr (List.cons.inj hfields).1.symm
  · rw [← lengthField_eq hw.content.lt_size]
    cases hid : p.id with
    | none =>
      rw [hid] at hfields
      exact (List.append_cancel_right (List.cons.inj hfields).2).symm
    | some id =>
      rw [hid] at hfields
      have hrest := List.append_cancel_left (List.cons.inj hfields).2
      exact (List.append_cancel_right hrest).symm

end

/-- The frame at the front, read and written again under one limit. -/
def forward (limit : Nat) (s : List UInt8) : Option (List UInt8) :=
  match ({ limit } : Decoder).decode s with
  | (.packet p, _, _) => (encode limit p).toOption
  | _ => none

/-- Whoever reads a packet off a string under a limit can write it under that limit behind
anything, in no more octets than were read, and reads it again from what was written. These are
the octets that were read exactly if the frame was plain, its lengths being the shortest and
its flag zero or one. What was written once is written the same again. -/
theorem forwarding_normalises {d : Decoder}
    (h : ({ limit } : Decoder).decode s = (.packet p, d, rest)) :
    ∃ taken frame, s = taken ++ rest ∧ (∀ out, append limit p out = (.ok (), out ++ frame)) ∧
      frame.length ≤ taken.length ∧
      (∀ after, ({ limit } : Decoder).decode (frame ++ after) = (.packet p, { limit }, after)) ∧
      (∃ w : Spelling, w.Admitted p ∧ taken = w.frame p) ∧
      (∀ w : Spelling, w.Admitted p → taken = w.frame p → (frame = taken ↔ w.Plain p)) ∧
      forward limit s = some frame ∧ forward limit frame = some frame := by
  obtain ⟨-, hwhole⟩ := (Decoder.decode_eq_packet_iff limit s rest p d).mp h
  obtain ⟨hreceived, w, hw, hle, hs⟩ := whole_iff_spelled.mp hwhole
  have hlimit : bodySize p ≤ limit := Nat.le_trans (bodySize_le_spelled hw) hle
  have hwritten := encode_of_le hlimit
  have hread (after : List UInt8) :
      ({ limit } : Decoder).decode (lengthField (bodySize p) ++ body p ++ after) =
        (.packet p, { limit }, after) := by
    rw [Decoder.decode_frame limit p after hlimit (bodySize_lt_of_spelled hw), hreceived]
  refine ⟨w.frame p, _, hs, append_of_le hlimit, ?_, hread, ⟨w, hw, rfl⟩, ?_, ?_, ?_⟩
  · have hbody := bodySize_le_spelled hw
    have hhead := length_lengthField_le hw
    rw [Spelling.frame, List.length_append, List.length_append, Frame.length_body]
    omega
  · intro v hv hframe
    rw [hframe]
    exact ⟨plain_of_frame_eq hv, frame_eq_of_plain hv⟩
  · simp only [forward, h, hwritten]
    rfl
  · have hagain := hread []
    rw [List.append_nil] at hagain
    simp only [forward, hagain, hwritten]
    rfl

/-- Two lengths of three octets where one is enough, and a flag of seven. -/
theorem forwarding_normalises_padded :
    let s := [0x9B, 0x80, 0x00, 0, 0, 0, 5, 7] ++ Identity.octets ⟨0, 9⟩ ++
      [0x83, 0x80, 0x00, 1, 2, 3, 8]
    let p : Packet := { channel := 5, id := some ⟨0, 9⟩, content := .ofBytes [1, 2, 3] }
    ({ limit := 27 } : Decoder).decode s = (.packet p, { limit := 27 }, [8]) ∧
      ∃ taken, s = taken ++ [8] ∧ taken.length = 30 ∧
        let frame := [25, 0, 0, 0, 5, 1] ++ Identity.octets ⟨0, 9⟩ ++ [3, 1, 2, 3]
        (∀ out, append 27 p out = (.ok (), out ++ frame)) ∧
        ({ limit := 27 } : Decoder).decode frame = (.packet p, { limit := 27 }, []) ∧
        forward 27 frame = some frame := by
  intro s p
  have hread : ({ limit := 27 } : Decoder).decode s = (.packet p, { limit := 27 }, [8]) := by
    decide +kernel
  obtain ⟨taken, frame, hs, hwrite, -, hagain, -, -, hforward, hforward'⟩ :=
    forwarding_normalises hread
  have hframe : forward 27 s =
      some ([25, 0, 0, 0, 5, 1] ++ Identity.octets ⟨0, 9⟩ ++ [3, 1, 2, 3]) := by decide +kernel
  obtain rfl := Option.some.inj (hforward.symm.trans hframe)
  have hlength : s.length = 31 := by decide +kernel
  rw [hs, List.length_append, List.length_singleton] at hlength
  have hnothing := hagain []
  rw [List.append_nil] at hnothing
  exact ⟨hread, taken, hs, by omega, hwrite, hnothing, hforward'⟩

end Switchboard.Frame
