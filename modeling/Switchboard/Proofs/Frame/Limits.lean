import Switchboard.Proofs.Frame.Headers

/-!
# One limit on both sides

The encoder holds a packet to its limit by a size told in advance, the decoder holds a frame
to its own by the length it reads. The two sizes are the same one, that of the body, so two
ends with one limit never disagree on a packet: what one refuses to write, the other refuses
to read, for the same reason and in the same numbers (`limits_agree`).
-/

namespace Switchboard.Frame

variable {limit sent : Nat} {p : Packet} {out : List UInt8}

/-- Writing behind what is there writes the frame, if the packet has one under this limit. -/
theorem append_eq (limit : Nat) (p : Packet) (out : List UInt8) :
    append limit p out = match encode limit p with
      | .ok frame => (.ok (), out ++ frame)
      | .error e => (.error e, out) := by
  by_cases h : limit < bodySize p
  · simp only [append, encode_eq_ite, if_pos h]
  · simp only [append, encode_eq_ite, if_neg h, body, List.append_assoc]

theorem append_of_le (h : bodySize p ≤ limit) (out : List UInt8) :
    append limit p out = (.ok (), out ++ (lengthField (bodySize p) ++ body p)) := by
  rw [append_eq, encode_of_le h]

theorem append_of_lt (h : limit < bodySize p) (out : List UInt8) :
    append limit p out = (.error (.tooLarge (bodySize p) limit), out) := by
  rw [append_eq, encode_eq_ite, if_pos h]

/-- A packet is refused by the size of its body alone. -/
theorem append_ok_iff : (append limit p out).1 = .ok () ↔ bodySize p ≤ limit := by
  rcases Nat.lt_or_ge limit (bodySize p) with hlt | hle
  · simp [append_of_lt hlt, Nat.not_le.mpr hlt]
  · simp [append_of_le hle, hle]

/-- A decoder takes what was written under any limit, or refuses it for its length. -/
theorem decode_written (hword : bodySize p < UInt32.size) (limit : Nat) (rest : List UInt8) :
    ({ limit } : Decoder).decode (lengthField (bodySize p) ++ body p ++ rest) =
      if bodySize p ≤ limit then (.packet p.received, { limit }, rest)
      else (.failed (.tooLarge (bodySize p) limit), { limit },
        lengthField (bodySize p) ++ body p ++ rest) := by
  split
  · rename_i hle
    exact Decoder.decode_frame limit p rest hle hword
  · rename_i hnot
    have hopens := opens_lengthField (bodySize p) (body p ++ rest)
    rw [Nat.mod_eq_of_lt hword, ← List.append_assoc] at hopens
    exact Decoder.decode_of_oversized hopens (Nat.not_le.mp hnot)

/-- Of a packet that was written under a limit below 2 ^ 32, behind anything: under any other
limit, an encoder takes it exactly if a new decoder takes the frame, whatever follows it. If
they take it, the decoder gets the packet and is done with the frame; if they refuse it, both
tell the size of the body that stands in the frame, and either leaves its buffer as it was.
Whoever writes the packet, under whatever limit, writes the same octets and keeps what was
there. -/
theorem limits_agree (limit : Nat) (hword : sent < UInt32.size) {out' : List UInt8}
    (h : append sent p out = (.ok (), out')) :
    ∃ frame, out' = out ++ frame ∧ Opens (body p).length frame (body p) ∧
      (∀ rest, (append limit p out).1 = .ok () ↔
        ∃ q d left, ({ limit } : Decoder).decode (frame ++ rest) = (.packet q, d, left)) ∧
      ((append limit p out).1 = .ok () → ∀ rest,
        ({ limit } : Decoder).decode (frame ++ rest) = (.packet p.received, { limit }, rest)) ∧
      ((append limit p out).1 ≠ .ok () →
        append limit p out = (.error (.tooLarge (body p).length limit), out) ∧
        ∀ rest, ({ limit } : Decoder).decode (frame ++ rest) =
          (.failed (.tooLarge (body p).length limit), { limit }, frame ++ rest)) ∧
      (∀ other before, (append other p before).1 = .ok () →
        append other p before = (.ok (), before ++ frame)) := by
  have hsize : bodySize p ≤ sent := append_ok_iff.mp (congrArg Prod.fst h)
  have hbody : bodySize p < UInt32.size := Nat.lt_of_le_of_lt hsize hword
  have hwritten := append_of_le hsize out
  rw [h] at hwritten
  have hopens := opens_lengthField (bodySize p) (body p)
  rw [Nat.mod_eq_of_lt hbody, ← length_body] at hopens
  refine ⟨_, congrArg Prod.snd hwritten, length_body p ▸ hopens, fun rest => ?_, fun hok rest => ?_,
    fun hno => ?_, fun other before hok => ?_⟩
  · rw [append_ok_iff, decode_written hbody]
    split <;> simp_all
  · rw [decode_written hbody, if_pos (append_ok_iff.mp hok)]
  · have hlt : limit < bodySize p := Nat.not_le.mp fun hfits => hno (append_ok_iff.mpr hfits)
    rw [length_body]
    refine ⟨append_of_lt hlt out, fun rest => ?_⟩
    rw [decode_written hbody, if_neg (Nat.not_le.mpr hlt)]
  · exact append_of_le (append_ok_iff.mp hok) before

/-- A body of 128 octets, whose length takes two, one octet beyond the limit. -/
theorem limits_agree_two_octets :
    let p : Packet := { channel := 7, content := .ofBytes (List.replicate 122 0xAA) }
    128 < UInt32.size ∧ ∃ frame, append 128 p [1] = (.ok (), [1] ++ frame) ∧
      append 127 p [1] = (.error (.tooLarge 128 127), [1]) ∧
      ({ limit := 127 } : Decoder).decode frame =
        (.failed (.tooLarge 128 127), { limit := 127 }, frame) := by
  intro p
  have hsize : bodySize p = 128 := by decide +kernel
  have hword : 128 < UInt32.size := by decide
  have hwritten := append_of_le (Nat.le_of_eq hsize) [1]
  obtain ⟨frame, hframe, -, -, -, hrefused, -⟩ :=
    limits_agree 127 hword hwritten
  have hno : (append 127 p [1]).1 ≠ .ok () := by
    rw [append_of_lt (by rw [hsize]; decide)]
    exact nofun
  obtain ⟨hencoder, hdecoder⟩ := hrefused hno
  rw [length_body, hsize] at hencoder hdecoder
  have hnothing := hdecoder []
  rw [List.append_nil] at hnothing
  exact ⟨hword, frame, hframe ▸ hwritten, hencoder, hnothing⟩

end Switchboard.Frame
