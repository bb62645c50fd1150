import Switchboard.Proofs.Buffer.Languages
import Switchboard.Proofs.Frame.Chunks

/-!
# The grammar of frames

What a decoder that awaits a length makes of a string of octets is told by what stands at
its front: a whole frame, a frame with octets to spare, a length beyond the limit, the
beginning of a frame, or none of these. Lengths may be spelled in any admitted way and a
flag may be any octet; nothing else is free. `decode_iff` is that case distinction, in both
directions.
-/

namespace Switchboard

namespace Frame

/-- The octets are a body with the fields of the packet: the channel in four octets, a flag
and with it the id, and the content behind its length. -/
def IsBody (p : Packet) (s : List UInt8) : Prop :=
  ∃ flagged head content,
    Reader.Flagged (fun id t => t = id.octets) p.id flagged ∧
    VarInt.Spells .int content.length head ∧
    p.content = Buffer.ofBytes content ∧
    s = Octet.bigEndian 4 p.channel.toUInt32.toNat ++ (flagged ++ (head ++ content))

def Opens (length : Nat) (s rest : List UInt8) : Prop :=
  ∃ head, VarInt.Spells .int length head ∧ s = head ++ rest

def Whole (limit : Nat) (p : Packet) (s rest : List UInt8) : Prop :=
  ∃ body, Opens body.length s (body ++ rest) ∧ body.length ≤ limit ∧ IsBody p body

def Overfull (limit count : Nat) (s : List UInt8) : Prop :=
  ∃ p body extra rest, Opens (body ++ extra).length s (body ++ extra ++ rest) ∧
    (body ++ extra).length ≤ limit ∧ IsBody p body ∧ extra.length = count ∧ 0 < count

def Oversized (limit size : Nat) (s : List UInt8) : Prop :=
  limit < size ∧ ∃ rest, Opens size s rest

/-- The length at the front may still go on, or fewer octets follow it than it announces. -/
def Unfinished (limit : Nat) (s : List UInt8) : Prop :=
  (s.length < 5 ∧ ∀ b ∈ s, 0x80 ≤ b) ∨
    ∃ length rest, Opens length s rest ∧ length ≤ limit ∧ rest.length < length

/-- A body is read as a packet, and nothing else is. -/
theorem parses_packetReader : packetReader.Parses IsBody := by
  have hflagged := Reader.parses_nullable Reader.parses_identity
  refine (Reader.parses_i32.bind fun channel => hflagged.bind fun id =>
    Reader.parses_buffer.map (g := fun content => (⟨channel, id, content⟩ : Packet))).congr
      fun p s => ?_
  constructor
  · rintro ⟨channel, _, _, rfl, ⟨id, flagged, _, hid, ⟨_, ⟨head, content, hhead, rfl, rfl⟩, rfl⟩,
      rfl⟩, rfl⟩
    exact ⟨flagged, head, content, hid, hhead, rfl, rfl⟩
  · rintro ⟨flagged, head, content, hid, hhead, hcontent, rfl⟩
    refine ⟨p.channel, _, _, rfl, ⟨p.id, flagged, _, hid, ⟨_, ⟨head, content, hhead, rfl, rfl⟩, ?_⟩,
      rfl⟩, rfl⟩
    rw [← hcontent]

theorem fails_packetReader : packetReader.FailsOnly BufferError.Structural :=
  Reader.fails_i32.bind fun _ =>
    (Reader.fails_nullable Reader.fails_bool Reader.fails_identity).bind fun _ =>
      Reader.fails_buffer.map

/-- A body holds a packet when its fields use it up. -/
theorem decodeBody_eq_ok_iff (s : List UInt8) (p : Packet) :
    decodeBody s = .ok p ↔ IsBody p s := by
  have hiff := parses_packetReader.on_eq_ok_iff s [] p
  simp only [List.append_nil, exists_eq_right'] at hiff
  rw [← hiff, decodeBody]
  rcases packetReader.on s with ⟨_ | q, _ | ⟨b, rest⟩⟩ <;> simp

/-- What is left over is counted once the fields are read. -/
theorem decodeBody_eq_trailing_iff (s : List UInt8) (count : Nat) :
    decodeBody s = .error (.trailing count) ↔
      ∃ p body extra, s = body ++ extra ∧ IsBody p body ∧ extra.length = count ∧ 0 < count := by
  constructor
  · intro h
    rw [decodeBody] at h
    split at h
    · cases h
    · rename_i p b rest hon
      cases h
      obtain ⟨body, hbody, hsplit⟩ := parses_packetReader.splits hon
      exact ⟨p, body, b :: rest, hsplit, hbody, rfl, Nat.succ_pos _⟩
    · cases h
  · rintro ⟨p, body, extra, rfl, hbody, rfl, hpos⟩
    have hon := parses_packetReader.reads hbody extra
    cases extra with
    | nil => exact absurd hpos (Nat.lt_irrefl 0)
    | cons b rest => simp only [decodeBody, hon]

/-- A body is refused for a length in it or for octets left over, never for its own size. -/
theorem decodeBody_error {s : List UInt8} {e : FrameError} (h : decodeBody s = .error e) :
    (∃ count, e = .trailing count) ∨ ∃ b, e = .malformed b ∧ b.Structural := by
  rw [decodeBody] at h
  split at h
  · rename_i b rest hon
    cases h
    exact .inr ⟨b, rfl, fails_packetReader _ _ _ hon⟩
  · cases h
    exact .inl ⟨_, rfl⟩
  · cases h

theorem Opens.lt_size {length : Nat} {s rest : List UInt8} (h : Opens length s rest) :
    length < UInt32.size := by
  obtain ⟨head, hhead, -⟩ := h
  exact hhead.lt_size

/-- Only one length stands at the front of a string. -/
theorem Opens.unique {m n : Nat} {s r t : List UInt8} (hm : Opens m s r) (hn : Opens n s t) :
    m = n ∧ r = t := by
  obtain ⟨head, hhead, rfl⟩ := hm
  obtain ⟨head', hhead', hsplit⟩ := hn
  have hpeek := VarInt.peek_of_spells hhead r
  rw [hsplit, VarInt.peek_of_spells hhead' t] at hpeek
  obtain ⟨hvalue, hlength⟩ := VarInt.Peek.found.inj hpeek
  exact ⟨hvalue.symm, (List.append_inj hsplit hlength.symm).2⟩

theorem Opens.peek {length : Nat} {s rest : List UInt8} (h : Opens length s rest) :
    ∃ size, VarInt.peek .int s = .found length size ∧ s.drop size = rest := by
  obtain ⟨head, hhead, rfl⟩ := h
  exact ⟨head.length, VarInt.peek_of_spells hhead rest, List.drop_left⟩

theorem opens_of_peek {length size : Nat} {s : List UInt8}
    (h : VarInt.peek .int s = .found length size) : Opens length s (s.drop size) := by
  obtain ⟨head, rest, rfl, rfl, hhead⟩ := (VarInt.peek_eq_found_iff .int s length size).mp h
  exact ⟨head, hhead, by rw [List.drop_left]⟩

end Frame

namespace Decoder

open Switchboard.Frame

variable {limit length : Nat} {s rest : List UInt8}

/-- Where the length is within the limit, the decoder goes on to the body. -/
theorem decode_of_opens (h : Opens length s rest) (hle : length ≤ limit) :
    ({ limit } : Decoder).decode s = ({ limit } : Decoder).stepBody length rest := by
  obtain ⟨size, hpeek, rfl⟩ := h.peek
  simp only [decode, hpeek, if_neg (Nat.not_lt.mpr hle)]

theorem decode_of_oversized (h : Opens length s rest) (hlt : limit < length) :
    ({ limit } : Decoder).decode s = (.failed (.tooLarge length limit), { limit }, s) := by
  obtain ⟨size, hpeek, rfl⟩ := h.peek
  simp only [decode, hpeek, if_pos hlt]

def Answer.ofBody : Except FrameError Packet → Answer
  | .ok p => .packet p
  | .error e => .failed e

/-- A frame is taken whole, whatever its body holds and whatever follows it. -/
theorem decode_of_body {body : List UInt8} (h : Opens body.length s (body ++ rest))
    (hle : body.length ≤ limit) :
    ({ limit } : Decoder).decode s = (.ofBody (decodeBody body), { limit }, rest) := by
  have hreach : body.length ≤ (body ++ rest).length := by
    rw [List.length_append]
    omega
  rw [decode_of_opens h hle, stepBody_of_le _ hreach, List.take_left, List.drop_left]
  cases decodeBody body <;> rfl

/-- The ways in which the front of a string can be read by a decoder that awaits a length:
no length yet, none at all, one beyond the limit, the beginning of a frame, a frame. -/
theorem decode_cases (limit : Nat) (s : List UInt8) :
    (({ limit } : Decoder).decode s = (.more, { limit }, s) ∧ s.length < 5 ∧ ∀ b ∈ s, 0x80 ≤ b) ∨
    (({ limit } : Decoder).decode s = (.failed (.malformed .varIntTooLong), { limit }, s)) ∨
    (∃ size rest, Opens size s rest ∧ limit < size ∧
      ({ limit } : Decoder).decode s = (.failed (.tooLarge size limit), { limit }, s)) ∨
    (∃ length rest, Opens length s rest ∧ length ≤ limit ∧ rest.length < length ∧
      ({ limit } : Decoder).decode s = (.more, { limit, awaiting := some length }, rest)) ∨
    (∃ body rest, Opens body.length s (body ++ rest) ∧ body.length ≤ limit ∧
      ({ limit } : Decoder).decode s = (.ofBody (decodeBody body), { limit }, rest)) := by
  cases hp : VarInt.peek .int s with
  | incomplete =>
    refine .inl ⟨by simp only [decode, hp], ?_⟩
    exact (VarInt.peek_eq_incomplete_iff .int s).mp hp
  | tooLong => exact .inr (.inl (by simp only [decode, hp]))
  | found length size =>
    have hopens := opens_of_peek hp
    refine .inr (.inr ?_)
    by_cases hlimit : limit < length
    · exact .inl ⟨length, _, hopens, hlimit, decode_of_oversized hopens hlimit⟩
    have hle : length ≤ limit := Nat.le_of_not_lt hlimit
    rcases Nat.lt_or_ge (s.drop size).length length with hlt | hge
    · refine .inr (.inl ⟨length, _, hopens, hle, hlt, ?_⟩)
      rw [decode_of_opens hopens hle, stepBody_of_lt _ hlt]
    · have hbody : ((s.drop size).take length).length = length := by
        rw [List.length_take, Nat.min_eq_left hge]
      have hframe : Opens ((s.drop size).take length).length s
          ((s.drop size).take length ++ (s.drop size).drop length) := by
        rw [hbody, List.take_append_drop]
        exact hopens
      have hfits : ((s.drop size).take length).length ≤ limit := Nat.le_trans (Nat.le_of_eq hbody) hle
      exact .inr (.inr ⟨_, _, hframe, hfits, decode_of_body hframe hfits⟩)

theorem ofBody_eq_packet_iff (r : Except FrameError Packet) (p : Packet) :
    Answer.ofBody r = .packet p ↔ r = .ok p := by
  cases r <;> simp [Answer.ofBody]

theorem ofBody_eq_failed_iff (r : Except FrameError Packet) (e : FrameError) :
    Answer.ofBody r = .failed e ↔ r = .error e := by
  cases r <;> simp [Answer.ofBody]

theorem ofBody_ne_more (r : Except FrameError Packet) : Answer.ofBody r ≠ .more := by
  cases r <;> simp [Answer.ofBody]

/-- A packet is answered for a whole frame of it at the front, and what follows is left. -/
theorem decode_eq_packet_iff (limit : Nat) (s rest : List UInt8) (p : Packet) (d : Decoder) :
    ({ limit } : Decoder).decode s = (.packet p, d, rest) ↔
      d = { limit } ∧ Whole limit p s rest := by
  constructor
  · intro h
    rcases decode_cases limit s with ⟨hd, -⟩ | hd | ⟨_, _, -, -, hd⟩ | ⟨_, _, -, -, -, hd⟩ |
        ⟨body, rest', hframe, hle, hd⟩ <;> rw [hd] at h
    · cases h
    · cases h
    · cases h
    · cases h
    · simp only [Prod.mk.injEq, ofBody_eq_packet_iff, decodeBody_eq_ok_iff] at h
      obtain ⟨hbody, rfl, rfl⟩ := h
      exact ⟨rfl, body, hframe, hle, hbody⟩
  · rintro ⟨rfl, body, hframe, hle, hbody⟩
    rw [decode_of_body hframe hle, (decodeBody_eq_ok_iff body p).mpr hbody]
    rfl

/-- Octets are left over in an overfull frame and in no other. -/
theorem decode_eq_trailing_iff (limit : Nat) (s : List UInt8) (count : Nat) :
    (({ limit } : Decoder).decode s).1 = .failed (.trailing count) ↔ Overfull limit count s := by
  constructor
  · intro h
    rcases decode_cases limit s with ⟨hd, -⟩ | hd | ⟨_, _, -, -, hd⟩ | ⟨_, _, -, -, -, hd⟩ |
        ⟨body, rest, hframe, hle, hd⟩ <;> rw [hd] at h
    · cases h
    · cases h
    · cases h
    · cases h
    · rw [ofBody_eq_failed_iff, decodeBody_eq_trailing_iff] at h
      obtain ⟨p, body, extra, rfl, hbody, hcount, hpos⟩ := h
      exact ⟨p, body, extra, rest, hframe, hle, hbody, hcount, hpos⟩
  · rintro ⟨p, body, extra, rest, hframe, hle, hbody, hcount, hpos⟩
    rw [decode_of_body hframe hle, ofBody_eq_failed_iff, decodeBody_eq_trailing_iff]
    exact ⟨p, body, extra, rfl, hbody, hcount, hpos⟩

/-- A length beyond the limit is answered as such, and as no other. -/
theorem decode_eq_tooLarge_iff (limit : Nat) (s : List UInt8) (size bound : Nat) :
    (({ limit } : Decoder).decode s).1 = .failed (.tooLarge size bound) ↔
      bound = limit ∧ Oversized limit size s := by
  constructor
  · intro h
    rcases decode_cases limit s with ⟨hd, -⟩ | hd | ⟨_, rest, hopens, hlt, hd⟩ |
        ⟨_, _, -, -, -, hd⟩ | ⟨body, rest, -, -, hd⟩ <;> rw [hd] at h
    · cases h
    · cases h
    · cases h
      exact ⟨rfl, hlt, rest, hopens⟩
    · cases h
    · rw [ofBody_eq_failed_iff] at h
      obtain ⟨count, he⟩ | ⟨b, he, -⟩ := decodeBody_error h <;> cases he
  · rintro ⟨rfl, hlt, rest, hopens⟩
    rw [decode_of_oversized hopens hlt]

/-- More is asked for as long as the length or the body is unfinished. -/
theorem decode_eq_more_iff (limit : Nat) (s : List UInt8) :
    (({ limit } : Decoder).decode s).1 = .more ↔ Unfinished limit s := by
  constructor
  · intro h
    rcases decode_cases limit s with ⟨-, hopen⟩ | hd | ⟨_, _, -, -, hd⟩ |
        ⟨length, rest, hopens, hle, hlt, -⟩ | ⟨body, rest, -, -, hd⟩
    · exact .inl hopen
    · rw [hd] at h
      cases h
    · rw [hd] at h
      cases h
    · exact .inr ⟨length, rest, hopens, hle, hlt⟩
    · rw [hd] at h
      exact absurd h (ofBody_ne_more _)
  · rintro (hopen | ⟨length, rest, hopens, hle, hlt⟩)
    · simp only [decode, (VarInt.peek_eq_incomplete_iff .int s).mpr hopen]
    · rw [decode_of_opens hopens hle, stepBody_of_lt _ hlt]

/-- A frame that is malformed is so for its octets being too few or an integer too long. -/
theorem structural_of_decode {limit : Nat} {s : List UInt8} {e : BufferError}
    (h : (({ limit } : Decoder).decode s).1 = .failed (.malformed e)) : e.Structural := by
  rcases decode_cases limit s with ⟨hd, -⟩ | hd | ⟨_, _, -, -, hd⟩ | ⟨_, _, -, -, -, hd⟩ |
      ⟨body, rest, -, -, hd⟩ <;> rw [hd] at h
  · cases h
  · cases h
    trivial
  · cases h
  · cases h
  · rw [ofBody_eq_failed_iff] at h
    obtain ⟨count, he⟩ | ⟨b, he, hb⟩ := decodeBody_error h <;> cases he
    exact hb

/-- A string is malformed exactly if nothing else can be said of it. -/
theorem decode_eq_malformed_iff (limit : Nat) (s : List UInt8) :
    (∃ e, (({ limit } : Decoder).decode s).1 = .failed (.malformed e)) ↔
      ¬ (∃ p rest, Whole limit p s rest) ∧ ¬ (∃ count, Overfull limit count s) ∧
        ¬ (∃ size, Oversized limit size s) ∧ ¬ Unfinished limit s := by
  constructor
  · rintro ⟨e, he⟩
    refine ⟨?_, ?_, ?_, ?_⟩
    · rintro ⟨p, rest, hwhole⟩
      simp [(decode_eq_packet_iff limit s rest p { limit }).mpr ⟨rfl, hwhole⟩] at he
    · rintro ⟨count, hoverfull⟩
      simp [(decode_eq_trailing_iff limit s count).mpr hoverfull] at he
    · rintro ⟨size, hoversized⟩
      simp [(decode_eq_tooLarge_iff limit s size limit).mpr ⟨rfl, hoversized⟩] at he
    · intro hunfinished
      simp [(decode_eq_more_iff limit s).mpr hunfinished] at he
  · rintro ⟨hwhole, hoverfull, hoversized, hunfinished⟩
    cases hd : ({ limit } : Decoder).decode s with
    | mk answer after =>
      obtain ⟨d, rest⟩ := after
      have hanswer : (({ limit } : Decoder).decode s).1 = answer := by rw [hd]
      cases answer with
      | packet p => exact absurd ⟨p, rest, ((decode_eq_packet_iff limit s rest p d).mp hd).2⟩ hwhole
      | more => exact absurd ((decode_eq_more_iff limit s).mp hanswer) hunfinished
      | failed e =>
        cases e with
        | tooLarge size bound =>
          exact absurd ⟨size, ((decode_eq_tooLarge_iff limit s size bound).mp hanswer).2⟩ hoversized
        | trailing count =>
          exact absurd ⟨count, (decode_eq_trailing_iff limit s count).mp hanswer⟩ hoverfull
        | malformed e => exact ⟨e, rfl⟩

/-- What a decoder that awaits a length says of a string is told by what stands at its
front: a packet if that is a frame of it, which alone is then taken; how many octets are
left over in a body; a length beyond the limit; that more is needed; and in every other case
that fewer octets are there than something asks for or that an integer is too long. -/
theorem decode_iff (limit : Nat) (s : List UInt8) :
    (∀ p d rest, ({ limit } : Decoder).decode s = (.packet p, d, rest) ↔
      d = { limit } ∧ Whole limit p s rest) ∧
    (∀ count, (({ limit } : Decoder).decode s).1 = .failed (.trailing count) ↔
      Overfull limit count s) ∧
    (∀ size bound, (({ limit } : Decoder).decode s).1 = .failed (.tooLarge size bound) ↔
      bound = limit ∧ Oversized limit size s) ∧
    ((({ limit } : Decoder).decode s).1 = .more ↔ Unfinished limit s) ∧
    ((¬ (∃ p rest, Whole limit p s rest) ∧ ¬ (∃ count, Overfull limit count s) ∧
        ¬ (∃ size, Oversized limit size s) ∧ ¬ Unfinished limit s) ↔
      ((∃ needed remaining, remaining < needed ∧ (({ limit } : Decoder).decode s).1 =
          .failed (.malformed (.underflow needed remaining))) ∨
        (({ limit } : Decoder).decode s).1 = .failed (.malformed .varIntTooLong))) := by
  refine ⟨fun p d rest => decode_eq_packet_iff limit s rest p d, decode_eq_trailing_iff limit s,
    decode_eq_tooLarge_iff limit s, decode_eq_more_iff limit s, ?_⟩
  rw [← decode_eq_malformed_iff]
  constructor
  · rintro ⟨e, he⟩
    have hstructural := structural_of_decode he
    cases e with
    | underflow needed remaining => exact .inl ⟨needed, remaining, hstructural.1, he⟩
    | varIntTooLong => exact .inr he
    | invalidUtf8 fault => exact hstructural.elim
    | invalidChar scalar => exact hstructural.elim
    | object => exact hstructural.elim
  · rintro (⟨needed, remaining, -, he⟩ | he)
    · exact ⟨_, he⟩
    · exact ⟨_, he⟩

-- Two lengths that are not spelled the shortest way, and a flag other than one.
example : ({ limit := 27 } : Decoder).decode
    ([0x9B, 0x80, 0x00, 0, 0, 0, 5, 7] ++ Identity.octets ⟨0, 9⟩ ++ [0x83, 0x80, 0x00, 1, 2, 3, 8]) =
      (.packet { channel := 5, id := some ⟨0, 9⟩, content := .ofBytes [1, 2, 3] },
        { limit := 27 }, [8]) := by
  decide +kernel

end Decoder

end Switchboard
