import Switchboard.Proofs.Buffer.Locality

/-!
# Languages of texts and lists

The words of a block, of a text and of a list of values. A check of an announced count looks
ahead of what is taken; where every word behind it has that many octets it does not change
the language (`Parses.ensure`).
-/

namespace Switchboard

/-- The octets of a text are decoded to it, and no others are. -/
theorem Utf8.decode_eq_ok_iff {s : List UInt8} {text : String} :
    decode s = .ok text ↔ s = encode text := by
  constructor
  · intro h
    simp only [decode, String.fromUTF8?] at h
    split at h
    · rename_i found hfound
      obtain rfl := Except.ok.inj h
      split at hfound
      · rw [← Option.some.inj hfound, encode]
        rfl
      · cases hfound
    · cases h
  · rintro rfl
    exact decode_encode text

namespace Reader

variable {α : Type}

/-- The octets behind their length, in any spelling that is admitted. -/
def Blocked (content s : List UInt8) : Prop :=
  ∃ head, VarInt.Spells .int content.length head ∧ s = head ++ content

namespace Blocked

variable {content s : List UInt8}

theorem lt_size (h : Blocked content s) : content.length < UInt32.size := by
  obtain ⟨head, hhead, -⟩ := h
  exact hhead.lt_size

theorem length_pos (h : Blocked content s) : 0 < s.length := by
  obtain ⟨head, hhead, rfl⟩ := h
  have := hhead.groups.length_pos
  rw [List.length_append]
  omega

end Blocked

theorem lengthPrefix_eq {n : Nat} (h : n < UInt32.size) : lengthPrefix n = VarInt.encode n := by
  rw [lengthPrefix, Nat.min_eq_left (by omega)]

theorem blocked_block {content : List UInt8} (h : content.length < UInt32.size) :
    Blocked content (Switchboard.block content) :=
  ⟨_, VarInt.spells_encode .int h, by rw [Switchboard.block, lengthPrefix_eq h]⟩

/-- What is written in front of the octets is the shortest. -/
theorem Blocked.length_block_le {content s : List UInt8} (h : Blocked content s) :
    (Switchboard.block content).length ≤ s.length := by
  have hword := h.lt_size
  obtain ⟨head, hhead, rfl⟩ := h
  have := hhead.groups.length_encode_le
  rw [Switchboard.block, lengthPrefix_eq hword, List.length_append, List.length_append]
  omega

theorem parses_blocked : buffer.Parses fun b s => ∃ content, Blocked content s ∧
    b = Buffer.ofBytes content :=
  parses_block.map

/-- A text is read from a block of its octets. -/
theorem parses_text : text.Parses fun t s => Blocked (Utf8.encode t) s where
  reads {t s} h rest := by
    rw [text, on_bind, parses_block.reads h]
    simp only [Utf8.decode_encode]
    rfl
  splits {s rest t} h := by
    rw [text, on_bind] at h
    cases hs : block.on s with
    | mk outcome left =>
      cases outcome with
      | error e => simp [hs] at h
      | ok content =>
        rw [hs] at h
        cases hd : Utf8.decode content with
        | error fault =>
          simp only [hd] at h
          cases h
        | ok found =>
          simp only [hd] at h
          cases h
          obtain rfl := Utf8.decode_eq_ok_iff.mp hd
          exact parses_block.splits hs

inductive Listed (L : α → List UInt8 → Prop) : List α → List UInt8 → Prop
  | nil : Listed L [] []
  | cons {a : α} {as : List α} {s t : List UInt8} (h : L a s) (hs : Listed L as t) :
      Listed L (a :: as) (s ++ t)

namespace Listed

variable {L : α → List UInt8 → Prop}

/-- Values whose words have an octet have no fewer octets than there are values. -/
theorem length_le (hpos : ∀ a s, L a s → 0 < s.length) {as : List α} {s : List UInt8}
    (h : Listed L as s) : as.length ≤ s.length := by
  induction h with
  | nil => exact Nat.le_refl 0
  | @cons a as s t h hs ih =>
    have := hpos a s h
    rw [List.length_cons, List.length_append]
    omega

theorem flatMap {encode : α → List UInt8} {as : List α} (h : ∀ a ∈ as, L a (encode a)) :
    Listed L as (as.flatMap encode) := by
  induction as with
  | nil => exact .nil
  | cons a as ih =>
    rw [List.flatMap_cons]
    exact .cons (h a List.mem_cons_self) (ih fun b hb => h b (List.mem_cons_of_mem a hb))

/-- What is written of the values is no longer than a row of words that are each no shorter
than what is written. -/
theorem length_flatMap_le {encode : α → List UInt8} (hle : ∀ a s, L a s → (encode a).length ≤ s.length)
    {as : List α} {s : List UInt8} (h : Listed L as s) :
    (as.flatMap encode).length ≤ s.length := by
  induction h with
  | nil => exact Nat.le_refl 0
  | @cons a as s t h hs ih =>
    have := hle a s h
    rw [List.flatMap_cons, List.length_append, List.length_append]
    omega

theorem forall_mem {P : α → Prop} (hP : ∀ a s, L a s → P a) {as : List α} {s : List UInt8}
    (h : Listed L as s) : ∀ a ∈ as, P a := by
  induction h with
  | nil => exact fun _ h => absurd h List.not_mem_nil
  | cons h hs ih => exact List.forall_mem_cons.mpr ⟨hP _ _ h, ih⟩

end Listed

/-- Values that are read in turn stand one behind the other. -/
theorem parses_timesAfter {r : Reader α} {L : α → List UInt8 → Prop} (hr : r.Parses L)
    (seen : List α) (n : Nat) :
    (timesAfter r seen n).Parses fun as s =>
      ∃ more, as = seen.reverse ++ more ∧ more.length = n ∧ Listed L more s := by
  induction n generalizing seen with
  | zero =>
    refine (Parses.pure seen.reverse).congr fun as s => ?_
    constructor
    · rintro ⟨rfl, rfl⟩
      exact ⟨[], (List.append_nil _).symm, rfl, .nil⟩
    · rintro ⟨more, rfl, hmore, hlisted⟩
      obtain rfl := List.length_eq_zero_iff.mp hmore
      cases hlisted
      exact ⟨List.append_nil _, rfl⟩
  | succ n ih =>
    rw [timesAfter_succ]
    refine (hr.bind fun a => ih (a :: seen)).congr fun as s => ?_
    constructor
    · rintro ⟨a, t, u, ht, ⟨more, rfl, rfl, hlisted⟩, rfl⟩
      exact ⟨a :: more, by simp, rfl, .cons ht hlisted⟩
    · rintro ⟨more, rfl, hmore, hlisted⟩
      cases hlisted with
      | nil => cases hmore
      | @cons a more t u ht hlisted =>
        exact ⟨a, t, u, ht, ⟨more, by simp, Nat.succ.inj hmore, hlisted⟩, rfl⟩

theorem parses_times {r : Reader α} {L : α → List UInt8 → Prop} (hr : r.Parses L) (n : Nat) :
    (times n r).Parses fun as s => as.length = n ∧ Listed L as s :=
  (parses_timesAfter hr [] n).congr fun as s => by simp

/-- A check that asks for no more octets than every word has turns no word away. -/
theorem Parses.ensure {r : Reader α} {L : α → List UInt8 → Prop} (hr : r.Parses L) {n : Nat}
    (hlong : ∀ a s, L a s → n ≤ s.length) :
    (Reader.ensure n >>= fun _ => r).Parses L where
  reads {a s} h rest := by
    have hle : n ≤ (s ++ rest).length := by
      rw [List.length_append]
      exact Nat.le_trans (hlong a s h) (Nat.le_add_right _ _)
    rw [on_ensure_of_le hle]
    exact hr.reads h rest
  splits {s rest a} h := by
    rcases Nat.lt_or_ge s.length n with hlt | hle
    · cases (on_ensure_of_lt hlt).symm.trans h
    · exact hr.splits ((on_ensure_of_le hle).symm.trans h)

end Reader

end Switchboard
