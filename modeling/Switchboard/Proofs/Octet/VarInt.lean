import Mathlib.Algebra.Group.Nat.Defs
import Switchboard.Octet.VarInt

/-!
# Writing and peeking variable-width integers

The shortest form of a value that fits the width is read back as that value, and its
size is the one told in advance. A peek that succeeds has looked at no octet behind the
integer, so octets that arrive later do not change its answer.
-/

namespace Switchboard.VarInt

theorem encode_of_lt {n : Nat} (h : n < 0x80) : encode n = [UInt8.ofNat n] := by
  rw [encode, if_pos h]

theorem encode_of_le {n : Nat} (h : 0x80 ≤ n) :
    encode n = UInt8.ofNat (n % 0x80 + 0x80) :: encode (n / 0x80) := by
  rw [encode, if_neg (by omega)]

/-- At the last place that a value of the width may reach, what is left of the value
fits the octets permitted there. -/
theorem ofNat_le_lastMax (w : Width) (i n : Nat) (hi : i + 1 = w.maxLength)
    (h : n < 2 ^ (w.bits - 7 * i)) : UInt8.ofNat n ≤ w.lastMax := by
  rw [UInt8.le_iff_toNat_le, UInt8.toNat_ofNat']
  cases w with
  | int =>
    obtain rfl : i = 4 := by simpa [Width.maxLength] using hi
    have hn : n < 16 := h
    simp only [Width.lastMax, UInt8.reduceToNat]
    omega
  | long =>
    obtain rfl : i = 9 := by simpa [Width.maxLength] using hi
    have hn : n < 2 := h
    simp only [Width.lastMax, UInt8.reduceToNat]
    omega

/-- A value that needs another octet leaves a place for it. -/
theorem succ_lt_maxLength (w : Width) (i n : Nat) (hi : i < w.maxLength) (hn : 0x80 ≤ n)
    (h : n < 2 ^ (w.bits - 7 * i)) :
    i + 1 < w.maxLength ∧ n / 0x80 < 2 ^ (w.bits - 7 * (i + 1)) := by
  have hbits : 7 < w.bits - 7 * i := by
    refine Nat.lt_of_not_le fun hle => ?_
    have hpow : 2 ^ (w.bits - 7 * i) ≤ 2 ^ 7 := Nat.pow_le_pow_right (by decide) (by omega)
    omega
  constructor
  · cases w <;> simp only [Width.maxLength, Width.bits] at * <;> omega
  · have he : w.bits - 7 * i = w.bits - 7 * (i + 1) + 7 := by omega
    rw [he, Nat.pow_add] at h
    exact Nat.div_lt_of_lt_mul (by rwa [Nat.mul_comm])

/-- The shortest form is found, whatever follows it. -/
theorem peekFrom_encode (w : Width) (i n : Nat) (hi : i < w.maxLength)
    (h : n < 2 ^ (w.bits - 7 * i)) (rest : List UInt8) :
    peekFrom w i (encode n ++ rest) = .found n (encode n).length := by
  induction n using encode.induct generalizing i with
  | case1 n hn =>
    have hlast : ¬ (i + 1 = w.maxLength ∧ w.lastMax < UInt8.ofNat n) := by
      rintro ⟨he, hlt⟩
      exact absurd (ofNat_le_lastMax w i n he h) (UInt8.not_le.mpr hlt)
    have hb : (UInt8.ofNat n).toNat = n := by
      rw [UInt8.toNat_ofNat']
      omega
    have hsmall : UInt8.ofNat n < 0x80 := by
      rw [UInt8.lt_iff_toNat_lt, hb]
      exact hn
    simp only [encode_of_lt hn, List.cons_append, List.nil_append, peekFrom, if_neg hlast,
      if_pos hsmall, hb, List.length_singleton]
  | case2 n hn ih =>
    have hn : 0x80 ≤ n := by omega
    obtain ⟨hi', h'⟩ := succ_lt_maxLength w i n hi hn h
    have hlast : ¬ (i + 1 = w.maxLength ∧ w.lastMax < UInt8.ofNat (n % 0x80 + 0x80)) := by
      rintro ⟨he, -⟩
      omega
    have hb : (UInt8.ofNat (n % 0x80 + 0x80)).toNat = n % 0x80 + 0x80 := by
      rw [UInt8.toNat_ofNat']
      omega
    have hbig : ¬ UInt8.ofNat (n % 0x80 + 0x80) < 0x80 := by
      rw [UInt8.lt_iff_toNat_lt, hb]
      simp only [UInt8.reduceToNat]
      omega
    have hgroup : (n % 0x80 + 0x80) % 0x80 + 0x80 * (n / 0x80) = n := by omega
    rw [encode_of_le hn, List.cons_append, peekFrom, if_neg hlast, if_neg hbig, ih (i + 1) hi' h',
      Peek.shift, hb, hgroup, List.length_cons]

/-- What was written is read back at its width, whatever follows it. -/
theorem peek_encode (w : Width) (n : Nat) (h : n < 2 ^ w.bits) (rest : List UInt8) :
    peek w (encode n ++ rest) = .found n (encode n).length :=
  peekFrom_encode w 0 n (by cases w <;> decide) (by simpa using h) rest

/-- The size told in advance is the size written. -/
theorem length_eq (n : UInt32) : length n = (encode n.toNat).length := by
  have hlt := n.toNat_lt
  simp only [length, UInt32.le_iff_toNat_le, UInt32.reduceToNat]
  generalize n.toNat = m at *
  have one (k : Nat) (h : k < 0x80) : (encode k).length = 1 := by rw [encode_of_lt h]; rfl
  have more (k : Nat) (h : 0x80 ≤ k) : (encode k).length = (encode (k / 0x80)).length + 1 := by
    rw [encode_of_le h, List.length_cons]
  split
  · rw [one m (by omega)]
  split
  · rw [more m (by omega), one _ (by omega)]
  split
  · rw [more m (by omega), more _ (by omega), one _ (by omega)]
  split
  · rw [more m (by omega), more _ (by omega), more _ (by omega), one _ (by omega)]
  · rw [more m (by omega), more _ (by omega), more _ (by omega), more _ (by omega),
      one _ (by omega)]

theorem Peek.shift_eq_incomplete (group : Nat) (p : Peek) :
    p.shift group = .incomplete ↔ p = .incomplete := by
  cases p <;> simp [Peek.shift]

/-- Once a peek has an answer, more octets do not change it. -/
theorem peekFrom_append (w : Width) (i : Nat) (s t : List UInt8)
    (h : peekFrom w i s ≠ .incomplete) : peekFrom w i (s ++ t) = peekFrom w i s := by
  induction s generalizing i with
  | nil => exact absurd rfl h
  | cons b s ih =>
    simp only [List.cons_append, peekFrom] at h ⊢
    split
    · rfl
    · rename_i hlast
      split
      · rfl
      · rename_i hb
        rw [if_neg hlast, if_neg hb, ne_eq, Peek.shift_eq_incomplete] at h
        rw [ih (i + 1) h]

/-- A peek that has decided does not look further. -/
theorem peek_append (w : Width) (s t : List UInt8) (h : peek w s ≠ .incomplete) :
    peek w (s ++ t) = peek w s :=
  peekFrom_append w 0 s t h

/-- An integer that was found takes octets that are there, and at least one. -/
theorem peekFrom_found (w : Width) (i : Nat) {n size : Nat} {s : List UInt8}
    (h : peekFrom w i s = .found n size) : 0 < size ∧ size ≤ s.length := by
  induction s generalizing i n size with
  | nil => simp [peekFrom] at h
  | cons b s ih =>
    rw [peekFrom] at h
    split at h
    · simp at h
    · split at h
      · simp only [Peek.found.injEq] at h
        simp [← h.2]
      · cases hs : peekFrom w (i + 1) s with
        | found m rest =>
          have hle := ih (i + 1) hs
          simp only [hs, Peek.shift, Peek.found.injEq] at h
          rw [← h.2, List.length_cons]
          omega
        | incomplete => simp [hs, Peek.shift] at h
        | tooLong => simp [hs, Peek.shift] at h

theorem peek_found (w : Width) {n size : Nat} {s : List UInt8} (h : peek w s = .found n size) :
    0 < size ∧ size ≤ s.length :=
  peekFrom_found w 0 h

end Switchboard.VarInt
