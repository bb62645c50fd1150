import Switchboard.Proofs.Octet.VarInt

/-!
# What a variable-width integer looks like

`Groups n s` says that `s` spells `n` in groups of seven bits, the least significant first;
a spelling need not be the shortest. A width admits the spellings that are short enough of
the values that are small enough (`Spells`). A peek finds exactly those (`peek_eq_found_iff`)
and asks for more exactly when every octet it has promises another one
(`peek_eq_incomplete_iff`). The writer's spelling is the only shortest one
(`Spells.shortest_iff`).
-/

namespace Switchboard.VarInt

/-- The octets spell the number: seven bits each, the high bit set on all but the last. -/
inductive Groups : Nat → List UInt8 → Prop
  | last {b : UInt8} (h : b < 0x80) : Groups b.toNat [b]
  | more {b : UInt8} {n : Nat} {s : List UInt8} (h : 0x80 ≤ b) (hs : Groups n s) :
      Groups (b.toNat % 0x80 + 0x80 * n) (b :: s)

/-- A spelling, from place `i` of an integer on, that the width admits. -/
structure SpellsFrom (w : Width) (i n : Nat) (s : List UInt8) : Prop where
  groups : Groups n s
  length_le : i + s.length ≤ w.maxLength
  lt : n < 2 ^ (w.bits - 7 * i)

abbrev Spells (w : Width) (n : Nat) (s : List UInt8) : Prop := SpellsFrom w 0 n s

theorem Spells.lt_size {n : Nat} {s : List UInt8} (h : Spells .int n s) : n < UInt32.size := h.lt

theorem Groups.length_pos {n : Nat} {s : List UInt8} (h : Groups n s) : 0 < s.length := by
  cases h <;> simp

/-- An octet that ends an integer is too great for the last place exactly if its bits do
not fit there. -/
theorem le_lastMax_iff (w : Width) (i : Nat) (b : UInt8) (hi : i + 1 = w.maxLength) :
    b ≤ w.lastMax ↔ b.toNat < 2 ^ (w.bits - 7 * i) := by
  rw [UInt8.le_iff_toNat_le]
  cases w with
  | int =>
    obtain rfl : i = 4 := by simpa [Width.maxLength] using hi
    simp only [Width.lastMax, Width.bits, UInt8.reduceToNat, Nat.reduceMul, Nat.reduceSub,
      Nat.reducePow]
    omega
  | long =>
    obtain rfl : i = 9 := by simpa [Width.maxLength] using hi
    simp only [Width.lastMax, Width.bits, UInt8.reduceToNat, Nat.reduceMul, Nat.reduceSub,
      Nat.reducePow]
    omega

theorem lastMax_lt (w : Width) : w.lastMax < 0x80 := by cases w <;> decide

/-- Behind a place that is not the last there are seven more bits. -/
theorem pow_bits (w : Width) (i : Nat) (hi : i + 1 < w.maxLength) :
    2 ^ (w.bits - 7 * i) = 0x80 * 2 ^ (w.bits - 7 * (i + 1)) := by
  have he : w.bits - 7 * i = 7 + (w.bits - 7 * (i + 1)) := by
    cases w <;> simp only [Width.maxLength, Width.bits] at * <;> omega
  rw [he, Nat.pow_add]

/-- One octet spells a number at a place if it promises no other and fits there. -/
theorem spellsFrom_singleton_iff (w : Width) (i n : Nat) (b : UInt8) (hi : i < w.maxLength) :
    SpellsFrom w i n [b] ↔ b < 0x80 ∧ ¬ (i + 1 = w.maxLength ∧ w.lastMax < b) ∧ n = b.toNat := by
  constructor
  · rintro ⟨hgroups, -, hlt⟩
    cases hgroups with
    | last hb =>
      refine ⟨hb, ?_, rfl⟩
      rintro ⟨hlast, hmax⟩
      exact absurd ((le_lastMax_iff w i b hlast).mpr hlt) (UInt8.not_le.mpr hmax)
    | more _ hs => exact absurd hs.length_pos (Nat.lt_irrefl 0)
  · rintro ⟨hb, hmax, rfl⟩
    refine ⟨.last hb, by rw [List.length_singleton]; omega, ?_⟩
    by_cases hlast : i + 1 = w.maxLength
    · exact (le_lastMax_iff w i b hlast).mp (UInt8.not_lt.mp fun h => hmax ⟨hlast, h⟩)
    · have hpow := pow_bits w i (by omega)
      have hpos : 0 < 2 ^ (w.bits - 7 * (i + 1)) := Nat.two_pow_pos _
      have hnat : b.toNat < 0x80 := UInt8.lt_iff_toNat_lt.mp hb
      omega

/-- More than one octet spells a number at a place if the first promises another one and
the others spell the rest of the number at the next place. -/
theorem spellsFrom_cons_iff (w : Width) (i n : Nat) (b : UInt8) {s : List UInt8} (hs : s ≠ []) :
    SpellsFrom w i n (b :: s) ↔
      0x80 ≤ b ∧ ∃ m, n = b.toNat % 0x80 + 0x80 * m ∧ SpellsFrom w (i + 1) m s := by
  have hpos : 0 < s.length := List.length_pos_iff.mpr hs
  constructor
  · rintro ⟨hgroups, hlength, hlt⟩
    rw [List.length_cons] at hlength
    cases hgroups with
    | last => exact absurd rfl hs
    | @more _ m _ hb hrest =>
      refine ⟨hb, m, rfl, hrest, by omega, ?_⟩
      rw [pow_bits w i (by omega)] at hlt
      omega
  · rintro ⟨hb, m, rfl, hrest, hlength, hlt⟩
    refine ⟨.more hb hrest, by rw [List.length_cons]; omega, ?_⟩
    rw [pow_bits w i (by omega)]
    omega

/-- A spelling at the front of `b :: s` is `b` alone or goes on in `s`. -/
theorem spellsFrom_front_iff (w : Width) (i n size : Nat) (b : UInt8) (s : List UInt8) :
    (∃ head rest, b :: s = head ++ rest ∧ head.length = size ∧ SpellsFrom w i n head) ↔
      (size = 1 ∧ SpellsFrom w i n [b]) ∨
      (0x80 ≤ b ∧ ∃ m head rest, s = head ++ rest ∧ head.length + 1 = size ∧
        n = b.toNat % 0x80 + 0x80 * m ∧ SpellsFrom w (i + 1) m head) := by
  constructor
  · rintro ⟨head, rest, h, hlength, hspells⟩
    cases head with
    | nil => exact absurd hspells.groups.length_pos (Nat.lt_irrefl 0)
    | cons c head =>
      obtain ⟨rfl, rfl⟩ := List.cons_eq_cons.mp h
      by_cases hnil : head = []
      · subst hnil
        exact .inl ⟨hlength.symm, hspells⟩
      · obtain ⟨hb, m, hn, hrest⟩ := (spellsFrom_cons_iff w i n b hnil).mp hspells
        exact .inr ⟨hb, m, head, rest, rfl, hlength, hn, hrest⟩
  · rintro (⟨rfl, hspells⟩ | ⟨hb, m, head, rest, rfl, hlength, hn, hrest⟩)
    · exact ⟨[b], s, rfl, rfl, hspells⟩
    · have hnil : head ≠ [] := List.length_pos_iff.mp hrest.groups.length_pos
      exact ⟨b :: head, rest, rfl, hlength,
        (spellsFrom_cons_iff w i n b hnil).mpr ⟨hb, m, hn, hrest⟩⟩

/-- Where a peek goes on, the octet is not in the last place. -/
theorem succ_lt_of_le (w : Width) {i : Nat} {b : UInt8} (hi : i < w.maxLength)
    (hmax : ¬ (i + 1 = w.maxLength ∧ w.lastMax < b)) (hb : 0x80 ≤ b) : i + 1 < w.maxLength :=
  Nat.lt_of_le_of_ne hi fun hlast => hmax ⟨hlast, UInt8.lt_of_lt_of_le (lastMax_lt w) hb⟩

/-- A peek from a place finds exactly the spellings admitted there. -/
theorem peekFrom_eq_found_iff (w : Width) (i : Nat) (hi : i < w.maxLength) (s : List UInt8)
    (n size : Nat) :
    peekFrom w i s = .found n size ↔
      ∃ head rest, s = head ++ rest ∧ head.length = size ∧ SpellsFrom w i n head := by
  induction s generalizing i n size with
  | nil =>
    simp only [peekFrom, reduceCtorEq, false_iff]
    rintro ⟨head, rest, h, -, hspells⟩
    obtain ⟨rfl, -⟩ := List.append_eq_nil_iff.mp h.symm
    exact absurd hspells.groups.length_pos (Nat.lt_irrefl 0)
  | cons b s ih =>
    rw [spellsFrom_front_iff, spellsFrom_singleton_iff w i n b hi, peekFrom]
    split
    · rename_i hmax
      simp only [reduceCtorEq, false_iff]
      rintro (⟨-, -, hfits, -⟩ | ⟨-, m, head, rest, -, -, -, hrest⟩)
      · exact hfits hmax
      · have := hrest.groups.length_pos
        have := hrest.length_le
        omega
    · rename_i hmax
      split
      · rename_i hb
        have hnot : ¬ 0x80 ≤ b := UInt8.not_le.mpr hb
        simp only [Peek.found.injEq, hb, hmax, hnot, true_and, false_and, or_false,
          not_false_eq_true]
        omega
      · rename_i hb
        have hle : 0x80 ≤ b := UInt8.not_lt.mp hb
        have hnext := succ_lt_of_le w hi hmax hle
        simp only [hb, hle, false_and, and_false, false_or, true_and]
        constructor
        · intro h
          cases hs : peekFrom w (i + 1) s with
          | found m k =>
            obtain ⟨head, rest, hsplit, hlength, hspells⟩ := (ih (i + 1) hnext m k).mp hs
            simp only [hs, Peek.shift, Peek.found.injEq] at h
            exact ⟨m, head, rest, hsplit, by omega, h.1.symm, hspells⟩
          | incomplete => simp [hs, Peek.shift] at h
          | tooLong => simp [hs, Peek.shift] at h
        · rintro ⟨m, head, rest, hsplit, hlength, rfl, hspells⟩
          rw [(ih (i + 1) hnext m head.length).mpr ⟨head, rest, hsplit, rfl, hspells⟩, Peek.shift,
            hlength]

/-- A peek finds exactly the spellings that the width admits. -/
theorem peek_eq_found_iff (w : Width) (s : List UInt8) (n size : Nat) :
    peek w s = .found n size ↔
      ∃ head rest, s = head ++ rest ∧ head.length = size ∧ Spells w n head :=
  peekFrom_eq_found_iff w 0 (by cases w <;> decide) s n size

/-- An admitted spelling is found, whatever follows it. -/
theorem peek_of_spells {w : Width} {n : Nat} {head : List UInt8} (h : Spells w n head)
    (rest : List UInt8) : peek w (head ++ rest) = .found n head.length :=
  (peek_eq_found_iff w _ n head.length).mpr ⟨head, rest, rfl, rfl, h⟩

/-- More octets are wanted as long as each promises another one and the width permits it. -/
theorem peekFrom_eq_incomplete_iff (w : Width) (i : Nat) (hi : i < w.maxLength) (s : List UInt8) :
    peekFrom w i s = .incomplete ↔ i + s.length < w.maxLength ∧ ∀ b ∈ s, 0x80 ≤ b := by
  induction s generalizing i with
  | nil => simpa [peekFrom] using hi
  | cons b s ih =>
    rw [peekFrom, List.length_cons, List.forall_mem_cons]
    split
    · rename_i hmax
      simp only [reduceCtorEq, false_iff]
      rintro ⟨hlt, -⟩
      omega
    · rename_i hmax
      split
      · rename_i hb
        simp [UInt8.not_le.mpr hb]
      · rename_i hb
        have hle : 0x80 ≤ b := UInt8.not_lt.mp hb
        have hnext := succ_lt_of_le w hi hmax hle
        rw [Peek.shift_eq_incomplete, ih (i + 1) hnext]
        simp only [hle, true_and]
        rw [Nat.add_assoc, Nat.add_comm 1]

/-- A peek asks for more exactly if there could be more and every octet promises another. -/
theorem peek_eq_incomplete_iff (w : Width) (s : List UInt8) :
    peek w s = .incomplete ↔ s.length < w.maxLength ∧ ∀ b ∈ s, 0x80 ≤ b := by
  have h := peekFrom_eq_incomplete_iff w 0 (by cases w <;> decide) s
  rwa [Nat.zero_add] at h

/-- What was written is a spelling of it. -/
theorem spells_encode (w : Width) {n : Nat} (h : n < 2 ^ w.bits) : Spells w n (encode n) := by
  have hpeek := peek_encode w n h []
  rw [List.append_nil] at hpeek
  obtain ⟨head, rest, hsplit, hlength, hspells⟩ := (peek_eq_found_iff w _ n _).mp hpeek
  obtain rfl : rest = [] := by
    have := congrArg List.length hsplit
    rw [List.length_append] at this
    exact List.length_eq_zero_iff.mp (by omega)
  rwa [hsplit, List.append_nil]

/-- No spelling has fewer octets than what is written. -/
theorem Groups.length_encode_le {n : Nat} {s : List UInt8} (h : Groups n s) :
    (encode n).length ≤ s.length := by
  induction h with
  | last hb =>
    rw [encode_of_lt (UInt8.lt_iff_toNat_lt.mp hb)]
    exact Nat.le_refl _
  | @more b n s hb hs ih =>
    rw [List.length_cons]
    rcases Nat.lt_or_ge (b.toNat % 0x80 + 0x80 * n) 0x80 with hlt | hge
    · rw [encode_of_lt hlt, List.length_singleton]
      exact Nat.succ_pos _
    · have hrest : (b.toNat % 0x80 + 0x80 * n) / 0x80 = n := by omega
      rw [encode_of_le hge, List.length_cons, hrest]
      exact Nat.succ_le_succ ih

/-- Only what is written has so few octets. -/
theorem Groups.eq_encode {n : Nat} {s : List UInt8} (h : Groups n s)
    (hle : s.length ≤ (encode n).length) : s = encode n := by
  induction h with
  | @last b hb => rw [encode_of_lt (UInt8.lt_iff_toNat_lt.mp hb), UInt8.ofNat_toNat]
  | @more b n s hb hs ih =>
    rw [List.length_cons] at hle
    have hpos := hs.length_pos
    rcases Nat.lt_or_ge (b.toNat % 0x80 + 0x80 * n) 0x80 with hlt | hge
    · rw [encode_of_lt hlt, List.length_singleton] at hle
      omega
    · have hrest : (b.toNat % 0x80 + 0x80 * n) / 0x80 = n := by omega
      have hfirst : (b.toNat % 0x80 + 0x80 * n) % 0x80 + 0x80 = b.toNat := by
        have hlow := UInt8.le_iff_toNat_le.mp hb
        have hhigh := b.toNat_lt
        simp only [UInt8.reduceToNat] at hlow
        omega
      rw [encode_of_le hge, List.length_cons, hrest] at hle
      rw [encode_of_le hge, hrest, hfirst, UInt8.ofNat_toNat, ← ih (Nat.le_of_succ_le_succ hle)]

/-- A greater value takes no fewer octets. -/
theorem length_encode_mono {m n : Nat} (h : m ≤ n) : (encode m).length ≤ (encode n).length := by
  induction n using encode.induct generalizing m with
  | case1 n hn =>
    rw [encode_of_lt hn, encode_of_lt (Nat.lt_of_le_of_lt h hn)]
    exact Nat.le_refl _
  | case2 n hn ih =>
    rw [encode_of_le (Nat.le_of_not_lt hn), List.length_cons]
    rcases Nat.lt_or_ge m 0x80 with hlt | hge
    · rw [encode_of_lt hlt, List.length_singleton]
      exact Nat.succ_pos _
    · rw [encode_of_le hge, List.length_cons]
      exact Nat.succ_le_succ (ih (Nat.div_le_div_right h))

/-- A spelling than which the width admits none of fewer octets. -/
structure Shortest (w : Width) (n : Nat) (s : List UInt8) : Prop where
  spells : Spells w n s
  length_le {t : List UInt8} (ht : Spells w n t) : s.length ≤ t.length

/-- The shortest spelling is the one that is written. -/
theorem Spells.shortest_iff {w : Width} {n : Nat} {s : List UInt8} (h : Spells w n s) :
    Shortest w n s ↔ s = encode n := by
  have hlt : n < 2 ^ w.bits := by simpa using h.lt
  constructor
  · intro hs
    exact h.groups.eq_encode (hs.length_le (spells_encode w hlt))
  · rintro rfl
    exact ⟨h, fun ht => ht.groups.length_encode_le⟩

end Switchboard.VarInt
