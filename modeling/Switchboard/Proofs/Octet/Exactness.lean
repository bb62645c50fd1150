import Mathlib.Data.Nat.Digits.Defs
import Switchboard.Proofs.Octet.Spelling

/-!
# Variable-width integers are exact

An integer at the front of a string is told by its octets alone: all but the last promise
another one, and the groups of seven bits, the least significant first, add up to it
(`Begins`). A machine writes and reads integers in loops over one word of the width, with
shifts and masks (`spellWord`, `peekWord`); no group is shifted beyond that word, so the loops
do what `encode` and `peek` do. `integers_exact` has all of it.
-/

namespace Switchboard.VarInt

def groupSum (s : List UInt8) : Nat :=
  Nat.ofDigits 0x80 (s.map fun b => b.toNat % 0x80)

@[simp] theorem groupSum_cons (b : UInt8) (s : List UInt8) :
    groupSum (b :: s) = b.toNat % 0x80 + 0x80 * groupSum s := rfl

/-- All octets but the last have the high bit set, and the groups add up to the number. -/
theorem groups_concat_iff (n : Nat) (init : List UInt8) (b : UInt8) :
    Groups n (init ++ [b]) ↔
      (∀ c ∈ init, 0x80 ≤ c) ∧ b < 0x80 ∧ groupSum (init ++ [b]) = n := by
  induction init generalizing n with
  | nil =>
    have hsmall (hb : b < 0x80) : groupSum [b] = b.toNat := by
      have hnat : b.toNat < 0x80 := UInt8.lt_iff_toNat_lt.mp hb
      rw [groupSum_cons, Nat.mod_eq_of_lt hnat]
      rfl
    constructor
    · intro h
      cases h with
      | last hb => exact ⟨by simp, hb, hsmall hb⟩
      | more _ hs => exact absurd hs.length_pos (Nat.lt_irrefl 0)
    · rintro ⟨-, hb, rfl⟩
      exact (hsmall hb).symm ▸ .last hb
  | cons c init ih =>
    rw [List.cons_append, groupSum_cons, List.forall_mem_cons]
    constructor
    · intro h
      generalize hs : init ++ [b] = s at h ih ⊢
      cases h with
      | last => simp at hs
      | @more _ m _ hc hrest =>
        obtain ⟨hinit, hb, rfl⟩ := (ih m).mp hrest
        exact ⟨⟨hc, hinit⟩, hb, rfl⟩
    · rintro ⟨⟨hc, hinit⟩, hb, rfl⟩
      exact .more hc ((ih _).mpr ⟨hinit, hb, rfl⟩)

/-- The first `size` octets of `s` are an integer: all but the last promise another one, and
their groups add up to `n`, which the width holds. -/
structure Begins (w : Width) (s : List UInt8) (n size : Nat) : Prop where
  pos : 0 < size
  size_le : size ≤ w.maxLength
  promises : ∀ b ∈ s.take (size - 1), 0x80 ≤ b
  ends : ∃ b, s[size - 1]? = some b ∧ b < 0x80
  sum : groupSum (s.take size) = n
  lt : n < 2 ^ w.bits

/-- Octets that begin with an integer begin with a spelling of it. -/
theorem begins_iff (w : Width) (s : List UInt8) (n size : Nat) :
    Begins w s n size ↔ ∃ head rest, s = head ++ rest ∧ head.length = size ∧ Spells w n head := by
  constructor
  · rintro ⟨hpos, hsize, hpromises, ⟨b, hlast, hb⟩, hsum, hlt⟩
    obtain ⟨k, rfl⟩ := Nat.exists_eq_add_of_lt hpos
    simp only [Nat.zero_add, Nat.add_sub_cancel] at *
    obtain ⟨hk, -⟩ := List.getElem?_eq_some_iff.mp hlast
    have hlength : (s.take (k + 1)).length = k + 1 := List.length_take_of_le hk
    have hhead : s.take (k + 1) = s.take k ++ [b] := by
      rw [List.take_add_one, hlast, Option.toList_some]
    refine ⟨s.take (k + 1), s.drop (k + 1), (List.take_append_drop _ s).symm, hlength, ?_, ?_, ?_⟩
    · rw [hhead, groups_concat_iff, ← hhead]
      exact ⟨hpromises, hb, hsum⟩
    · rwa [Nat.zero_add, hlength]
    · simpa using hlt
  · rintro ⟨head, rest, rfl, rfl, hspells⟩
    obtain ⟨init, b, rfl⟩ : ∃ init b, head = init ++ [b] :=
      have hnil : head ≠ [] := List.length_pos_iff.mp hspells.groups.length_pos
      ⟨_, _, (List.dropLast_concat_getLast hnil).symm⟩
    obtain ⟨hinit, hb, hsum⟩ := (groups_concat_iff n init b).mp hspells.groups
    have hlast : (init ++ [b]).length - 1 = init.length := by simp
    constructor
    · exact hspells.groups.length_pos
    · simpa using hspells.length_le
    · rw [hlast, List.append_assoc, List.take_left]
      exact hinit
    · refine ⟨b, ?_, hb⟩
      rw [hlast, List.append_assoc, List.getElem?_append_right (Nat.le_refl _)]
      simp
    · rwa [List.take_left]
    · simpa using hspells.lt

/-- The writer's loop: the low seven bits go out under a high bit as long as others are left. -/
def spellWord {bits : Nat} (n : BitVec bits) : List UInt8 :=
  if n.toNat < 0x80 then [UInt8.ofBitVec (n.setWidth 8)]
  else (UInt8.ofBitVec (n.setWidth 8) &&& 0x7F ||| 0x80) :: spellWord (n >>> 7)
termination_by n.toNat
decreasing_by
  rw [BitVec.toNat_ushiftRight, Nat.shiftRight_eq_div_pow]
  omega

/-- The reader's loop over at most so many octets as the width permits of a string of `size`:
the group of the octet at place `i` is shifted to its place and put into `value`. -/
def gather (w : Width) (size : Nat) (value : BitVec w.bits) (i : Nat) : List UInt8 → Peek
  | [] => if w.maxLength ≤ size then .tooLong else .incomplete
  | b :: s =>
    if i + 1 = w.maxLength ∧ w.lastMax < b then .tooLong
    else
      let value := value ||| BitVec.ofNat w.bits (b &&& 0x7F).toNat <<< (7 * i)
      if b &&& 0x80 = 0 then .found value.toNat (i + 1) else gather w size value (i + 1) s

def peekWord (w : Width) (s : List UInt8) : Peek :=
  gather w s.length 0 0 (s.take w.maxLength)

theorem toNat_low (b : UInt8) : (b &&& 0x7F).toNat = b.toNat % 0x80 :=
  Nat.and_two_pow_sub_one_eq_mod b.toNat 7

theorem low_or_high (b : UInt8) : b &&& 0x7F ||| 0x80 = UInt8.ofNat (b.toNat % 0x80 + 0x80) := by
  have hlow : b.toNat % 0x80 < 2 ^ 7 := Nat.mod_lt _ (by decide)
  have hmod : (b.toNat % 0x80 + 0x80) % 2 ^ 8 = b.toNat % 0x80 + 0x80 := Nat.mod_eq_of_lt (by omega)
  apply UInt8.toNat_inj.mp
  rw [UInt8.toNat_or, toNat_low, UInt8.toNat_ofNat', hmod, Nat.or_comm]
  exact (Nat.two_pow_add_eq_or_of_lt hlow 1).symm.trans (Nat.add_comm _ _)

theorem high_eq_zero_iff (b : UInt8) : b &&& 0x80 = 0 ↔ b < 0x80 := by
  have hall : ∀ n : Fin 256, UInt8.ofNat n &&& 0x80 = 0 ↔ UInt8.ofNat n < 0x80 := by
    decide +kernel
  simpa using hall ⟨b.toNat, b.toNat_lt⟩

/-- The writer's loop writes the shortest form. -/
theorem spellWord_eq {bits : Nat} (n : BitVec bits) : spellWord n = encode n.toNat := by
  have hlow (n : BitVec bits) : UInt8.ofBitVec (n.setWidth 8) = UInt8.ofNat n.toNat := by
    apply UInt8.toNat_inj.mp
    simp
  induction n using spellWord.induct with
  | case1 n hn => rw [spellWord, if_pos hn, encode_of_lt hn, hlow]
  | case2 n hn ih =>
    have hmod : n.toNat % 256 % 0x80 = n.toNat % 0x80 := Nat.mod_mod_of_dvd _ (by decide)
    rw [spellWord, if_neg hn, encode_of_le (Nat.le_of_not_lt hn), ih, BitVec.toNat_ushiftRight,
      Nat.shiftRight_eq_div_pow, hlow, low_or_high, UInt8.toNat_ofNat', hmod]

/-- No bit of a group that the reader goes on with is shifted out of the word. -/
theorem group_lt (w : Width) {i : Nat} {b : UInt8} (hi : i < w.maxLength)
    (hmax : ¬ (i + 1 = w.maxLength ∧ w.lastMax < b)) :
    2 ^ (7 * i) * (b.toNat % 0x80) < 2 ^ w.bits := by
  have hbits : 7 * i ≤ w.bits := by
    cases w <;> simp only [Width.maxLength, Width.bits] at * <;> omega
  have hsplit : 2 ^ w.bits = 2 ^ (7 * i) * 2 ^ (w.bits - 7 * i) := by
    rw [← Nat.pow_add, Nat.add_sub_cancel' hbits]
  rw [hsplit]
  refine Nat.mul_lt_mul_of_pos_left ?_ (Nat.two_pow_pos _)
  by_cases hlast : i + 1 = w.maxLength
  · have hb := (le_lastMax_iff w i b hlast).mp (UInt8.not_lt.mp fun h => hmax ⟨hlast, h⟩)
    exact Nat.lt_of_le_of_lt (Nat.mod_le _ _) hb
  · have hpow := pow_bits w i (by omega)
    have hpos : 0 < 2 ^ (w.bits - 7 * (i + 1)) := Nat.two_pow_pos _
    omega

/-- Or-ing a group to its place adds it there. -/
theorem toNat_or_group (w : Width) {i : Nat} {b : UInt8} (hi : i < w.maxLength)
    (hmax : ¬ (i + 1 = w.maxLength ∧ w.lastMax < b)) {value : BitVec w.bits}
    (hvalue : value.toNat < 2 ^ (7 * i)) :
    (value ||| BitVec.ofNat w.bits (b &&& 0x7F).toNat <<< (7 * i)).toNat =
      value.toNat + 2 ^ (7 * i) * (b.toNat % 0x80) := by
  have hlt := group_lt w hi hmax
  have hgroup : b.toNat % 0x80 < 2 ^ w.bits :=
    Nat.lt_of_le_of_lt (Nat.le_mul_of_pos_left _ (Nat.two_pow_pos _)) hlt
  rw [BitVec.toNat_or, BitVec.toNat_shiftLeft, BitVec.toNat_ofNat, toNat_low,
    Nat.mod_eq_of_lt hgroup, Nat.shiftLeft_eq, Nat.mul_comm _ (2 ^ (7 * i)), Nat.mod_eq_of_lt hlt,
    Nat.or_comm, ← Nat.two_pow_add_eq_or_of_lt hvalue, Nat.add_comm]

/-- The answer of a reader that has `value` from `i` octets before. -/
def Peek.behind (value i : Nat) : Peek → Peek
  | .found n size => .found (value + 2 ^ (7 * i) * n) (i + size)
  | other => other

theorem Peek.behind_shift (value i group : Nat) (p : Peek) :
    (p.shift group).behind value i = p.behind (value + 2 ^ (7 * i) * group) (i + 1) := by
  cases p with
  | found n size =>
    have hpow : 2 ^ (7 * (i + 1)) * n = 2 ^ (7 * i) * (0x80 * n) := by
      rw [Nat.mul_succ, Nat.pow_add, Nat.mul_assoc]
    rw [shift, behind, behind, hpow, Nat.mul_add, Nat.add_assoc, Nat.add_assoc, Nat.add_comm size]
  | incomplete => rfl
  | tooLong => rfl

/-- The loop goes on as a peek does, with what it has gathered in front. -/
theorem gather_eq (w : Width) (size : Nat) (value : BitVec w.bits) (i : Nat) (s : List UInt8)
    (hi : i < w.maxLength) (hvalue : value.toNat < 2 ^ (7 * i))
    (hsize : i + s.length = min w.maxLength size) :
    gather w size value i s = (peekFrom w i s).behind value.toNat i := by
  induction s generalizing value i with
  | nil =>
    rw [List.length_nil] at hsize
    have hshort : ¬ w.maxLength ≤ size := by omega
    simp only [gather, peekFrom, Peek.behind, if_neg hshort]
  | cons b s ih =>
    rw [gather, peekFrom]
    split
    · rfl
    · rename_i hmax
      have hor := toNat_or_group w hi hmax hvalue
      by_cases hb : b < 0x80
      · have hgroup : b.toNat % 0x80 = b.toNat := Nat.mod_eq_of_lt (UInt8.lt_iff_toNat_lt.mp hb)
        rw [hgroup] at hor
        simp only [high_eq_zero_iff, if_pos hb, hor, Peek.behind]
      · have hnext := succ_lt_of_le w hi hmax (UInt8.not_lt.mp hb)
        have hgathered : value.toNat + 2 ^ (7 * i) * (b.toNat % 0x80) < 2 ^ (7 * (i + 1)) := by
          have hgroup : b.toNat % 0x80 < 0x80 := Nat.mod_lt _ (by decide)
          calc value.toNat + 2 ^ (7 * i) * (b.toNat % 0x80)
              < 2 ^ (7 * i) + 2 ^ (7 * i) * (b.toNat % 0x80) := Nat.add_lt_add_right hvalue _
            _ = 2 ^ (7 * i) * (b.toNat % 0x80 + 1) := by rw [Nat.mul_succ, Nat.add_comm]
            _ ≤ 2 ^ (7 * i) * 2 ^ 7 := Nat.mul_le_mul_left _ hgroup
            _ = 2 ^ (7 * (i + 1)) := by rw [← Nat.pow_add, Nat.mul_succ]
        rw [List.length_cons] at hsize
        have hrest := ih _ (i + 1) hnext (hor ▸ hgathered) (by omega)
        simp only [high_eq_zero_iff, if_neg hb, hrest, hor, Peek.behind_shift]

/-- A peek looks at no more octets than the width permits. -/
theorem peek_take (w : Width) (s : List UInt8) : peek w (s.take w.maxLength) = peek w s := by
  by_cases h : peek w (s.take w.maxLength) = .incomplete
  · have hshort := ((peek_eq_incomplete_iff w _).mp h).1
    rw [List.length_take] at hshort
    rw [List.take_of_length_le (by omega)]
  · have happend := peek_append w _ (s.drop w.maxLength) h
    rw [List.take_append_drop] at happend
    exact happend.symm

/-- The reader's loop answers as the peek does. -/
theorem peekWord_eq (w : Width) (s : List UInt8) : peekWord w s = peek w s := by
  have hstart : 0 < w.maxLength := by cases w <;> decide
  have hloop := gather_eq w s.length 0 0 (s.take w.maxLength) hstart (by simp)
    (by rw [Nat.zero_add, List.length_take])
  rw [peekWord, hloop, ← peek_take w s, peek]
  cases peekFrom w 0 (s.take w.maxLength) <;> simp [Peek.behind]

theorem length_encode_le (w : Width) {n : Nat} (h : n < 2 ^ w.bits) :
    (encode n).length ≤ w.maxLength := by
  simpa using (spells_encode w h).length_le

/-- What is written of a value is read as it, whatever follows, has the size told in advance
and is as short as anything that is read as it; a string is read as an integer exactly if
it begins with one, asks for more exactly if it could be the beginning of one, and is refused
otherwise; and neither loop over a word of the width loses a bit. -/
theorem integers_exact (w : Width) :
    (∀ n : BitVec w.bits,
      (∀ rest, peek w (encode n.toNat ++ rest) = .found n.toNat (encode n.toNat).length) ∧
      (encode n.toNat).length ≤ w.maxLength ∧
      ∀ s size, peek w s = .found n.toNat size →
        (encode n.toNat).length ≤ size ∧ size ≤ s.length) ∧
    (∀ n : UInt32, (encode n.toNat).length = length n) ∧
    (∀ s n size, peek w s = .found n size ↔ Begins w s n size) ∧
    (∀ s, peek w s = .incomplete ↔ s.length < w.maxLength ∧ ∀ b ∈ s, 0x80 ≤ b) ∧
    (∀ s, peek w s = .tooLong ↔ (∀ n size, ¬ Begins w s n size) ∧
      ¬ (s.length < w.maxLength ∧ ∀ b ∈ s, 0x80 ≤ b)) ∧
    (∀ n : BitVec w.bits, spellWord n = encode n.toNat) ∧
    (∀ s, peekWord w s = peek w s) := by
  have hfound (s : List UInt8) (n size : Nat) : peek w s = .found n size ↔ Begins w s n size :=
    (peek_eq_found_iff w s n size).trans (begins_iff w s n size).symm
  refine ⟨fun n => ⟨peek_encode w n.toNat n.isLt, length_encode_le w n.isLt, fun s size h => ?_⟩,
    fun n => (length_eq n).symm, hfound, peek_eq_incomplete_iff w, fun s => ?_, spellWord_eq,
    peekWord_eq w⟩
  · obtain ⟨head, rest, rfl, rfl, hspells⟩ := (peek_eq_found_iff w s _ size).mp h
    exact ⟨hspells.groups.length_encode_le, by simp⟩
  · rw [← peek_eq_incomplete_iff w s]
    cases hp : peek w s with
    | found n size => simpa using ⟨n, size, (hfound s n size).mp hp⟩
    | incomplete => simp
    | tooLong =>
      simp only [reduceCtorEq, not_false_eq_true, and_true, true_iff]
      intro n size hbegins
      rw [(hfound s n size).mpr hbegins] at hp
      cases hp

/-- 300 takes two octets and is read from three as well, the last of which adds nothing. -/
theorem integers_exact_three_hundred :
    encode 300 = [0xAC, 0x02] ∧ peek .int [0xAC, 0x82, 0x00, 0x07] = .found 300 3 ∧
      (encode 300).length ≤ 3 ∧ Begins .int [0xAC, 0x82, 0x00, 0x07] 300 3 := by
  obtain ⟨hvalues, -, hfound, -⟩ := integers_exact .int
  have hpeek : peek .int [0xAC, 0x82, 0x00, 0x07] = .found 300 3 := rfl
  have hencode : encode 300 = [0xAC, 0x02] := by simp [encode]
  exact ⟨hencode, hpeek, ((hvalues 300#32).2.2 _ 3 hpeek).1, (hfound _ 300 3).mp hpeek⟩

end Switchboard.VarInt
