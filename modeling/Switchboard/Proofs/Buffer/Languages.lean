import Switchboard.Proofs.Octet.Spelling
import Switchboard.Proofs.Buffer.Reads

/-!
# The language of a reader

`Parses r L` says that `r` takes octets `s` for `a` exactly if `L a s`: it takes every word
of the language to its end and not beyond, and what it takes is such a word. A language may
hold several words for one value, as non-minimal lengths and flags other than one do.
`FailsOnly E r` bounds the errors of `r` instead. Both carry over from the parts of a
reader to the whole.
-/

namespace Switchboard

namespace Octet

/-- What is beyond a word's width does not show in its octets. -/
theorem bigEndian_add_mul (size n k : Nat) :
    bigEndian size (n + k * modulus size) = bigEndian size n := by
  induction size generalizing k with
  | zero => rfl
  | succ size ih =>
    have hshift : k * modulus (size + 1) = k * 256 * modulus size := by
      rw [modulus, Nat.mul_assoc]
    have hhigh : UInt8.ofNat (n / modulus size + k * 256) = UInt8.ofNat (n / modulus size) := by
      apply UInt8.toNat_inj.mp
      rw [UInt8.toNat_ofNat', UInt8.toNat_ofNat', Nat.add_mul_mod_self_right]
    rw [bigEndian, bigEndian, hshift, ih, Nat.add_mul_div_right _ _ (modulus_pos size), hhigh]

/-- Every string of octets is the word of its value. -/
theorem bigEndian_value (s : List UInt8) : bigEndian s.length (value s) = s := by
  induction s with
  | nil => rfl
  | cons b s ih =>
    have hhigh : (b.toNat * modulus s.length + value s) / modulus s.length = b.toNat := by
      rw [Nat.add_comm, Nat.add_mul_div_right _ _ (modulus_pos s.length),
        Nat.div_eq_of_lt (value_lt s), Nat.zero_add]
    rw [List.length_cons, value_cons, bigEndian, hhigh, UInt8.ofNat_toNat, Nat.add_comm,
      bigEndian_add_mul, ih]

/-- The octets of a word are those whose value it is. -/
theorem eq_bigEndian_iff {size n : Nat} (hn : n < modulus size) (s : List UInt8) :
    s = bigEndian size n ↔ s.length = size ∧ value s = n := by
  constructor
  · rintro rfl
    exact ⟨length_bigEndian size n, by rw [value_bigEndian, Nat.mod_eq_of_lt hn]⟩
  · rintro ⟨rfl, rfl⟩
    exact (bigEndian_value s).symm

end Octet

/-- An error that tells of fewer octets than a word of 32 bits asked for, or of an integer
of too many. -/
def BufferError.Structural : BufferError → Prop
  | .underflow needed remaining => remaining < needed ∧ needed < UInt32.size
  | .varIntTooLong => True
  | _ => False

namespace Reader

variable {α β : Type}

/-- The reader takes exactly the words of the language. -/
structure Parses (r : Reader α) (L : α → List UInt8 → Prop) : Prop where
  reads {a : α} {s : List UInt8} (h : L a s) : r.Reads s a
  splits {s rest : List UInt8} {a : α} (h : r.on s = (.ok a, rest)) : ∃ t, L a t ∧ s = t ++ rest

/-- The reader fails with no other errors. -/
def FailsOnly (E : BufferError → Prop) (r : Reader α) : Prop :=
  ∀ (s rest : List UInt8) (e : BufferError), r.on s = (.error e, rest) → E e

namespace Parses

variable {r : Reader α} {L M : α → List UInt8 → Prop}

theorem congr (h : r.Parses L) (hLM : ∀ a s, L a s ↔ M a s) : r.Parses M where
  reads hs := h.reads ((hLM _ _).mpr hs)
  splits hs := by
    obtain ⟨t, ht, hsplit⟩ := h.splits hs
    exact ⟨t, (hLM _ _).mp ht, hsplit⟩

/-- A reader succeeds exactly if a word of its language is at the front. -/
theorem on_eq_ok_iff (h : r.Parses L) (s rest : List UInt8) (a : α) :
    r.on s = (.ok a, rest) ↔ ∃ t, L a t ∧ s = t ++ rest := by
  constructor
  · exact h.splits
  · rintro ⟨t, ht, rfl⟩
    exact h.reads ht rest

theorem pure (a : α) : Parses (Pure.pure a) fun b s => b = a ∧ s = [] where
  reads := by
    rintro b s ⟨rfl, rfl⟩
    exact Reads.pure b
  splits {s rest b} h := by
    change (Except.ok a, s) = (.ok b, rest) at h
    cases h
    exact ⟨[], ⟨rfl, rfl⟩, rfl⟩

/-- The words of two readers in turn are the words of the one followed by those of the
other. -/
theorem bind {f : α → Reader β} {M : α → β → List UInt8 → Prop} (hr : r.Parses L)
    (hf : ∀ a, (f a).Parses (M a)) :
    (r >>= f).Parses fun b s => ∃ a t u, L a t ∧ M a b u ∧ s = t ++ u where
  reads := by
    rintro b s ⟨a, t, u, ht, hu, rfl⟩
    exact (hr.reads ht).bind ((hf a).reads hu)
  splits {s rest b} h := by
    rw [on_bind] at h
    cases hs : r.on s with
    | mk outcome s' =>
      cases outcome with
      | error e => simp [hs] at h
      | ok a =>
        rw [hs] at h
        obtain ⟨t, ht, rfl⟩ := hr.splits hs
        obtain ⟨u, hu, rfl⟩ := (hf a).splits h
        exact ⟨t ++ u, ⟨a, t, u, ht, hu, rfl⟩, (List.append_assoc ..).symm⟩

theorem map {g : α → β} (hr : r.Parses L) :
    (r >>= fun a => Pure.pure (g a)).Parses fun b s => ∃ a, L a s ∧ b = g a :=
  (hr.bind fun a => pure (g a)).congr fun b s => by
    constructor
    · rintro ⟨a, t, u, ht, ⟨rfl, rfl⟩, rfl⟩
      exact ⟨a, by rwa [List.append_nil], rfl⟩
    · rintro ⟨a, ha, rfl⟩
      exact ⟨a, s, [], ha, ⟨rfl, rfl⟩, (List.append_nil s).symm⟩

end Parses

namespace FailsOnly

variable {E : BufferError → Prop} {r : Reader α}

theorem pure (a : α) : FailsOnly E (Pure.pure a : Reader α) := by
  intro s rest e h
  change (Except.ok a, s) = (.error e, rest) at h
  cases h

theorem mono {F : BufferError → Prop} (hr : r.FailsOnly E) (h : ∀ e, E e → F e) :
    r.FailsOnly F :=
  fun s rest e he => h e (hr s rest e he)

theorem throw {e : BufferError} (h : E e) : FailsOnly E (MonadExcept.throw e : Reader α) := by
  intro s rest e' h'
  cases h'
  exact h

/-- The second reader has to be looked at only where the first can lead to it. -/
theorem bind_of {f : α → Reader β} (hr : r.FailsOnly E)
    (hf : ∀ a s rest, r.on s = (.ok a, rest) → (f a).FailsOnly E) : (r >>= f).FailsOnly E := by
  intro s rest e h
  rw [on_bind] at h
  cases hs : r.on s with
  | mk outcome s' =>
    rw [hs] at h
    cases outcome with
    | error e' =>
      cases h
      exact hr _ _ _ hs
    | ok a => exact hf a _ _ hs _ _ _ h

theorem bind {f : α → Reader β} (hr : r.FailsOnly E) (hf : ∀ a, (f a).FailsOnly E) :
    (r >>= f).FailsOnly E :=
  hr.bind_of fun a _ _ _ => hf a

theorem map {g : α → β} (hr : r.FailsOnly E) : (r >>= fun a => Pure.pure (g a)).FailsOnly E :=
  hr.bind fun a => pure (g a)

end FailsOnly

theorem parses_take (n : Nat) : (take n).Parses fun a s => s.length = n ∧ a = s where
  reads := by
    rintro a s ⟨rfl, rfl⟩
    exact reads_take a
  splits {s rest a} h := by
    simp only [on, take, Octet.reaches_eq, decide_eq_true_eq] at h
    split at h
    · rename_i hle
      cases h
      exact ⟨s.take n, ⟨by rw [List.length_take, Nat.min_eq_left hle], rfl⟩,
        (List.take_append_drop n s).symm⟩
    · cases h

theorem fails_take {n : Nat} (hn : n < UInt32.size) :
    (take n).FailsOnly BufferError.Structural := by
  intro s rest e h
  simp only [on, take, Octet.reaches_eq, decide_eq_true_eq] at h
  split at h
  · cases h
  · rename_i hlt
    cases h
    exact ⟨Nat.not_le.mp hlt, hn⟩

/-- A word has one spelling. -/
theorem parses_word (size : Nat) :
    (word size).Parses fun n s => n < Octet.modulus size ∧ s = Octet.bigEndian size n :=
  (parses_take size).map.congr fun n s => by
    constructor
    · rintro ⟨a, ⟨hlength, rfl⟩, rfl⟩
      have hlt : Octet.value a < Octet.modulus size := hlength ▸ Octet.value_lt a
      exact ⟨hlt, (Octet.eq_bigEndian_iff hlt a).mpr ⟨hlength, rfl⟩⟩
    · rintro ⟨hlt, hs⟩
      obtain ⟨hlength, hvalue⟩ := (Octet.eq_bigEndian_iff hlt s).mp hs
      exact ⟨s, ⟨hlength, rfl⟩, hvalue.symm⟩

theorem fails_word {size : Nat} (hsize : size < UInt32.size) :
    (word size).FailsOnly BufferError.Structural :=
  (fails_take hsize).map

theorem parses_u8 : u8.Parses fun n s => s = [n] :=
  (parses_word 1).map.congr fun n s => by
    constructor
    · rintro ⟨m, ⟨-, rfl⟩, rfl⟩
      simp [Octet.bigEndian, Octet.modulus]
    · rintro rfl
      refine ⟨n.toNat, ⟨n.toNat_lt, ?_⟩, (UInt8.ofNat_toNat).symm⟩
      simp [Octet.bigEndian, Octet.modulus]

theorem parses_u32 : u32.Parses fun n s => s = Octet.bigEndian 4 n.toNat :=
  (parses_word 4).map.congr fun n s => by
    constructor
    · rintro ⟨m, ⟨hlt, rfl⟩, rfl⟩
      rw [UInt32.toNat_ofNat_of_lt' hlt]
    · rintro rfl
      exact ⟨n.toNat, ⟨n.toNat_lt, rfl⟩, (UInt32.ofNat_toNat).symm⟩

theorem parses_u64 : u64.Parses fun n s => s = Octet.bigEndian 8 n.toNat :=
  (parses_word 8).map.congr fun n s => by
    constructor
    · rintro ⟨m, ⟨hlt, rfl⟩, rfl⟩
      rw [UInt64.toNat_ofNat_of_lt' hlt]
    · rintro rfl
      exact ⟨n.toNat, ⟨n.toNat_lt, rfl⟩, (UInt64.ofNat_toNat).symm⟩

theorem parses_i32 : i32.Parses fun n s => s = Octet.bigEndian 4 n.toUInt32.toNat :=
  parses_u32.map.congr fun n s => by
    constructor
    · rintro ⟨m, rfl, rfl⟩
      rfl
    · rintro rfl
      exact ⟨n.toUInt32, rfl, rfl⟩

/-- Any octet but zero is true. -/
theorem parses_bool : bool.Parses fun v s => ∃ b, s = [b] ∧ v = (b != 0) :=
  parses_u8.map

theorem parses_identity : Identity.reader.Parses fun id s => s = id.octets :=
  (parses_u64.bind fun _ => parses_u64.map).congr fun id s => by
    constructor
    · rintro ⟨high, t, u, rfl, ⟨low, rfl, rfl⟩, rfl⟩
      rfl
    · rintro rfl
      exact ⟨id.high, _, _, rfl, ⟨id.low, rfl, rfl⟩, rfl⟩

theorem fails_u8 : u8.FailsOnly BufferError.Structural := (fails_word (by decide)).map
theorem fails_u32 : u32.FailsOnly BufferError.Structural := (fails_word (by decide)).map
theorem fails_u64 : u64.FailsOnly BufferError.Structural := (fails_word (by decide)).map
theorem fails_i32 : i32.FailsOnly BufferError.Structural := fails_u32.map
theorem fails_bool : bool.FailsOnly BufferError.Structural := fails_u8.map

theorem fails_identity : Identity.reader.FailsOnly BufferError.Structural :=
  fails_u64.bind fun _ => fails_u64.map

/-- An integer is read in every spelling that its width admits, and in no other. -/
theorem parses_varInt : varInt.Parses fun n s => VarInt.Spells .int n.toNat s := by
  have hnat : (varNat .int).Parses fun n s => VarInt.Spells .int n s := by
    refine ⟨fun {n s} h rest => ?_, fun {s rest n} h => ?_⟩
    · simp only [on, varNat, VarInt.peek_of_spells h rest, List.drop_left]
    · cases hp : VarInt.peek .int s with
      | incomplete => simp [on, varNat, hp] at h
      | tooLong => simp [on, varNat, hp] at h
      | found value length =>
        simp only [on, varNat, hp] at h
        cases h
        obtain ⟨head, rest, rfl, rfl, hspells⟩ := (VarInt.peek_eq_found_iff .int s n length).mp hp
        exact ⟨head, hspells, by rw [List.drop_left]⟩
  refine hnat.map.congr fun n s => ?_
  constructor
  · rintro ⟨m, hspells, rfl⟩
    rwa [UInt32.toNat_ofNat_of_lt' hspells.lt_size]
  · intro hspells
    exact ⟨n.toNat, hspells, (UInt32.ofNat_toNat).symm⟩

theorem fails_varInt : varInt.FailsOnly BufferError.Structural := by
  have hnat : (varNat .int).FailsOnly BufferError.Structural := by
    intro s rest e h
    cases hp : VarInt.peek .int s with
    | found value length => simp [on, varNat, hp] at h
    | incomplete =>
      have hshort := ((VarInt.peek_eq_incomplete_iff .int s).mp hp).1
      simp only [on, varNat, hp] at h
      cases h
      exact ⟨Nat.lt_succ_self s.length, Nat.lt_of_le_of_lt hshort (by decide)⟩
    | tooLong =>
      simp only [on, varNat, hp] at h
      cases h
      trivial
  exact hnat.map

/-- A block is read behind its length in every spelling of that. -/
theorem parses_block :
    block.Parses fun a s => ∃ head, VarInt.Spells .int a.length head ∧ s = head ++ a :=
  (parses_varInt.bind fun n => parses_take n.toNat).congr fun a s => by
    constructor
    · rintro ⟨n, head, u, hspells, ⟨hlength, rfl⟩, rfl⟩
      exact ⟨head, hlength ▸ hspells, rfl⟩
    · rintro ⟨head, hspells, rfl⟩
      have hn := UInt32.toNat_ofNat_of_lt' hspells.lt_size
      exact ⟨UInt32.ofNat a.length, head, a, by rwa [hn], ⟨hn.symm, rfl⟩, rfl⟩

theorem parses_buffer : buffer.Parses fun b s =>
    ∃ head content, VarInt.Spells .int content.length head ∧ s = head ++ content ∧
      b = Buffer.ofBytes content :=
  parses_block.map.congr fun b s => by
    constructor
    · rintro ⟨content, ⟨head, hspells, rfl⟩, rfl⟩
      exact ⟨head, content, hspells, rfl, rfl⟩
    · rintro ⟨head, content, hspells, rfl, rfl⟩
      exact ⟨content, ⟨head, hspells, rfl⟩, rfl⟩

theorem fails_block : block.FailsOnly BufferError.Structural :=
  fails_varInt.bind fun n => fails_take n.toNat_lt

theorem fails_buffer : buffer.FailsOnly BufferError.Structural := fails_block.map

/-- The words of an optional value: a flag that is zero, or any other and a word of the
value. -/
inductive Flagged (L : α → List UInt8 → Prop) : Option α → List UInt8 → Prop
  | absent : Flagged L none [0]
  | present {b : UInt8} {a : α} {s : List UInt8} (hb : b ≠ 0) (h : L a s) :
      Flagged L (some a) (b :: s)

def Behind (L : α → List UInt8 → Prop) : Bool → Option α → List UInt8 → Prop
  | true, some a, s => L a s
  | false, none, s => s = []
  | _, _, _ => False

/-- An optional value is read from a flag and, where that is set, a word of the value. -/
theorem parses_nullable {r : Reader α} {L : α → List UInt8 → Prop} (h : r.Parses L) :
    (nullable r).Parses (Flagged L) := by
  have hflag : ∀ v : Bool, Parses (if v = true then r >>= fun a => Pure.pure (some a)
      else Pure.pure none) (Behind L v) := by
    intro v
    cases v with
    | true =>
      refine (h.map (g := some)).congr fun o s => ?_
      cases o <;> simp [Behind]
    | false =>
      refine (Parses.pure none).congr fun o s => ?_
      cases o <;> simp [Behind]
  refine (parses_bool.bind hflag).congr fun o s => ?_
  constructor
  · rintro ⟨v, t, u, ⟨b, rfl, rfl⟩, hu, rfl⟩
    by_cases hb : b = 0
    · subst hb
      cases o with
      | none =>
        obtain rfl : u = [] := hu
        exact .absent
      | some a => exact hu.elim
    · have hv : (b != 0) = true := by simpa using hb
      rw [hv] at hu
      cases o with
      | none => exact hu.elim
      | some a => exact .present hb hu
  · intro ho
    cases ho with
    | absent => exact ⟨false, [0], [], ⟨0, rfl, rfl⟩, rfl, rfl⟩
    | @present b a s hb ha =>
      have hv : true = (b != 0) := by simpa using hb
      exact ⟨true, [b], s, ⟨b, rfl, hv⟩, ha, rfl⟩

theorem fails_nullable {E : BufferError → Prop} {r : Reader α} (hflag : bool.FailsOnly E)
    (h : r.FailsOnly E) : (nullable r).FailsOnly E :=
  hflag.bind fun v => by
    cases v with
    | true => exact h.map
    | false => exact FailsOnly.pure none

end Reader

end Switchboard
