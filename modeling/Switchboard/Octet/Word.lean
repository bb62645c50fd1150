/-!
# Fixed-width words as octets

A word of `size` octets is written most significant octet first (`bigEndian`) or
last (`littleEndian`). Both keep the number modulo `modulus size`, which `value` and
`littleValue` read.
-/

namespace Switchboard.Octet

/-- Whether `s` holds at least `n` elements; looks at no more than `n` of them. -/
def reaches {α : Type} : Nat → List α → Bool
  | 0, _ => true
  | _ + 1, [] => false
  | n + 1, _ :: s => reaches n s

@[simp] theorem reaches_eq {α : Type} (n : Nat) (s : List α) :
    reaches n s = decide (n ≤ s.length) := by
  induction s generalizing n with
  | nil => cases n <;> simp [reaches]
  | cons a s ih => cases n <;> simp [reaches, ih]

def modulus : (size : Nat) → Nat
  | 0 => 1
  | size + 1 => 256 * modulus size

/-- The `size` low octets of `n`, most significant first. -/
def bigEndian : (size : Nat) → (n : Nat) → List UInt8
  | 0, _ => []
  | size + 1, n => UInt8.ofNat (n / modulus size) :: bigEndian size n

/-- The number whose base-256 digits, most significant first, are `s`. -/
def value (s : List UInt8) : Nat :=
  s.foldl (fun n b => n * 256 + b.toNat) 0

/-- The `size` low octets of `n`, least significant first. -/
def littleEndian : (size : Nat) → (n : Nat) → List UInt8
  | 0, _ => []
  | size + 1, n => UInt8.ofNat n :: littleEndian size (n / 256)

/-- The number whose base-256 digits, least significant first, are `s`. -/
def littleValue (s : List UInt8) : Nat :=
  s.foldr (fun b n => b.toNat + 256 * n) 0

@[simp] theorem length_bigEndian (size n : Nat) : (bigEndian size n).length = size := by
  induction size with
  | zero => rfl
  | succ size ih => simp [bigEndian, ih]

theorem modulus_pos (size : Nat) : 0 < modulus size := by
  induction size with
  | zero => exact Nat.one_pos
  | succ size ih => exact Nat.mul_pos (by decide) ih

theorem foldl_value (s : List UInt8) (n : Nat) :
    s.foldl (fun n b => n * 256 + b.toNat) n = n * modulus s.length + value s := by
  induction s generalizing n with
  | nil => simp [value, modulus]
  | cons b s ih =>
    simp only [value, List.foldl_cons, List.length_cons, modulus]
    rw [ih, ih (0 * 256 + b.toNat)]
    simp [Nat.add_mul, Nat.mul_assoc, Nat.add_assoc]

theorem value_cons (b : UInt8) (s : List UInt8) :
    value (b :: s) = b.toNat * modulus s.length + value s := by
  rw [value, List.foldl_cons, foldl_value]
  simp

/-- Reading a big-endian word gives the written number modulo its width. -/
theorem value_bigEndian (size n : Nat) : value (bigEndian size n) = n % modulus size := by
  induction size with
  | zero => simp [bigEndian, value, modulus, Nat.mod_one]
  | succ size ih =>
    rw [bigEndian, value_cons, ih, length_bigEndian, UInt8.toNat_ofNat', modulus,
      Nat.mul_comm 256, Nat.mod_mul, Nat.mul_comm (modulus size), Nat.add_comm]

/-- So many octets tell a number below the modulus for as many. -/
theorem value_lt (s : List UInt8) : value s < modulus s.length := by
  induction s with
  | nil => exact Nat.one_pos
  | cons b s ih =>
    rw [value_cons, List.length_cons, modulus]
    have hb : b.toNat + 1 ≤ 256 := b.toNat_lt
    calc b.toNat * modulus s.length + value s
        < b.toNat * modulus s.length + modulus s.length := by omega
      _ = (b.toNat + 1) * modulus s.length := by rw [Nat.add_mul, Nat.one_mul]
      _ ≤ 256 * modulus s.length := Nat.mul_le_mul_right _ hb

end Switchboard.Octet
