/-!
# Variable-width integers

Seven data bits an octet, least significant group first, the high bit set on every
octet but the last. `encode` writes the shortest form; `peek` reads any form that fits
the width, and refuses at the last permitted octet when a bit would be lost.
-/

namespace Switchboard.VarInt

inductive Width where
  | int
  | long
  deriving DecidableEq, Repr

namespace Width

def bits : Width → Nat
  | .int => 32
  | .long => 64

def maxLength : Width → Nat
  | .int => 5
  | .long => 10

/-- The greatest octet that may stand in the last permitted place. -/
def lastMax : Width → UInt8
  | .int => 0x0F
  | .long => 0x01

end Width

/-- The shortest form of `n`. -/
def encode (n : Nat) : List UInt8 :=
  if n < 0x80 then [UInt8.ofNat n]
  else UInt8.ofNat (n % 0x80 + 0x80) :: encode (n / 0x80)
termination_by n

/-- The number of octets in the shortest form of a 32-bit value. -/
def length (n : UInt32) : Nat :=
  if n ≤ 0x7F then 1
  else if n ≤ 0x3FFF then 2
  else if n ≤ 0x1FFFFF then 3
  else if n ≤ 0x0FFFFFFF then 4
  else 5

/-- The ways in which the front of a string answers for an integer. -/
inductive Peek where
  /-- The value and the number of octets it spans. -/
  | found (value length : Nat)
  /-- The string ends before the integer does. -/
  | incomplete
  /-- A bit of the integer does not fit the width. -/
  | tooLong
  deriving DecidableEq, Repr

namespace Peek

/-- Put the group `group` in front of an integer read from the octets after it. -/
def shift (group : Nat) : Peek → Peek
  | .found value length => .found (group + 0x80 * value) (length + 1)
  | other => other

end Peek

def peekFrom (w : Width) (i : Nat) : List UInt8 → Peek
  | [] => .incomplete
  | b :: s =>
    if i + 1 = w.maxLength ∧ w.lastMax < b then .tooLong
    else if b < 0x80 then .found b.toNat 1
    else (peekFrom w (i + 1) s).shift (b.toNat % 0x80)

/-- The integer at the front of `s`, which is not consumed. -/
def peek (w : Width) (s : List UInt8) : Peek :=
  peekFrom w 0 s

end Switchboard.VarInt
