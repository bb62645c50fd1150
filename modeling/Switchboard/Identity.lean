import Switchboard.Buffer.Reader

/-!
# Correlation ids

A 128-bit id in two halves, the high one first on the wire, with the usual text of
five groups of lower-case hexadecimal digits.
-/

namespace Switchboard

structure Identity where
  high : UInt64
  low : UInt64
  deriving DecidableEq, Repr, Inhabited, Hashable

namespace Identity

def digit (n : Nat) : Char :=
  if n < 10 then Char.ofNat (n + 48) else Char.ofNat (n + 87)

/-- The value of a hexadecimal digit in either case. -/
def digitValue? (c : Char) : Option Nat :=
  if '0' ≤ c ∧ c ≤ '9' then some (c.toNat - 48)
  else if 'a' ≤ c ∧ c ≤ 'f' then some (c.toNat - 87)
  else if 'A' ≤ c ∧ c ≤ 'F' then some (c.toNat - 55)
  else none

def digits (b : UInt8) : List Char :=
  [digit (b.toNat / 16), digit (b.toNat % 16)]

def octets (id : Identity) : List UInt8 :=
  Octet.bigEndian 8 id.high.toNat ++ Octet.bigEndian 8 id.low.toNat

/-- Digits in groups of 8, 4, 4, 4 and 12, joined by hyphens. -/
def text (id : Identity) : String :=
  let all := id.octets.flatMap digits
  let group (start size : Nat) := String.ofList ((all.drop start).take size)
  "-".intercalate [group 0 8, group 8 4, group 12 4, group 16 4, group 20 12]

/-- The id whose hexadecimal digits are those of `text`, hyphens apart. -/
def ofText? (text : String) : Option Identity := do
  let values ← (text.toList.filter (· ≠ '-')).mapM digitValue?
  guard (values.length = 32)
  let number (part : List Nat) := UInt64.ofNat (part.foldl (fun n d => n * 16 + d) 0)
  return ⟨number (values.take 16), number (values.drop 16)⟩

/-- Two 64-bit halves; the first stays consumed when the second is missing. -/
def reader : Reader Identity := do
  let high ← Reader.u64
  let low ← Reader.u64
  return ⟨high, low⟩

end Identity

end Switchboard
