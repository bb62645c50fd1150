/-!
# Well-formed UTF-8

`decode` accepts exactly the well-formed strings of octets; on any other it tells
where the valid part ends and how long the ill-formed part is (`Fault`).
-/

namespace Switchboard.Utf8

/-- Where a string of octets stops being UTF-8. -/
structure Fault where
  /-- Length of the valid part at the front. -/
  validUpTo : Nat
  /-- Length of the ill-formed part; none when the string ends inside a sequence. -/
  length : Option Nat
  deriving DecidableEq, Repr

def Fault.message (f : Fault) : String :=
  match f.length with
  | some n => s!"invalid utf-8 sequence of {n} bytes from index {f.validUpTo}"
  | none => s!"incomplete utf-8 byte sequence from index {f.validUpTo}"

/-- What the second octet of a sequence may be, by its first octet: the number of
octets in the sequence and the bounds of the second. -/
def lead (b : UInt8) : Option (Nat × UInt8 × UInt8) :=
  if b < 0xC2 then none
  else if b < 0xE0 then some (2, 0x80, 0xBF)
  else if b = 0xE0 then some (3, 0xA0, 0xBF)
  else if b = 0xED then some (3, 0x80, 0x9F)
  else if b < 0xF0 then some (3, 0x80, 0xBF)
  else if b = 0xF0 then some (4, 0x90, 0xBF)
  else if b < 0xF4 then some (4, 0x80, 0xBF)
  else if b = 0xF4 then some (4, 0x80, 0x8F)
  else none

inductive Front where
  | character (length : Nat)
  | illFormed (length : Nat)
  | cut
  deriving DecidableEq, Repr

/-- Checks the `left` octets still due of a sequence of which `seen` were accepted. -/
def continued (total : Nat) : (left seen : Nat) → List UInt8 → Front
  | 0, _, _ => .character total
  | _ + 1, _, [] => .cut
  | left + 1, seen, b :: s =>
    if 0x80 ≤ b ∧ b ≤ 0xBF then continued total left (seen + 1) s else .illFormed seen

def front : List UInt8 → Front
  | [] => .cut
  | b :: s =>
    if b < 0x80 then .character 1
    else match lead b with
      | none => .illFormed 1
      | some (total, low, high) =>
        match s with
        | [] => .cut
        | c :: s => if low ≤ c ∧ c ≤ high then continued total (total - 2) 2 s else .illFormed 1

/-- The first fault of `s`, with `valid` octets in front of it found valid. `fuel`
bounds the characters looked at. -/
def faultFrom (valid : Nat) : (fuel : Nat) → List UInt8 → Fault
  | 0, _ => ⟨valid, none⟩
  | fuel + 1, s =>
    match front s with
    | .character n => faultFrom (valid + n) fuel (s.drop n)
    | .illFormed n => ⟨valid, some n⟩
    | .cut => ⟨valid, none⟩

/-- Where `s` stops being UTF-8. -/
def fault (s : List UInt8) : Fault :=
  faultFrom 0 s.length s

def encode (text : String) : List UInt8 :=
  text.toByteArray.data.toList

def decode (s : List UInt8) : Except Fault String :=
  match String.fromUTF8? ⟨s.toArray⟩ with
  | some text => .ok text
  | none => .error (fault s)

@[simp] theorem decode_encode (text : String) : decode (encode text) = .ok text := by
  have h : String.fromUTF8? text.toByteArray = some text := by
    simp only [String.fromUTF8?, dif_pos text.isValidUTF8]
    rfl
  simp [decode, encode, h]

end Switchboard.Utf8
