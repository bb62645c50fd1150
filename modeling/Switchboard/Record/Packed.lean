import Switchboard.Buffer.Reader
import Switchboard.Record.Shape

/-!
# The packed form of objects

Little-endian words of fixed width; 64-bit lengths before texts, lists and maps; a
32-bit index before the content of a variant; one octet, 0 or 1, for flags; a character
as its UTF-8. Octets behind the object are ignored when reading.
-/

namespace Switchboard.Packed

mutual

def pack : Shape → Datum → List UInt8
  | .bool, .bool b => [if b then 1 else 0]
  | .integer _ octets, .integer n =>
    Octet.littleEndian octets (n % Octet.modulus octets).toNat
  | .char, .char c => Utf8.encode (String.singleton c)
  | .text, .text t => packText t
  | .list s, .list ds => Octet.littleEndian 8 ds.length ++ packAll s ds
  | .optional _, .absent => [0]
  | .optional s, .present d => 1 :: pack s d
  | .map s, .map es => Octet.littleEndian 8 es.length ++ packEntries s es
  | .tuple ss, .parts ds => packParts ss ds
  | .record fs, .parts ds => packFields fs ds
  | .choice vs, .variant i d => Octet.littleEndian 4 i ++ packChosen vs i d
  | _, _ => []

def packText (t : String) : List UInt8 :=
  let s := Utf8.encode t
  Octet.littleEndian 8 s.length ++ s

def packAll (s : Shape) : List Datum → List UInt8
  | [] => []
  | d :: ds => pack s d ++ packAll s ds

def packEntries (s : Shape) : List (String × Datum) → List UInt8
  | [] => []
  | (t, d) :: es => packText t ++ pack s d ++ packEntries s es

def packParts : List Shape → List Datum → List UInt8
  | s :: ss, d :: ds => pack s d ++ packParts ss ds
  | _, _ => []

def packFields : List (String × Shape) → List Datum → List UInt8
  | (_, s) :: fs, d :: ds => pack s d ++ packFields fs ds
  | _, _ => []

def packChosen : List (String × Shape) → Nat → Datum → List UInt8
  | (_, s) :: _, 0, d => pack s d
  | _ :: vs, i + 1, d => packChosen vs i d
  | [], _, _ => []

end

def word (size : Nat) : Reader Nat := do
  return Octet.littleValue (← Reader.take size)

/-- An octet that must be 0 or 1. -/
def flag : Reader Bool := do
  match ← word 1 with
  | 0 => return false
  | 1 => return true
  | _ => throw .object

def text : Reader String := do
  match Utf8.decode (← Reader.take (← word 8)) with
  | .ok t => return t
  | .error _ => throw .object

def charWidth (b : UInt8) : Option Nat :=
  if b < 0x80 then some 1 else (Utf8.lead b).map (·.1)

def char : Reader Char := do
  let first ← Reader.take 1
  match first.head?.bind charWidth with
  | none => throw .object
  | some width =>
    match Utf8.decode (first ++ (← Reader.take (width - 1))) with
    | .ok t =>
      match t.toList with
      | c :: _ => return c
      | [] => throw .object
    | .error _ => throw .object

def integer (signed : Bool) (octets : Nat) : Reader Int := do
  let n ← word octets
  let modulus := Octet.modulus octets
  return if signed && modulus / 2 ≤ n then (n : Int) - modulus else n

mutual

def unpack : Shape → Reader Datum
  | .bool => do return .bool (← flag)
  | .integer signed octets => do return .integer (← integer signed octets)
  | .char => do return .char (← char)
  | .text => do return .text (← text)
  | .unit => return .unit
  | .list s => do return .list (← Reader.times (← word 8) (unpack s))
  | .optional s => do if ← flag then return .present (← unpack s) else return .absent
  | .map s => do
    let entry : Reader (String × Datum) := do
      let t ← text
      return (t, ← unpack s)
    return .map (Datum.ofEntries (← Reader.times (← word 8) entry))
  | .tuple ss => do return .parts (← unpackParts ss)
  | .record fs => do return .parts (← unpackFields fs)
  | .choice vs => do
    let i ← word 4
    return .variant i (← unpackChosen vs i)

def unpackParts : List Shape → Reader (List Datum)
  | [] => return []
  | s :: ss => do
    let d ← unpack s
    return d :: (← unpackParts ss)

def unpackFields : List (String × Shape) → Reader (List Datum)
  | [] => return []
  | (_, s) :: fs => do
    let d ← unpack s
    return d :: (← unpackFields fs)

def unpackChosen : List (String × Shape) → Nat → Reader Datum
  | [], _ => throw .object
  | (_, s) :: _, 0 => unpack s
  | _ :: vs, i + 1 => unpackChosen vs i

end

def ofBytes? (shape : Shape) (s : List UInt8) : Option Datum :=
  match (unpack shape).on s with
  | (.ok d, _) => some d
  | (.error _, _) => none

end Switchboard.Packed
