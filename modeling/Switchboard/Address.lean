import Switchboard.Decimal
import Switchboard.Identity

/-!
# Addresses

Literal network addresses of both versions and endpoints, which are an address and a
port. A version 6 address is written in its shortest form.
-/

namespace Switchboard

inductive Address where
  | v4 (a b c d : UInt8)
  | v6 (groups : Vector UInt16 8)
  deriving DecidableEq, Repr

namespace Address

/-- One part of a version 4 address: at most three digits, none of them a leading zero. -/
def part? (text : String) : Option UInt8 :=
  match text.toList with
  | '0' :: _ :: _ => none
  | '+' :: _ => none
  | _ => if text.length ≤ 3 then (Decimal.natural 255 text).toOption.map UInt8.ofNat else none

/-- Four parts between dots. -/
def v4Parts? (text : String) : Option (UInt8 × UInt8 × UInt8 × UInt8) := do
  match ← (text.splitOn ".").mapM part? with
  | [a, b, c, d] => some (a, b, c, d)
  | _ => none

/-- One group of a version 6 address: one to four hexadecimal digits. -/
def group? (text : String) : Option UInt16 := do
  let values ← text.toList.mapM Identity.digitValue?
  guard (1 ≤ values.length ∧ values.length ≤ 4)
  return UInt16.ofNat (values.foldl (fun n d => n * 16 + d) 0)

/-- The groups of texts that stood between colons; the last may be a version 4 address,
which makes two groups, where `tailed` allows it. -/
def groups? (tailed : Bool) : List String → Option (List UInt16)
  | [] => some []
  | [text] =>
    match group? text, v4Parts? text with
    | some g, _ => some [g]
    | none, some (a, b, c, d) =>
      if tailed then some [a.toUInt16 * 256 + b.toUInt16, c.toUInt16 * 256 + d.toUInt16] else none
    | none, none => none
  | text :: rest => do return (← group? text) :: (← groups? tailed rest)

/-- The groups on one side of the double colon, which may be empty. -/
def side? (tailed : Bool) (text : String) : Option (List UInt16) :=
  if text.isEmpty then some [] else groups? tailed (text.splitOn ":")

def ofGroups? (groups : List UInt16) : Option Address :=
  if h : groups.toArray.size = 8 then some (.v6 ⟨groups.toArray, h⟩) else none

/-- A version 6 address without brackets. A double colon stands for one zero group or more. -/
def v6? (text : String) : Option Address :=
  match text.splitOn "::" with
  | [whole] => do ofGroups? (← side? true whole)
  | [left, right] => do
    let left ← side? false left
    let right ← side? true right
    guard (left.length + right.length ≤ 7)
    ofGroups? (left ++ List.replicate (8 - left.length - right.length) 0 ++ right)
  | _ => none

def v4? (text : String) : Option Address :=
  (v4Parts? text).map fun (a, b, c, d) => .v4 a b c d

/-- An address as it stands before a port: a version 6 address may be in brackets. -/
def ofText? (text : String) : Option Address :=
  match text.toList, text.toList.getLast? with
  | '[' :: inner, some ']' => v6? (String.ofList inner.dropLast)
  | _, _ => (v4? text).orElse fun _ => v6? text

/-- The lower-case hexadecimal digits of a group, without leading zeros. -/
def groupText (g : UInt16) : String := String.ofList (Nat.toDigits 16 g.toNat)

def groupsText (groups : List UInt16) : String := ":".intercalate (groups.map groupText)

/-- Where the first longest run of zero groups starts and how long it is, given the run that
ends before `rest`, which starts at `position`, and the longest one so far. -/
def longestRun (rest : List UInt16) (position current best start : Nat) : Nat × Nat :=
  match rest with
  | [] => (start, best)
  | g :: rest =>
    if g = 0 then
      let current := current + 1
      if best < current then longestRun rest (position + 1) current current (position + 1 - current)
      else longestRun rest (position + 1) current best start
    else longestRun rest (position + 1) 0 best start

def v4Text (a b c d : Nat) : String := s!"{a}.{b}.{c}.{d}"

/-- An address that maps a version 4 one shows that; else the first longest run of at least
two zero groups becomes a double colon. -/
def v6Text (groups : List UInt16) : String :=
  match groups with
  | [0, 0, 0, 0, 0, 0xffff, g, h] =>
    "::ffff:" ++ v4Text (g.toNat / 256) (g.toNat % 256) (h.toNat / 256) (h.toNat % 256)
  | _ =>
    let (start, size) := longestRun groups 0 0 0 0
    if 2 ≤ size then groupsText (groups.take start) ++ "::" ++ groupsText (groups.drop (start + size))
    else groupsText groups

def text : Address → String
  | .v4 a b c d => v4Text a.toNat b.toNat c.toNat d.toNat
  | .v6 groups => v6Text groups.toList

/-- The address that stands for all of a machine's own. -/
def isUnspecified : Address → Bool
  | .v4 a b c d => a == 0 && b == 0 && c == 0 && d == 0
  | .v6 groups => groups.toList.all (· == 0)

end Address

inductive ResolveFault where
  /-- A name cannot hold the character NUL. -/
  | nul
  /-- The text is no literal address, and no name service answers. -/
  | unknownName
  deriving DecidableEq, Repr

def ResolveFault.message : ResolveFault → String
  | .nul => "file name contained an unexpected NUL byte"
  | .unknownName => "failed to lookup address information: Name or service not known"

structure Endpoint where
  address : Address
  port : UInt16
  deriving DecidableEq, Repr

namespace Endpoint

def textWithPort (e : Endpoint) (port : String) : String :=
  match e.address with
  | .v4 .. => e.address.text ++ ":" ++ port
  | .v6 _ => "[" ++ e.address.text ++ "]:" ++ port

def text (e : Endpoint) : String := e.textWithPort (toString e.port.toNat)

/-- The endpoint of a host and a port. -/
def resolve (host : String) (port : UInt16) : Except ResolveFault Endpoint :=
  if host.toList.contains '\x00' then .error .nul
  else match Address.ofText? host with
    | some address => .ok { address, port }
    | none => .error .unknownName

/-- Whether two listening endpoints would get in each other's way. -/
def overlaps (e f : Endpoint) : Bool :=
  e.port == f.port &&
    (e.address == f.address || e.address.isUnspecified || f.address.isUnspecified)

end Endpoint

end Switchboard
