import Switchboard.Octet.Utf8
import Switchboard.Octet.Word
import Switchboard.Identity

/-!
# JSON

Compact writing and strict reading over octets. A value that nobody looks at only has
to be well formed as a sequence of tokens, so the tree keeps what a stricter reading
may refuse: a text that is no Unicode is `text none`, a number that was not written as
an integer is `fraction`.
-/

namespace Switchboard

inductive JsonValue where
  | null
  | bool (b : Bool)
  | integer (n : Int)
  /-- A number with a fraction or an exponent, or minus zero. -/
  | fraction
  /-- A text, unless it is no Unicode. -/
  | text (t : Option String)
  | array (items : List JsonValue)
  | object (members : List (Option String × JsonValue))
  deriving Repr, Inhabited

namespace JsonValue

def escape (c : Char) : String :=
  if c = '"' then "\\\""
  else if c = '\\' then "\\\\"
  else if c = '\x08' then "\\b"
  else if c = '\t' then "\\t"
  else if c = '\n' then "\\n"
  else if c = '\x0c' then "\\f"
  else if c = '\r' then "\\r"
  else if c.toNat < 0x20 then
    String.ofList (['\\', 'u', '0', '0'] ++ Identity.digits (UInt8.ofNat c.toNat))
  else String.singleton c

def quote (t : String) : String :=
  "\"" ++ String.join (t.toList.map escape) ++ "\""

mutual

def render : JsonValue → String
  | null => "null"
  | bool b => if b then "true" else "false"
  | integer n => toString n
  | fraction => "null"
  | text t => quote (t.getD "")
  | array items => "[" ++ ",".intercalate (renderAll items) ++ "]"
  | object members => "\x7b" ++ ",".intercalate (renderMembers members) ++ "\x7d"

def renderAll : List JsonValue → List String
  | [] => []
  | j :: js => render j :: renderAll js

def renderMembers : List (Option String × JsonValue) → List String
  | [] => []
  | (t, j) :: ms => (quote (t.getD "") ++ ":" ++ render j) :: renderMembers ms

end

def skipBlank (s : List UInt8) : List UInt8 :=
  s.dropWhile fun b => b = 0x20 || b = 0x09 || b = 0x0A || b = 0x0D

def isDigit (b : UInt8) : Bool := 0x30 ≤ b && b ≤ 0x39

def literal? (word : String) (s : List UInt8) : Option (List UInt8) :=
  let w := Utf8.encode word
  if w.isPrefixOf s then some (s.drop w.length) else none

/-- What stands in a quoted text: an octet, or an escaped 16-bit unit. -/
inductive Unit16 where
  | octet (b : UInt8)
  | escaped (u : Nat)

def hexUnit? (s : List UInt8) : Option Nat := do
  let digits ← (s.take 4).mapM fun b => Identity.digitValue? (Char.ofNat b.toNat)
  guard (digits.length = 4)
  return digits.foldl (fun n d => n * 16 + d) 0

def shortEscape? (b : UInt8) : Option UInt8 :=
  match Char.ofNat b.toNat with
  | '"' => some 0x22
  | '\\' => some 0x5C
  | '/' => some 0x2F
  | 'b' => some 0x08
  | 'f' => some 0x0C
  | 'n' => some 0x0A
  | 'r' => some 0x0D
  | 't' => some 0x09
  | _ => none

/-- The units of a quoted text up to its closing quote, and the octets behind it.
`seen` is in reverse; `fuel` bounds the units. -/
def units? : (fuel : Nat) → (seen : List Unit16) → List UInt8 →
    Option (List Unit16 × List UInt8)
  | fuel + 1, seen, b :: s =>
    if b = 0x22 then some (seen.reverse, s)
    else if b < 0x20 then none
    else if b = 0x5C then
      match s with
      | [] => none
      | e :: s =>
        if e = 0x75 then
          match hexUnit? s with
          | some u => units? fuel (.escaped u :: seen) (s.drop 4)
          | none => none
        else match shortEscape? e with
          | some c => units? fuel (.octet c :: seen) s
          | none => none
    else units? fuel (.octet b :: seen) s
  | _, _, _ => none

/-- The octets of the units; a surrogate must be a high one followed by a low one. -/
def octets? : List Unit16 → Option (List UInt8)
  | [] => some []
  | .octet b :: rest => (octets? rest).map (b :: ·)
  | .escaped u :: .escaped v :: rest =>
    if 0xD800 ≤ u && u < 0xDC00 then
      if 0xDC00 ≤ v && v < 0xE000 then
        let c := Char.ofNat (0x10000 + (u - 0xD800) * 0x400 + (v - 0xDC00))
        (octets? rest).map (Utf8.encode (String.singleton c) ++ ·)
      else none
    else if 0xDC00 ≤ u && u < 0xE000 then none
    else (octets? (.escaped v :: rest)).map
      (Utf8.encode (String.singleton (Char.ofNat u)) ++ ·)
  | .escaped u :: rest =>
    if 0xD800 ≤ u && u < 0xE000 then none
    else (octets? rest).map (Utf8.encode (String.singleton (Char.ofNat u)) ++ ·)

def quoted? (s : List UInt8) : Option (Option String × List UInt8) := do
  let (units, rest) ← units? (s.length + 1) [] s
  let content := (octets? units).bind fun o =>
    match Utf8.decode o with
    | .ok t => some t
    | .error _ => none
  return (content, rest)

def digits (s : List UInt8) : List UInt8 × List UInt8 :=
  (s.takeWhile isDigit, s.dropWhile isDigit)

/-- The digits of an integer part: no leading zero. -/
def integerPart? (s : List UInt8) : Option (Nat × List UInt8) :=
  match digits s with
  | ([], _) => none
  | (d :: ds, rest) =>
    if d = 0x30 && !ds.isEmpty then none
    else some ((d :: ds).foldl (fun n b => n * 10 + (b.toNat - 0x30)) 0, rest)

/-- What is behind a fraction, if one begins here; a point must have digits. -/
def fraction? (s : List UInt8) : Option (Bool × List UInt8) :=
  match s with
  | 0x2E :: s =>
    match digits s with
    | ([], _) => none
    | (_, rest) => some (true, rest)
  | _ => some (false, s)

def exponent? (s : List UInt8) : Option (Bool × List UInt8) :=
  match s with
  | e :: s' =>
    if e = 0x65 || e = 0x45 then
      let unsigned := match s' with
        | b :: r => if b = 0x2B || b = 0x2D then r else s'
        | [] => []
      match digits unsigned with
      | ([], _) => none
      | (_, rest) => some (true, rest)
    else some (false, s)
  | [] => some (false, [])

def number? (negative : Bool) (s : List UInt8) : Option (JsonValue × List UInt8) := do
  let (n, s) ← integerPart? s
  let (hasFraction, s) ← fraction? s
  let (hasExponent, s) ← exponent? s
  let j : JsonValue :=
    if hasFraction || hasExponent || (negative && n = 0) then .fraction
    else .integer (if negative then -(n : Int) else n)
  return (j, s)

mutual

/-- The value at the front of `s`, and what is behind it. `fuel` bounds the nodes. -/
def value? : (fuel : Nat) → List UInt8 → Option (JsonValue × List UInt8)
  | 0, _ => none
  | fuel + 1, s =>
    match skipBlank s with
    | [] => none
    | b :: s =>
      match Char.ofNat b.toNat with
      | 'n' => (literal? "ull" s).map (null, ·)
      | 't' => (literal? "rue" s).map (bool true, ·)
      | 'f' => (literal? "alse" s).map (bool false, ·)
      | '"' => (quoted? s).map fun (t, s) => (text t, s)
      | '[' =>
        match skipBlank s with
        | 0x5D :: s => some (array [], s)
        | s => (items? fuel [] s).map fun (js, s) => (array js, s)
      | '\x7b' =>
        match skipBlank s with
        | 0x7D :: s => some (object [], s)
        | s => (members? fuel [] s).map fun (ms, s) => (object ms, s)
      | '-' => number? true s
      | _ => if isDigit b then number? false (b :: s) else none

def items? : (fuel : Nat) → List JsonValue → List UInt8 → Option (List JsonValue × List UInt8)
  | 0, _, _ => none
  | fuel + 1, seen, s =>
    match value? fuel s with
    | none => none
    | some (j, s) =>
      match skipBlank s with
      | 0x2C :: s => items? fuel (j :: seen) s
      | 0x5D :: s => some ((j :: seen).reverse, s)
      | _ => none

def members? : (fuel : Nat) → List (Option String × JsonValue) → List UInt8 →
    Option (List (Option String × JsonValue) × List UInt8)
  | 0, _, _ => none
  | fuel + 1, seen, s =>
    match skipBlank s with
    | 0x22 :: s =>
      match quoted? s with
      | none => none
      | some (t, s) =>
        match skipBlank s with
        | 0x3A :: s =>
          match value? fuel s with
          | none => none
          | some (j, s) =>
            match skipBlank s with
            | 0x2C :: s => members? fuel ((t, j) :: seen) s
            | 0x7D :: s => some (((t, j) :: seen).reverse, s)
            | _ => none
        | _ => none
    | _ => none

end

/-- The value that `s` holds, with nothing but blanks around it. -/
def ofBytes? (s : List UInt8) : Option JsonValue := do
  let (j, rest) ← value? (2 * s.length + 2) s
  guard (skipBlank rest).isEmpty
  return j

end JsonValue

end Switchboard
