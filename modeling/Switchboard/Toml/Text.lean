import Switchboard.Identity

/-!
# TOML strings

The four ways to write a string, how one is read and which of them is chosen to write a
text: the plain one if nothing in it needs an escape, else one without escapes if the text
allows it.
-/

namespace Switchboard.Toml

/-- A character that may stand for itself somewhere: a tab or no control character. -/
def printable (c : Char) : Bool := c = '\t' || (' ' ≤ c && c ≠ '\x7f')

inductive Quoting where
  /-- Between double quotes. -/
  | basic
  /-- Between single quotes, without escapes. -/
  | literal
  /-- Between three double quotes, with line breaks. -/
  | basicLines
  /-- Between three single quotes, with line breaks and without escapes. -/
  | literalLines
  deriving DecidableEq, Repr

/-- The length of the longest run of `c`; `current` have just been seen. -/
def longestRun (c : Char) : (text : List Char) → (current : Nat) → Nat
  | [], current => current
  | d :: ds, current =>
    if d = c then longestRun c ds (current + 1) else max current (longestRun c ds 0)

/-- A control character that only an escape can stand for. -/
def needsEscape (c : Char) : Bool := !printable c && c ≠ '\n'

namespace Quoting

/-- Whether a text can be written this way without a single escape; a basic string may then
still spell its tabs out. -/
def suits (text : List Char) : Quoting → Bool
  | basic =>
    !text.any needsEscape && !text.contains '\\' && longestRun '"' text 0 = 0 && !text.contains '\n'
  | literal => !text.any needsEscape && longestRun '\x27' text 0 = 0 && !text.contains '\n'
  | basicLines => !text.any needsEscape && !text.contains '\\' && longestRun '"' text 0 ≤ 2
  | literalLines => !text.any needsEscape && longestRun '\x27' text 0 ≤ 2

def choose (text : List Char) : Quoting :=
  match [basic, literal, basicLines, literalLines].find? (suits text) with
  | some q => q
  | none => if text.contains '\n' then basicLines else basic

def delimiter : Quoting → List Char
  | basic => ['"']
  | literal => ['\x27']
  | basicLines => ['"', '"', '"']
  | literalLines => ['\x27', '\x27', '\x27']

def hasLines : Quoting → Bool
  | basicLines | literalLines => true
  | basic | literal => false

def hasEscapes : Quoting → Bool
  | basic | basicLines => true
  | literal | literalLines => false

end Quoting

def upperDigit (n : Nat) : Char :=
  if n < 10 then Char.ofNat (n + 48) else Char.ofNat (n + 55)

def numericEscape (c : Char) : List Char :=
  ['\\', 'u', '0', '0', upperDigit (c.toNat / 16), upperDigit (c.toNat % 16)]

/-- A text with its escapes. At most `quotes` double quotes in a row stand for themselves, and
`seen` of them have just been written. -/
def escaped (lines : Bool) (quotes : Nat) : (text : List Char) → (seen : Nat) → List Char
  | [], _ => []
  | c :: cs, seen =>
    let go (written : List Char) := written ++ escaped lines quotes cs 0
    if c = '"' then
      if seen < quotes then c :: escaped lines quotes cs (seen + 1) else go ['\\', '"']
    else if c = '\\' then go ['\\', '\\']
    else if c = '\n' then go (if lines then [c] else ['\\', 'n'])
    else if c = '\t' then go ['\\', 't']
    else if c = '\x08' then go ['\\', 'b']
    else if c = '\x0c' then go ['\\', 'f']
    else if c = '\r' then go ['\\', 'r']
    else if printable c then go [c]
    else go (numericEscape c)

/-- A text in a given quoting. A line break after the opening quotes is not part of it. -/
def Quoting.write (q : Quoting) (text : List Char) : List Char :=
  q.delimiter ++ (if q.hasLines && text.contains '\n' then ['\n'] else []) ++
    (if q.hasEscapes then escaped q.hasLines (if q.hasLines then 2 else 0) text 0 else text) ++
    q.delimiter

/-- The written form of a text. -/
def quote (text : List Char) : List Char := (Quoting.choose text).write text

-- What is read is given with what follows it. Line breaks are single line feeds here.

def scalar? (n : Nat) : Option Char := if h : n.isValidChar then some (Char.ofNatAux n h) else none

def unicode? (digits : List Char) : Option Char := do
  let values ← digits.mapM Identity.digitValue?
  scalar? (values.foldl (fun n d => n * 16 + d) 0)

/-- The character that an escape stands for; the backslash was read before. -/
def escape? : List Char → Option (Char × List Char)
  | 'b' :: r => some ('\x08', r)
  | 't' :: r => some ('\t', r)
  | 'n' :: r => some ('\n', r)
  | 'f' :: r => some ('\x0c', r)
  | 'r' :: r => some ('\r', r)
  | '"' :: r => some ('"', r)
  | '\\' :: r => some ('\\', r)
  | 'u' :: a :: b :: c :: d :: r => (unicode? [a, b, c, d]).map (·, r)
  | 'U' :: a :: b :: c :: d :: e :: f :: g :: h :: r =>
    (unicode? [a, b, c, d, e, f, g, h]).map (·, r)
  | _ => none

theorem length_escape? {s r : List Char} {c : Char} (h : escape? s = some (c, r)) :
    r.length < s.length := by
  unfold escape? at h
  split at h <;> grind [Option.map_eq_some_iff, List.length_cons]

def readBasic (s : List Char) : Option (List Char × List Char) :=
  match s with
  | [] => none
  | '"' :: r => some ([], r)
  | '\\' :: r =>
    match _h : escape? r with
    | none => none
    | some (c, r') => (readBasic r').map fun (t, rest) => (c :: t, rest)
  | c :: r => if printable c then (readBasic r).map fun (t, rest) => (c :: t, rest) else none
termination_by s.length
decreasing_by
  · have := length_escape? _h
    simp only [List.length_cons]
    omega
  · simp

def readLiteral : List Char → Option (List Char × List Char)
  | [] => none
  | '\x27' :: r => some ([], r)
  | c :: r => if printable c then (readLiteral r).map fun (t, rest) => (c :: t, rest) else none

/-- What follows a backslash at the end of a line: the next character that is no blank. -/
def nextLine? (s : List Char) : Option (List Char) :=
  match s.dropWhile fun c => c = ' ' || c = '\t' with
  | '\n' :: r => some (r.dropWhile fun c => c = ' ' || c = '\t' || c = '\n')
  | _ => none

theorem length_dropWhile_le (p : Char → Bool) (s : List Char) :
    (s.dropWhile p).length ≤ s.length :=
  (List.dropWhile_sublist p).length_le

theorem length_nextLine? {s r : List Char} (h : nextLine? s = some r) : r.length < s.length := by
  unfold nextLine? at h
  split at h
  · rename_i t ht
    have h₁ := length_dropWhile_le (fun c => c = ' ' || c = '\t') s
    have h₂ := length_dropWhile_le (fun c => c = ' ' || c = '\t' || c = '\n') t
    simp only [ht, List.length_cons] at h₁
    simp only [Option.some.injEq] at h
    subst h
    omega
  · simp at h

/-- The rest of a basic string with lines. Up to two quotes may stand before the closing three. -/
def readBasicLines (s : List Char) : Option (List Char × List Char) :=
  match s with
  | [] => none
  | '"' :: '"' :: '"' :: '"' :: '"' :: r => some (['"', '"'], r)
  | '"' :: '"' :: '"' :: '"' :: r => some (['"'], r)
  | '"' :: '"' :: '"' :: r => some ([], r)
  | '\\' :: r =>
    match _h₁ : nextLine? r with
    | some r' => readBasicLines r'
    | none =>
      match _h₂ : escape? r with
      | none => none
      | some (c, r') => (readBasicLines r').map fun (t, rest) => (c :: t, rest)
  | c :: r =>
    if printable c || c = '\n' then (readBasicLines r).map fun (t, rest) => (c :: t, rest) else none
termination_by s.length
decreasing_by
  · have := length_nextLine? _h₁
    simp only [List.length_cons]
    omega
  · have := length_escape? _h₂
    simp only [List.length_cons]
    omega
  · simp

def readLiteralLines : List Char → Option (List Char × List Char)
  | [] => none
  | '\x27' :: '\x27' :: '\x27' :: '\x27' :: '\x27' :: r => some (['\x27', '\x27'], r)
  | '\x27' :: '\x27' :: '\x27' :: '\x27' :: r => some (['\x27'], r)
  | '\x27' :: '\x27' :: '\x27' :: r => some ([], r)
  | c :: r =>
    if printable c || c = '\n' then
      (readLiteralLines r).map fun (t, rest) => (c :: t, rest)
    else none

def dropBreak : List Char → List Char
  | '\n' :: r => r
  | s => s

/-- A string in any quoting. -/
def readString : List Char → Option (List Char × List Char)
  | '"' :: '"' :: '"' :: r => readBasicLines (dropBreak r)
  | '"' :: r => readBasic r
  | '\x27' :: '\x27' :: '\x27' :: r => readLiteralLines (dropBreak r)
  | '\x27' :: r => readLiteral r
  | _ => none

end Switchboard.Toml
