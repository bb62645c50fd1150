import Switchboard.Toml.Scalar
import Switchboard.Toml.Text

/-!
# Reading TOML documents

Values, keys, the lines and headers of a document. Each reader gives what it read with
what follows; a line break is a single line feed by then.
-/

namespace Switchboard.Toml

/-- Single line feeds for all line breaks. -/
def unifyBreaks : List Char → List Char
  | '\r' :: '\n' :: r => '\n' :: unifyBreaks r
  | c :: r => c :: unifyBreaks r
  | [] => []

def isBlank (c : Char) : Bool := c = ' ' || c = '\t'

def skipBlanks (s : List Char) : List Char := s.dropWhile isBlank

/-- Skip blanks, line breaks and comments; `comment` tells that one has begun. -/
def skipLines (comment : Bool) : List Char → Option (List Char)
  | [] => some []
  | c :: r =>
    if c = '\n' then skipLines false r
    else if comment then if printable c then skipLines true r else none
    else if c = '#' then skipLines true r
    else if isBlank c then skipLines false r
    else some (c :: r)

def lineEnd? (s : List Char) : Option (List Char) :=
  let after : List Char → Option (List Char)
    | [] => some []
    | '\n' :: r => some r
    | _ => none
  match skipBlanks s with
  | '#' :: r => after (r.dropWhile printable)
  | r => after r

def isBareKeyChar (c : Char) : Bool := c.isAlphanum || c = '_' || c = '-'

def readSimpleKey (s : List Char) : Option (String × List Char) :=
  match s with
  | '"' :: r => (readBasic r).map fun (t, r) => (String.ofList t, r)
  | '\x27' :: r => (readLiteral r).map fun (t, r) => (String.ofList t, r)
  | s =>
    let bare := s.takeWhile isBareKeyChar
    if bare.isEmpty then none else some (String.ofList bare, s.dropWhile isBareKeyChar)

/-- Parts between dots; blanks may stand around each. At most `parts` of them. -/
def readKey : (parts : Nat) → List Char → Option (List String × String × List Char)
  | 0, _ => none
  | parts + 1, s => do
    let (key, r) ← readSimpleKey (skipBlanks s)
    match skipBlanks r with
    | '.' :: r =>
      let (path, last, r) ← readKey parts r
      return (key :: path, last, r)
    | r => return ([], key, r)

/-- How many parts a key may have, and how deep arrays and tables may nest. -/
def maxDepth : Nat := 79

def readAssignment (value : List Char → Option (Node × List Char)) (s : List Char) :
    Option (Assignment × List Char) := do
  let (path, key, r) ← readKey maxDepth s
  match r with
  | '=' :: r =>
    let (v, r) ← value (skipBlanks r)
    return (⟨path, key, v⟩, r)
  | _ => none

def readItems (value : List Char → Option (Node × List Char)) :
    (fuel : Nat) → List Char → Option (List Node × List Char)
  | 0, _ => none
  | fuel + 1, s => do
    match ← skipLines false s with
    | ']' :: r => return ([], r)
    | s =>
      let (v, r) ← value s
      match ← skipLines false r with
      | ',' :: r =>
        let (vs, r) ← readItems value fuel r
        return (v :: vs, r)
      | ']' :: r => return ([v], r)
      | _ => none

def readPairs (value : List Char → Option (Node × List Char)) :
    (fuel : Nat) → List Char → Option (List Assignment × List Char)
  | 0, _ => none
  | fuel + 1, s => do
    let (a, r) ← readAssignment value s
    match skipBlanks r with
    | ',' :: r =>
      let (as, r) ← readPairs value fuel r
      return (a :: as, r)
    | '\x7d' :: r => return ([a], r)
    | _ => none

def readAtom (s : List Char) : Option (Node × List Char) :=
  match readString s with
  | some (t, r) => some (.text (String.ofList t), r)
  | none => readScalar s

/-- A value; arrays and tables in it may nest `depth` times. -/
def readValue : (depth : Nat) → List Char → Option (Node × List Char)
  | 0, '[' :: _ => none
  | 0, '\x7b' :: _ => none
  | depth + 1, '[' :: s => do
    let (items, r) ← readItems (readValue depth) (s.length + 1) s
    return (.array items, r)
  | depth + 1, '\x7b' :: s =>
    match skipBlanks s with
    | '\x7d' :: r => some (.table .braces [], r)
    | s => do
      let (as, r) ← readPairs (readValue depth) (s.length + 1) s
      return (.table .braces (← assignAll? [] as), r)
  | _, s => readAtom s

def readHeader (s : List Char) : Option (Header × List Char) :=
  match s with
  | '[' :: '[' :: r => do
    let (path, key, r) ← readKey maxDepth r
    match r with
    | ']' :: ']' :: r => return (.element path key, r)
    | _ => none
  | '[' :: r => do
    let (path, key, r) ← readKey maxDepth r
    match r with
    | ']' :: r => return (.table path key, r)
    | _ => none
  | _ => none

/-- The blocks of a document. The first one has `header` and already `lines`, the latest
first. -/
def readBlocks (header : Header) (lines : List Assignment) :
    (fuel : Nat) → List Char → Option (List Block)
  | 0, _ => none
  | fuel + 1, s => do
    match ← skipLines false s with
    | [] => return [⟨header, lines.reverse⟩]
    | '[' :: s =>
      let (next, r) ← readHeader ('[' :: s)
      return ⟨header, lines.reverse⟩ :: (← readBlocks next [] fuel (← lineEnd? r))
    | s =>
      let (a, r) ← readAssignment (readValue maxDepth) s
      readBlocks header (a :: lines) fuel (← lineEnd? r)

/-- The entries of a document, which may begin with a byte order mark. -/
def parse? (text : String) : Option Entries := do
  let s := unifyBreaks text.toList
  let s := match s with
    | '\ufeff' :: r => r
    | s => s
  document? (← readBlocks .root [] (s.length + 1) s)

end Switchboard.Toml
