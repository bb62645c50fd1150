/-!
# The tree of a TOML document

Tables know how they came about, because that decides who may add to them: a table that a
header names, or that stands between braces, is complete; one that was only passed through
on the way to another may still be named once; one that a dotted key made takes further
dotted keys.
-/

namespace Switchboard.Toml

/-- The greatest integer in a document: 64 bits with a sign. -/
def greatest : Nat := 0x7FFFFFFFFFFFFFFF

inductive Origin where
  | header
  /-- A longer header passes through it. -/
  | implied
  | dotted
  | braces
  deriving DecidableEq, Repr

inductive Node where
  | text (s : String)
  | integer (n : Int)
  | float
  | bool (b : Bool)
  | dateTime
  | array (items : List Node)
  | table (origin : Origin) (entries : List (String × Node))
  /-- Tables under one repeated header, of which only the last still grows. -/
  | tables (earlier : List Node) (last : List (String × Node))
  deriving Repr, Inhabited

abbrev Entries := List (String × Node)

namespace Entries

def replace (es : Entries) (key : String) (n : Node) : Entries :=
  es.map fun e => if e.1 = key then (key, n) else e

def insert? (es : Entries) (key : String) (n : Node) : Option Entries :=
  if (es.lookup key).isSome then none else some (es ++ [(key, n)])

/-- Change the table at the end of a path of keys, making the tables on the way. `dotted`
tells a dotted key from a header: it may not enter a complete table. -/
def update (dotted : Bool) (change : Origin → Entries → Option Entries) :
    (path : List String) → Origin → Entries → Option Entries
  | [], origin, es => change origin es
  | key :: path, _, es =>
    match es.lookup key with
    | none => do
      let origin := if dotted then Origin.dotted else .implied
      return es ++ [(key, .table origin (← update dotted change path origin []))]
    | some (.table .braces _) => none
    | some (.table origin sub) => do
      guard (¬ (dotted ∧ origin = .header))
      return es.replace key (.table origin (← update dotted change path origin sub))
    | some (.tables earlier last) => do
      return es.replace key (.tables earlier (← update dotted change path .header last))
    | some _ => none

def assign? (es : Entries) (path : List String) (key : String) (n : Node) : Option Entries :=
  update true (fun origin es => do
    guard (path.isEmpty ∨ origin = .dotted)
    es.insert? key n) path .header es

end Entries

structure Assignment where
  path : List String
  key : String
  value : Node

def Assignment.run? (es : Entries) (a : Assignment) : Option Entries :=
  es.assign? a.path a.key a.value

def assignAll? (es : Entries) (as : List Assignment) : Option Entries := as.foldlM Assignment.run? es

inductive Header where
  /-- The start of the document. -/
  | root
  | table (path : List String) (key : String)
  /-- One more table of an array of them. -/
  | element (path : List String) (key : String)
  deriving DecidableEq, Repr

/-- A header and the lines below it. -/
structure Block where
  header : Header
  assignments : List Assignment

def Block.run? (es : Entries) (b : Block) : Option Entries :=
  match b.header with
  | .root => assignAll? es b.assignments
  | .table path key =>
    es.update false (fun _ es => do
      match es.lookup key with
      | none => es.insert? key (.table .header (← assignAll? [] b.assignments))
      | some (.table .implied sub) =>
        return es.replace key (.table .header (← assignAll? sub b.assignments))
      | some _ => none) path .header
  | .element path key =>
    es.update false (fun _ es => do
      let fresh ← assignAll? [] b.assignments
      match es.lookup key with
      | none => es.insert? key (.tables [] fresh)
      | some (.tables earlier last) =>
        return es.replace key (.tables (earlier ++ [.table .header last]) fresh)
      | some _ => none) path .header

/-- The entries of a whole document. -/
def document? (blocks : List Block) : Option Entries := blocks.foldlM Block.run? []

end Switchboard.Toml
