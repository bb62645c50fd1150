import Switchboard.Octet.Word

/-!
# Shapes of structured objects

An object mapper turns a structured object into octets and back. What an object may
look like is a `Shape`; the object itself is a `Datum`.
-/

namespace Switchboard

/-- What a structured object may look like. -/
inductive Shape where
  | bool
  /-- Integers of `octets` octets. -/
  | integer (signed : Bool) (octets : Nat)
  | char
  | text
  /-- The shape of a variant without content. -/
  | unit
  | list (of : Shape)
  | optional (of : Shape)
  /-- Texts to values, sorted by the octets of the texts. -/
  | map (of : Shape)
  | tuple (parts : List Shape)
  | record (fields : List (String × Shape))
  /-- One of several variants, each with the shape of its content. -/
  | choice (variants : List (String × Shape))
  deriving Repr

inductive Datum where
  | bool (b : Bool)
  | integer (n : Int)
  | char (c : Char)
  | text (t : String)
  | unit
  | list (items : List Datum)
  | absent
  | present (d : Datum)
  | map (entries : List (String × Datum))
  /-- The parts of a tuple or the fields of a record, in declaration order. -/
  | parts (ds : List Datum)
  | variant (index : Nat) (content : Datum)
  deriving Repr, Inhabited

namespace Shape

def bounds (signed : Bool) (octets : Nat) : Int × Int :=
  let half := Octet.modulus octets / 2
  if signed then (-half, half - 1) else (0, Octet.modulus octets - 1)

def holds (signed : Bool) (octets : Nat) (n : Int) : Bool :=
  (bounds signed octets).1 ≤ n && n ≤ (bounds signed octets).2

end Shape

namespace Datum

/-- Put an entry into a sorted map; an entry of the same name is replaced. The order
of code points is that of the octets of the names. -/
def insertEntry (name : String) (d : Datum) :
    List (String × Datum) → List (String × Datum)
  | [] => [(name, d)]
  | (other, e) :: rest =>
    if name < other then (name, d) :: (other, e) :: rest
    else if name = other then (name, d) :: rest
    else (other, e) :: insertEntry name d rest

/-- The sorted map of the entries; of two with one name the later counts. -/
def ofEntries (entries : List (String × Datum)) : List (String × Datum) :=
  entries.foldl (fun m e => insertEntry e.1 e.2 m) []

end Datum

end Switchboard
