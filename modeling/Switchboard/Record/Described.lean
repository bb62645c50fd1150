import Switchboard.Record.Json
import Switchboard.Record.Shape

/-!
# Objects in JSON

Records are objects with their fields in declaration order, lists and tuples arrays,
an absent value null, a variant without content its name and any other an object with
one member. Reading also takes a record as an array of its fields, passes over members
that no field has, and refuses a field given twice.
-/

namespace Switchboard.Described

mutual

/-- The JSON form of an object of this shape. -/
def ofDatum : Shape → Datum → JsonValue
  | .bool, .bool b => .bool b
  | .integer _ _, .integer n => .integer n
  | .char, .char c => .text (String.singleton c)
  | .text, .text t => .text t
  | .list s, .list ds => .array (ofAll s ds)
  | .optional s, .present d => ofDatum s d
  | .map s, .map es => .object (ofEntries s es)
  | .tuple ss, .parts ds => .array (ofParts ss ds)
  | .record fs, .parts ds => .object (ofFields fs ds)
  | .choice vs, .variant i d => ofChosen vs i d
  | _, _ => .null

def ofAll (s : Shape) : List Datum → List JsonValue
  | [] => []
  | d :: ds => ofDatum s d :: ofAll s ds

def ofEntries (s : Shape) : List (String × Datum) → List (Option String × JsonValue)
  | [] => []
  | (t, d) :: es => (some t, ofDatum s d) :: ofEntries s es

def ofParts : List Shape → List Datum → List JsonValue
  | s :: ss, d :: ds => ofDatum s d :: ofParts ss ds
  | _, _ => []

def ofFields : List (String × Shape) → List Datum → List (Option String × JsonValue)
  | (name, s) :: fs, d :: ds => (some name, ofDatum s d) :: ofFields fs ds
  | _, _ => []

def ofChosen : List (String × Shape) → Nat → Datum → JsonValue
  | (name, .unit) :: _, 0, _ => .text name
  | (name, s) :: _, 0, d => .object [(some name, ofDatum s d)]
  | _ :: vs, i + 1, d => ofChosen vs i d
  | [], _, _ => .null

end

def members (name : String) (ms : List (Option String × JsonValue)) : List JsonValue :=
  (ms.filter fun m => m.1 = some name).map (·.2)

mutual

/-- The object of this shape that a JSON value describes. -/
def toDatum? : Shape → JsonValue → Option Datum
  | .bool, .bool b => some (.bool b)
  | .integer signed octets, .integer n =>
    if Shape.holds signed octets n then some (.integer n) else none
  | .char, .text (some t) =>
    match t.toList with
    | [c] => some (.char c)
    | _ => none
  | .text, .text (some t) => some (.text t)
  | .unit, .null => some .unit
  | .list s, .array js => (js.mapM (toDatum? s)).map .list
  | .optional _, .null => some .absent
  | .optional s, j => (toDatum? s j).map .present
  | .map s, .object ms =>
    let entry (m : Option String × JsonValue) : Option (String × Datum) := do
      return (← m.1, ← toDatum? s m.2)
    (ms.mapM entry).map fun es => .map (Datum.ofEntries es)
  | .tuple ss, .array js => (toParts? ss js).map .parts
  | .record fs, .array js => (toPositions? fs js).map .parts
  | .record fs, .object ms =>
    if ms.all (·.1.isSome) then (toFields? fs ms).map .parts else none
  | .choice vs, .text (some name) => toNamed? vs name 0
  | .choice vs, .object [(some name, j)] => toChosen? vs name j 0
  | _, _ => none

def toParts? : List Shape → List JsonValue → Option (List Datum)
  | [], [] => some []
  | s :: ss, j :: js => do return (← toDatum? s j) :: (← toParts? ss js)
  | _, _ => none

/-- A record given as an array has all of its fields. -/
def toPositions? : List (String × Shape) → List JsonValue → Option (List Datum)
  | [], [] => some []
  | (_, s) :: fs, j :: js => do return (← toDatum? s j) :: (← toPositions? fs js)
  | _, _ => none

/-- A field must be given once; only an optional one may be left out. -/
def toFields? : List (String × Shape) → List (Option String × JsonValue) → Option (List Datum)
  | [], _ => some []
  | (name, s) :: fs, ms => do
    let d ← match members name ms, s with
      | [j], s => toDatum? s j
      | [], .optional _ => some .absent
      | _, _ => none
    return d :: (← toFields? fs ms)

/-- A variant given by its name alone has no content. -/
def toNamed? : List (String × Shape) → String → Nat → Option Datum
  | [], _, _ => none
  | (n, s) :: vs, name, i =>
    if n = name then
      match s with
      | .unit => some (.variant i .unit)
      | _ => none
    else toNamed? vs name (i + 1)

def toChosen? : List (String × Shape) → String → JsonValue → Nat → Option Datum
  | [], _, _, _ => none
  | (n, s) :: vs, name, j, i =>
    if n = name then (toDatum? s j).map (.variant i) else toChosen? vs name j (i + 1)

end

end Switchboard.Described
