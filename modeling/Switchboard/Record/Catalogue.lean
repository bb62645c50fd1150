import Switchboard.Record.Shape

/-!
# Objects that nodes exchange

A snapshot of a service, the events of its life, and its metrics.
-/

namespace Switchboard.Catalogue

def snapshot : Shape :=
  .record [("name", .text), ("port", .integer false 2), ("tags", .list .text)]

def event : Shape :=
  .choice [
    ("Started", .unit),
    ("Moved", .record [("from", .integer true 4), ("to", .integer true 8)]),
    ("Tagged", .text),
    ("Pair", .tuple [.integer false 1, .bool])]

def metrics : Shape :=
  .record [
    ("count", .optional (.integer true 8)),
    ("limits", .map (.integer false 4)),
    ("mark", .char),
    ("events", .list event)]

def find? (name : String) : Option Shape :=
  match name with
  | "snapshot" => some snapshot
  | "event" => some event
  | "metrics" => some metrics
  | "strings" => some (.list .text)
  | "u64" => some (.integer false 8)
  | "bool" => some .bool
  | _ => none

end Switchboard.Catalogue
