import Switchboard.Buffer.Basic
import Switchboard.Record.Described
import Switchboard.Record.Packed

/-!
# Object mappers

A mapper turns objects into octets and back; either may fail. In a buffer an object is
a block, so a reader that does not care about it can pass over it.
-/

namespace Switchboard

structure Mapper (α : Type) where
  toBytes : α → Except BufferError (List UInt8)
  ofBytes : List UInt8 → Except BufferError α

namespace Mapper

/-- Append an object; when it does not map, nothing is written. -/
def write {α : Type} (m : Mapper α) (a : α) (d : Draft) : Except BufferError Draft :=
  match m.toBytes a with
  | .ok s => .ok (d.write (block s))
  | .error e => .error e

/-- Read an object; its block is consumed also when it does not map. -/
def reader {α : Type} (m : Mapper α) : Reader α := do
  match m.ofBytes (← Reader.block) with
  | .ok a => return a
  | .error e => throw e

/-- The packed mapping of the objects of a shape. -/
def packed (s : Shape) : Mapper Datum where
  toBytes d := .ok (Packed.pack s d)
  ofBytes bytes := match Packed.ofBytes? s bytes with
    | some d => .ok d
    | none => .error .object

def json (s : Shape) : Mapper Datum where
  toBytes d := .ok (Utf8.encode (Described.ofDatum s d).render)
  ofBytes bytes := match (JsonValue.ofBytes? bytes).bind (Described.toDatum? s) with
    | some d => .ok d
    | none => .error .object

end Mapper

end Switchboard
