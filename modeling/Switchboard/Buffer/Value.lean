import Switchboard.Buffer.Basic
import Switchboard.Identity

/-!
# Typed values

The types whose values have an encoding, what a value of each is, and the two
directions. Values carry no tags: a reader must ask for the type that was written.
-/

namespace Switchboard

/-- The types of encodable values. -/
inductive Ty where
  | bool | u8 | i8 | u16 | i16 | u32 | i32 | u64 | i64
  /-- Floating-point numbers, by their bits. -/
  | f32 | f64
  | char
  /-- A correlation id. -/
  | uuid
  /-- The type with one value, which takes no octets. -/
  | unit
  | string
  | bytes
  /-- A nested buffer. -/
  | buf
  | opt (t : Ty)
  | vec (t : Ty)
  deriving DecidableEq, Repr

namespace Ty

def base? : String → Option Ty
  | "bool" => some bool
  | "u8" => some u8
  | "i8" => some i8
  | "u16" => some u16
  | "i16" => some i16
  | "u32" => some u32
  | "i32" => some i32
  | "u64" => some u64
  | "i64" => some i64
  | "f32" => some f32
  | "f64" => some f64
  | "char" => some char
  | "uuid" => some uuid
  | "unit" => some unit
  | "string" => some string
  | "bytes" => some bytes
  | "buf" => some buf
  | _ => none

/-- The type named by the parts of a name, outermost first. -/
def ofParts? : List String → Option Ty
  | [] => none
  | [name] => base? name
  | "opt" :: rest => (ofParts? rest).map opt
  | "vec" :: rest => (ofParts? rest).map vec
  | _ => none

/-- The type of a name such as opt:vec:i32. -/
def ofName? (name : String) : Option Ty :=
  ofParts? (name.splitOn ":")

abbrev Value : Ty → Type
  | bool => Bool
  | u8 => UInt8
  | i8 => Int8
  | u16 => UInt16
  | i16 => Int16
  | u32 => UInt32
  | i32 => Int32
  | u64 => UInt64
  | i64 => Int64
  | f32 => UInt32
  | f64 => UInt64
  | char => Char
  | uuid => Identity
  | unit => Unit
  | string => String
  | bytes => List UInt8
  | buf => Buffer
  | opt t => Option t.Value
  | vec t => List t.Value

end Ty

/-- A presence flag, and the octets of the value when there is one. -/
def nullable {α : Type} (octets : α → List UInt8) : Option α → List UInt8
  | none => [0]
  | some a => 1 :: octets a

namespace Ty

def encode : (t : Ty) → t.Value → List UInt8
  | bool, b => [if b then 1 else 0]
  | u8, n => Octet.bigEndian 1 n.toNat
  | i8, n => Octet.bigEndian 1 n.toUInt8.toNat
  | u16, n => Octet.bigEndian 2 n.toNat
  | i16, n => Octet.bigEndian 2 n.toUInt16.toNat
  | u32, n => Octet.bigEndian 4 n.toNat
  | i32, n => Octet.bigEndian 4 n.toUInt32.toNat
  | u64, n => Octet.bigEndian 8 n.toNat
  | i64, n => Octet.bigEndian 8 n.toUInt64.toNat
  | f32, n => Octet.bigEndian 4 n.toNat
  | f64, n => Octet.bigEndian 8 n.toNat
  | char, c => Octet.bigEndian 4 c.val.toNat
  | uuid, id => id.octets
  | unit, () => []
  | string, text => block (Utf8.encode text)
  | bytes, s => block s
  | buf, b => block b.unread
  | opt t, v => nullable t.encode v
  | vec t, vs => lengthPrefix vs.length ++ vs.flatMap t.encode

def reader : (t : Ty) → Reader t.Value
  | bool => Reader.bool
  | u8 => Reader.u8
  | i8 => Reader.i8
  | u16 => Reader.u16
  | i16 => Reader.i16
  | u32 => Reader.u32
  | i32 => Reader.i32
  | u64 => Reader.u64
  | i64 => Reader.i64
  | f32 => Reader.u32
  | f64 => Reader.u64
  | char => Reader.char
  | uuid => Identity.reader
  | unit => pure ()
  | string => Reader.text
  | bytes => Reader.block
  | buf => Reader.buffer
  | opt t => Reader.nullable t.reader
  | vec t => Reader.counted t.reader

end Ty

structure Typed where
  type : Ty
  value : type.Value

def Typed.encode (v : Typed) : List UInt8 := v.type.encode v.value

end Switchboard
