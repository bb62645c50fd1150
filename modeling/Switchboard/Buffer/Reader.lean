import Switchboard.Buffer.Error
import Switchboard.Octet.Word
import Switchboard.Octet.VarInt

/-!
# Readers

A reader takes a value off the front of the unread octets. It fails with the octets
it had already taken consumed, so a failure in the middle of a composite value leaves
the rest where the failing part began.
-/

namespace Switchboard

/-- A reader of an `α`, over the unread octets. -/
abbrev Reader (α : Type) := ExceptT BufferError (StateM (List UInt8)) α

namespace Reader

/-- Read from `s`: the outcome and what is left unread. -/
def on {α : Type} (r : Reader α) (s : List UInt8) : Except BufferError α × List UInt8 :=
  r s

def remaining : Reader Nat := fun s => (.ok s.length, s)

/-- Fails, taking nothing, unless `n` octets are unread. -/
def ensure (n : Nat) : Reader Unit := fun s =>
  if Octet.reaches n s then (.ok (), s) else (.error (.underflow n s.length), s)

/-- The next `n` octets; on failure none is taken. -/
def take (n : Nat) : Reader (List UInt8) := fun s =>
  if Octet.reaches n s then (.ok (s.take n), s.drop n)
  else (.error (.underflow n s.length), s)

/-- The next `size` octets as a big-endian number. -/
def word (size : Nat) : Reader Nat := do
  return Octet.value (← take size)

def u8 : Reader UInt8 := do return UInt8.ofNat (← word 1)
def u16 : Reader UInt16 := do return UInt16.ofNat (← word 2)
def u32 : Reader UInt32 := do return UInt32.ofNat (← word 4)
def u64 : Reader UInt64 := do return UInt64.ofNat (← word 8)
def i8 : Reader Int8 := do return (← u8).toInt8
def i16 : Reader Int16 := do return (← u16).toInt16
def i32 : Reader Int32 := do return (← u32).toInt32
def i64 : Reader Int64 := do return (← u64).toInt64

/-- Any octet but zero is true. -/
def bool : Reader Bool := do return (← u8) != 0

/-- A scalar value, consumed also when it is none. -/
def char : Reader Char := do
  let scalar ← u32
  if h : scalar.isValidChar then return ⟨scalar, h⟩ else throw (.invalidChar scalar)

/-- An integer of variable width, below `2 ^ w.bits`; consumed only on success. -/
def varNat (w : VarInt.Width) : Reader Nat := fun s =>
  match VarInt.peek w s with
  | .found value length => (.ok value, s.drop length)
  | .incomplete => (.error (.underflow (s.length + 1) s.length), s)
  | .tooLong => (.error .varIntTooLong, s)

def varInt : Reader UInt32 := do return UInt32.ofNat (← varNat .int)

def varLong : Reader UInt64 := do return UInt64.ofNat (← varNat .long)

/-- A length and that many octets. The length stays consumed when they are missing. -/
def block : Reader (List UInt8) := do
  take (← varInt).toNat

/-- A block that is UTF-8; consumed also when it is not. -/
def text : Reader String := do
  match Utf8.decode (← block) with
  | .ok text => return text
  | .error fault => throw (.invalidUtf8 fault)

def nullable {α : Type} (r : Reader α) : Reader (Option α) := do
  if ← bool then return some (← r) else return none

/-- `n` values after those of `seen`, which is in reverse. -/
def timesAfter {α : Type} (r : Reader α) (seen : List α) : (n : Nat) → Reader (List α)
  | 0 => fun s => (.ok seen.reverse, s)
  | n + 1 => fun s =>
    match r s with
    | (.ok a, s) => timesAfter r (a :: seen) n s
    | (.error e, s) => (.error e, s)

def times {α : Type} (n : Nat) (r : Reader α) : Reader (List α) :=
  timesAfter r [] n

def counted {α : Type} (r : Reader α) : Reader (List α) := do
  times (← varInt).toNat r

end Reader

end Switchboard
