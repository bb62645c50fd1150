import Switchboard.Buffer.Reader

/-!
# Buffers

A `Draft` grows at its end and can be read; freezing it gives a `Buffer`, which can
only be read. Both have a read cursor and a stack of marks. A mark of a buffer is the
cursor to go back to; a mark of a draft also holds the number of octets to cut back to.
`Source` is what reading needs of either.
-/

namespace Switchboard

structure Buffer where
  bytes : List UInt8 := []
  cursor : Nat := 0
  marks : List Nat := []
  deriving DecidableEq, Repr, Inhabited

/-- A buffer that is still written to. -/
structure Draft where
  bytes : List UInt8 := []
  cursor : Nat := 0
  marks : List (Nat × Nat) := []
  deriving DecidableEq, Repr, Inhabited

/-- Positions are machine words of 64 bits. -/
def wordSize : Nat := UInt64.size

/-- The sum of two positions. Where it is no machine word the program stops at the addition. -/
def Position.add? (m n : Nat) : Option Nat := if m + n < wordSize then some (m + n) else none

/-- A buffer of either kind, as far as reading goes. -/
class Source (σ : Type) where
  /-- The octets behind the cursor. -/
  unread : σ → List UInt8
  /-- Put the cursor `n` octets further; callers have checked that so many are unread. -/
  consume : (n : Nat) → σ → σ
  /-- Put the cursor `n` further, but not beyond the end. The sum comes first, and where there
  is none, nothing was done. -/
  advance : (n : Nat) → σ → Option σ
  /-- Open a transaction. -/
  mark : σ → σ
  /-- End the latest transaction and restore what it saw; without one, nothing happens. -/
  rollback : σ → σ

namespace Source

variable {σ : Type} [Source σ]

/-- Run a reader over the unread octets and move the cursor past what it took. -/
def read {α : Type} (r : Reader α) (b : σ) : Except BufferError α × σ :=
  let s := unread b
  let (outcome, rest) := r.on s
  (outcome, consume (s.length - rest.length) b)

end Source

namespace Buffer

def empty : Buffer := {}

def ofBytes (s : List UInt8) : Buffer := { bytes := s }

def unread (b : Buffer) : List UInt8 := b.bytes.drop b.cursor

/-- The octets held, read or not. -/
def size (b : Buffer) : Nat := b.bytes.length

def isEmpty (b : Buffer) : Bool := b.bytes.isEmpty

/-- The same octets, unread and with no transaction open. -/
def rewound (b : Buffer) : Buffer := ofBytes b.bytes

/-- Two buffers agree when their unread octets are equal. -/
def agrees (b c : Buffer) : Bool := b.unread == c.unread

instance : Source Buffer where
  unread := unread
  consume n b := { b with cursor := b.cursor + n }
  advance n b := (Position.add? b.cursor n).map fun stop =>
    { b with cursor := min stop b.bytes.length }
  mark b := { b with marks := b.cursor :: b.marks }
  rollback b := match b.marks with
    | [] => b
    | cursor :: marks => { b with cursor, marks }

end Buffer

namespace Draft

def empty : Draft := {}

def ofBytes (s : List UInt8) : Draft := { bytes := s }

def unread (d : Draft) : List UInt8 := d.bytes.drop d.cursor

def size (d : Draft) : Nat := d.bytes.length

instance : Source Draft where
  unread := unread
  consume n d := { d with cursor := d.cursor + n }
  advance n d := (Position.add? d.cursor n).map fun stop =>
    { d with cursor := min stop d.bytes.length }
  mark d := { d with marks := (d.cursor, d.bytes.length) :: d.marks }
  rollback d := match d.marks with
    | [] => d
    | (cursor, size) :: marks => { bytes := d.bytes.take size, cursor, marks }

def write (s : List UInt8) (d : Draft) : Draft := { d with bytes := d.bytes ++ s }

/-- The frozen buffer over the same octets, with the cursor carried over and no
transaction open. -/
def freeze (d : Draft) : Buffer :=
  { bytes := d.bytes, cursor := min d.cursor d.bytes.length }

end Draft

/-- Whether a block of `n` octets has a length of its own, which is a 32-bit word. It is asserted
of every block that is written, and a program that checks its assertions stops where it fails. -/
def hasLength (n : Nat) : Bool := n < UInt32.size

/-- The prefix of a block of `n` octets. Where assertions are not checked, a length that is no
word is written as the greatest. -/
def lengthPrefix (n : Nat) : List UInt8 :=
  VarInt.encode (min n (UInt32.size - 1))

/-- A length and the octets. -/
def block (s : List UInt8) : List UInt8 :=
  lengthPrefix s.length ++ s

namespace Draft

/-- Append the unread octets of `source` as a block. They are read inside a
transaction that is rolled back, so the source can still be read. -/
def embed {σ : Type} [Source σ] (d : Draft) (source : σ) : Draft × σ :=
  let marked := Source.mark source
  let (content, marked) := Source.read (Reader.take (Source.unread marked).length) marked
  let content := match content with
    | .ok s => s
    | .error _ => []
  (d.write (block content), Source.rollback marked)

end Draft

namespace Reader

def buffer : Reader Buffer := do
  return Buffer.ofBytes (← block)

end Reader

end Switchboard
