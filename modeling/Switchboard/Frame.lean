import Switchboard.Octet.Outline
import Switchboard.Packet

/-!
# Frames

A frame is a variable-width length and a body of that many octets: the channel, a flag
and with it the correlation id, and the content as a block. A limit bounds the body on
both sides. The decoder takes octets in any portions and keeps only whether it awaits
a length or the body of a known length.
-/

namespace Switchboard

inductive FrameError where
  | tooLarge (size limit : Nat)
  | trailing (count : Nat)
  | malformed (error : BufferError)
  deriving DecidableEq, Repr

namespace FrameError

def message : FrameError → String
  | tooLarge size limit => s!"Frame too large: {size} bytes (max: {limit})"
  | trailing count => s!"Frame has {count} trailing bytes"
  | malformed error => s!"Malformed frame: {error.message}"

def causes (e : FrameError) : Causes :=
  match e with
  | malformed error => e.message :: error.causes
  | _ => [e.message]

end FrameError

namespace Frame

/-- The limit where none is set: 16 MiB. -/
def defaultLimit : Nat := 16 * 1024 * 1024

/-- The octets of the channel and the flag. -/
def headerSize : Nat := 5

def identitySize : Nat := 16

/-- The size of a packet's body, told from the size of its content. -/
def bodySize (p : Packet) : Nat :=
  let content := p.content.unread.length
  headerSize + VarInt.length (UInt32.ofNat content) + content +
    (if p.id.isSome then identitySize else 0)

/-- A length as it stands in a header: a 32-bit word. -/
def lengthField (n : Nat) : List UInt8 :=
  VarInt.encode (UInt32.ofNat n).toNat

/-- The flag and the id. -/
def idField : Option Identity → List UInt8
  | none => [0]
  | some id => 1 :: id.octets

/-- The body of a packet's frame. -/
def body (p : Packet) : List UInt8 :=
  let content := p.content.unread
  Octet.bigEndian 4 p.channel.toUInt32.toNat ++
    (idField p.id ++ (lengthField content.length ++ content))

/-- What stands in front of the content in a frame, told from the size of the content
alone, which need not be at hand. -/
def front (limit : Nat) (channel : Int32) (id : Option Identity) (content : Nat) :
    Except FrameError (List UInt8) :=
  let size := headerSize + VarInt.length (UInt32.ofNat content) + content +
    (if id.isSome then identitySize else 0)
  if limit < size then .error (.tooLarge size limit)
  else .ok (lengthField size ++ (Octet.bigEndian 4 channel.toUInt32.toNat ++
    (idField id ++ lengthField content)))

/-- The frame of a packet, unless its body is beyond the limit. -/
def encode (limit : Nat) (p : Packet) : Except FrameError (List UInt8) :=
  (front limit p.channel p.id p.content.unread.length).map fun s => s ++ p.content.unread

/-- The outline of a frame, for a content that may be too long for a list. -/
def outline (width limit : Nat) (channel : Int32) (id : Option Identity) (content : Repeated) :
    Except FrameError Outline :=
  (front limit channel id content.length).map fun s => .before width s content

/-- Put the frame of a packet behind what is in a buffer, one part after the other; a packet
beyond the limit leaves the buffer as it is. -/
def append (limit : Nat) (p : Packet) (out : List UInt8) : Except FrameError Unit × List UInt8 :=
  let content := p.content.unread
  let size := bodySize p
  if limit < size then (.error (.tooLarge size limit), out)
  else
    let out := out ++ lengthField size
    let out := out ++ Octet.bigEndian 4 p.channel.toUInt32.toNat
    let out := out ++ idField p.id
    let out := out ++ lengthField content.length
    (.ok (), out ++ content)

/-- The fields of a body. -/
def packetReader : Reader Packet := do
  let channel ← Reader.i32
  let id ← Reader.nullable Identity.reader
  let content ← Reader.buffer
  return { channel, id, content }

/-- The packet in a body, which must hold nothing else. -/
def decodeBody (s : List UInt8) : Except FrameError Packet :=
  match packetReader.on s with
  | (.error e, _) => .error (.malformed e)
  | (.ok _, b :: rest) => .error (.trailing (b :: rest).length)
  | (.ok p, []) => .ok p

end Frame

/-- What a decoder awaits, and the limit it holds frames to. -/
structure Decoder where
  limit : Nat := Frame.defaultLimit
  /-- The length of the body awaited, once its length is read. -/
  awaiting : Option Nat := none
  deriving DecidableEq, Repr

namespace Decoder

inductive Answer where
  | packet (p : Packet)
  /-- More octets are needed. -/
  | more
  | failed (e : FrameError)
  deriving DecidableEq, Repr

def stepBody (d : Decoder) (length : Nat) (s : List UInt8) :
    Answer × Decoder × List UInt8 :=
  if Octet.reaches length s then
    let answer := match Frame.decodeBody (s.take length) with
      | .ok p => .packet p
      | .error e => .failed e
    (answer, { d with awaiting := none }, s.drop length)
  else (.more, { d with awaiting := some length }, s)

/-- Ask for the next packet of `s`. An error of the length takes nothing, an error of
the body takes its frame. -/
def decode (d : Decoder) (s : List UInt8) : Answer × Decoder × List UInt8 :=
  match d.awaiting with
  | some length => stepBody d length s
  | none =>
    match VarInt.peek .int s with
    | .incomplete => (.more, d, s)
    | .tooLong => (.failed (.malformed .varIntTooLong), d, s)
    | .found length size =>
      if d.limit < length then (.failed (.tooLarge length d.limit), d, s)
      else stepBody d length (s.drop size)

/-- The packets of `s` until more octets are needed or an error stops the decoder;
`seen` is in reverse, `fuel` bounds the packets. -/
def drainAfter (seen : List Packet) :
    (fuel : Nat) → Decoder → List UInt8 → List Packet × Answer × Decoder × List UInt8
  | 0, d, s => (seen.reverse, .more, d, s)
  | fuel + 1, d, s =>
    match d.decode s with
    | (.packet p, d, s) => drainAfter (p :: seen) fuel d s
    | (answer, d, s) => (seen.reverse, answer, d, s)

/-- All packets at the front of `s`, why no more came, and what is left. A frame takes
an octet at least, so there are no more packets than octets, with one body awaited. -/
def drain (d : Decoder) (s : List UInt8) : List Packet × Answer × Decoder × List UInt8 :=
  drainAfter [] (s.length + 2) d s

end Decoder

end Switchboard
