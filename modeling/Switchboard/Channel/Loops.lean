import Switchboard.Channel.Basic
import Switchboard.Channel.Pipe

/-!
# The loops of a channel

The writer and the reader, one step at a time, over the two pipes of the connection. A
step is `none` when the loop has to wait. The stream is dropped, and both pipes with it,
once both loops have ended.
-/

namespace Switchboard

/-- A channel with its stream: the pipe it writes to and the pipe it reads from. -/
structure Wired where
  channel : Channel
  outgoing : Pipe
  incoming : Pipe
  /-- Set when the stream fails from now on. -/
  broken : Bool := false

namespace Wired

def readWindow : Nat := 4096

/-- Drop the stream once nobody uses it. -/
def dropUnused (w : Wired) : Wired :=
  match w.channel.writer, w.channel.reader with
  | .ended, .ended =>
    { w with outgoing := w.outgoing.close, incoming := w.incoming.close }
  | _, _ => w

/-- The writer is gone, and what is left in its queue with it. -/
def endWriter (w : Wired) : Wired :=
  dropUnused { w with channel := ({ w.channel with writer := .ended, queue := [] }).close }

def endReader (w : Wired) : Wired :=
  dropUnused { w with channel := ({ w.channel with reader := .ended }).close }

/-- One step of the writer. Queued frames come before the close. -/
def stepWriter (w : Wired) : Option Wired :=
  let c := w.channel
  match c.writer with
  | .waiting =>
    match c.queue with
    | frame :: queue => some { w with channel := { c with queue, writer := .holding frame } }
    | [] =>
      if c.stopping then some { w with channel := { c with writer := .finishing } } else none
  | .holding frame =>
    some { w with channel := { c.countDown with writer := .writing frame.length frame } }
  | .writing size [] =>
    some { w with channel := { c with
      writer := .waiting,
      stats.packetsSent := c.stats.packetsSent + 1,
      stats.bytesSent := c.stats.bytesSent + size } }
  | .writing size rest =>
    if w.broken then some w.endWriter
    else match w.outgoing.put rest with
      | (.accepted count, outgoing) =>
        some { w with outgoing, channel := { c with writer := .writing size (rest.drop count) } }
      | (.full, _) => some { w with channel := { c with writer := .blocked size rest } }
      | (.broken, _) => some w.endWriter
  | .blocked size rest =>
    if w.outgoing.isFull then none
    else some { w with channel := { c with writer := .writing size rest } }
  | .finishing =>
    if w.broken then some w.endWriter
    else some (endWriter { w with outgoing := w.outgoing.close })
  | .ended => none

/-- One step of the reader: decode a packet, or read on when none is complete. -/
def stepReader (w : Wired) : Option Wired :=
  let c := w.channel
  match c.reader with
  | .ended => none
  | .reading decoder buffered =>
    match decoder.decode buffered with
    | (.packet p, decoder, buffered) =>
      some { w with channel := ({ c with reader := .reading decoder buffered }).receive p }
    | (.failed _, _, _) => some w.endReader
    | (.more, decoder, buffered) =>
      match w.incoming.take readWindow with
      | (.octets s, incoming) =>
        if w.broken then some (endReader { w with incoming })
        else some { w with
          incoming,
          channel := { c with
            reader := .reading decoder (buffered ++ s),
            stats.bytesReceived := c.stats.bytesReceived + s.length } }
      | (.ended, _) => some w.endReader
      | (.nothing, _) => if c.stopping then some w.endReader else none

end Wired

end Switchboard
