import Switchboard.Buffer.Basic
import Switchboard.Identity

/-!
# Packets

A packet is a routing channel and a frozen content. A query and its response also
carry a correlation id, which alone leads the response back to the asker.
-/

namespace Switchboard

namespace Routing

/-- Responses to queries. -/
def response : Int32 := -1

/-- Invocations of remote methods. -/
def rpc : Int32 := 0

end Routing

structure Packet where
  channel : Int32
  id : Option Identity := none
  content : Buffer := {}
  deriving DecidableEq, Repr

inductive PacketError where
  /-- A response to a packet on `channel` that carries no id. -/
  | noCorrelation (channel : Int32)
  deriving DecidableEq, Repr

def PacketError.message : PacketError → String
  | .noCorrelation channel =>
    s!"Invalid operation: cannot build a response to a packet without correlation id (channel {channel})"

namespace Packet

def isQuery (p : Packet) : Bool := p.id.isSome

/-- The response to a query: its id on the response channel. -/
def response (p : Packet) (content : Buffer) : Except PacketError Packet :=
  match p.id with
  | some id => .ok { channel := Routing.response, id := some id, content }
  | none => .error (.noCorrelation p.channel)

def asQuery (p : Packet) (id : Identity) : Packet := { p with id := some id }

/-- Packets that read alike: equal channel and id, and contents that agree. -/
def agrees (p q : Packet) : Bool :=
  p.channel == q.channel && p.id == q.id && p.content.agrees q.content

end Packet

end Switchboard
