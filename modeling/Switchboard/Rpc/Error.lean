import Switchboard.Channel.Error

/-!
# How a remote call can fail
-/

namespace Switchboard

inductive RpcError where
  /-- The peer could not find or run the method. -/
  | remote (description : String)
  | query (error : QueryError)
  | channel (error : ChannelError)
  | buffer (error : BufferError)
  | packet (error : PacketError)
  deriving DecidableEq, Repr

namespace RpcError

def message : RpcError → String
  | remote description => s!"Remote invocation failed: {description}"
  | query error => s!"Query failed: {error.message}"
  | channel error => s!"Channel error: {error.message}"
  | buffer error => s!"Malformed RPC payload: {error.message}"
  | packet error => s!"Invalid packet: {error.message}"

/-- The failure of a channel as that of a call: a failed query stays one. -/
def ofChannel : ChannelError → RpcError
  | .query error => query error
  | error => channel error

end RpcError

end Switchboard
