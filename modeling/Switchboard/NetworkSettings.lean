import Switchboard.Channel.Basic

/-!
# Settings of servers and clients

What a server or a client runs with, beside what its channels run with. Times are in whole
milliseconds.
-/

namespace Switchboard

/-- The version of the wire format. -/
def protocolVersion : Nat := 1

/-- The port of a node that is not told another. -/
def defaultPort : UInt16 := 1410

structure NetworkSettings extends ChannelConfig where
  bindAddress : String := "0.0.0.0"
  /-- The port to listen on or to connect to. -/
  port : UInt16 := defaultPort
  connectTimeout : Nat := 5000
  deriving DecidableEq, Repr

namespace NetworkSettings

def withBindAddress (s : NetworkSettings) (address : String) : NetworkSettings :=
  { s with bindAddress := address }

/-- Wait for queries as long as `nanoseconds`, less what is no whole millisecond. -/
def withQueryTimeout (s : NetworkSettings) (nanoseconds : Nat) : NetworkSettings :=
  { s with queryTimeout := nanoseconds / 1000000 % UInt64.size }

/-- The endpoint as it is configured, resolved or not. -/
def endpointText (s : NetworkSettings) : String := s!"{s.bindAddress}:{s.port.toNat}"

end NetworkSettings

end Switchboard
