import Switchboard.Duration
import Switchboard.NetworkSettings

/-!
# Settings of a node

What a settings file can say, in four sections, and what holds where it is silent.
-/

namespace Switchboard

structure GeneralSettings where
  /-- The name that the node tells its peers. -/
  name : String
  verbose : Bool := false
  deriving DecidableEq, Repr

structure ListenSettings where
  port : UInt16 := defaultPort
  /-- Where to listen; on all of the machine's addresses if absent. -/
  bindAddress : Option String := none
  connectTimeout : UInt64 := 5000
  maxFrameSize : UInt64 := UInt64.ofNat Frame.defaultLimit
  writeHighWater : UInt64 := 1024
  deriving DecidableEq, Repr

structure QuerySettings where
  defaultTimeout : UInt64 := 30000
  deriving DecidableEq, Repr

structure RpcSettings where
  callTimeout : UInt64 := 10000
  deriving DecidableEq, Repr

structure Settings where
  general : GeneralSettings
  network : ListenSettings := {}
  query : QuerySettings := {}
  rpc : RpcSettings := {}
  deriving DecidableEq, Repr

namespace Settings

/-- The settings of a machine that says nothing: its own name and the defaults. -/
def default (hostName : String) : Settings := { general := { name := hostName } }

def sample : Settings :=
  { general := { name := "node-1" }, network := { bindAddress := some "0.0.0.0" } }

def runtime (s : Settings) : NetworkSettings :=
  let base : NetworkSettings := { port := s.network.port }
  let base := base.withQueryTimeout (s.query.defaultTimeout.toNat * 1000000)
  let base := s.network.bindAddress.elim base base.withBindAddress
  { base with
    connectTimeout := s.network.connectTimeout.toNat
    maxFrameSize := s.network.maxFrameSize.toNat
    writeHighWater := s.network.writeHighWater.toNat }

end Settings

end Switchboard
