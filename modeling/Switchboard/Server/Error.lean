import Switchboard.Address

/-! # Why a server or a client fails -/

namespace Switchboard

inductive BindFault where
  | unresolved (fault : ResolveFault)
  | inUse
  deriving DecidableEq, Repr

def BindFault.message : BindFault → String
  | .unresolved fault => fault.message
  | .inUse => "Address already in use (os error 98)"

inductive ServerError where
  | alreadyRunning
  | notRunning
  /-- The endpoint as it was configured and what kept the server from it. -/
  | bindFailed (endpoint : String) (fault : BindFault)
  deriving DecidableEq, Repr

def ServerError.message : ServerError → String
  | .alreadyRunning => "Server already running"
  | .notRunning => "Server not running"
  | .bindFailed endpoint fault => s!"Bind failed: Failed to bind to {endpoint}: {fault.message}"

inductive ClientError where
  | unresolved (fault : ResolveFault)
  | refused
  deriving DecidableEq, Repr

def ClientError.message : ClientError → String
  | .unresolved fault => s!"IO error: {fault.message}"
  | .refused => "IO error: Connection refused (os error 111)"

end Switchboard
