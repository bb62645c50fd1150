import Switchboard.Server.Error

/-!
# The ports of a machine

Which endpoints are listened on. A server that asks for port 0 gets a port that nobody
listens on, each time the one after the last that was given.
-/

namespace Switchboard

structure Ports where
  listening : List Endpoint := []
  /-- How many ports were given to servers that asked for any. -/
  given : Nat := 0
  deriving DecidableEq, Repr

namespace Ports

/-- The ports that are given to who asks for any: the first of them and their number. -/
def dynamicFirst : Nat := 49152

def dynamicCount : Nat := 16384

/-- The dynamic port with number `n`, after the last of which the first comes again. -/
def dynamic (n : Nat) : UInt16 := UInt16.ofNat (dynamicFirst + n % dynamicCount)

def isFree (p : Ports) (e : Endpoint) : Bool := !p.listening.any e.overlaps

/-- Give the first free dynamic port from number `n` on. -/
def giveFrom (p : Ports) (address : Address) : (tries n : Nat) → Except BindFault (Endpoint × Ports)
  | 0, _ => .error .inUse
  | tries + 1, n =>
    let e : Endpoint := { address, port := dynamic n }
    if p.isFree e then .ok (e, { listening := e :: p.listening, given := n + 1 })
    else giveFrom p address tries (n + 1)

/-- Listen on an endpoint, or on a free port of its address when its port is 0. -/
def bind (p : Ports) (e : Endpoint) : Except BindFault (Endpoint × Ports) :=
  if e.port = 0 then p.giveFrom e.address dynamicCount p.given
  else if p.isFree e then .ok (e, { p with listening := e :: p.listening })
  else .error .inUse

def release (p : Ports) (e : Endpoint) : Ports :=
  { p with listening := p.listening.filter (· ≠ e) }

end Ports

end Switchboard
