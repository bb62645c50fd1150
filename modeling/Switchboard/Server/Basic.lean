import Switchboard.NetworkSettings
import Switchboard.Server.Events
import Switchboard.Server.Ports

/-!
# Servers

A server listens at its endpoint and keeps the channels that were opened to it. What it
does goes to its event queue.
-/

namespace Switchboard

structure Server where
  settings : NetworkSettings := {}
  life : Lifecycle := {}
  events : EventQueue := {}
  /-- The open channels, in the order of their ids. -/
  channels : List Channel := []

namespace Server

/-- Listen at the configured endpoint. -/
def bind (s : Server) (p : Ports) : Except ServerError (Endpoint × Ports) :=
  let failed {α : Type} (fault : BindFault) : Except ServerError α :=
    .error (.bindFailed s.settings.endpointText fault)
  match Endpoint.resolve s.settings.bindAddress s.settings.port with
  | .error fault => failed (.unresolved fault)
  | .ok e =>
    match p.bind e with
    | .error fault => failed fault
    | .ok r => .ok r

/-- Start the server; the port is taken only by a start that succeeds. -/
def start (s : Server) (p : Ports) : Except ServerError Endpoint × Server × Ports :=
  let binding := s.bind p
  match s.life.start (binding.map (·.1)) with
  | (.error e, _, _) => (.error e, s, p)
  | (.ok e, told, life) =>
    (.ok e, { s with life, events := s.events.pushAll told }, (binding.toOption.map (·.2)).getD p)

/-- Stop accepting connections and close every open channel. -/
def stop (s : Server) : Except ServerError Unit × Server :=
  match s.life.stop with
  | (.error e, _) => (.error e, s)
  | (.ok (), life) => (.ok (), { s with life, channels := s.channels.map Channel.close })

/-- Let the accept loop go as far as it can; one that ends frees its endpoint. -/
def settle (s : Server) (p : Ports) : Server × Ports :=
  let (told, life) := s.life.settle
  let p := if told.isEmpty then p else s.life.endpoint.elim p p.release
  ({ s with life, events := s.events.pushAll told }, p)

def abandon (s : Server) : Server := { s with life := s.life.abandon }

def channel? (s : Server) (id : Nat) : Option Channel :=
  s.channels.find? (·.info.id = id)

def broadcast (s : Server) (p : Packet) : Nat × Server :=
  let sent := s.channels.map (·.send p)
  ((sent.filter (·.1.isOk)).length, { s with channels := sent.map (·.2) })

end Server

end Switchboard
