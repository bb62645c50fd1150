import Switchboard.Listener.Action
import Switchboard.Server.Basic

/-!
# A machine that no peer connects to

A server under test, other servers beside it and a client, on one machine. Every request
is followed by the accept loops' steps until they wait.
-/

namespace Switchboard

structure Host where
  ports : Ports := {}
  /-- Absent once it was dropped. -/
  server : Option Server
  others : List Server := []
  directory : Directory Listener
  /-- Whether the client listens with the registry of the server. -/
  shared : Bool

namespace Host

def serverRegistry : String := "server"

def clientRegistry (h : Host) : String := if h.shared then serverRegistry else "client"

def create (settings : NetworkSettings) (shared : Bool) : Host :=
  { server := some { settings }
    shared
    directory :=
      (({} : Directory Listener).create serverRegistry none).create "client" none }

def withServer {α : Type} (h : Host) (absent : α) (f : Server → Ports → α × Server × Ports) :
    α × Host :=
  match h.server with
  | none => (absent, h)
  | some s =>
    let (a, s, ports) := f s h.ports
    let (s, ports) := s.settle ports
    (a, { h with server := some s, ports })

def start (h : Host) : Except ServerError Endpoint × Host :=
  h.withServer (.error .notRunning) Server.start

def stop (h : Host) : Except ServerError Unit × Host :=
  h.withServer (.error .notRunning) fun s ports => let (r, s) := s.stop; (r, s, ports)

/-- Start and stop `n` times; how often both succeeded. A failed start is not stopped. -/
def cycle : (n : Nat) → Host → Nat × Host
  | 0, h => (0, h)
  | n + 1, h =>
    match h.start with
    | (.error _, h) => h.cycle n
    | (.ok _, h) =>
      let (r, h) := h.stop
      let (done, h) := h.cycle n
      (if r.isOk then done + 1 else done, h)

/-- Read the events of the server, if its consumer's end was taken. -/
def readEvents (h : Host) : List ServerEvent × Host :=
  h.withServer [] fun s ports =>
    if s.events.taken then
      let (es, events) := s.events.drain
      (es, { s with events }, ports)
    else ([], s, ports)

def takeEvents (h : Host) : Bool × Host :=
  h.withServer false fun s ports =>
    let (taken, events) := s.events.take
    (taken, { s with events }, ports)

/-- Drop the server without stopping it; the events that were still unread. -/
def drop (h : Host) : List ServerEvent × Host :=
  let ((), h) := h.withServer () fun s ports => ((), s.abandon, ports)
  let (es, h) := h.readEvents
  (es, { h with server := none })

def port? (h : Host) : Option UInt16 := h.server.bind fun s => s.life.endpoint.map (·.port)

/-- Start another server at an address, on the server's port or on a free one, and keep it. -/
def startOther (h : Host) (address : String) (samePort : Bool) :
    Except ServerError Endpoint × Host :=
  let port := if samePort then h.port?.getD 0 else 0
  let other : Server := { settings := { bindAddress := address, port } }
  let (r, other, ports) := other.start h.ports
  (r, { h with others := h.others ++ [other], ports })

def stopOthers (h : Host) : List (Except ServerError Unit) × Host :=
  let (rs, ports) := h.others.foldl
    (fun (rs, ports) s =>
      let (r, s) := s.stop
      (rs ++ [r], (s.settle ports).2))
    ([], h.ports)
  (rs, { h with others := [], ports })

def broadcast (h : Host) (p : Packet) : Nat × Host :=
  h.withServer 0 fun s ports => let (n, s) := s.broadcast p; (n, s, ports)

/-- Connect to a port where nobody listens. -/
def connect (_ : Host) (host : String) (port : UInt16) : Except ClientError Unit :=
  match Endpoint.resolve host port with
  | .error fault => .error (.unresolved fault)
  | .ok _ => .error .refused

def listen (h : Host) (registry : String) (channel : Int32) (l : Listener) : ListenerId × Host :=
  let (id, r) := (h.directory.registry registry).register channel l
  (id, { h with directory := h.directory.set registry r })

end Host

end Switchboard
