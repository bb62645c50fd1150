import Switchboard.Server.Error

/-!
# Starting and stopping a server

A start binds an endpoint, raises the running flag, announces itself and spawns an accept
loop; a stop only signals that loop. The loop lowers the flag and announces the end in one
step when it leaves. Each of these is a step of its own here, so that the loops' steps may
come between those of a call; `start` and `stop` run theirs without interruption. Steps
that announce something say so in what they return.
-/

namespace Switchboard

inductive ServerEvent where
  | started (endpoint : Endpoint)
  | stopped
  deriving DecidableEq, Repr

/-- Where an accept loop that has not ended is. -/
inductive AcceptLoop where
  | accepting
  /-- Has been signalled, or can never be signalled again. -/
  | signalled
  /-- Has taken the signal and is about to lower the flag. -/
  | leaving
  deriving DecidableEq, Repr

/-- Signal a loop; one that already leaves takes no notice. -/
def AcceptLoop.signal : AcceptLoop → AcceptLoop
  | .accepting => .signalled
  | l => l

structure Lifecycle where
  running : Bool := false
  /-- The endpoint of the latest start. It stays after a stop. -/
  endpoint : Option Endpoint := none
  /-- Whether the means to signal the newest loop is still held. -/
  holdsSignal : Bool := false
  /-- The loops that have not ended, the newest first. -/
  loops : List AcceptLoop := []
  deriving DecidableEq, Repr

namespace Lifecycle

def signalNewest : List AcceptLoop → List AcceptLoop
  | [] => []
  | l :: ls => l.signal :: ls

/-- A start goes on only while the flag is down. -/
def mayStart (s : Lifecycle) : Except ServerError Unit :=
  if s.running then .error .alreadyRunning else .ok ()

/-- Keep the endpoint and a fresh signal. The former signal is given up, which its loop
takes for a signal. -/
def bound (s : Lifecycle) (endpoint : Endpoint) : Lifecycle :=
  { s with
    endpoint := some endpoint
    holdsSignal := true
    loops := if s.holdsSignal then signalNewest s.loops else s.loops }

def raise (s : Lifecycle) : Lifecycle := { s with running := true }

def spawn (s : Lifecycle) : Lifecycle := { s with loops := .accepting :: s.loops }

/-- Start at the endpoint that binding gives. A failed start changes nothing. -/
def start (s : Lifecycle) (binding : Except ServerError Endpoint) :
    Except ServerError Endpoint × List ServerEvent × Lifecycle :=
  match s.mayStart, binding with
  | .error e, _ => (.error e, [], s)
  | .ok (), .error e => (.error e, [], s)
  | .ok (), .ok endpoint => (.ok endpoint, [.started endpoint], (s.bound endpoint).raise.spawn)

def mayStop (s : Lifecycle) : Except ServerError Unit :=
  if s.running then .ok () else .error .notRunning

def sendSignal (s : Lifecycle) : Lifecycle :=
  if s.holdsSignal then { s with holdsSignal := false, loops := signalNewest s.loops } else s

/-- Tell the accept loop to end; that it has ended is not awaited. -/
def stop (s : Lifecycle) : Except ServerError Unit × Lifecycle :=
  match s.mayStop with
  | .error e => (.error e, s)
  | .ok () => (.ok (), s.sendSignal)

/-- Give the server up: nobody can signal its loop any more, which ends the loop. -/
def abandon (s : Lifecycle) : Lifecycle := s.sendSignal

/-- A step of the loop at position `i`: it takes a signal, or it lowers the flag, announces
the end and is gone. A loop that was not signalled waits on. -/
def stepLoop (s : Lifecycle) (i : Nat) : List ServerEvent × Lifecycle :=
  match s.loops[i]? with
  | some .signalled => ([], { s with loops := s.loops.set i .leaving })
  | some .leaving => ([.stopped], { s with running := false, loops := s.loops.eraseIdx i })
  | some .accepting => ([], s)
  | none => ([], s)

/-- Let every loop go as far as it can, the oldest first; the events in order. -/
def settle (s : Lifecycle) : List ServerEvent × Lifecycle :=
  (List.range s.loops.length).reverse.foldl
    (fun (told, s) i =>
      let (first, s) := s.stepLoop i
      let (second, s) := s.stepLoop i
      (told ++ first ++ second, s))
    ([], s)

end Lifecycle

end Switchboard
