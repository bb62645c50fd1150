import Switchboard.Channel.Party
import Switchboard.Rpc.Invocation

/-!
# Sessions

Two channels joined by two pipes, or one channel whose other end a script plays, under
a clock that stands still until it is moved. After each request the session settles:
every loop runs on until all of them wait.
-/

namespace Switchboard

inductive Side where
  | left
  | right
  deriving DecidableEq, Repr

/-- What the maker of a named query waits for. -/
inductive Awaited where
  | response
  /-- A response, with failures told as the channel's. -/
  | channelResponse
  /-- The value of a remote call. -/
  | result (t : Ty)

inductive Resolution where
  | response (r : Except QueryError Packet)
  | channelResponse (r : Except ChannelError Packet)
  | result (t : Ty) (r : Except RpcError t.Value)

namespace Awaited

/-- The end of a query that the channel did not take. -/
def refused (e : ChannelError) : Awaited → Option Resolution
  | response => none
  | channelResponse => some (.channelResponse (.error e))
  | result t => some (.result t (.error (.ofChannel e)))

/-- The end of a query that was settled. -/
def settled (r : Except QueryError Packet) : Awaited → Resolution
  | response => .response r
  | channelResponse => .channelResponse (Party.told r)
  | result t => .result t <| match r with
    | .ok p => Reply.value t p.content
    | .error e => .error (.query e)

end Awaited

/-- A named query whose maker waits. -/
structure Call where
  name : String
  side : Side
  ticket : Ticket
  awaited : Awaited

structure Session where
  moment : Moment := {}
  left : Party
  /-- Absent when a script plays this end. -/
  right : Option Party
  rightward : Pipe
  leftward : Pipe
  /-- What the script still has to write. -/
  feeding : List UInt8 := []
  calls : List Call := []
  /-- Names given to queries and not discarded. -/
  names : List String := []
  /-- Queries that ended since this was last looked at. -/
  resolved : List (String × Resolution) := []

namespace Session

def party? (s : Session) : Side → Option Party
  | .left => some s.left
  | .right => s.right

def setParty (s : Session) (side : Side) (p : Party) : Session :=
  match side with
  | .left => { s with left := p }
  | .right => { s with right := some p }

def update {α : Type} (s : Session) (side : Side) (absent : α) (f : Party → α × Party) :
    α × Session :=
  match s.party? side with
  | some p => let (a, p) := f p; (a, s.setParty side p)
  | none => (absent, s)

def wired (s : Session) (side : Side) (p : Party) : Wired :=
  match side with
  | .left => ⟨p.channel, s.rightward, s.leftward, p.broken⟩
  | .right => ⟨p.channel, s.leftward, s.rightward, p.broken⟩

def rewire (s : Session) (side : Side) (p : Party) (w : Wired) : Session :=
  let s := s.setParty side { p with channel := w.channel }
  match side with
  | .left => { s with rightward := w.outgoing, leftward := w.incoming }
  | .right => { s with leftward := w.outgoing, rightward := w.incoming }

/-- A step of one side: an alarm, the writer, the reader or the dispatcher. -/
def stepSide (s : Session) (side : Side) : Option Session :=
  (s.party? side).bind fun p =>
    ((p.stepAlarms s.moment).map (s.setParty side))
    <|> ((s.wired side p).stepWriter.map (s.rewire side p))
    <|> ((s.wired side p).stepReader.map (s.rewire side p))
    <|> ((p.stepDispatcher s.moment).map fun (p, moment) => { s.setParty side p with moment })

def stepScript (s : Session) : Option Session :=
  if s.feeding.isEmpty then none
  else match s.leftward.put s.feeding with
    | (.accepted count, leftward) =>
      some { s with leftward, feeding := s.feeding.drop count }
    | _ => none

def step (s : Session) : Option Session :=
  s.stepSide .left <|> s.stepSide .right <|> s.stepScript

/-- Take steps until all loops wait; `fuel` bounds them. -/
def settleWithin : (fuel : Nat) → Session → Session
  | 0, s => s
  | fuel + 1, s =>
    match s.step with
    | some s => settleWithin fuel s
    | none => s

def patience : Nat := 10000000

/-- The end of a call, if its query is settled. -/
def resolution? (s : Session) (c : Call) : Option Resolution :=
  ((s.party? c.side).bind fun p => p.channel.desk.outcome? c.ticket).map c.awaited.settled

def collect (s : Session) : Session :=
  let ended := s.calls.filterMap fun c => (s.resolution? c).map (c.name, ·)
  { s with
    calls := s.calls.filter fun c => (s.resolution? c).isNone
    resolved := s.resolved ++ ended }

/-- Run on until all loops wait. -/
def settle (s : Session) : Session := (settleWithin patience s).collect

/-- Move the clock to `until`, stopping at each time at which an alarm is due. -/
def advanceTo (s : Session) (stop : Nat) : (fuel : Nat) → Session
  | 0 => { s with moment := { s.moment with now := stop } }.settle
  | fuel + 1 =>
    let due := [s.left.channel.desk.nextDue?, s.right.bind (·.channel.desk.nextDue?)]
    match (due.filterMap id).min? with
    | some t =>
      if t ≤ stop then
        advanceTo ({ s with moment := { s.moment with now := max t s.moment.now } }.settle) stop fuel
      else { s with moment := { s.moment with now := stop } }.settle
    | none => { s with moment := { s.moment with now := stop } }.settle

def advance (s : Session) (millis : Nat) : Session :=
  s.advanceTo (s.moment.now + millis) patience

def send (s : Session) (side : Side) (p : Packet) : Except ChannelError Unit × Session :=
  s.update side (.error .closed) fun party =>
    let (r, channel) := party.channel.send p
    (r, { party with channel })

/-- Send a query under a name. -/
def query (s : Session) (side : Side) (name : String) (p : Packet) (timeout : Nat)
    (awaited : Awaited) : Except ChannelError Identity × Session :=
  match s.party? side with
  | none => (.error .closed, s)
  | some party =>
    match party.sendQuery p timeout s.moment with
    | (.ok (id, ticket), party, moment) =>
      (.ok id, { s.setParty side party with
        moment
        calls := s.calls ++ [⟨name, side, ticket, awaited⟩]
        names := name :: s.names.filter (· ≠ name) })
    | (.error e, party, moment) =>
      (.error e, { s.setParty side party with
        moment
        resolved := s.resolved ++ (awaited.refused e).toList.map (name, ·) })

/-- Call a method of the peer under a name. -/
def call (s : Session) (side : Side) (name : String) (i : Invocation) (t : Ty)
    (timeout : Nat) : Session :=
  let p : Packet := { channel := Routing.rpc, content := .ofBytes i.encode }
  (s.query side name p timeout (.result t)).2

def fire (s : Session) (side : Side) (i : Invocation) : Except RpcError Unit × Session :=
  let i := { i with expectsResult := false }
  match s.send side { channel := Routing.rpc, content := .ofBytes i.encode } with
  | (.ok (), s) => (.ok (), s)
  | (.error e, s) => (.error (.ofChannel e), s)

/-- The maker of a query stops waiting; whether it did before. -/
def discard (s : Session) (name : String) : Bool × Session :=
  (s.names.contains name,
    { s with names := s.names.filter (· ≠ name), calls := s.calls.filter (·.name ≠ name) })

def close (s : Session) (side : Side) : Session :=
  (s.update side () fun p => ((), { p with channel := p.channel.close })).2

/-- From now on the stream of a side fails. -/
def breakStream (s : Session) (side : Side) : Session :=
  (s.update side () fun p => ((), { p with broken := true })).2

def listen (s : Session) (side : Side) (registry : String) (channel : Int32) (l : Listener) :
    ListenerId × Session :=
  s.update side 0 fun p =>
    let (id, r) := (p.directory.registry registry).register channel l
    (id, { p with directory := p.directory.set registry r })

def unlisten (s : Session) (side : Side) (channel : Int32) (id : ListenerId) : Bool × Session :=
  s.update side false fun p =>
    let (found, r) := (p.directory.registry Party.own).unregister channel id
    (found, { p with directory := p.directory.set Party.own r })

def withHandlers {α : Type} (s : Session) (side : Side) (absent : α)
    (f : Handlers → α × Handlers) : α × Session :=
  s.update side absent fun p => let (a, handlers) := f p.handlers; (a, { p with handlers })

/-- Take the notes of all listeners and the queries that ended since the last time. -/
def harvest (s : Session) : (List Note × List Note × List (String × Resolution)) × Session :=
  let notes (p : Party) := p.notes.reverse
  ((notes s.left, s.right.elim [] notes, s.resolved),
    { s with
      left := { s.left with notes := [] }
      right := s.right.map fun p => { p with notes := [] }
      resolved := [] })

/-- Write to the channel; whether all of it went in or still may. -/
def feed (s : Session) (octets : List UInt8) : Bool × Session :=
  if s.leftward.closed then (octets.isEmpty, s)
  else
    let s := { s with feeding := s.feeding ++ octets }.settle
    if s.leftward.closed then (s.feeding.isEmpty, { s with feeding := [] }) else (true, s)

/-- Read what the channel writes, at most `limit` octets; whether its end was seen. -/
def drainAfter (seen : List UInt8) (limit : Nat) :
    (fuel : Nat) → Session → (List UInt8 × Bool) × Session
  | 0, s => ((seen, false), s)
  | fuel + 1, s =>
    if limit ≤ seen.length then ((seen, false), s)
    else match s.rightward.take (limit - seen.length) with
      | (.octets o, rightward) =>
        drainAfter (seen ++ o) limit fuel ({ s with rightward }.settle)
      | (.nothing, _) => ((seen, false), s)
      | (.ended, _) => ((seen, true), s)

def drain (s : Session) (limit : Nat) : (List UInt8 × Bool) × Session :=
  drainAfter [] limit patience s

def shutdown (s : Session) : Session := { s with leftward := s.leftward.close }

def hangUp (s : Session) : Session :=
  { s with leftward := s.leftward.close, rightward := { s.rightward with closed := true, content := [] } }

/-- The left channel and, unless a script plays it, the right one. -/
def start (left right : ChannelConfig) (capacity : Nat) (scripted : Bool) : Session :=
  let near := "127.0.0.1:1000"
  let far := "127.0.0.1:2000"
  { left := Party.create ⟨1, near, far, true⟩ left,
    right := if scripted then none else some (Party.create ⟨7, far, near, false⟩ right),
    rightward := { capacity }, leftward := { capacity } }

end Session

end Switchboard
