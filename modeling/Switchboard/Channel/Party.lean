import Switchboard.Channel.Loops
import Switchboard.Listener.Run

/-!
# A channel with its listeners

The dispatcher takes packets from the inbox one at a time and runs the listeners of
each to the end before the next. A listener that queries the peer suspends it: it goes
on when the query is settled.
-/

namespace Switchboard

/-- A dispatch that waits for the outcome of a query. -/
structure Suspended where
  ticket : Ticket
  resume : Except ChannelError Packet → Action Unit

structure Party where
  channel : Channel
  directory : Directory Listener
  handlers : Handlers := {}
  suspended : Option Suspended := none
  /-- What listeners noted, the latest first. -/
  notes : List Note := []
  /-- Set when the stream of this side fails from now on. -/
  broken : Bool := false

/-- The time, and how many fresh ids were drawn. -/
structure Moment where
  now : Nat := 0
  drawn : Nat := 0
  deriving DecidableEq, Repr

/-- The fresh id drawn as number `n`, of the version for random ids. -/
def Identity.fresh (n : Nat) : Identity :=
  ⟨0x6A09E667F3BC4908, 0xBB67AE8584CAA73B + UInt64.ofNat n⟩

namespace Party

/-- The registry of the channel itself and the one behind it. -/
def own : String := "own"

def parent : String := "parent"

def create (info : ChannelInfo) (config : ChannelConfig) : Party :=
  { channel := { info, config },
    directory := (({} : Directory Listener).create parent none).create own (some parent) }

def sendQuery (party : Party) (p : Packet) (timeout : Nat) (t : Moment) :
    Except ChannelError (Identity × Ticket) × Party × Moment :=
  let (r, channel) := party.channel.sendQuery p (Identity.fresh t.drawn) timeout t.now
  (r, { party with channel }, { t with drawn := t.drawn + 1 })

/-- Run an action up to its end or to a query that it waits for. -/
def run : Action Unit → Party → Moment → Party × Moment
  | .pure (), party, t => ({ party with suspended := none }, t)
  | .note entry next, party, t => run next { party with notes := entry :: party.notes } t
  | .send p next, party, t =>
    let (r, channel) := party.channel.send p
    run (next r) { party with channel } t
  | .ask p next, party, t =>
    match party.sendQuery p party.channel.config.queryTimeout t with
    | (.ok (_, ticket), party, t) => ({ party with suspended := some ⟨ticket, next⟩ }, t)
    | (.error e, party, t) => run (next (.error e)) party t
  | .close next, party, t => run next { party with channel := party.channel.close } t
  | .register name on listener next, party, t =>
    let (id, r) := (party.directory.registry name).register on listener
    run (next id) { party with directory := party.directory.set name r } t
  | .unregister name on id next, party, t =>
    let (found, r) := (party.directory.registry name).unregister on id
    run (next found) { party with directory := party.directory.set name r } t
  | .unregisterChannel name on next, party, t =>
    let (count, r) := (party.directory.registry name).unregisterChannel on
    run (next count) { party with directory := party.directory.set name r } t
  | .chain name next, party, t => run (next (party.directory.chain name)) party t
  | .snapshot name on next, party, t =>
    run (next (((party.directory.registry name).listeners on).map (·.listener))) party t
  | .handlers next, party, t => run (next party.handlers) party t

/-- The outcome of a query as its channel tells it. -/
def told : Except QueryError Packet → Except ChannelError Packet
  | .ok p => .ok p
  | .error e => .error (.query e)

def dispatch (p : Packet) : Action Unit :=
  (dispatchPacket dispatchDepth own p).bind fun _ => .pure ()

/-- One step of the dispatcher: go on with the packet at hand or take the next. -/
def stepDispatcher (party : Party) (t : Moment) : Option (Party × Moment) :=
  match party.suspended with
  | some s => (party.channel.desk.outcome? s.ticket).map fun r => run (s.resume (told r)) party t
  | none =>
    match party.channel.inbox with
    | [] => none
    | p :: inbox =>
      some (run (dispatch p) { party with channel := { party.channel with inbox } } t)

def stepAlarms (party : Party) (t : Moment) : Option Party :=
  if party.channel.desk.alarms.any fun a => a.due ≤ t.now then
    some { party with channel := { party.channel with desk := party.channel.desk.expireDue t.now } }
  else none

end Party

end Switchboard
