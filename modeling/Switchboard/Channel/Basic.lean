import Switchboard.Channel.Error
import Switchboard.Query.Desk

/-!
# Channels

One end of a connection. Senders queue frames, a writer takes them off the queue and
writes them, a reader decodes what arrives and hands each packet either to the query
that it answers or to the dispatcher. The queue, the count of queued frames, the active
flag and the query desk are changed by different parties in separate steps; each step
is a function here, and `send`, `sendQuery` and `close` run theirs without interruption.
-/

namespace Switchboard

structure ChannelInfo where
  id : Nat
  localAddress : String
  remoteAddress : String
  /-- Whether this side opened the connection. -/
  clientProvided : Bool
  deriving DecidableEq, Repr

/-- Limits of a channel. Times are in milliseconds. -/
structure ChannelConfig where
  maxFrameSize : Nat := Frame.defaultLimit
  writeHighWater : Nat := 1024
  queryTimeout : Nat := 30000
  deriving DecidableEq, Repr

structure ChannelStats where
  packetsSent : Nat := 0
  packetsReceived : Nat := 0
  bytesSent : Nat := 0
  bytesReceived : Nat := 0
  deriving DecidableEq, Repr

/-- What the writer is at. -/
inductive Writer where
  /-- Waits for a frame or for the close. -/
  | waiting
  /-- Has taken a frame and not yet counted it off. -/
  | holding (frame : List UInt8)
  /-- Writes a frame of `size` octets of which `rest` are left. -/
  | writing (size : Nat) (rest : List UInt8)
  /-- Found the pipe full while writing and sleeps until the pipe can answer again. -/
  | blocked (size : Nat) (rest : List UInt8)
  /-- Found the queue empty after the close and shuts its side of the stream down. -/
  | finishing
  | ended
  deriving DecidableEq, Repr

/-- What the reader is at. -/
inductive ChannelReader where
  | reading (decoder : Decoder) (buffered : List UInt8)
  | ended
  deriving DecidableEq, Repr

structure Channel where
  info : ChannelInfo
  config : ChannelConfig := {}
  active : Bool := true
  /-- The signal that tells the loops to stop. -/
  stopping : Bool := false
  desk : Desk := {}
  /-- Frames that the writer has not taken. -/
  queue : List (List UInt8) := []
  /-- The count of queued frames, kept apart from the queue. -/
  queued : Int := 0
  writer : Writer := .waiting
  reader : ChannelReader := .reading { limit := config.maxFrameSize } []
  /-- Packets that wait for the dispatcher. -/
  inbox : List Packet := []
  stats : ChannelStats := {}

namespace Channel

def isWritable (c : Channel) : Bool :=
  c.active && c.queued < c.config.writeHighWater

def countUp (c : Channel) : Channel := { c with queued := c.queued + 1 }

/-- Count a frame off that was taken from the queue or refused by it. -/
def countDown (c : Channel) : Channel := { c with queued := c.queued - 1 }

/-- Queue a frame, unless the writer is gone. -/
def push (c : Channel) (frame : List UInt8) : Except ChannelError Channel :=
  match c.writer with
  | .ended => .error .closed
  | _ => .ok { c with queue := c.queue ++ [frame] }

/-- Count and queue a frame; a refused one is counted off again. -/
def enqueue (c : Channel) (frame : List UInt8) : Except ChannelError Unit × Channel :=
  let c := c.countUp
  match c.push frame with
  | .ok c => (.ok (), c)
  | .error e => (.error e, c.countDown)

def frame (c : Channel) (p : Packet) : Except ChannelError (List UInt8) :=
  match Frame.encode c.config.maxFrameSize p with
  | .ok s => .ok s
  | .error e => .error (.frame e)

/-- Queue a packet. Success means that it is queued, not that it arrives. -/
def send (c : Channel) (p : Packet) : Except ChannelError Unit × Channel :=
  if c.active then
    match c.frame p with
    | .ok s => c.enqueue s
    | .error e => (.error e, c)
  else (.error .closed, c)

def register (c : Channel) (id : Identity) (timeout now : Nat) :
    Except ChannelError (Ticket × Channel) :=
  match c.desk.register id timeout now with
  | .ok (ticket, desk) => .ok (ticket, { c with desk })
  | .error e => .error (.query e)

def cancel (c : Channel) (id : Identity) : Channel :=
  { c with desk := (c.desk.cancel id).2 }

/-- Queue a packet as a query under its own id, or under `fresh` when it has none. The
query is registered before its frame is queued, so no response can be too early. -/
def sendQuery (c : Channel) (p : Packet) (fresh : Identity) (timeout now : Nat) :
    Except ChannelError (Identity × Ticket) × Channel :=
  if c.active then
    let id := p.id.getD fresh
    match c.frame (p.asQuery id) with
    | .error e => (.error e, c)
    | .ok s =>
      match c.register id timeout now with
      | .error e => (.error e, c)
      | .ok (ticket, c) =>
        match c.enqueue s with
        | (.ok (), c) => (.ok (id, ticket), c)
        | (.error e, c) => (.error e, c.cancel id)
  else (.error .closed, c)

/-- Clear the active flag; whether it was set. -/
def deactivate (c : Channel) : Bool × Channel := (c.active, { c with active := false })

def cancelAll (c : Channel) : Channel := { c with desk := c.desk.cancelAll.2 }

def signal (c : Channel) : Channel := { c with stopping := true }

/-- Close the channel; a second close does nothing. -/
def close (c : Channel) : Channel :=
  match c.deactivate with
  | (true, c) => c.cancelAll.signal
  | (false, c) => c

def countIn (c : Channel) : Channel :=
  { c with stats.packetsReceived := c.stats.packetsReceived + 1 }

/-- Hand a packet to the dispatcher. -/
def post (c : Channel) (p : Packet) : Channel := { c with inbox := c.inbox ++ [p] }

end Channel

structure Reception (m : Type → Type) where
  count : m Unit
  /-- Complete the query that the packet answers; whether there was one. -/
  complete : Packet → m Bool
  post : Packet → m Unit

/-- Hand an arrived packet to the query that it answers, or else to the dispatcher. -/
def Reception.receive {m : Type → Type} [Monad m] (r : Reception m) (p : Packet) : m Unit := do
  r.count
  if p.isQuery then
    unless ← r.complete p do r.post p
  else r.post p

namespace Channel

/-- A packet that nobody interrupts. -/
def reception : Reception (StateM Channel) where
  count := modify countIn
  complete p c := ((c.desk.complete p).1, { c with desk := (c.desk.complete p).2 })
  post p := modify (·.post p)

def receive (c : Channel) (p : Packet) : Channel := (StateT.run (reception.receive p) c).2

/-- A packet that answers a pending query goes to its caller, and any other to the dispatcher. -/
theorem receive_eq (c : Channel) (p : Packet) :
    c.receive p =
      if p.isQuery then
        let answered := { c.countIn with desk := (c.desk.complete p).2 }
        if (c.desk.complete p).1 then answered else answered.post p
      else c.countIn.post p := by
  rw [receive, Reception.receive]
  cases p.isQuery with
  | false => rfl
  | true =>
    show (StateT.run (do unless (c.desk.complete p).1 do reception.post p)
      { c.countIn with desk := (c.desk.complete p).2 }).2 = _
    cases (c.desk.complete p).1 <;> rfl

theorem desk_receive (c : Channel) (p : Packet) :
    (c.receive p).desk = (c.desk.complete p).2 := by
  rw [receive_eq]
  cases hp : p.id with
  | none => simp [Packet.isQuery, hp, Desk.complete, countIn, post]
  | some id =>
    simp only [Packet.isQuery, hp, Option.isSome_some, if_true]
    split <;> rfl

theorem reader_receive (c : Channel) (p : Packet) : (c.receive p).reader = c.reader := by
  rw [receive_eq]
  split
  · dsimp only
    split <;> rfl
  · rfl

end Channel

end Switchboard
