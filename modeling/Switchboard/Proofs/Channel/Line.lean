import Switchboard.Channel.Loops
import Switchboard.Proofs.Query.Traffic

/-!
# A channel in use

A channel with its stream, the calls on its desk, and everyone who sends on it, queries over
it or closes it. A use goes through its atomic steps one at a time: a send looks at the
active flag, encodes, counts and queues its frame; a query registers before it counts, and
takes its registration back if the queue is gone; a close swaps the flag, cancels all
queries and then tells the loops to stop. Between two of these steps any other use, any call
on the desk, any alarm and both loops may move. The loops may also end at any time, and what
they do then is a close like any other.
-/

namespace Switchboard

/-- A packet to send, and why. -/
inductive Parcel where
  | plain (p : Packet)
  /-- The response with this content to a packet that carries the id. -/
  | answer (request : Packet) (id : Identity) (content : Buffer)
  | query (p : Packet) (id : Identity) (timeout : Nat)
  deriving DecidableEq, Repr

namespace Parcel

def packet : Parcel → Packet
  | plain p => p
  | answer _ id content => { channel := Routing.response, id := some id, content }
  | query p id _ => p.asQuery id

theorem response_eq {r : Packet} {id : Identity} (h : r.id = some id) (content : Buffer) :
    r.response content = .ok (answer r id content).packet := by
  simp only [Packet.response, h, packet]

end Parcel

namespace Line

open Traffic (Registration)

/-- How far a send is. A query that is registered keeps its registration. -/
inductive Sending where
  | begun
  /-- The channel was active. -/
  | admitted
  | framed (frame : List UInt8)
  | registering (frame : List UInt8) (call : Nat)
  | queueing (frame : List UInt8) (asks : Option Registration)
  /-- The frame is counted, not queued yet. -/
  | counted (frame : List UInt8) (asks : Option Registration)
  /-- The queue did not take the frame; it is still counted. -/
  | refused (asks : Option Registration)
  | withdrawing (r : Registration)
  | cancelling (call : Nat)
  | sent (asks : Option Registration)
  | failed (e : ChannelError)
  deriving DecidableEq, Repr

/-- How far a close is. -/
inductive Closing where
  | begun
  /-- The active flag was set, and this close has cleared it. -/
  | won
  | draining (call : Nat)
  /-- All queries are cancelled. -/
  | cancelled
  | done
  /-- The active flag was clear already. -/
  | lost
  deriving DecidableEq, Repr

inductive Use where
  | sending (w : Parcel) (stage : Sending)
  | closing (stage : Closing)
  deriving DecidableEq, Repr

end Line

structure Line extends Wired where
  now : Nat := 0
  calls : List Traffic.Call := []
  /-- Every use so far; a use keeps its place. -/
  uses : List Line.Use := []

def Writer.unwritten : Writer → List UInt8
  | holding frame => frame
  | writing _ rest | blocked _ rest => rest
  | waiting | finishing | ended => []

namespace Pipe

variable {p p' : Pipe} {s : List UInt8}

theorem content_of_put {count : Nat} (h : p.put s = (.accepted count, p')) :
    p'.content = p.content ++ s.take count := by
  simp only [put] at h
  split at h
  · cases h
  · split at h
    · cases h
    · cases h
      rfl

theorem content_of_take {limit : Nat} (h : p.take limit = (.octets s, p')) :
    p.content = s ++ p'.content := by
  simp only [take] at h
  split at h
  · split at h <;> cases h
  · cases h
    exact (List.take_append_drop limit p.content).symm

end Pipe

theorem Channel.close_eq (c : Channel) :
    c.close = if c.active then c.deactivate.2.cancelAll.signal else c.deactivate.2 := by
  cases h : c.active <;> simp [close, deactivate, h]

namespace Wired

theorem channel_dropUnused (w : Wired) : w.dropUnused.channel = w.channel := by
  simp only [dropUnused]
  split <;> rfl

theorem writer_endWriter (w : Wired) : w.endWriter.channel.writer = .ended := by
  rw [endWriter, channel_dropUnused, Channel.close_eq]
  split <;> rfl

theorem reader_endReader (w : Wired) : w.endReader.channel.reader = .ended := by
  rw [endReader, channel_dropUnused, Channel.close_eq]
  split <;> rfl

/-- The steps of the writer, each with what lets it happen. -/
inductive Writes (w : Wired) : Wired → Prop where
  | take {frame : List UInt8} {queue : List (List UInt8)} (h : w.channel.writer = .waiting)
      (hqueue : w.channel.queue = frame :: queue) :
      Writes w { w with channel := { w.channel with queue, writer := .holding frame } }
  | finish (h : w.channel.writer = .waiting) (hqueue : w.channel.queue = []) :
      Writes w { w with channel := { w.channel with writer := .finishing } }
  | countOff {frame : List UInt8} (h : w.channel.writer = .holding frame) :
      Writes w { w with channel :=
        { w.channel.countDown with writer := .writing frame.length frame } }
  | written {size : Nat} {stats : ChannelStats} (h : w.channel.writer = .writing size []) :
      Writes w { w with channel := { w.channel with writer := .waiting, stats } }
  | put {size count : Nat} {rest : List UInt8} {outgoing : Pipe}
      (h : w.channel.writer = .writing size rest)
      (hput : w.outgoing.put rest = (.accepted count, outgoing)) :
      Writes w { w with outgoing, channel :=
        { w.channel with writer := .writing size (rest.drop count) } }
  | block {size : Nat} {rest : List UInt8} (h : w.channel.writer = .writing size rest) :
      Writes w { w with channel := { w.channel with writer := .blocked size rest } }
  | wake {size : Nat} {rest : List UInt8} (h : w.channel.writer = .blocked size rest) :
      Writes w { w with channel := { w.channel with writer := .writing size rest } }
  | fail {w' : Wired} (h : w'.channel.writer = .ended) : Writes w w'

/-- Each step of the writer is one of these. -/
theorem writes_of_stepWriter {w w' : Wired} (h : w.stepWriter = some w') : w.Writes w' := by
  cases hwriter : w.channel.writer with
  | waiting =>
    cases hqueue : w.channel.queue with
    | cons frame queue =>
      simp only [stepWriter, hwriter, hqueue] at h
      cases h
      exact .take hwriter hqueue
    | nil =>
      simp only [stepWriter, hwriter, hqueue] at h
      split at h
      · cases h
        exact hqueue ▸ .finish hwriter hqueue
      · cases h
  | holding frame =>
    simp only [stepWriter, hwriter] at h
    cases h
    exact .countOff hwriter
  | writing size rest =>
    cases rest with
    | nil =>
      simp only [stepWriter, hwriter] at h
      cases h
      exact .written hwriter
    | cons b rest =>
      simp only [stepWriter, hwriter] at h
      split at h
      · cases h
        exact .fail (writer_endWriter _)
      · split at h
        · rename_i hput
          cases h
          exact .put hwriter hput
        · cases h
          exact .block hwriter
        · cases h
          exact .fail (writer_endWriter _)
  | blocked size rest =>
    simp only [stepWriter, hwriter] at h
    split at h
    · cases h
    · cases h
      exact .wake hwriter
  | finishing =>
    simp only [stepWriter, hwriter] at h
    split at h <;> cases h <;> exact .fail (writer_endWriter _)
  | ended =>
    simp only [stepWriter, hwriter] at h
    cases h

end Wired

/-- A step on the desk that nobody who uses the channel takes: a call goes on, the clock
moves, an alarm rings or expires. -/
def Traffic.Event.unasked : Event → Bool
  | proceed _ | elapse _ | ring _ | expire _ => true
  | register _ _ | complete _ | cancel _ | cancelAll _ => false

namespace Line

open Traffic (Registration)

def traffic (s : Line) : Traffic := ⟨s.channel.desk, s.now, s.calls⟩

def withTraffic (s : Line) (t : Traffic) : Line :=
  { s with channel := { s.channel with desk := t.desk }, now := t.now, calls := t.calls }

def onDesk (s : Line) (e : Traffic.Event) : Option Line := (s.traffic.step e).map s.withTraffic

/-- The next step of a send, and how far it is then. -/
def Sending.advance (s : Line) (w : Parcel) : Sending → Option (Line × Sending)
  | begun => some (s, if s.channel.active then admitted else failed .closed)
  | admitted =>
    match s.channel.frame w.packet with
    | .ok frame => some (s, framed frame)
    | .error e => some (s, failed e)
  | framed frame =>
    match w with
    | .query _ id timeout =>
      (s.onDesk (.register id timeout)).map (·, registering frame s.calls.length)
    | .plain _ | .answer _ _ _ => some (s, queueing frame none)
  | registering frame call =>
    match s.calls[call]? with
    | some (.registered r) => some (s, queueing frame (some r))
    | some (.refused _ e) => some (s, failed (.query e))
    | _ => none
  | queueing frame asks => some ({ s with channel := s.channel.countUp }, counted frame asks)
  | counted frame asks =>
    match s.channel.push frame with
    | .ok channel => some ({ s with channel }, sent asks)
    | .error _ => some (s, refused asks)
  | refused none => some ({ s with channel := s.channel.countDown }, failed .closed)
  | refused (some r) => some ({ s with channel := s.channel.countDown }, withdrawing r)
  | withdrawing r => (s.onDesk (.cancel r.id)).map (·, cancelling s.calls.length)
  | cancelling call =>
    match s.calls[call]? with
    | some (.ending _ _ [] _) => some (s, failed .closed)
    | _ => none
  | sent _ | failed _ => none

/-- The next step of a close, which cancels the queries in any order. -/
def Closing.advance (s : Line) (order : List (Identity × Pending)) :
    Closing → Option (Line × Closing)
  | begun =>
    some ({ s with channel := s.channel.deactivate.2 },
      if s.channel.deactivate.1 then won else lost)
  | won => (s.onDesk (.cancelAll order)).map (·, draining s.calls.length)
  | draining call =>
    match s.calls[call]? with
    | some (.ending _ _ [] _) => some (s, cancelled)
    | _ => none
  | cancelled => some ({ s with channel := s.channel.signal }, done)
  | done | lost => none

def Use.advance (s : Line) (order : List (Identity × Pending)) : Use → Option (Line × Use)
  | sending w stage => (stage.advance s w).map fun (s, stage) => (s, sending w stage)
  | closing stage => (stage.advance s order).map fun (s, stage) => (s, closing stage)

/-- A packet that is handed over while others go on: its completion opens a call. -/
def reception : Reception (StateT Line Option) where
  count s := some ((), { s with channel := s.channel.countIn })
  complete p s := (s.onDesk (.complete p)).map fun next =>
    (p.id.any s.channel.desk.isPending, next)
  post p s := some ((), { s with channel := s.channel.post p })

def receive (s : Line) (p : Packet) : Option Line :=
  (StateT.run (reception.receive p) s).map Prod.snd

theorem receive_of_none (s : Line) {p : Packet} (hp : p.id = none) :
    s.receive p = some { s with channel := s.channel.countIn.post p } := by
  rw [receive, Reception.receive, Packet.isQuery, hp]
  rfl

/-- The reader takes the entry out in one locked section; without an entry the packet goes on to
the dispatcher. -/
theorem receive_of_some (s : Line) {p : Packet} {id : Identity} (hp : p.id = some id) :
    s.receive p = ({ s with channel := s.channel.countIn }.onDesk (.complete p)).map fun next =>
      if s.channel.desk.isPending id then next
      else { next with channel := next.channel.post p } := by
  rw [receive, Reception.receive, Packet.isQuery, hp]
  let counted := { s with channel := s.channel.countIn }
  have hcomplete : StateT.run (reception.complete p) counted =
      (counted.onDesk (.complete p)).map fun next => (s.channel.desk.isPending id, next) := by
    simp only [reception, StateT.run, hp, Option.any_some]
    rfl
  show ((StateT.run (reception.complete p) counted).bind fun r =>
    StateT.run (do unless r.1 do reception.post p) r.2).map Prod.snd = _
  rw [hcomplete]
  cases counted.onDesk (.complete p) with
  | none => rfl
  | some next => cases s.channel.desk.isPending id <;> rfl

def read (s : Line) : Option Line :=
  match s.channel.reader with
  | .ended => none
  | .reading decoder buffered =>
    match decoder.decode buffered with
    | (.packet p, decoder, buffered) =>
      receive { s with channel := { s.channel with reader := .reading decoder buffered } } p
    | _ =>
      s.stepReader.bind fun w =>
        if w.channel.reader = .ended then none else some { s with toWired := w }

inductive Event where
  | send (w : Parcel)
  | close
  /-- The next step of a use that is under way. -/
  | go (use : Nat) (order : List (Identity × Pending))
  | desk (e : Traffic.Event)
  | write
  /-- The writer is gone, and what is left in its queue with it. -/
  | retire
  | read
  /-- The reader is gone. -/
  | quit
  /-- The dispatcher takes a packet. -/
  | dispatch
  /-- Octets come in over the stream. -/
  | arrive (s : List UInt8)
  /-- Octets go out over the stream, at most so many. -/
  | depart (limit : Nat)

def step (s : Line) : Event → Option Line
  | .send w => some { s with uses := s.uses ++ [.sending w .begun] }
  | .close => some { s with uses := s.uses ++ [.closing .begun] }
  | .go n order => do
    let u ← s.uses[n]?
    let (next, u) ← u.advance s order
    some { next with uses := s.uses.set n u }
  | .desk e => if e.unasked then s.onDesk e else none
  | .write =>
    s.stepWriter.bind fun w =>
      if w.channel.writer = .ended then none else some { s with toWired := w }
  | .retire => some { s with channel := { s.channel with writer := .ended, queue := [] } }
  | .read => s.read
  | .quit => some { s with channel := { s.channel with reader := .ended } }
  | .dispatch =>
    match s.channel.inbox with
    | [] => none
    | _ :: inbox => some { s with channel := { s.channel with inbox } }
  | .arrive octets =>
    match s.incoming.put octets with
    | (.accepted count, incoming) =>
      if count = octets.length then some { s with incoming } else none
    | _ => none
  | .depart limit =>
    match s.outgoing.take limit with
    | (.octets _, outgoing) => some { s with outgoing }
    | _ => none

/-- The state after a list of steps, none of which was impossible. -/
def run (s : Line) : List Event → Option Line
  | [] => some s
  | e :: es => (s.step e).bind fun s => s.run es

def start (info : ChannelInfo) (config : ChannelConfig) (outgoing incoming : Nat) : Line :=
  { channel := { info, config }, outgoing := { capacity := outgoing },
    incoming := { capacity := incoming } }

variable {s s' : Line}

@[simp] theorem traffic_withTraffic (s : Line) (t : Traffic) : (s.withTraffic t).traffic = t := rfl

theorem onDesk_eq_some {e : Traffic.Event} (h : s.onDesk e = some s') :
    ∃ t, s.traffic.step e = some t ∧ s' = s.withTraffic t := by
  obtain ⟨t, ht, rfl⟩ := Option.map_eq_some_iff.mp h
  exact ⟨t, ht, rfl⟩

inductive Sending.Moves (s : Line) (w : Parcel) : Sending → Line → Sending → Prop where
  | allow (h : s.channel.active = true) : Moves s w .begun s .admitted
  | bar (h : s.channel.active = false) : Moves s w .begun s (.failed .closed)
  | frame {frame : List UInt8} (h : s.channel.frame w.packet = .ok frame) :
      Moves s w .admitted s (.framed frame)
  | oversize {e : ChannelError} (h : s.channel.frame w.packet = .error e) :
      Moves s w .admitted s (.failed e)
  | pass {frame : List UInt8} (h : ∀ p id timeout, w ≠ .query p id timeout) :
      Moves s w (.framed frame) s (.queueing frame none)
  | register {p : Packet} {id : Identity} {timeout : Nat} {frame : List UInt8} {t : Traffic}
      (hw : w = .query p id timeout) (h : s.traffic.step (.register id timeout) = some t) :
      Moves s w (.framed frame) (s.withTraffic t) (.registering frame s.calls.length)
  | registered {frame : List UInt8} {call : Nat} {r : Registration}
      (h : s.calls[call]? = some (.registered r)) :
      Moves s w (.registering frame call) s (.queueing frame (some r))
  | refuse {frame : List UInt8} {call : Nat} {id : Identity} {e : QueryError}
      (h : s.calls[call]? = some (.refused id e)) :
      Moves s w (.registering frame call) s (.failed (.query e))
  | count {frame : List UInt8} {asks : Option Registration} :
      Moves s w (.queueing frame asks) { s with channel := s.channel.countUp } (.counted frame asks)
  | push {frame : List UInt8} {asks : Option Registration} {channel : Channel}
      (h : s.channel.push frame = .ok channel) :
      Moves s w (.counted frame asks) { s with channel } (.sent asks)
  | reject {frame : List UInt8} {asks : Option Registration} {e : ChannelError}
      (h : s.channel.push frame = .error e) : Moves s w (.counted frame asks) s (.refused asks)
  | uncount : Moves s w (.refused none) { s with channel := s.channel.countDown } (.failed .closed)
  | withdraw {r : Registration} :
      Moves s w (.refused (some r)) { s with channel := s.channel.countDown } (.withdrawing r)
  | cancel {r : Registration} {t : Traffic} (h : s.traffic.step (.cancel r.id) = some t) :
      Moves s w (.withdrawing r) (s.withTraffic t) (.cancelling s.calls.length)
  | cancelled {call : Nat} : Moves s w (.cancelling call) s (.failed .closed)

/-- What a send does next is one of its moves. -/
theorem Sending.moves_of_advance {w : Parcel} {stage next : Sending}
    (h : stage.advance s w = some (s', next)) : stage.Moves s w s' next := by
  cases stage with
  | begun =>
    cases h
    by_cases hactive : s.channel.active = true
    · rw [if_pos hactive]
      exact .allow hactive
    · rw [if_neg hactive]
      exact .bar (by simpa using hactive)
  | admitted =>
    simp only [advance] at h
    split at h
    · rename_i hframe
      cases h
      exact .frame hframe
    · rename_i hframe
      cases h
      exact .oversize hframe
  | framed frame =>
    cases w with
    | query p id timeout =>
      obtain ⟨mid, hdesk, heq⟩ := Option.map_eq_some_iff.mp h
      cases heq
      obtain ⟨t, ht, rfl⟩ := onDesk_eq_some hdesk
      exact .register rfl ht
    | plain p =>
      cases h
      exact .pass (by simp)
    | answer r id content =>
      cases h
      exact .pass (by simp)
  | registering frame call =>
    simp only [advance] at h
    split at h
    · rename_i hcall
      cases h
      exact .registered hcall
    · rename_i hcall
      cases h
      exact .refuse hcall
    · cases h
  | queueing frame asks =>
    cases h
    exact .count
  | counted frame asks =>
    simp only [advance] at h
    split at h
    · rename_i hpush
      cases h
      exact .push hpush
    · rename_i hpush
      cases h
      exact .reject hpush
  | refused asks =>
    cases asks with
    | none =>
      cases h
      exact .uncount
    | some r =>
      cases h
      exact .withdraw
  | withdrawing r =>
    simp only [advance] at h
    obtain ⟨mid, hdesk, heq⟩ := Option.map_eq_some_iff.mp h
    cases heq
    obtain ⟨t, ht, rfl⟩ := onDesk_eq_some hdesk
    exact .cancel ht
  | cancelling call =>
    simp only [advance] at h
    split at h
    · cases h
      exact .cancelled
    · cases h
  | sent asks => cases h
  | failed e => cases h

inductive Closing.Moves (s : Line) : Closing → Line → Closing → Prop where
  | win (h : s.channel.active = true) :
      Moves s .begun { s with channel := s.channel.deactivate.2 } .won
  | lose (h : s.channel.active = false) :
      Moves s .begun { s with channel := s.channel.deactivate.2 } .lost
  | cancelAll {order : List (Identity × Pending)} {t : Traffic}
      (h : s.traffic.step (.cancelAll order) = some t) :
      Moves s .won (s.withTraffic t) (.draining s.calls.length)
  | drained {call : Nat} {cause : Traffic.Cause} {removed : List (Identity × Pending)}
      {verdict : Traffic.Verdict} (h : s.calls[call]? = some (.ending cause removed [] verdict)) :
      Moves s (.draining call) s .cancelled
  | signal : Moves s .cancelled { s with channel := s.channel.signal } .done

/-- And likewise for a close. -/
theorem Closing.moves_of_advance {order : List (Identity × Pending)} {stage next : Closing}
    (h : stage.advance s order = some (s', next)) : stage.Moves s s' next := by
  cases stage with
  | begun =>
    cases h
    by_cases hactive : s.channel.deactivate.1 = true
    · rw [if_pos hactive]
      exact .win hactive
    · rw [if_neg hactive]
      exact .lose (by simpa [Channel.deactivate] using hactive)
  | won =>
    obtain ⟨mid, hdesk, heq⟩ := Option.map_eq_some_iff.mp h
    cases heq
    obtain ⟨t, ht, rfl⟩ := onDesk_eq_some hdesk
    exact .cancelAll ht
  | draining call =>
    simp only [advance] at h
    split at h
    · rename_i hcall
      cases h
      exact .drained hcall
    · cases h
  | cancelled =>
    cases h
    exact .signal
  | done => cases h
  | lost => cases h

inductive Use.Moves (s : Line) : Use → Line → Use → Prop where
  | sending {w : Parcel} {stage next : Sending} {s' : Line} (h : stage.Moves s w s' next) :
      Moves s (.sending w stage) s' (.sending w next)
  | closing {stage next : Closing} {s' : Line} (h : stage.Moves s s' next) :
      Moves s (.closing stage) s' (.closing next)

theorem Use.moves_of_advance {order : List (Identity × Pending)} {u u' : Use}
    (h : u.advance s order = some (s', u')) : u.Moves s s' u' := by
  cases u with
  | sending w stage =>
    obtain ⟨⟨mid, next⟩, hnext, heq⟩ := Option.map_eq_some_iff.mp h
    cases heq
    exact .sending (Sending.moves_of_advance hnext)
  | closing stage =>
    obtain ⟨⟨mid, next⟩, hnext, heq⟩ := Option.map_eq_some_iff.mp h
    cases heq
    exact .closing (Closing.moves_of_advance hnext)

def Use.Begins : Use → Prop
  | sending _ stage => stage = .begun
  | closing stage => stage = .begun

/-- What a step of a use, of the desk or of a loop can lead to, with what lets it happen. -/
inductive Turn (s : Line) : Line → Prop where
  | go {n : Nat} {u u' : Use} {mid : Line} (hn : s.uses[n]? = some u) (h : u.Moves s mid u') :
      Turn s { mid with uses := s.uses.set n u' }
  | desk {e : Traffic.Event} {t : Traffic} (he : e.unasked = true) (h : s.traffic.step e = some t) :
      Turn s (s.withTraffic t)
  | write {outgoing : Pipe} {queue : List (List UInt8)} {queued : Int} {writer : Writer}
      {stats : ChannelStats} (h : s.channel.writer ≠ .ended)
      (hflow : outgoing.content ++ writer.unwritten ++ queue.flatten =
        s.outgoing.content ++ s.channel.writer.unwritten ++ s.channel.queue.flatten) :
      Turn s { s with outgoing, channel := { s.channel with queue, queued, writer, stats } }
  | retire : Turn s { s with channel := { s.channel with writer := .ended, queue := [] } }
  | pass {decoder decoder' : Decoder} {buffered buffered' : List UInt8} {p : Packet}
      {stats : ChannelStats} (hreader : s.channel.reader = .reading decoder buffered)
      (hdecode : decoder.decode buffered = (.packet p, decoder', buffered')) (hp : p.id = none) :
      Turn s { s with channel := { s.channel with
        reader := .reading decoder' buffered', stats, inbox := s.channel.inbox ++ [p] } }
  | complete {decoder decoder' : Decoder} {buffered buffered' : List UInt8} {p : Packet}
      {id : Identity} {stats : ChannelStats} {inbox : List Packet}
      (hreader : s.channel.reader = .reading decoder buffered)
      (hdecode : decoder.decode buffered = (.packet p, decoder', buffered')) (hp : p.id = some id)
      (hinbox : inbox =
        if s.channel.desk.isPending id then s.channel.inbox else s.channel.inbox ++ [p]) :
      Turn s (withTraffic { s with channel := { s.channel with
        reader := .reading decoder' buffered', stats, inbox } } (s.traffic.take (.response p) id))
  | load {decoder decoder' : Decoder} {buffered buffered' octets : List UInt8} {incoming : Pipe}
      {stats : ChannelStats} (hreader : s.channel.reader = .reading decoder buffered)
      (hdecode : decoder.decode buffered = (.more, decoder', buffered'))
      (htake : s.incoming.content = octets ++ incoming.content) :
      Turn s { s with incoming, channel := { s.channel with
        reader := .reading decoder' (buffered' ++ octets), stats } }
  | quit : Turn s { s with channel := { s.channel with reader := .ended } }
  | dispatch {inbox : List Packet} : Turn s { s with channel := { s.channel with inbox } }

/-- The states that one step can lead to: a use begins, someone goes on, or octets come in
or go out. -/
inductive Move (s : Line) : Line → Prop where
  | begin {u : Use} (h : u.Begins) : Move s { s with uses := s.uses ++ [u] }
  | turn {s' : Line} (h : Turn s s') : Move s s'
  | arrive {octets : List UInt8} {incoming : Pipe}
      (h : incoming.content = s.incoming.content ++ octets) : Move s { s with incoming }
  | depart {octets : List UInt8} {outgoing : Pipe}
      (h : s.outgoing.content = octets ++ outgoing.content) : Move s { s with outgoing }

/-- A step of the writer that does not end it moves octets along and nothing else. -/
theorem stepWriter_eq_some {w : Wired} (h : s.stepWriter = some w)
    (hw : w.channel.writer ≠ .ended) :
    s.channel.writer ≠ .ended ∧ ∃ outgoing queue queued writer stats,
      w = { s.toWired with outgoing, channel := { s.channel with queue, queued, writer, stats } } ∧
      outgoing.content ++ writer.unwritten ++ queue.flatten =
        s.outgoing.content ++ s.channel.writer.unwritten ++ s.channel.queue.flatten := by
  cases Wired.writes_of_stepWriter h with
  | take hwriter hqueue =>
    rw [hwriter, hqueue]
    exact ⟨nofun, _, _, _, _, _, rfl, by simp [Writer.unwritten]⟩
  | finish hwriter hqueue =>
    rw [hwriter, hqueue]
    exact ⟨nofun, _, _, _, _, _, rfl, by simp [Writer.unwritten, hqueue]⟩
  | countOff hwriter | written hwriter | block hwriter | wake hwriter =>
    rw [hwriter]
    exact ⟨nofun, _, _, _, _, _, rfl, by simp [Writer.unwritten, Channel.countDown]⟩
  | put hwriter hput =>
    rw [hwriter]
    refine ⟨nofun, _, _, _, _, _, rfl, ?_⟩
    rw [Pipe.content_of_put hput, Writer.unwritten, Writer.unwritten,
      List.append_assoc s.outgoing.content, List.take_append_drop]
  | fail hended => exact absurd hended hw

/-- The reader goes on when it finds a packet, which it hands over, or when it takes octets
in. -/
theorem read_eq_some (h : s.read = some s') :
    ∃ decoder buffered decoder' buffered', s.channel.reader = .reading decoder buffered ∧
      ((∃ p, decoder.decode buffered = (.packet p, decoder', buffered') ∧
        receive { s with channel := { s.channel with
          reader := .reading decoder' buffered' } } p = some s') ∨
      ∃ octets incoming stats, decoder.decode buffered = (.more, decoder', buffered') ∧
        s.incoming.content = octets ++ incoming.content ∧
        s' = { s with incoming, channel := { s.channel with
          reader := .reading decoder' (buffered' ++ octets), stats } }) := by
  simp only [read] at h
  split at h
  · cases h
  · rename_i decoder buffered hreader
    split at h
    · rename_i p decoder' buffered' hdecode
      exact ⟨decoder, buffered, decoder', buffered', hreader, .inl ⟨p, hdecode, h⟩⟩
    · rename_i hdecode
      obtain ⟨w, hw, hrest⟩ := Option.bind_eq_some_iff.mp h
      split at hrest
      · cases hrest
      · rename_i hreading
        cases hrest
        simp only [Wired.stepReader, hreader] at hw
        split at hw
        · rename_i p decoder' buffered' hpacket
          exact absurd hpacket (hdecode p decoder' buffered')
        · cases hw
          exact absurd (Wired.reader_endReader _) hreading
        · rename_i decoder' buffered' hmore
          split at hw
          · rename_i octets incoming htake
            split at hw
            · cases hw
              exact absurd (Wired.reader_endReader _) hreading
            · cases hw
              exact ⟨decoder, buffered, decoder', buffered', hreader, .inr
                ⟨octets, incoming, _, hmore, Pipe.content_of_take htake, rfl⟩⟩
          · cases hw
            exact absurd (Wired.reader_endReader _) hreading
          · split at hw
            · cases hw
              exact absurd (Wired.reader_endReader _) hreading
            · cases hw

theorem turn_of_read (h : s.read = some s') : Turn s s' := by
  obtain ⟨decoder, buffered, decoder', buffered', hreader,
    ⟨p, hdecode, hreceive⟩ | ⟨octets, incoming, stats, hdecode, htake, rfl⟩⟩ := read_eq_some h
  · cases hp : p.id with
    | none =>
      rw [receive_of_none _ hp] at hreceive
      cases hreceive
      exact .pass hreader hdecode hp
    | some id =>
      rw [receive_of_some _ hp] at hreceive
      simp only [hp, onDesk, Traffic.step, Option.map_some] at hreceive
      by_cases hpending : s.channel.desk.isPending id = true
      · rw [if_pos hpending] at hreceive
        cases hreceive
        exact .complete hreader hdecode hp (if_pos hpending).symm
      · rw [if_neg hpending] at hreceive
        cases hreceive
        exact .complete hreader hdecode hp (if_neg hpending).symm
  · exact .load hreader hdecode htake

def Event.isTurn : Event → Bool
  | send _ | close | arrive _ | depart _ => false
  | go _ _ | desk _ | write | retire | read | quit | dispatch => true

/-- Whoever goes on, the step is one of theirs. -/
theorem turn_of_step {e : Event} (he : e.isTurn = true) (h : s.step e = some s') : Turn s s' := by
  cases e with
  | send w | close | arrive octets | depart limit => cases he
  | go n order =>
    obtain ⟨u, hn, hrest⟩ := Option.bind_eq_some_iff.mp h
    obtain ⟨⟨mid, u'⟩, hnext, heq⟩ := Option.bind_eq_some_iff.mp hrest
    cases heq
    exact .go hn (Use.moves_of_advance hnext)
  | desk e =>
    simp only [step] at h
    split at h
    · rename_i he
      obtain ⟨t, ht, rfl⟩ := onDesk_eq_some h
      exact .desk he ht
    · cases h
  | write =>
    obtain ⟨w, hw, hrest⟩ := Option.bind_eq_some_iff.mp h
    split at hrest
    · cases hrest
    · rename_i hwriter
      cases hrest
      obtain ⟨hbefore, _, _, _, _, _, rfl, hflow⟩ := stepWriter_eq_some hw hwriter
      exact .write hbefore hflow
  | retire =>
    cases h
    exact .retire
  | read => exact turn_of_read h
  | quit =>
    cases h
    exact .quit
  | dispatch =>
    simp only [step] at h
    split at h
    · cases h
    · cases h
      exact .dispatch

theorem arrive_eq_some {octets : List UInt8} (h : s.step (.arrive octets) = some s') :
    ∃ incoming : Pipe, incoming.content = s.incoming.content ++ octets ∧
      s' = { s with incoming } := by
  simp only [step] at h
  split at h
  · rename_i count incoming hput
    split at h
    · rename_i hcount
      subst hcount
      cases h
      have hcontent := Pipe.content_of_put hput
      rw [List.take_length] at hcontent
      exact ⟨incoming, hcontent, rfl⟩
    · cases h
  · cases h

/-- Every step is a turn, the beginning of a use, or octets that come or go. -/
theorem move_of_step {e : Event} (h : s.step e = some s') : Move s s' := by
  cases e with
  | send w =>
    cases h
    exact .begin rfl
  | close =>
    cases h
    exact .begin rfl
  | arrive octets =>
    obtain ⟨incoming, hcontent, rfl⟩ := arrive_eq_some h
    exact .arrive hcontent
  | depart limit =>
    simp only [step] at h
    split at h
    · rename_i htake
      cases h
      exact .depart (Pipe.content_of_take htake)
    · cases h
  | go n order | desk e | write | retire | read | quit | dispatch =>
    exact .turn (turn_of_step rfl h)

/-- What every move keeps, every run keeps. -/
theorem run_induction {P : Line → Prop} (hmove : ∀ s s', Move s s' → P s → P s')
    {es : List Event} (h : s.run es = some s') (hs : P s) : P s' := by
  induction es generalizing s with
  | nil =>
    cases h
    exact hs
  | cons e es ih =>
    obtain ⟨mid, hmid, hrest⟩ := Option.bind_eq_some_iff.mp h
    exact ih hrest (hmove s mid (move_of_step hmid) hs)

/-- Steps of nobody but the calls on the desk. -/
theorem run_desk {es : List Traffic.Event} {t : Traffic} (hes : ∀ e ∈ es, e.unasked = true)
    (h : s.traffic.run es = some t) : s.run (es.map .desk) = some (s.withTraffic t) := by
  induction es generalizing s with
  | nil =>
    cases h
    rfl
  | cons e es ih =>
    obtain ⟨mid, hmid, hrest⟩ := Option.bind_eq_some_iff.mp h
    have hstep : s.step (.desk e) = some (s.withTraffic mid) := by
      simp only [step, hes e (List.mem_cons_self ..), if_true, onDesk, hmid, Option.map_some]
    rw [List.map_cons, run, hstep, Option.bind_some]
    exact ih (fun e he => hes e (List.mem_cons_of_mem _ he)) hrest

end Line

end Switchboard
