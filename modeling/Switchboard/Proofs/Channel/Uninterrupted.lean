import Switchboard.Proofs.Channel.Line

/-!
# Uses without interruption

A send, a query, a close or a packet that is read, taken step after step while nobody else
moves, does what the channel's function of that name does at once.
-/

namespace Switchboard.Line

open Traffic (Registration)

variable {s mid s' : Line} {n : Nat}

/-- Some turns lead from one state to the other, while no use begins and the stream carries
nothing. -/
def Reaches (s s' : Line) : Prop :=
  ∃ es : List Event, (∀ e ∈ es, e.isTurn = true) ∧ s.run es = some s'

theorem run_append (s : Line) (es fs : List Event) :
    s.run (es ++ fs) = (s.run es).bind fun s => s.run fs := by
  induction es generalizing s with
  | nil => rfl
  | cons e es ih =>
    rw [List.cons_append, run, run, Option.bind_assoc]
    exact congrArg _ (funext fun s => ih s)

namespace Reaches

theorem refl (s : Line) : Reaches s s := ⟨[], by simp, rfl⟩

theorem step {e : Event} (he : e.isTurn = true) (h : s.step e = some s') : Reaches s s' :=
  ⟨[e], List.forall_mem_singleton.mpr he, by rw [run, h]; rfl⟩

theorem trans (h : Reaches s mid) (h' : Reaches mid s') : Reaches s s' := by
  obtain ⟨es, hturns, hes⟩ := h
  obtain ⟨fs, hturns', hfs⟩ := h'
  refine ⟨es ++ fs, List.forall_mem_append.mpr ⟨hturns, hturns'⟩, ?_⟩
  rw [run_append, hes, Option.bind_some, hfs]

/-- What goes on at the desk alone goes on there in the line. -/
theorem desk {es : List Traffic.Event} {t : Traffic} (hes : ∀ e ∈ es, e.unasked = true)
    (h : s.traffic.run es = some t) : Reaches s (s.withTraffic t) := by
  refine ⟨es.map .desk, fun e he => ?_, run_desk hes h⟩
  obtain ⟨asked, -, rfl⟩ := List.mem_map.mp he
  rfl

end Reaches

def withUse (s : Line) (n : Nat) (u : Use) : Line := { s with uses := s.uses.set n u }

@[simp] theorem channel_withUse (s : Line) (n : Nat) (u : Use) :
    (s.withUse n u).channel = s.channel := rfl

@[simp] theorem calls_withUse (s : Line) (n : Nat) (u : Use) :
    (s.withUse n u).calls = s.calls := rfl

theorem withUse_self {u : Use} (h : s.uses[n]? = some u) : s.withUse n u = s := by
  obtain ⟨hn, rfl⟩ := List.getElem?_eq_some_iff.mp h
  simp only [withUse, List.set_getElem_self]

theorem onDesk_withUse (s : Line) (n : Nat) (u : Use) (e : Traffic.Event) :
    (s.withUse n u).onDesk e = (s.onDesk e).map (·.withUse n u) := by
  simp only [onDesk, Option.map_map]
  rfl

/-- A send does not look at the other uses. -/
theorem Sending.advance_withUse (s : Line) (n : Nat) (u : Use) (w : Parcel) (stage : Sending) :
    stage.advance (s.withUse n u) w = (stage.advance s w).map fun x => (x.1.withUse n u, x.2) := by
  cases stage with
  | begun | queueing frame asks | sent asks | failed e => rfl
  | admitted =>
    simp only [advance, channel_withUse]
    cases s.channel.frame w.packet <;> rfl
  | framed frame =>
    cases w with
    | plain p => rfl
    | answer r id content => rfl
    | query p id timeout =>
      simp only [advance, onDesk_withUse, Option.map_map]
      rfl
  | registering frame call =>
    simp only [advance, calls_withUse]
    split <;> simp_all
  | counted frame asks =>
    simp only [advance, channel_withUse]
    cases s.channel.push frame <;> rfl
  | refused asks => cases asks <;> rfl
  | withdrawing r =>
    simp only [advance, onDesk_withUse, Option.map_map]
    rfl
  | cancelling call =>
    simp only [advance, calls_withUse]
    split <;> simp_all

/-- A close does not look at the other uses. -/
theorem Closing.advance_withUse (s : Line) (n : Nat) (u : Use) (order : List (Identity × Pending))
    (stage : Closing) : stage.advance (s.withUse n u) order =
      (stage.advance s order).map fun x => (x.1.withUse n u, x.2) := by
  cases stage with
  | begun | cancelled | done | lost => rfl
  | won =>
    simp only [advance, onDesk_withUse, Option.map_map]
    rfl
  | draining call =>
    simp only [advance, calls_withUse]
    split <;> simp_all

theorem Use.advance_withUse (s : Line) (n : Nat) (v : Use) (order : List (Identity × Pending))
    (u : Use) : u.advance (s.withUse n v) order =
      (u.advance s order).map fun x => (x.1.withUse n v, x.2) := by
  cases u with
  | sending w stage => simp only [advance, Sending.advance_withUse, Option.map_map]; rfl
  | closing stage => simp only [advance, Closing.advance_withUse, Option.map_map]; rfl

theorem Use.Moves.uses {u u' : Use} (h : u.Moves s mid u') : mid.uses = s.uses := by
  cases h with
  | sending h => cases h <;> rfl
  | closing h => cases h <;> rfl

/-- One step of a use in its place. -/
theorem reaches_go {u u' : Use} {o : List (Identity × Pending)} (hn : n < s.uses.length)
    (h : u.advance s o = some (mid, u')) : Reaches (s.withUse n u) (mid.withUse n u') := by
  have huses := (Use.moves_of_advance h).uses
  have hget : (s.withUse n u).uses[n]? = some u := List.getElem?_set_self hn
  apply Reaches.step (e := .go n o) rfl
  simp only [step, hget, Option.bind_eq_bind, Option.bind_some, Use.advance_withUse, h,
    Option.map_some]
  simp [withUse, huses]

/-- One step of a send is one turn of the line. -/
theorem reaches_sending {w : Parcel} {stage next : Sending} (hn : n < s.uses.length)
    (h : stage.advance s w = some (mid, next)) :
    Reaches (s.withUse n (.sending w stage)) (mid.withUse n (.sending w next)) := by
  have hgo : (Use.sending w stage).advance s [] = some (mid, .sending w next) := by
    simp only [Use.advance, h, Option.map_some]
  exact reaches_go hn hgo

/-- A use makes a call on the desk, and the call goes on to its end. -/
theorem reaches_call {u u' : Use} {o : List (Identity × Pending)} {e : Traffic.Event}
    {k : Nat} {es : List Traffic.Event} {t : Traffic} (hn : n < s.uses.length)
    (h : u.advance s o = (s.onDesk e).map (·, u')) (hes : ∀ e ∈ es, e = .proceed k)
    (hrun : s.traffic.run (e :: es) = some t) :
    Reaches (s.withUse n u) ((s.withTraffic t).withUse n u') := by
  obtain ⟨t', hstep, hrest⟩ := Option.bind_eq_some_iff.mp hrun
  rw [onDesk, hstep] at h
  have hunasked : ∀ e ∈ es, e.unasked = true := by
    intro e he
    rw [hes e he]
    rfl
  let called := (s.withTraffic t').withUse n u'
  exact (reaches_go hn h).trans (Reaches.desk (s := called) hunasked hrest)

def Sending.ended {α : Type} (asks : α → Option Registration) : Except ChannelError α → Sending
  | .ok a => .sent (asks a)
  | .error e => .failed e

section

variable {w : Parcel} {frame : List UInt8} {asks : Option Registration} {channel : Channel}

/-- The active flag is read, and the frame is made. -/
theorem reaches_framed (hn : n < s.uses.length) (hactive : s.channel.active = true)
    (hframe : s.channel.frame w.packet = .ok frame) :
    Reaches (s.withUse n (.sending w .begun)) (s.withUse n (.sending w (.framed frame))) := by
  have hadmit : Sending.begun.advance s w = some (s, .admitted) := by
    simp only [Sending.advance, hactive, if_true]
  have hencode : Sending.admitted.advance s w = some (s, .framed frame) := by
    simp only [Sending.advance, hframe]
  exact (reaches_sending hn hadmit).trans (reaches_sending hn hencode)

theorem reaches_oversize {e : ChannelError} (hn : n < s.uses.length)
    (hactive : s.channel.active = true) (hframe : s.channel.frame w.packet = .error e) :
    Reaches (s.withUse n (.sending w .begun)) (s.withUse n (.sending w (.failed e))) := by
  have hadmit : Sending.begun.advance s w = some (s, .admitted) := by
    simp only [Sending.advance, hactive, if_true]
  have hencode : Sending.admitted.advance s w = some (s, .failed e) := by
    simp only [Sending.advance, hframe]
  exact (reaches_sending hn hadmit).trans (reaches_sending hn hencode)

theorem reaches_barred (hn : n < s.uses.length) (hactive : s.channel.active = false) :
    Reaches (s.withUse n (.sending w .begun)) (s.withUse n (.sending w (.failed .closed))) := by
  have hbar : Sending.begun.advance s w = some (s, .failed .closed) := by
    simp only [Sending.advance, hactive, Bool.false_eq_true, if_false]
  exact reaches_sending hn hbar

/-- The frame is counted and then queued. -/
theorem reaches_sent (hn : n < s.uses.length) (hpush : s.channel.countUp.push frame = .ok channel) :
    Reaches (s.withUse n (.sending w (.queueing frame asks)))
      ({ s with channel }.withUse n (.sending w (.sent asks))) := by
  have hsend : (Sending.counted frame asks).advance { s with channel := s.channel.countUp } w =
      some ({ s with channel }, .sent asks) := by
    simp only [Sending.advance, hpush]
  have hcount : Reaches (s.withUse n (.sending w (.queueing frame asks)))
      ({ s with channel := s.channel.countUp }.withUse n (.sending w (.counted frame asks))) :=
    reaches_sending hn rfl
  exact hcount.trans (reaches_sending hn hsend)

/-- A writer that is gone refuses the frame once it is counted. -/
theorem reaches_refused {e : ChannelError} (hn : n < s.uses.length)
    (hpush : s.channel.countUp.push frame = .error e) :
    Reaches (s.withUse n (.sending w (.queueing frame asks)))
      ({ s with channel := s.channel.countUp }.withUse n (.sending w (.refused asks))) := by
  have hrefuse : (Sending.counted frame asks).advance { s with channel := s.channel.countUp } w =
      some ({ s with channel := s.channel.countUp }, .refused asks) := by
    simp only [Sending.advance, hpush]
  have hcount : Reaches (s.withUse n (.sending w (.queueing frame asks)))
      ({ s with channel := s.channel.countUp }.withUse n (.sending w (.counted frame asks))) :=
    reaches_sending hn rfl
  exact hcount.trans (reaches_sending hn hrefuse)

end

theorem closed_of_push {c : Channel} {frame : List UInt8} {e : ChannelError}
    (h : c.push frame = .error e) : e = .closed := by
  simp only [Channel.push] at h
  split at h <;> cases h
  rfl

/-- A send that nobody interrupts. -/
theorem reaches_send {w : Parcel} (hn : s.uses[n]? = some (.sending w .begun))
    (hw : ∀ p id timeout, w ≠ .query p id timeout) :
    Reaches s ({ s with channel := (s.channel.send w.packet).2 }.withUse n
      (.sending w (.ended (fun _ => none) (s.channel.send w.packet).1))) := by
  obtain ⟨hlt, -⟩ := List.getElem?_eq_some_iff.mp hn
  have hbegin := withUse_self hn
  cases hactive : s.channel.active with
  | false =>
    have hbarred := reaches_barred (w := w) hlt hactive
    rw [hbegin] at hbarred
    simp only [Channel.send, hactive, Bool.false_eq_true, if_false]
    exact hbarred
  | true =>
    cases hframe : s.channel.frame w.packet with
    | error e =>
      have hfailed := reaches_oversize hlt hactive hframe
      rw [hbegin] at hfailed
      simp only [Channel.send, hactive, hframe, if_true]
      exact hfailed
    | ok frame =>
      have hframed := reaches_framed hlt hactive hframe
      have hpass : (Sending.framed frame).advance s w = some (s, .queueing frame none) := by
        cases w with
        | query p id timeout => exact absurd rfl (hw p id timeout)
        | plain p => rfl
        | answer r id content => rfl
      rw [hbegin] at hframed
      refine hframed.trans ((reaches_sending hlt hpass).trans ?_)
      cases hpush : s.channel.countUp.push frame with
      | ok channel =>
        simp only [Channel.send, Channel.enqueue, hactive, hframe, hpush, if_true]
        exact reaches_sent hlt hpush
      | error e =>
        simp only [Channel.send, Channel.enqueue, hactive, hframe, hpush, if_true,
          closed_of_push hpush]
        exact (reaches_refused hlt hpush).trans (reaches_sending hlt rfl)

section

variable {p : Packet} {id : Identity} {timeout : Nat} {frame : List UInt8}

/-- The entry comes first, then the alarm, and it is attached last. -/
theorem reaches_registered {ticket : Ticket} {desk : Desk} (hn : n < s.uses.length)
    (h : s.channel.desk.register id timeout s.now = .ok (ticket, desk)) :
    Reaches (s.withUse n (.sending (.query p id timeout) (.framed frame)))
      ((s.withTraffic ⟨desk, s.now, s.calls ++ [.registered ⟨ticket, id, timeout⟩]⟩).withUse n
        (.sending (.query p id timeout) (.queueing frame (some ⟨ticket, id, timeout⟩)))) := by
  have hcall : Reaches (s.withUse n (.sending (.query p id timeout) (.framed frame)))
      ((s.withTraffic ⟨desk, s.now, s.calls ++ [.registered ⟨ticket, id, timeout⟩]⟩).withUse n
        (.sending (.query p id timeout) (.registering frame s.calls.length))) := by
    apply reaches_call (o := []) (k := s.calls.length) hn _ _ (Traffic.run_register h)
    · simp only [Use.advance, Sending.advance, Option.map_map]
      rfl
    · simp [traffic]
  refine hcall.trans (reaches_sending hn ?_)
  simp only [Sending.advance, withTraffic, List.getElem?_concat_length]

/-- A registration that is refused leaves the desk as it was. -/
theorem reaches_unregistered {e : QueryError} (hn : n < s.uses.length)
    (h : s.channel.desk.register id timeout s.now = .error e) :
    Reaches (s.withUse n (.sending (.query p id timeout) (.framed frame)))
      ((s.withTraffic (s.traffic.opened (.refused id e))).withUse n
        (.sending (.query p id timeout) (.failed (.query e)))) := by
  have hstep : s.traffic.step (.register id timeout) = some (s.traffic.opened (.refused id e)) :=
    Traffic.step_register_error h
  have hcall : Reaches (s.withUse n (.sending (.query p id timeout) (.framed frame)))
      ((s.withTraffic (s.traffic.opened (.refused id e))).withUse n
        (.sending (.query p id timeout) (.registering frame s.calls.length))) := by
    apply reaches_sending hn
    simp only [Sending.advance, onDesk, hstep, Option.map_some]
  refine hcall.trans (reaches_sending hn ?_)
  simp only [Sending.advance, withTraffic, Traffic.opened, traffic, List.getElem?_concat_length]

def withdrawal (s : Line) (id : Identity) : Traffic.Call :=
  .ending (.cancel id) (s.traffic.entryOf id) [] (.found (s.channel.desk.cancel id).1)

/-- A query is withdrawn by taking its entry out, if it is still there. -/
theorem reaches_withdrawn {w : Parcel} {r : Registration} (hn : n < s.uses.length) :
    Reaches (s.withUse n (.sending w (.withdrawing r)))
      ((s.withTraffic ⟨(s.channel.desk.cancel r.id).2, s.now,
        s.calls ++ [s.withdrawal r.id]⟩).withUse n (.sending w (.failed .closed))) := by
  obtain ⟨steps, hrun⟩ := s.traffic.run_cancel r.id
  have hcall : Reaches (s.withUse n (.sending w (.withdrawing r)))
      ((s.withTraffic ⟨(s.channel.desk.cancel r.id).2, s.now,
        s.calls ++ [s.withdrawal r.id]⟩).withUse n (.sending w (.cancelling s.calls.length))) := by
    apply reaches_call (o := []) (k := s.calls.length) hn _ _ hrun
    · simp only [Use.advance, Sending.advance, Option.map_map]
      rfl
    · simp [traffic]
  refine hcall.trans (reaches_sending hn ?_)
  simp only [Sending.advance, withTraffic, withdrawal, List.getElem?_concat_length]

end

/-- A query that nobody interrupts, and the calls that it makes on the desk. -/
theorem reaches_query {p : Packet} {id : Identity} {timeout : Nat}
    (hn : s.uses[n]? = some (.sending (.query p id timeout) .begun)) (hid : p.id.getD id = id) :
    ∃ calls, Reaches s ({ s with
      channel := (s.channel.sendQuery p id timeout s.now).2
      calls := s.calls ++ calls }.withUse n (.sending (.query p id timeout)
        (.ended (fun asked : Identity × Ticket => some ⟨asked.2, asked.1, timeout⟩)
          (s.channel.sendQuery p id timeout s.now).1))) := by
  obtain ⟨hlt, -⟩ := List.getElem?_eq_some_iff.mp hn
  have hbegin := withUse_self hn
  cases hactive : s.channel.active with
  | false =>
    have hbarred := reaches_barred (w := .query p id timeout) hlt hactive
    rw [hbegin] at hbarred
    refine ⟨[], ?_⟩
    simp only [Channel.sendQuery, hactive, Bool.false_eq_true, if_false, List.append_nil]
    exact hbarred
  | true =>
    cases hframe : s.channel.frame (p.asQuery id) with
    | error e =>
      have hfailed := reaches_oversize (w := .query p id timeout) hlt hactive hframe
      rw [hbegin] at hfailed
      refine ⟨[], ?_⟩
      simp only [Channel.sendQuery, hactive, hid, hframe, if_true, List.append_nil]
      exact hfailed
    | ok frame =>
      have hframed := reaches_framed (w := .query p id timeout) hlt hactive hframe
      rw [hbegin] at hframed
      cases hregister : s.channel.desk.register id timeout s.now with
      | error e =>
        refine ⟨[.refused id e], hframed.trans ?_⟩
        simp only [Channel.sendQuery, hactive, hid, hframe, if_true, Channel.register, hregister]
        exact reaches_unregistered hlt hregister
      | ok registered =>
        obtain ⟨ticket, desk⟩ := registered
        let r : Registration := ⟨ticket, id, timeout⟩
        let entered := s.withTraffic ⟨desk, s.now, s.calls ++ [.registered r]⟩
        have hregistered : Reaches (s.withUse n (.sending (.query p id timeout) (.framed frame)))
            (entered.withUse n (.sending (.query p id timeout) (.queueing frame (some r)))) :=
          reaches_registered hlt hregister
        have hqueueing := hframed.trans hregistered
        cases hpush : entered.channel.countUp.push frame with
        | ok channel =>
          have hpush' : ({ s.channel with desk } : Channel).countUp.push frame = .ok channel :=
            hpush
          have hsend : s.channel.sendQuery p id timeout s.now = (.ok (id, ticket), channel) := by
            simp only [Channel.sendQuery, if_pos hactive, hid, hframe, Channel.register, hregister,
              Channel.enqueue, hpush']
          rw [hsend]
          exact ⟨[.registered r], hqueueing.trans (reaches_sent (s := entered) hlt hpush)⟩
        | error e =>
          have hpush' : ({ s.channel with desk } : Channel).countUp.push frame = .error e := hpush
          have hsend : s.channel.sendQuery p id timeout s.now = (.error .closed,
              Channel.cancel ({ s.channel with desk } : Channel).countUp.countDown id) := by
            simp only [Channel.sendQuery, if_pos hactive, hid, hframe, Channel.register, hregister,
              Channel.enqueue, hpush', closed_of_push hpush']
          let uncounted := { entered with channel := entered.channel.countUp.countDown }
          have hrefused : Reaches
              (entered.withUse n (.sending (.query p id timeout) (.queueing frame (some r))))
              ({ entered with channel := entered.channel.countUp }.withUse n
                (.sending (.query p id timeout) (.refused (some r)))) := reaches_refused hlt hpush
          have hwithdrawing : Reaches
              ({ entered with channel := entered.channel.countUp }.withUse n
                (.sending (.query p id timeout) (.refused (some r))))
              (uncounted.withUse n (.sending (.query p id timeout) (.withdrawing r))) :=
            reaches_sending hlt rfl
          have hwithdrawn :=
            reaches_withdrawn (s := uncounted) (w := .query p id timeout) (r := r) hlt
          have hcalls : s.calls ++ [.registered r, uncounted.withdrawal id] =
              s.calls ++ [.registered r] ++ [uncounted.withdrawal id] := by
            rw [List.append_assoc]
            rfl
          rw [hsend]
          refine ⟨[.registered r, uncounted.withdrawal id], hqueueing.trans (hrefused.trans
            (hwithdrawing.trans ?_))⟩
          rw [hcalls]
          exact hwithdrawn

theorem reaches_closing {stage next : Closing} {o : List (Identity × Pending)}
    (hn : n < s.uses.length) (h : stage.advance s o = some (mid, next)) :
    Reaches (s.withUse n (.closing stage)) (mid.withUse n (.closing next)) := by
  have hgo : (Use.closing stage).advance s o = some (mid, .closing next) := by
    simp only [Use.advance, h, Option.map_some]
  exact reaches_go hn hgo

def clearance (s : Line) : Traffic.Call :=
  .ending .cancelAll s.channel.desk.table.entries [] (.count s.channel.desk.cancelAll.1)

/-- A close that nobody interrupts, and the call that it makes on the desk. -/
theorem reaches_close (hn : s.uses[n]? = some (.closing .begun)) :
    ∃ calls, Reaches s ({ s with channel := s.channel.close, calls := s.calls ++ calls }.withUse n
      (.closing (if s.channel.active then .done else .lost))) := by
  obtain ⟨hlt, -⟩ := List.getElem?_eq_some_iff.mp hn
  let swapped := { s with channel := s.channel.deactivate.2 }
  have hswap : Reaches s (swapped.withUse n
      (.closing (if s.channel.deactivate.1 then .won else .lost))) := by
    have hstep : Reaches (s.withUse n (.closing .begun)) (swapped.withUse n
        (.closing (if s.channel.deactivate.1 then .won else .lost))) :=
      reaches_closing (o := []) hlt rfl
    rwa [withUse_self hn] at hstep
  rw [Channel.close_eq]
  cases hactive : s.channel.active with
  | false =>
    have hlost : s.channel.deactivate.1 = false := hactive
    rw [hlost] at hswap
    refine ⟨[], ?_⟩
    rw [List.append_nil]
    exact hswap
  | true =>
    have hwon : s.channel.deactivate.1 = true := hactive
    rw [hwon] at hswap
    obtain ⟨steps, hrun⟩ := swapped.traffic.run_cancelAll
    let cleared := swapped.withTraffic
      ⟨s.channel.desk.cancelAll.2, s.now, s.calls ++ [s.clearance]⟩
    have hcall : Reaches (swapped.withUse n (.closing .won))
        (cleared.withUse n (.closing (.draining s.calls.length))) := by
      apply reaches_call (s := swapped) (o := s.channel.desk.table.entries) (k := s.calls.length)
        hlt _ _ hrun
      · simp only [Use.advance, Closing.advance, Option.map_map]
        rfl
      · simp [traffic, swapped]
    have hdrained : (Closing.draining s.calls.length).advance cleared [] =
        some (cleared, .cancelled) := by
      simp only [Closing.advance, cleared, withTraffic, clearance, List.getElem?_concat_length]
    have hsignal : Reaches (cleared.withUse n (.closing .cancelled))
        ({ cleared with channel := cleared.channel.signal }.withUse n (.closing .done)) :=
      reaches_closing (o := []) hlt rfl
    have hcancelled := reaches_closing (s := cleared) hlt hdrained
    exact ⟨[s.clearance], hswap.trans (hcall.trans (hcancelled.trans hsignal))⟩

/-- A writer that waits takes a frame off the queue, counts it off and writes what there is room
for. -/
theorem reaches_written {frame : List UInt8} {queue : List (List UInt8)} {count : Nat}
    {outgoing : Pipe} (hwriter : s.channel.writer = .waiting)
    (hqueue : s.channel.queue = frame :: queue) (hframe : frame ≠ []) (hbroken : s.broken = false)
    (hput : s.outgoing.put frame = (.accepted count, outgoing)) :
    Reaches s { s with
      outgoing
      channel := { s.channel.countDown with
        queue, writer := .writing frame.length (frame.drop count) } } := by
  let holding := { s with channel := { s.channel with queue, writer := .holding frame } }
  let writing := { s with channel := { s.channel.countDown with
    queue, writer := .writing frame.length frame } }
  have htake : s.step .write = some holding := by
    simp [step, Wired.stepWriter, hwriter, hqueue, holding]
  have hcount : holding.step .write = some writing := rfl
  refine (Reaches.step rfl htake).trans ((Reaches.step rfl hcount).trans ?_)
  obtain ⟨b, rest, rfl⟩ := List.exists_cons_of_ne_nil hframe
  refine Reaches.step (e := .write) rfl ?_
  simp [step, Wired.stepWriter, writing, hbroken, hput]

theorem complete_eq (d : Desk) {p : Packet} {id : Identity} (hp : p.id = some id) :
    (d.complete p).1 = d.isPending id := by
  simp only [Desk.complete, hp, Desk.take, QueryTable.remove, Desk.isPending, QueryTable.isPending]
  cases d.table.find? id <;> rfl

/-- A packet that is handed over, and the call that it makes on the desk. -/
theorem reaches_received (s : Line) (p : Packet) : ∃ calls mid, s.receive p = some mid ∧
    Reaches mid { s with channel := s.channel.receive p, calls := s.calls ++ calls } := by
  cases hp : p.id with
  | none =>
    refine ⟨[], _, receive_of_none s hp, ?_⟩
    simp only [Channel.receive_eq, Packet.isQuery, hp, Option.isSome_none, Bool.false_eq_true,
      if_false, List.append_nil]
    exact .refl _
  | some id =>
    obtain ⟨steps, hrun⟩ := s.traffic.run_complete p
    rw [hp, Option.toList_some, List.flatMap_singleton] at hrun
    obtain ⟨t, hstep, hrest⟩ := Option.bind_eq_some_iff.mp hrun
    have hunasked : ∀ e ∈ List.replicate steps (Traffic.Event.proceed s.traffic.calls.length),
        e.unasked = true := by
      intro e he
      rw [List.eq_of_mem_replicate he]
      rfl
    let counted := { s with channel := s.channel.countIn }
    have hdesk : counted.onDesk (.complete p) = some (counted.withTraffic t) := by
      rw [onDesk, show counted.traffic = s.traffic from rfl, hstep, Option.map_some]
    have hfound : (s.channel.desk.complete p).1 = s.channel.desk.isPending id :=
      complete_eq s.channel.desk hp
    have hchannel : s.channel.receive p =
        let answered := { counted.channel with desk := (s.channel.desk.complete p).2 }
        if s.channel.desk.isPending id then answered else answered.post p := by
      simp only [Channel.receive_eq, Packet.isQuery, hp, Option.isSome_some, if_true, hfound]
      rfl
    refine ⟨[.ending (.response p) (s.traffic.entryOf id) [] (.found (s.channel.desk.complete p).1)],
      _, (receive_of_some s hp).trans (congrArg _ hdesk), ?_⟩
    rw [hchannel]
    cases s.channel.desk.isPending id with
    | true => exact .desk (s := counted.withTraffic t) hunasked hrest
    | false =>
      let posted := { counted.withTraffic t with
        channel := (counted.withTraffic t).channel.post p }
      exact .desk (s := posted) hunasked hrest

/-- A reader without a packet takes octets in. -/
theorem reaches_loaded {decoder decoder' : Decoder} {buffered buffered' octets : List UInt8}
    {incoming : Pipe} (hreader : s.channel.reader = .reading decoder buffered)
    (hdecode : decoder.decode buffered = (.more, decoder', buffered'))
    (htake : s.incoming.take Wired.readWindow = (.octets octets, incoming))
    (hbroken : s.broken = false) : ∃ stats, Reaches s { s with
      incoming
      channel := { s.channel with reader := .reading decoder' (buffered' ++ octets), stats } } := by
  refine ⟨{ s.channel.stats with bytesReceived := s.channel.stats.bytesReceived + octets.length },
    Reaches.step (e := .read) rfl ?_⟩
  simp [step, read, Wired.stepReader, hreader, hdecode, htake, hbroken]

/-- What the program's reader does in one step, as long as it goes on. -/
theorem reaches_read {w : Wired} (h : s.stepReader = some w)
    (hreading : w.channel.reader ≠ .ended) :
    ∃ calls, Reaches s { s with toWired := w, calls := s.calls ++ calls } := by
  cases hreader : s.channel.reader with
  | ended =>
    simp only [Wired.stepReader, hreader] at h
    cases h
  | reading decoder buffered =>
    cases hdecode : decoder.decode buffered with
    | mk answer rest =>
      obtain ⟨decoder', buffered'⟩ := rest
      cases answer with
      | packet p =>
        let arrived := { s with channel := { s.channel with reader := .reading decoder' buffered' } }
        obtain ⟨calls, mid, hmid, hreaches⟩ := reaches_received arrived p
        have hread : s.step .read = some mid := by
          simp only [step, read, hreader, hdecode]
          exact hmid
        simp only [Wired.stepReader, hreader, hdecode] at h
        cases h
        exact ⟨calls, (Reaches.step rfl hread).trans hreaches⟩
      | more | failed =>
        refine ⟨[], .step (e := .read) rfl ?_⟩
        simp only [step, read, hreader, hdecode, h, Option.bind_some, if_neg hreading,
          List.append_nil]

end Switchboard.Line
