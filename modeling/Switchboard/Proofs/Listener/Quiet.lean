import Switchboard.Proofs.Listener.Dispatch

/-!
# Listeners that leave the registries alone

A run that makes no request to register or to remove a listener leaves every registry as it
is, however it ends (`Action.Quiet.directory_run`). Ready-made listeners are like that but
for those whose behaviour is to change a registry or to dispatch in turn, and so is the
service of remote methods (`Listener.quiet_run`).
-/

namespace Switchboard

/-- No request of the run changes a registry, whatever is answered to it. -/
inductive Action.Quiet {α : Type} : Action α → Prop
  | pure (a : α) : Quiet (.pure a)
  | note {entry : Note} {next : Action α} (h : Quiet next) : Quiet (.note entry next)
  | send {p : Packet} {next : Except ChannelError Unit → Action α} (h : ∀ r, Quiet (next r)) :
      Quiet (.send p next)
  | ask {p : Packet} {next : Except ChannelError Packet → Action α} (h : ∀ r, Quiet (next r)) :
      Quiet (.ask p next)
  | close {next : Action α} (h : Quiet next) : Quiet (.close next)
  | chain {registry : String} {next : List String → Action α} (h : ∀ names, Quiet (next names)) :
      Quiet (.chain registry next)
  | snapshot {registry : String} {on : Int32} {next : List Listener → Action α}
      (h : ∀ ls, Quiet (next ls)) : Quiet (.snapshot registry on next)
  | handlers {next : Handlers → Action α} (h : ∀ t, Quiet (next t)) : Quiet (.handlers next)

namespace Action.Quiet

variable {α β : Type}

theorem bind {a : Action α} {f : α → Action β} (ha : a.Quiet) (hf : ∀ v, (f v).Quiet) :
    (a >>= f).Quiet := by
  show (a.bind f).Quiet
  induction ha with
  | pure a => exact hf a
  | note _ ih => exact .note ih
  | send _ ih => exact .send ih
  | ask _ ih => exact .ask ih
  | close _ ih => exact .close ih
  | chain _ ih => exact .chain ih
  | snapshot _ ih => exact .snapshot ih
  | handlers _ ih => exact .handlers ih

/-- By induction on the run: no request of it changes a registry. -/
theorem directory_run {a : Action α} (h : a.Quiet) (d : Detached) :
    (Detached.run a d).2.directory = d.directory := by
  induction h generalizing d with
  | pure a => rfl
  | note _ ih => exact ih _
  | send _ ih => exact ih _ _
  | ask _ ih => exact ih _ _
  | close _ ih => exact ih _
  | chain _ ih => exact ih _ _
  | snapshot _ ih => exact ih _ _
  | handlers _ ih => exact ih _ _

end Action.Quiet

namespace Attempt

variable {α β : Type}

def Quiet (a : Attempt α) : Prop := Action.Quiet a.run

theorem Quiet.pure (v : α) : Quiet (Pure.pure v : Attempt α) := Action.Quiet.pure _

theorem Quiet.throw (o : Outcome) : Quiet (MonadExcept.throw o : Attempt α) := Action.Quiet.pure _

theorem Quiet.bind {a : Attempt α} {f : α → Attempt β} (ha : a.Quiet) (hf : ∀ v, (f v).Quiet) :
    (a >>= f).Quiet := by
  refine Action.Quiet.bind ha fun r => ?_
  cases r with
  | ok v => exact hf v
  | error o => exact Action.Quiet.pure (Except.error o)

theorem Quiet.request {a : Action α} (h : a.Quiet) : (request a).Quiet :=
  h.bind fun _ => .pure _

theorem quiet_send (p : Packet) : (send p).Quiet := by
  refine (Quiet.request (.send fun r => .pure r)).bind fun r => ?_
  cases r with
  | ok v => exact .pure ()
  | error e => exact .throw _

theorem quiet_respond (p : Packet) (content : Buffer) : (respond p content).Quiet := by
  rw [respond, respondBy]
  split
  · exact quiet_send _
  · exact .throw _

theorem quiet_note (entry : Note) : (note entry).Quiet := .request (.note (.pure ()))

theorem quiet_forM {f : α → Attempt Unit} (h : ∀ v, (f v).Quiet) (l : List α) :
    (l.forM f).Quiet := by
  induction l with
  | nil => exact .pure ()
  | cons v l ih => exact (h v).bind fun _ => ih

theorem Quiet.outcome {a : Attempt Unit} (h : a.Quiet) : a.outcome.Quiet := by
  refine Action.Quiet.bind h fun r => ?_
  cases r with
  | ok v => exact .pure _
  | error o => exact .pure _

end Attempt

open Attempt

/-- The service asks for handlers and sends, and leaves registries alone. -/
theorem quiet_serve (p : Packet) : (serve p).Quiet := by
  rw [serve_eq]
  split
  · split
    · exact (quiet_respond _ _).bind fun _ => .throw _
    · exact .throw _
  · refine (Quiet.request (.handlers fun t => .pure t)).bind fun t => ?_
    split
    · exact quiet_respond _ _
    · exact .pure _

/-- Neither changes a registry nor dispatches. -/
def Behaviour.Quiet : Behaviour → Prop
  | record | fail _ | panic | reply _ | echo | replyText _ | forward _ | ask _ | close => True
  | register _ _ _ _ | unregister _ _ _ | unregisterChannel _ _ | dispatch _ _ => False

def Listener.Quiet : Listener → Prop
  | stock _ b => b.Quiet
  | service => True

/-- A quiet behaviour makes a quiet run, whatever its listener is named. -/
theorem Behaviour.quiet_run (inner : String → Packet → Action Nat) (name : String) (p : Packet)
    {b : Behaviour} (h : b.Quiet) : (b.run inner name p).Quiet := by
  cases b with
  | record => exact .pure ()
  | fail message => exact .throw _
  | panic => exact .throw _
  | reply contents => exact quiet_forM (fun s => quiet_respond p _) contents
  | echo => exact quiet_respond p _
  | replyText lead =>
    rw [Behaviour.run]
    split
    · exact quiet_respond p _
    · exact .throw _
  | forward channel => exact quiet_send _
  | ask channel =>
    refine (Attempt.Quiet.request (.ask fun r => .pure r)).bind fun r => ?_
    cases r with
    | error e => exact .throw _
    | ok answer =>
      refine (quiet_note _).bind fun _ => ?_
      split
      · exact quiet_respond p _
      · exact .pure ()
  | close => exact .request (.close (.pure ()))
  | register | unregister | unregisterChannel | dispatch => exact h.elim

/-- A listener's run is as quiet as its behaviour, also where that fails. -/
theorem Listener.quiet_run (inner : String → Packet → Action Nat) (p : Packet) {l : Listener}
    (h : l.Quiet) : (l.run inner p).Quiet := by
  cases l with
  | service => exact (quiet_serve p).outcome.bind fun _ => .pure ()
  | stock name b =>
    refine Action.Quiet.bind (.note (.pure ())) fun _ => ?_
    refine (b.quiet_run inner name p h).outcome.bind fun o => ?_
    split
    · exact .note (.pure ())
    · exact .pure ()

end Switchboard
