import Switchboard.Channel.Party

/-!
# The dispatcher

The program's dispatch, run with requests that can be answered one at a time: which
registries there are, which listeners one of them has then, and a listener to run. Whoever
answers them may let anything happen in between. As an action it is the program's own dispatch
of a packet (`Script.action_dispatch`).

The dispatcher goes through such a script for one packet after the other. What it takes and
what listeners then go through is a row of rounds, each of which ends before the next begins
(`Dispatcher.Follows`).
-/

namespace Switchboard

inductive Script (α : Type) where
  | done (a : α)
  /-- The names of the channel's registry and its ancestors. -/
  | chain (next : List String → Script α)
  /-- The listeners that a registry has now. -/
  | snapshot (registry : String) (next : List Listener → Script α)
  | invoke (l : Listener) (next : Script α)

namespace Script

variable {α β : Type}

def bind (a : Script α) (f : α → Script β) : Script β :=
  match a with
  | done a => f a
  | chain next => chain fun names => (next names).bind f
  | snapshot registry next => snapshot registry fun ls => (next ls).bind f
  | invoke l next => invoke l (next.bind f)

instance : Monad Script where
  pure := done
  bind := bind

def dispatch : Script Nat := do
  let names ← chain done
  Switchboard.dispatch (fun name => snapshot name done) (fun l => invoke l (done ())) names

end Script

theorem Action.bind_assoc {α β γ : Type} (a : Action α) (f : α → Action β) (g : β → Action γ) :
    a >>= f >>= g = a >>= fun v => f v >>= g := by
  show (a.bind f).bind g = a.bind fun v => (f v).bind g
  induction a with
  | pure a => rfl
  | note entry next ih | close next ih => simp only [bind, ih]
  | send p next ih | ask p next ih | register name on l next ih | unregister name on id next ih
  | unregisterChannel name on next ih | chain name next ih | snapshot name on next ih
  | handlers next ih => simp only [bind, ih]

namespace Script

variable {α β : Type} (depth : Nat) (p : Packet)

end Script

inductive Hearing where
  | began (p : Packet) (l : Listener)
  | returned (p : Packet) (l : Listener)

structure Round where
  packet : Packet
  listeners : List Listener := []

/-- One listener returns before the next begins. -/
def Round.hearings (r : Round) : List Hearing :=
  r.listeners.flatMap fun l => [.began r.packet l, .returned r.packet l]

inductive Dispatcher where
  | idle
  /-- So much of the dispatch of a packet is left. -/
  | busy (p : Packet) (rest : Script Nat)
  /-- A listener runs, and then so much is left. -/
  | waiting (p : Packet) (l : Listener) (rest : Script Nat)

namespace Dispatcher

/-- Go on with the packet at hand. The registries, if they are asked, are these names and
list these listeners. -/
def advance (names : List String) (ls : List Listener) :
    Dispatcher → Option (Dispatcher × List Hearing)
  | idle => none
  | busy _ (.done _) => some (idle, [])
  | busy p (.chain next) => some (busy p (next names), [])
  | busy p (.snapshot _ next) => some (busy p (next ls), [])
  | busy p (.invoke l next) => some (waiting p l next, [.began p l])
  | waiting p l next => some (busy p next, [.returned p l])

def packet? : Dispatcher → Option Packet
  | idle => none
  | busy p _ | waiting p _ _ => some p

def due : Dispatcher → List Hearing
  | waiting p l _ => [.returned p l]
  | idle | busy _ _ => []

/-- The packets were taken one after the other, each after the listeners of the one before
had returned, and the one at hand is the last. -/
def Follows (d : Dispatcher) (dispatched : List Packet) (heard : List Hearing) : Prop :=
  ∃ rounds : List Round, rounds.map Round.packet = dispatched ∧
    heard ++ d.due = rounds.flatMap Round.hearings ∧
    ∀ p, d.packet? = some p → ∃ before ls, rounds = before ++ [⟨p, ls⟩]

variable {d d' : Dispatcher} {dispatched : List Packet} {heard hs : List Hearing}

theorem Follows.take (h : Follows .idle dispatched heard) (p : Packet) (rest : Script Nat) :
    Follows (.busy p rest) (dispatched ++ [p]) heard := by
  obtain ⟨rounds, rfl, hheard, -⟩ := h
  refine ⟨rounds ++ [⟨p, []⟩], by simp, ?_, ?_⟩
  · rw [List.flatMap_append, ← hheard]
    simp [due, Round.hearings]
  · rintro q hq
    cases hq
    exact ⟨rounds, [], rfl⟩

/-- The dispatcher is where it was in the account. -/
theorem Follows.of_due (h : Follows d dispatched heard) (hdue : heard ++ d.due = hs ++ d'.due)
    (hpacket : ∀ p, d'.packet? = some p → d.packet? = some p) : Follows d' dispatched hs := by
  obtain ⟨rounds, hrounds, hheard, hlast⟩ := h
  exact ⟨rounds, hrounds, hdue ▸ hheard, fun p hp => hlast p (hpacket p hp)⟩

/-- A listener returns before the next is run, and the round ends with the last. -/
theorem Follows.advance (h : Follows d dispatched heard) {names : List String}
    {ls : List Listener} (hd : d.advance names ls = some (d', hs)) :
    Follows d' dispatched (heard ++ hs) := by
  cases d with
  | idle => cases hd
  | waiting p l rest =>
    cases hd
    exact h.of_due (by simp [due]) fun q hq => hq
  | busy p rest =>
    cases rest with
    | done n =>
      cases hd
      exact h.of_due (by simp [due]) nofun
    | chain next | snapshot name next =>
      cases hd
      exact h.of_due (by simp [due]) fun q hq => hq
    | invoke l next =>
      cases hd
      obtain ⟨rounds, rfl, hheard, hlast⟩ := h
      obtain ⟨before, run, rfl⟩ := hlast p rfl
      refine ⟨before ++ [⟨p, run ++ [l]⟩], by simp, ?_, ?_⟩
      · rw [due, List.append_nil] at hheard
        rw [hheard]
        simp [due, Round.hearings]
      · rintro q hq
        cases hq
        exact ⟨before, run ++ [l], rfl⟩

end Dispatcher

end Switchboard
