import Switchboard.Channel.Session
import Switchboard.Proofs.Channel.Stream
import Switchboard.Proofs.Channel.Uninterrupted

/-!
# Two channels in use

Two ends whose streams are joined. Whatever each of them does, and however the octets get
from one to the other, packets with an id are queries, whose ids are all different, and
responses to packets that the sender of the response was handed (`Admits`).
-/

namespace Switchboard

def Side.other : Side → Side
  | left => right
  | right => left

namespace Side

@[simp] theorem other_other (σ : Side) : σ.other.other = σ := by
  cases σ <;> rfl

theorem other_ne (σ : Side) : σ.other ≠ σ := by
  cases σ <;> simp [other]

theorem eq_or_other (σ τ : Side) : τ = σ ∨ τ = σ.other := by
  cases σ <;> cases τ <;> simp [other]

end Side

def Parcel.ids : Parcel → List Identity
  | query _ id _ => [id]
  | plain _ | answer _ _ _ => []

namespace Line

/-- A packet without an id, the response to a packet that was handed over here, or a query. -/
def Fits (s : Line) : Parcel → Prop
  | .plain p => p.id = none
  | .answer r id _ => r ∈ s.handed ∧ r.id = some id
  | .query _ _ _ => True

/-- The ids of all queries so far. -/
def queried (s : Line) : List Identity :=
  s.uses.flatMap fun
    | .sending w _ => w.ids
    | .closing _ => []

def Queries (s : Line) (n : Nat) (q : Packet) (id : Identity) (stage : Sending) : Prop :=
  ∃ timeout, s.uses[n]? = some (.sending (.query q id timeout) stage)

instance (s : Line) (w : Parcel) : Decidable (s.Fits w) :=
  match w with
  | .plain p => inferInstanceAs (Decidable (p.id = none))
  | .answer r id _ => inferInstanceAs (Decidable (r ∈ s.handed ∧ r.id = some id))
  | .query _ _ _ => .isTrue trivial

end Line

structure Circuit where
  left : Line
  right : Line

namespace Circuit

open Line (Use Sending)

def line (c : Circuit) : Side → Line
  | .left => c.left
  | .right => c.right

def setLine (c : Circuit) (σ : Side) (s : Line) : Circuit :=
  match σ with
  | .left => { c with left := s }
  | .right => { c with right := s }

@[simp] theorem line_setLine_self (c : Circuit) (σ : Side) (s : Line) :
    (c.setLine σ s).line σ = s := by
  cases σ <;> rfl

@[simp] theorem line_setLine_other (c : Circuit) (σ : Side) (s : Line) :
    (c.setLine σ s).line σ.other = c.line σ.other := by
  cases σ <;> rfl

@[simp] theorem line_setLine_of_other (c : Circuit) (σ : Side) (s : Line) :
    (c.setLine σ.other s).line σ = c.line σ := by
  cases σ <;> rfl

inductive Event where
  /-- Somebody at this end takes a step. -/
  | turn (σ : Side) (e : Line.Event)
  /-- Octets, at most so many, get from this end to the other. -/
  | carry (σ : Side) (limit : Nat)

/-- What may happen at one end. Packets with an id are queries, each with an id of its own,
and responses to what was handed over; octets come from the other end alone. -/
def Admits (c : Circuit) (σ : Side) : Line.Event → Prop
  | .send w => (c.line σ).Fits w ∧
    ∀ id ∈ w.ids, id ∉ c.left.queried ∧ id ∉ c.right.queried
  | .arrive _ | .depart _ => False
  | .close | .go _ _ | .desk _ | .write | .retire | .read | .quit | .dispatch => True

instance (c : Circuit) (σ : Side) (e : Line.Event) : Decidable (c.Admits σ e) :=
  match e with
  | .send w => inferInstanceAs (Decidable ((c.line σ).Fits w ∧
      ∀ id ∈ w.ids, id ∉ c.left.queried ∧ id ∉ c.right.queried))
  | .arrive _ | .depart _ => .isFalse id
  | .close | .go _ _ | .desk _ | .write | .retire | .read | .quit | .dispatch => .isTrue trivial

def step (c : Circuit) : Event → Option Circuit
  | .turn σ e => if c.Admits σ e then ((c.line σ).step e).map (c.setLine σ) else none
  | .carry σ limit =>
    match (c.line σ).outgoing.take limit with
    | (.octets octets, outgoing) =>
      ((c.line σ.other).step (.arrive octets)).map fun far =>
        (c.setLine σ { c.line σ with outgoing }).setLine σ.other far
    | _ => none

def run (c : Circuit) : List Event → Option Circuit
  | [] => some c
  | e :: es => (c.step e).bind fun c => c.run es

def start (info : Side → ChannelInfo) (config : Side → ChannelConfig)
    (outgoing incoming : Side → Nat) : Circuit where
  left := .start (info .left) (config .left) (outgoing .left) (incoming .left)
  right := .start (info .right) (config .right) (outgoing .right) (incoming .right)

theorem line_start (info : Side → ChannelInfo) (config : Side → ChannelConfig)
    (outgoing incoming : Side → Nat) (σ : Side) : (start info config outgoing incoming).line σ =
      .start (info σ) (config σ) (outgoing σ) (incoming σ) := by
  cases σ <;> rfl

variable {c mid c' : Circuit} {σ τ : Side}

/-- What one step can lead to: a use begins at one end, someone goes on there, or octets get
from there to the other end. -/
inductive Move (c c' : Circuit) (σ : Side) : Prop where
  | begin {u : Use} (hu : u.Begins) (hadmits : ∀ w, u = .sending w .begun → c.Admits σ (.send w))
      (hnear : c'.line σ = { c.line σ with uses := (c.line σ).uses ++ [u] })
      (hfar : c'.line σ.other = c.line σ.other)
  | turn (h : (c.line σ).Turn (c'.line σ)) (hfar : c'.line σ.other = c.line σ.other)
  | carry {octets : List UInt8} {outgoing incoming : Pipe}
      (hout : (c.line σ).outgoing.content = octets ++ outgoing.content)
      (hin : incoming.content = (c.line σ.other).incoming.content ++ octets)
      (hnear : c'.line σ = { c.line σ with outgoing })
      (hfar : c'.line σ.other = { c.line σ.other with incoming })

/-- Every step is at one end or from one end to the other. -/
theorem move_of_step {e : Event} (h : c.step e = some c') : ∃ σ, Move c c' σ := by
  cases e with
  | turn σ e =>
    simp only [step] at h
    split at h
    · rename_i hadmits
      obtain ⟨near, hnear, rfl⟩ := Option.map_eq_some_iff.mp h
      refine ⟨σ, ?_⟩
      cases e with
      | send w =>
        cases hnear
        refine .begin (u := .sending w .begun) rfl (fun w' heq => ?_) (c.line_setLine_self _ _)
          (c.line_setLine_other _ _)
        cases heq
        exact hadmits
      | close =>
        cases hnear
        exact .begin (u := .closing .begun) rfl (fun w' heq => by cases heq)
          (c.line_setLine_self _ _) (c.line_setLine_other _ _)
      | arrive octets | depart limit => exact hadmits.elim
      | go n order | desk e | write | retire | read | quit | dispatch =>
        refine .turn ?_ (c.line_setLine_other _ _)
        rw [line_setLine_self]
        exact Line.turn_of_step rfl hnear
    · cases h
  | carry σ limit =>
    simp only [step] at h
    split at h
    · rename_i octets outgoing htake
      obtain ⟨far, hfar, rfl⟩ := Option.map_eq_some_iff.mp h
      obtain ⟨incoming, hcontent, rfl⟩ := Line.arrive_eq_some hfar
      refine ⟨σ, .carry (Pipe.content_of_take htake) hcontent ?_ (line_setLine_self _ _ _)⟩
      rw [line_setLine_of_other, line_setLine_self]
    · cases h

/-- What every move keeps, every run keeps. -/
theorem run_induction {P : Circuit → Prop} (hmove : ∀ c c' σ, Move c c' σ → P c → P c')
    {es : List Event} (h : c.run es = some c') (hc : P c) : P c' := by
  induction es generalizing c with
  | nil =>
    cases h
    exact hc
  | cons e es ih =>
    obtain ⟨mid, hmid, hrest⟩ := Option.bind_eq_some_iff.mp h
    obtain ⟨σ, hσ⟩ := move_of_step hmid
    exact ih hrest (hmove c mid σ hσ hc)

/-- A step of the circuit is a step of each end, or leaves that end as it is. -/
theorem Move.line (h : Move c c' σ) (τ : Side) :
    c'.line τ = c.line τ ∨ (c.line τ).Move (c'.line τ) := by
  rcases σ.eq_or_other τ with rfl | rfl
  · cases h with
    | begin hu hadmits hnear hfar => exact .inr (hnear ▸ .begin hu)
    | turn h hfar => exact .inr (.turn h)
    | carry hout hin hnear hfar => exact .inr (hnear ▸ .depart hout)
  · cases h with
    | begin hu hadmits hnear hfar => exact .inl hfar
    | turn h hfar => exact .inl hfar
    | carry hout hin hnear hfar => exact .inr (hfar ▸ .arrive hin)

def Reaches (c c' : Circuit) : Prop := ∃ es, c.run es = some c'

theorem run_append (c : Circuit) (es fs : List Event) :
    c.run (es ++ fs) = (c.run es).bind fun c => c.run fs := by
  induction es generalizing c with
  | nil => rfl
  | cons e es ih =>
    rw [List.cons_append, run, run, Option.bind_assoc]
    exact congrArg _ (funext fun c => ih c)

theorem admits_of_isTurn {e : Line.Event} (he : e.isTurn = true) : c.Admits σ e := by
  cases e with
  | send w | close | arrive octets | depart limit => cases he
  | go n order | desk e | write | retire | read | quit | dispatch => exact True.intro

namespace Reaches

theorem step {e : Event} (h : c.step e = some c') : Reaches c c' :=
  ⟨[e], by rw [run, h]; rfl⟩

theorem trans (h : Reaches c mid) (h' : Reaches mid c') : Reaches c c' := by
  obtain ⟨es, hes⟩ := h
  obtain ⟨fs, hfs⟩ := h'
  exact ⟨es ++ fs, by rw [run_append, hes, Option.bind_some, hfs]⟩

/-- Turns of one end. -/
theorem turns {s : Line} (h : (c.line σ).Reaches s) : Reaches c (c.setLine σ s) := by
  obtain ⟨es, hturns, hes⟩ := h
  refine ⟨es.map (.turn σ), ?_⟩
  induction es generalizing c with
  | nil =>
    cases hes
    cases σ <;> rfl
  | cons e es ih =>
    obtain ⟨near, hnear, hrest⟩ := Option.bind_eq_some_iff.mp hes
    obtain ⟨he, hturns⟩ := List.forall_mem_cons.mp hturns
    have hstep : c.step (.turn σ e) = some (c.setLine σ near) := by
      simp only [Circuit.step, if_pos (admits_of_isTurn he), hnear, Option.map_some]
    rw [List.map_cons, run, hstep, Option.bind_some]
    have hlast := ih (c := c.setLine σ near) hturns (by rwa [line_setLine_self])
    rw [hlast]
    cases σ <;> rfl

end Reaches

end Circuit

end Switchboard
