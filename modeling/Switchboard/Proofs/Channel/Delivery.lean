import Mathlib.Logic.Function.Basic
import Switchboard.Proofs.Channel.Circuit
import Switchboard.Proofs.Channel.Station
import Switchboard.Proofs.Channel.Uninterrupted

/-!
# Ordered delivery

Two channels whose streams are joined, each with its dispatcher. Whatever is sent, queried and
closed at either end and however the octets get across, what one end has queued is what the
reader of the other has handed over and then what is on its way, in this order (`Delivers`).
-/

namespace Switchboard

open Traffic (Cause)

namespace Station

variable {s s' near near' far far' : Station} {p : Packet}

/-- What one end has queued is what the reader of the other has handed over, and what is on
its way. -/
def Delivers (near far : Station) : Prop :=
  ∃ ps, near.line.Carries far.line ps ∧
    near.queued.map Packet.received = far.handed.map (·.1) ++ ps

/-- A frame that is queued is put behind what is on its way. -/
theorem Delivers.sends (h : Delivers near far) (hs : near.Sound)
    (hsized : ∀ w, near.line.Sized w) (hmove : Move near near') : Delivers near' far := by
  obtain ⟨ps, hcarries, hqueued⟩ := h
  cases hmove with
  | line hown hline =>
    refine ⟨_, hcarries.step hline hown hs.line hsized, ?_⟩
    rw [List.map_append, hqueued, List.append_assoc]
  | desk hasked ht => exact ⟨ps, hcarries.of_upstream rfl rfl rfl, hqueued⟩
  | dispatch hidle hlive hinbox => exact ⟨ps, hcarries.of_upstream rfl rfl rfl, hqueued⟩
  | work hnext | lapse hbusy | halt => exact ⟨ps, hcarries, hqueued⟩

/-- A packet that is handed over is the first of those on their way. -/
theorem Delivers.reads (h : Delivers near far) {line : Line}
    (hread : far.line.step .read = some line) (queued : List Packet) :
    Delivers near { far with line, queued, handed := far.handed ++ far.handedBy .read } := by
  obtain ⟨ps, hcarries, hqueued⟩ := h
  obtain ⟨decoder, buffered, decoder', buffered', hreader,
    ⟨p, hdecode, hreceive⟩ | ⟨octets, incoming, stats, hdecode, hin, rfl⟩⟩ :=
    Line.read_eq_some hread
  · have hnext : far.line.next? = some p := Line.next?_eq_some.mpr ⟨_, _, _, _, hreader, hdecode⟩
    obtain ⟨stats, heq⟩ := Line.receive_eq { far.line with channel := { far.line.channel with
      reader := .reading decoder' buffered' } } p
    rw [hreceive, Option.some.injEq] at heq
    subst heq
    obtain ⟨qs, rfl, hrest⟩ := hcarries.packet hreader hdecode
    refine ⟨qs, hrest _ rfl rfl, ?_⟩
    simp [hqueued, handedBy, hnext]
  · have hnext : far.line.next? = none := by simp only [Line.next?, hreader, hdecode]
    refine ⟨ps, hcarries.load hreader hdecode rfl hin, ?_⟩
    simp [hqueued, handedBy, hnext]

/-- Whatever the far end does, the rest of what is on its way stays in order. -/
theorem Delivers.receives (h : Delivers near far) (hmove : Move far far') :
    Delivers near far' := by
  cases hmove with
  | @line e line hown hline =>
    by_cases hread : e = .read
    · subst hread
      exact h.reads hline _
    · obtain ⟨ps, hcarries, hqueued⟩ := h
      rw [handedBy_of_ne hread, List.append_nil]
      obtain ⟨hreader, hin⟩ | hended := (Line.aside_of_step hline hown hread).reader
      · exact ⟨ps, hcarries.of_reader hreader (congrArg Pipe.content hin), hqueued⟩
      · exact ⟨ps, .of_ended hended, hqueued⟩
  | desk hasked ht => exact h
  | dispatch hidle hlive hinbox => exact h
  | work hnext | lapse hbusy | halt => exact h

/-- Octets get from one end to the other. -/
theorem Delivers.carry (h : Delivers near far) {octets : List UInt8} {outgoing incoming : Pipe}
    (hout : near.line.outgoing.content = octets ++ outgoing.content)
    (hin : incoming.content = far.line.incoming.content ++ octets) :
    Delivers { near with line := { near.line with outgoing } }
      { far with line := { far.line with incoming } } := by
  obtain ⟨ps, hcarries, hqueued⟩ := h
  exact ⟨ps, hcarries.carry hout hin, hqueued⟩

end Station

/-- Two channels whose streams are joined, each with its dispatcher. -/
structure Relay where
  station : Side → Station

namespace Relay

inductive Event where
  /-- Somebody at this end takes a step. -/
  | turn (σ : Side) (e : Station.Event)
  /-- Octets, at most so many, get from this end to the other. -/
  | carry (σ : Side) (limit : Nat)

def setStation (c : Relay) (σ : Side) (s : Station) : Relay :=
  { station := Function.update c.station σ s }

def step (c : Relay) : Event → Option Relay
  | .turn σ e => ((c.station σ).step e).map (c.setStation σ)
  | .carry σ limit =>
    match (c.station σ).line.outgoing.take limit with
    | (.octets octets, outgoing) =>
      ((c.station σ.other).line.step (.arrive octets)).map fun line =>
        (c.setStation σ
          { c.station σ with line := { (c.station σ).line with outgoing } }).setStation σ.other
            { c.station σ.other with line }
    | _ => none

def run (c : Relay) : List Event → Option Relay
  | [] => some c
  | e :: es => (c.step e).bind fun c => c.run es

def start (info : Side → ChannelInfo) (config : Side → ChannelConfig)
    (outgoing incoming : Side → Nat) : Relay where
  station σ := .start (info σ) (config σ) (outgoing σ) (incoming σ)

variable {c c' : Relay} {σ : Side}

@[simp] theorem station_setStation_self (c : Relay) (σ : Side) (s : Station) :
    (c.setStation σ s).station σ = s := Function.update_self ..

@[simp] theorem station_setStation_other (c : Relay) (σ : Side) (s : Station) :
    (c.setStation σ s).station σ.other = c.station σ.other :=
  Function.update_of_ne σ.other_ne ..

@[simp] theorem station_setStation_of_other (c : Relay) (σ : Side) (s : Station) :
    (c.setStation σ.other s).station σ = c.station σ :=
  Function.update_of_ne σ.other_ne.symm ..

/-- What one step can lead to: one end moves, or octets get from there to the other end. -/
inductive Move (c c' : Relay) (σ : Side) : Prop where
  | turn (h : (c.station σ).Move (c'.station σ))
      (hfar : c'.station σ.other = c.station σ.other)
  | carry {octets : List UInt8} {outgoing incoming : Pipe}
      (hout : (c.station σ).line.outgoing.content = octets ++ outgoing.content)
      (hin : incoming.content = (c.station σ.other).line.incoming.content ++ octets)
      (hnear : c'.station σ =
        { c.station σ with line := { (c.station σ).line with outgoing } })
      (hfar : c'.station σ.other =
        { c.station σ.other with line := { (c.station σ.other).line with incoming } })

theorem move_of_step {e : Event} (h : c.step e = some c') : ∃ σ, Move c c' σ := by
  cases e with
  | turn σ e =>
    obtain ⟨s, hs, rfl⟩ := Option.map_eq_some_iff.mp h
    refine ⟨σ, .turn ?_ (c.station_setStation_other σ s)⟩
    rw [station_setStation_self]
    exact Station.move_of_step hs
  | carry σ limit =>
    simp only [step] at h
    split at h
    · rename_i octets outgoing htake
      obtain ⟨line, hline, rfl⟩ := Option.map_eq_some_iff.mp h
      obtain ⟨incoming, hcontent, rfl⟩ := Line.arrive_eq_some hline
      refine ⟨σ, .carry (Pipe.content_of_take htake) hcontent ?_ (station_setStation_self _ _ _)⟩
      rw [station_setStation_of_other, station_setStation_self]
    · cases h

structure Sound (c : Relay) : Prop where
  stations : ∀ σ, (c.station σ).Sound
  limits : ∀ σ, (c.station σ).line.channel.config.maxFrameSize < UInt32.size
  delivers : ∀ σ, Station.Delivers (c.station σ) (c.station σ.other)

theorem sound_start {info : Side → ChannelInfo} {config : Side → ChannelConfig}
    {outgoing incoming : Side → Nat}
    (hlimit : (config .left).maxFrameSize = (config .right).maxFrameSize)
    (hword : (config .left).maxFrameSize < UInt32.size) :
    Sound (start info config outgoing incoming) where
  stations σ := Station.sound_start ..
  limits σ := by
    cases σ with
    | left => exact hword
    | right => exact hlimit ▸ hword
  delivers σ := by
    refine ⟨[], fun decoder buffered hreader => ?_, rfl⟩
    have hsame : (config σ.other).maxFrameSize = (config σ).maxFrameSize := by
      cases σ with
      | left => exact hlimit.symm
      | right => exact hlimit
    cases hreader
    refine ⟨[], ?_, fun _ => rfl⟩
    exact .more (by rw [hsame]; rfl)

theorem Sound.sized (h : Sound c) (σ : Side) (w : Parcel) : (c.station σ).line.Sized w :=
  fun hsize => Nat.lt_of_le_of_lt hsize (h.limits σ)

/-- No step breaks the accounts. -/
theorem Sound.move (h : Sound c) (hmove : Move c c' σ) : Sound c' := by
  have hthere := h.delivers σ
  have hback := h.delivers σ.other
  rw [Side.other_other] at hback
  cases hmove with
  | turn hnear hfar =>
    refine ⟨fun τ => ?_, fun τ => ?_, fun τ => ?_⟩
    · rcases σ.eq_or_other τ with rfl | rfl
      · exact (h.stations τ).move hnear
      · rw [hfar]
        exact h.stations _
    · rcases σ.eq_or_other τ with rfl | rfl
      · rw [hnear.config]
        exact h.limits τ
      · rw [hfar]
        exact h.limits _
    · rcases σ.eq_or_other τ with rfl | rfl
      · rw [hfar]
        exact hthere.sends (h.stations τ) (h.sized τ) hnear
      · rw [Side.other_other, hfar]
        exact hback.receives hnear
  | carry hout hin hnear hfar =>
    refine ⟨fun τ => ?_, fun τ => ?_, fun τ => ?_⟩
    · rcases σ.eq_or_other τ with rfl | rfl
      · rw [hnear]
        exact (h.stations τ).of_line ((h.stations τ).line.move (.depart hout)) rfl rfl _
      · rw [hfar]
        exact (h.stations _).of_line ((h.stations _).line.move (.arrive hin)) rfl rfl _
    · rcases σ.eq_or_other τ with rfl | rfl
      · rw [hnear]
        exact h.limits τ
      · rw [hfar]
        exact h.limits _
    · rcases σ.eq_or_other τ with rfl | rfl
      · rw [hnear, hfar]
        exact hthere.carry hout hin
      · rw [Side.other_other, hnear, hfar]
        obtain ⟨ps, hcarries, hqueued⟩ := hback
        exact ⟨ps, (hcarries.of_upstream rfl rfl rfl).of_reader rfl rfl, hqueued⟩

/-- Each step keeps what is delivered in order, and so does the run. -/
theorem Sound.run (h : Sound c) {es : List Event} (hrun : c.run es = some c') : Sound c' := by
  induction es generalizing c with
  | nil =>
    cases hrun
    exact h
  | cons e es ih =>
    obtain ⟨mid, hmid, hrest⟩ := Option.bind_eq_some_iff.mp hrun
    obtain ⟨σ, hmove⟩ := move_of_step hmid
    exact ih (h.move hmove) hrest

end Relay

end Switchboard
