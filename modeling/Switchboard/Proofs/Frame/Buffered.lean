import Switchboard.Proofs.Frame.Recovery

/-!
# How much a decoder keeps waiting

Octets wait in the buffer only for a length that is not complete, or for the body whose
length was read. The former are fewer than a length can take. The latter are fewer than the
body, and no length beyond the limit gets that far; this is what a decoder keeps between
calls (`Bounded`), whatever stream it is fed. A body that is awaited is not empty either, so a
call that takes a frame takes an octet, and calls come to an end (`backlog_bounded`).
-/

namespace Switchboard.Decoder

/-- What one turn comes to: another one, or the end of the call. -/
inductive Turn where
  | again (d : Decoder) (s : List UInt8)
  | done (answer : Answer) (d : Decoder) (s : List UInt8)

/-- One turn of a call: the length at the front is read, or the body awaited is taken. -/
def turn (d : Decoder) (s : List UInt8) : Turn :=
  match d.awaiting with
  | none =>
    match VarInt.peek .int s with
    | .incomplete => .done .more d s
    | .tooLong => .done (.failed (.malformed .varIntTooLong)) d s
    | .found length size =>
      if d.limit < length then .done (.failed (.tooLarge length d.limit)) d s
      else .again { d with awaiting := some length } (s.drop size)
  | some length =>
    if s.length < length then .done .more d s
    else .done (.ofBody (Frame.decodeBody (s.take length))) { d with awaiting := none }
      (s.drop length)

/-- The call ends in its first turn, or reads a length in that and ends in the second, at the
body. -/
def EndsInTwo (d : Decoder) (s : List UInt8) (answer : Answer) (d' : Decoder)
    (s' : List UInt8) : Prop :=
  d.turn s = .done answer d' s' ∨
    ∃ length s₁, d.awaiting = none ∧ d.turn s = .again { d with awaiting := some length } s₁ ∧
      ({ d with awaiting := some length } : Decoder).turn s₁ = .done answer d' s'

theorem turn_stepBody (d : Decoder) (length : Nat) (s : List UInt8) :
    let after := d.stepBody length s
    ({ d with awaiting := some length } : Decoder).turn s = .done after.1 after.2.1 after.2.2 := by
  rcases Nat.lt_or_ge s.length length with hlt | hge
  · simp only [turn, stepBody_of_lt d hlt, if_pos hlt]
  · simp only [turn, stepBody_of_le d hge, if_neg (Nat.not_lt.mpr hge)]
    cases Frame.decodeBody (s.take length) <;> rfl

/-- A call that reads a length looks for the body at once. -/
theorem endsInTwo_decode (d : Decoder) (s : List UInt8) :
    let after := d.decode s
    EndsInTwo d s after.1 after.2.1 after.2.2 := by
  obtain ⟨limit, awaiting⟩ := d
  cases awaiting with
  | some length => exact .inl (turn_stepBody { limit } length s)
  | none =>
    cases hp : VarInt.peek .int s with
    | incomplete => exact .inl (by simp only [turn, decode, hp])
    | tooLong => exact .inl (by simp only [turn, decode, hp])
    | found length size =>
      by_cases hlimit : limit < length
      · exact .inl (by simp only [turn, decode, hp, if_pos hlimit])
      · refine .inr ⟨length, s.drop size, rfl, ?_, ?_⟩
        · simp only [turn, hp, if_neg hlimit]
        · simp only [decode, hp, if_neg hlimit]
          exact turn_stepBody { limit } length (s.drop size)

/-- The body that is next has so many octets, as was read before or as `head` spells. -/
inductive Announces (d : Decoder) : (length : Nat) → (head : List UInt8) → Prop
  | before {length : Nat} (h : d.awaiting = some length) : Announces d length []
  | spelled {length : Nat} {head : List UInt8} (h : d.awaiting = none)
      (hhead : VarInt.Spells .int length head) (hle : length ≤ d.limit) : Announces d length head

/-- The ways in which a call can end. -/
inductive Called (d : Decoder) (s : List UInt8) : Answer → Decoder → List UInt8 → Prop
  | short (hw : d.awaiting = none) (hs : s.length < 5) : Called d s .more d s
  | refused {e : FrameError} (hw : d.awaiting = none) (h : d.refuses s = true) :
      Called d s (.failed e) d s
  | parked {length : Nat} {head rest : List UInt8} (h : d.Announces length head)
      (hs : s = head ++ rest) (hlt : rest.length < length) :
      Called d s .more { d with awaiting := some length } rest
  | taken {head body rest : List UInt8} (h : d.Announces body.length head)
      (hs : s = head ++ body ++ rest) :
      Called d s (.ofBody (Frame.decodeBody body)) { d with awaiting := none } rest

theorem called_stepBody {d : Decoder} {length : Nat} {head rest : List UInt8}
    (h : d.Announces length head) :
    let after := d.stepBody length rest
    Called d (head ++ rest) after.1 after.2.1 after.2.2 := by
  rcases Nat.lt_or_ge rest.length length with hlt | hge
  · rw [stepBody_of_lt d hlt]
    exact .parked h rfl hlt
  · have hbody : (rest.take length).length = length := List.length_take_of_le hge
    have hsplit : head ++ rest = head ++ rest.take length ++ rest.drop length := by
      rw [List.append_assoc, List.take_append_drop]
    have htaken := Called.taken (hbody.symm ▸ h) hsplit
    rw [stepBody_of_le d hge]
    cases hd : Frame.decodeBody (rest.take length) <;> rwa [hd] at htaken

/-- Every call ends in one of these ways. -/
theorem called_decode (d : Decoder) (s : List UInt8) :
    let after := d.decode s
    Called d s after.1 after.2.1 after.2.2 := by
  obtain ⟨limit, awaiting⟩ := d
  cases awaiting with
  | some length => exact called_stepBody (.before rfl)
  | none =>
    cases hp : VarInt.peek .int s with
    | incomplete =>
      have hshort := ((VarInt.peek_eq_incomplete_iff .int s).mp hp).1
      simp only [decode, hp]
      exact .short rfl hshort
    | tooLong =>
      simp only [decode, hp]
      exact .refused rfl (by simp only [refuses, hp])
    | found length size =>
      by_cases hlimit : limit < length
      · simp only [decode, hp, if_pos hlimit]
        exact .refused rfl (by simp only [refuses, hp, hlimit, decide_true])
      · obtain ⟨head, rest, rfl, rfl, hhead⟩ := (VarInt.peek_eq_found_iff .int s length size).mp hp
        simp only [decode, hp, if_neg hlimit, List.drop_left]
        exact called_stepBody (.spelled rfl hhead (Nat.le_of_not_lt hlimit))

/-- What a decoder and its buffer come to: chunks arrive and calls are made, in any order and
whatever the calls come to. -/
inductive Reached (limit : Nat) : Decoder → List UInt8 → Prop
  | new : Reached limit { limit } []
  | arrive {d : Decoder} {s : List UInt8} (h : Reached limit d s) (chunk : List UInt8) :
      Reached limit d (s ++ chunk)
  | call {d d' : Decoder} {s s' : List UInt8} {answer : Answer} (h : Reached limit d s)
      (hcall : d.decode s = (answer, d', s')) : Reached limit d' s'

structure Bounded (limit : Nat) (d : Decoder) : Prop where
  limit_eq : d.limit = limit
  awaiting {length : Nat} (h : d.awaiting = some length) : 0 < length ∧ length ≤ limit

variable {limit : Nat} {d d' : Decoder} {s s' : List UInt8} {answer : Answer}

theorem called_of_decode (h : d.decode s = (answer, d', s')) : Called d s answer d' s' := by
  have hcalled := called_decode d s
  rwa [h] at hcalled

theorem Bounded.announces (h : d.Bounded limit) {length : Nat} {head : List UInt8}
    (ha : d.Announces length head) : length ≤ limit ∧ 0 < (head.length + length) := by
  cases ha with
  | before hw =>
    obtain ⟨hpos, hle⟩ := h.awaiting hw
    exact ⟨hle, by omega⟩
  | spelled _ hhead hle =>
    have hpos := hhead.groups.length_pos
    exact ⟨h.limit_eq ▸ hle, by omega⟩

/-- A call leaves the body awaited within the limit. -/
theorem Bounded.call (h : d.Bounded limit) (hc : Called d s answer d' s') : d'.Bounded limit := by
  cases hc with
  | short => exact h
  | refused => exact h
  | parked ha _ hlt =>
    refine ⟨h.limit_eq, fun hw => ?_⟩
    cases hw
    exact ⟨by omega, (h.announces ha).1⟩
  | taken => exact ⟨h.limit_eq, nofun⟩

/-- By induction on what arrives and is called. -/
theorem Reached.bounded (h : Reached limit d s) : d.Bounded limit := by
  induction h with
  | new => exact ⟨rfl, nofun⟩
  | arrive _ _ ih => exact ih
  | call _ hcall ih => exact ih.call (called_of_decode hcall)

/-- The room that the buffer is asked to make for the body awaited. -/
def reserved (d : Decoder) (s : List UInt8) : Nat := d.awaiting.elim 0 (· - s.length)

structure Takes (s s' : List UInt8) (held : Except FrameError Packet) (head body : List UInt8) :
    Prop where
  split : s = head ++ body ++ s'
  held : Frame.decodeBody body = held
  pos : 0 < (head ++ body).length

/-- A frame that is taken is not empty. -/
theorem Takes.length_lt {held : Except FrameError Packet} {head body : List UInt8}
    (h : Takes s s' held head body) : s'.length < s.length := by
  have hpos := h.pos
  rw [h.split, List.length_append]
  omega

/-- The body of a packet has a channel, a flag and a length at least. -/
theorem Takes.le_length_body {p : Packet} {head body : List UInt8}
    (h : Takes s s' (.ok p) head body) : 6 ≤ body.length := by
  obtain ⟨flagged, front, content, hflagged, hfront, -, rfl⟩ :=
    (Frame.decodeBody_eq_ok_iff body p).mp h.held
  have hflag : 0 < flagged.length := by
    generalize p.id = id at hflagged
    cases hflagged <;> simp
  have hlength := hfront.groups.length_pos
  simp only [List.length_append, Octet.length_bigEndian]
  omega

/-- A call needs more, refuses the length in front, or takes a frame for what its body holds. -/
theorem Bounded.called_cases (h : d.Bounded limit) (hc : Called d s answer d' s') :
    (answer = .more ∧ s'.length < max 5 limit) ∨
    (∃ e, answer = .failed e ∧ d.refuses s = true ∧ d' = d ∧ s' = s) ∨
    ∃ held head body, answer = .ofBody held ∧ Takes s s' held head body := by
  cases hc with
  | short _ hs => exact .inl ⟨rfl, by omega⟩
  | refused _ hr => exact .inr (.inl ⟨_, rfl, hr, rfl, rfl⟩)
  | parked ha _ hlt =>
    have := (h.announces ha).1
    exact .inl ⟨rfl, by omega⟩
  | @taken head body _ ha hs =>
    refine .inr (.inr ⟨_, head, body, rfl, hs, rfl, ?_⟩)
    rw [List.length_append]
    exact (h.announces ha).2

/-- For a packet its frame is taken. -/
theorem Bounded.takes_of_packet (h : d.Bounded limit) {p : Packet}
    (hc : Called d s (.packet p) d' s') : ∃ head body, Takes s s' (.ok p) head body := by
  obtain ⟨ha, -⟩ | ⟨e, ha, -⟩ | ⟨held, head, body, ha, htakes⟩ := h.called_cases hc
  · cases ha
  · cases ha
  · obtain rfl := (ofBody_eq_packet_iff held p).mp ha.symm
    exact ⟨head, body, htakes⟩

/-- An error takes the frame, unless the length itself is refused, which stays. -/
theorem Bounded.takes_of_failed (h : d.Bounded limit) {e : FrameError}
    (hc : Called d s (.failed e) d' s') :
    (d.refuses s = true ∧ d' = d ∧ s' = s) ∨ ∃ head body, Takes s s' (.error e) head body := by
  obtain ⟨ha, -⟩ | ⟨e', -, hrefused⟩ | ⟨held, head, body, ha, htakes⟩ := h.called_cases hc
  · cases ha
  · exact .inl hrefused
  · obtain rfl := (ofBody_eq_failed_iff held e).mp ha.symm
    exact .inr ⟨head, body, htakes⟩

/-- When more is asked for, less than a length or a body is left. -/
theorem Bounded.length_lt (h : d.Bounded limit) (hc : Called d s .more d' s') :
    s'.length < max 5 limit := by
  obtain ⟨-, hlt⟩ | ⟨e, ha, -⟩ | ⟨held, _, _, ha, -⟩ := h.called_cases hc
  · exact hlt
  · cases ha
  · exact absurd ha.symm (ofBody_ne_more held)

def afterCalls : Nat → Decoder → List UInt8 → Decoder × List UInt8
  | 0, d, s => (d, s)
  | n + 1, d, s => afterCalls n (d.decode s).2.1 (d.decode s).2.2

/-- There is nothing to take at the front: more is needed, or the length there is refused. -/
def Stuck (d : Decoder) (s : List UInt8) : Prop :=
  (d.decode s).1 = .more ∨ d.refuses s = true

/-- Calls come to an end, as each that takes a frame takes an octet. -/
theorem Bounded.drained (h : d.Bounded limit) :
    ∃ n ≤ s.length, Stuck (afterCalls n d s).1 (afterCalls n d s).2 := by
  induction hn : s.length using Nat.strongRecOn generalizing d s with
  | ind k ih =>
    subst hn
    -- A call that takes a frame leaves fewer octets for the others.
    have onward {answer : Answer} {d' : Decoder} {s' : List UInt8}
        (hcall : d.decode s = (answer, d', s')) (hlt : s'.length < s.length) :
        ∃ n ≤ s.length, Stuck (afterCalls n d s).1 (afterCalls n d s).2 := by
      obtain ⟨n, hle, hstuck⟩ := ih s'.length hlt (h.call (called_of_decode hcall)) rfl
      refine ⟨n + 1, by omega, ?_⟩
      simpa only [afterCalls, hcall] using hstuck
    cases hcall : d.decode s with
    | mk answer after =>
      obtain ⟨d', s'⟩ := after
      have hc := called_of_decode hcall
      cases answer with
      | more => exact ⟨0, Nat.zero_le _, .inl (by simp only [afterCalls, hcall])⟩
      | packet p =>
        obtain ⟨head, body, htakes⟩ := h.takes_of_packet hc
        exact onward hcall htakes.length_lt
      | failed e =>
        rcases h.takes_of_failed hc with ⟨hr, -, -⟩ | ⟨head, body, htakes⟩
        · exact ⟨0, Nat.zero_le _, .inr hr⟩
        · exact onward hcall htakes.length_lt

/-- Whatever stream comes, however it is cut, and whatever calls came to before: when more is
needed, fewer octets wait than a frame at the limit or a length can have; a body that is
awaited is within the limit, and so is the room asked for it; a call ends after a length and a
body at most; a packet takes six octets of body at least, an error takes an octet of its frame
at least or refuses the length in front; and no more calls can follow than there are octets
until more is needed or a length is refused. -/
theorem backlog_bounded (h : Reached limit d s) (hcall : d.decode s = (answer, d', s')) :
    (answer = .more → s'.length < max 5 limit) ∧
    (∀ length, d'.awaiting = some length → length ≤ limit) ∧ d'.reserved s' ≤ limit ∧
    EndsInTwo d s answer d' s' ∧
    (∀ p, answer = .packet p → ∃ head body, Takes s s' (.ok p) head body ∧ 6 ≤ body.length) ∧
    (∀ e, answer = .failed e → (d.refuses s = true ∧ d' = d ∧ s' = s) ∨
      ∃ head body, Takes s s' (.error e) head body) ∧
    ∃ n ≤ s.length, Stuck (afterCalls n d s).1 (afterCalls n d s).2 := by
  have hc := called_of_decode hcall
  have hbounded := h.bounded
  have hafter := hbounded.call hc
  have hroom : d'.reserved s' ≤ limit := by
    cases hw : d'.awaiting with
    | none => simp [reserved, hw]
    | some length =>
      have hle := (hafter.awaiting hw).2
      simp only [reserved, hw, Option.elim_some]
      omega
  have hturns := endsInTwo_decode d s
  rw [hcall] at hturns
  refine ⟨?_, fun length hw => (hafter.awaiting hw).2, hroom, hturns, ?_, ?_, hbounded.drained⟩
  · rintro rfl
    exact hbounded.length_lt hc
  · rintro p rfl
    obtain ⟨head, body, htakes⟩ := hbounded.takes_of_packet hc
    exact ⟨head, body, htakes, htakes.le_length_body⟩
  · rintro e rfl
    exact hbounded.takes_of_failed hc

/-- A body that ends early, in two chunks, and behind it a length that is not complete. -/
theorem backlog_bounded_cut :
    let d : Decoder := { limit := 4 }
    Reached 4 { d with awaiting := some 2 } [9, 9, 0x80] ∧
      ({ d with awaiting := some 2 } : Decoder).decode [9, 9, 0x80] =
        (.failed (.malformed (.underflow 4 2)), d, [0x80]) ∧
      d.decode [0x80] = (.more, d, [0x80]) ∧ [(0x80 : UInt8)].length < max 5 4 ∧
      ∃ head body, Takes [9, 9, 0x80] [0x80] (.error (.malformed (.underflow 4 2))) head body := by
  intro d
  have hparked : d.decode [2, 9] = (.more, { d with awaiting := some 2 }, [9]) := rfl
  have hfailed : ({ d with awaiting := some 2 } : Decoder).decode [9, 9, 0x80] =
      (.failed (.malformed (.underflow 4 2)), d, [0x80]) := rfl
  have hmore : d.decode [0x80] = (.more, d, [0x80]) := rfl
  have hreached : Reached 4 { d with awaiting := some 2 } [9, 9, 0x80] :=
    ((Reached.new.arrive [2, 9]).call hparked).arrive [9, 0x80]
  obtain ⟨-, -, -, -, -, hfail, -⟩ := backlog_bounded hreached hfailed
  obtain ⟨hwait, -⟩ := backlog_bounded (hreached.call hfailed) hmore
  refine ⟨hreached, hfailed, hmore, hwait rfl, ?_⟩
  exact (hfail _ rfl).resolve_left (fun hrefused => absurd hrefused.1 (by decide))

end Switchboard.Decoder
