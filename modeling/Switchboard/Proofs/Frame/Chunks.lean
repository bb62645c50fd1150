import Switchboard.Proofs.Frame.RoundTrip

/-!
# A stream in chunks

The decoder keeps between two calls only what it awaits, so it must not matter where a
stream is cut. An answer once given stands when more octets come (`decode_append`), and
a call that asks for more leaves the decoder where the call on the longer input goes on
(`decode_append_more`). Both carry over to draining a buffer and to feeding chunks, and
frames written one after the other come out as their packets, however they are cut.
-/

namespace Switchboard.Decoder

theorem stepBody_awaiting (d : Decoder) (w : Option Nat) (length : Nat) (s : List UInt8) :
    { d with awaiting := w }.stepBody length s = d.stepBody length s := rfl

theorem stepBody_of_le (d : Decoder) {length : Nat} {s : List UInt8} (h : length ≤ s.length) :
    d.stepBody length s =
      (match Frame.decodeBody (s.take length) with
        | .ok p => .packet p
        | .error e => .failed e, { d with awaiting := none }, s.drop length) := by
  have hreach : Octet.reaches length s = true := by simpa using h
  rw [stepBody]
  exact if_pos hreach

theorem stepBody_of_lt (d : Decoder) {length : Nat} {s : List UInt8} (h : s.length < length) :
    d.stepBody length s = (.more, { d with awaiting := some length }, s) := by
  have hreach : ¬ Octet.reaches length s = true := by simpa using h
  simp only [stepBody, if_neg hreach]

/-- What was decided is not changed by octets that come later. -/
theorem stepBody_append_of_ne (d d' : Decoder) {length : Nat} {s s' : List UInt8} {a : Answer}
    (h : d.stepBody length s = (a, d', s')) (ha : a ≠ .more) (t : List UInt8) :
    d.stepBody length (s ++ t) = (a, d', s' ++ t) := by
  rcases Nat.lt_or_ge s.length length with hlt | hle
  · rw [stepBody_of_lt d hlt] at h
    cases h
    exact absurd rfl ha
  · have hle' : length ≤ (s ++ t).length := by
      rw [List.length_append]
      omega
    rw [stepBody_of_le d hle] at h
    cases h
    rw [stepBody_of_le d hle', List.take_append_of_le_length hle, List.drop_append_of_le_length hle]

/-- What waits for a body goes on with it when more octets come. -/
theorem stepBody_append_more (d d' : Decoder) {length : Nat} {s s' : List UInt8}
    (h : d.stepBody length s = (.more, d', s')) (t : List UInt8) :
    d.stepBody length (s ++ t) = d'.decode (s' ++ t) := by
  rcases Nat.lt_or_ge s.length length with hlt | hle
  · rw [stepBody_of_lt d hlt] at h
    cases h
    simp only [decode, stepBody_awaiting]
  · rw [stepBody_of_le d hle] at h
    cases hbody : Frame.decodeBody (s.take length) <;> simp [hbody] at h

/-- An answer other than that more is needed stands when more octets come. -/
theorem decode_append (d d' : Decoder) {s s' : List UInt8} {a : Answer}
    (h : d.decode s = (a, d', s')) (ha : a ≠ .more) (t : List UInt8) :
    d.decode (s ++ t) = (a, d', s' ++ t) := by
  cases hw : d.awaiting with
  | some length =>
    simp only [decode, hw] at h ⊢
    exact stepBody_append_of_ne d d' h ha t
  | none =>
    simp only [decode, hw] at h ⊢
    cases hp : VarInt.peek .int s with
    | incomplete =>
      simp only [hp] at h
      cases h
      exact absurd rfl ha
    | tooLong =>
      rw [VarInt.peek_append .int s t (by simp [hp])]
      simp only [hp] at h ⊢
      cases h
      rfl
    | found length size =>
      rw [VarInt.peek_append .int s t (by simp [hp])]
      simp only [hp] at h ⊢
      split
      · rename_i hlimit
        rw [if_pos hlimit] at h
        cases h
        rfl
      · rename_i hlimit
        rw [if_neg hlimit] at h
        rw [List.drop_append_of_le_length (VarInt.peek_found .int hp).2]
        exact stepBody_append_of_ne d d' h ha t

/-- Where more is needed, the decoder goes on with what it kept. -/
theorem decode_append_more (d d' : Decoder) {s s' : List UInt8}
    (h : d.decode s = (.more, d', s')) (t : List UInt8) :
    d.decode (s ++ t) = d'.decode (s' ++ t) := by
  cases hw : d.awaiting with
  | some length =>
    rw [show d.decode s = d.stepBody length s by simp only [decode, hw]] at h
    rw [show d.decode (s ++ t) = d.stepBody length (s ++ t) by simp only [decode, hw]]
    exact stepBody_append_more d d' h t
  | none =>
    cases hp : VarInt.peek .int s with
    | incomplete =>
      simp only [decode, hw, hp] at h
      cases h
      rfl
    | tooLong => simp [decode, hw, hp] at h
    | found length size =>
      have hdrop := (VarInt.peek_found .int hp).2
      have hp' := VarInt.peek_append .int s t (by simp [hp])
      by_cases hlimit : d.limit < length
      · simp [decode, hw, hp, hlimit] at h
      · simp only [decode, hw, hp, if_neg hlimit] at h
        have hstep := stepBody_append_more d d' h t
        rw [← List.drop_append_of_le_length hdrop] at hstep
        rw [← hstep]
        simp only [decode, hw, hp', hp, if_neg hlimit]

/-- A decoder that asked for more asks again as long as nothing comes. -/
theorem decode_more (d d' : Decoder) {s s' : List UInt8} (h : d.decode s = (.more, d', s')) :
    d'.decode s' = (.more, d', s') := by
  have hagain := decode_append_more d d' h []
  rw [List.append_nil, List.append_nil, h] at hagain
  exact hagain.symm

theorem decodeBody_nil : Frame.decodeBody [] = .error (.malformed (.underflow 4 0)) := rfl

/-- A packet takes octets of the buffer. -/
theorem length_of_packet (d d' : Decoder) {s s' : List UInt8} {p : Packet}
    (h : d.decode s = (.packet p, d', s')) : s'.length < s.length := by
  have hbody (length : Nat) (r : List UInt8) (hr : d.stepBody length r = (.packet p, d', s')) :
      s'.length < r.length := by
    rcases Nat.lt_or_ge r.length length with hlt | hle
    · simp [stepBody_of_lt d hlt] at hr
    · rw [stepBody_of_le d hle] at hr
      cases length with
      | zero => simp [decodeBody_nil] at hr
      | succ length =>
        simp only [Prod.mk.injEq] at hr
        rw [← hr.2.2, List.length_drop]
        omega
  cases hw : d.awaiting with
  | some length =>
    simp only [decode, hw] at h
    exact hbody length s h
  | none =>
    cases hp : VarInt.peek .int s with
    | incomplete => simp [decode, hw, hp] at h
    | tooLong => simp [decode, hw, hp] at h
    | found length size =>
      by_cases hlimit : d.limit < length
      · simp [decode, hw, hp, hlimit] at h
      · simp only [decode, hw, hp, if_neg hlimit] at h
        have hlt := hbody length (s.drop size) h
        rw [List.length_drop] at hlt
        omega

theorem drainAfter_seen (seen : List Packet) (fuel : Nat) (d : Decoder) (s : List UInt8) :
    drainAfter seen fuel d s =
      (seen.reverse ++ (drainAfter [] fuel d s).1, (drainAfter [] fuel d s).2) := by
  induction fuel generalizing seen d s with
  | zero => simp [drainAfter]
  | succ fuel ih =>
    cases hd : d.decode s with
    | mk a rest =>
      cases a with
      | packet p =>
        simp only [drainAfter, hd]
        rw [ih (p :: seen), ih [p]]
        simp
      | more => simp [drainAfter, hd]
      | failed e => simp [drainAfter, hd]

/-- Fuel beyond the number of octets changes nothing. -/
theorem drainAfter_fuel (seen : List Packet) (m n : Nat) (d : Decoder) (s : List UInt8)
    (hm : s.length < m) (hn : s.length < n) : drainAfter seen m d s = drainAfter seen n d s := by
  induction m generalizing n seen d s with
  | zero => omega
  | succ m ih =>
    cases n with
    | zero => omega
    | succ n =>
      cases hd : d.decode s with
      | mk a rest =>
        obtain ⟨d', s'⟩ := rest
        cases a with
        | packet p =>
          have hlt := length_of_packet d d' hd
          simp only [drainAfter, hd]
          exact ih (p :: seen) n d' s' (by omega) (by omega)
        | more => simp [drainAfter, hd]
        | failed e => simp [drainAfter, hd]

/-- A drain goes on behind each packet. -/
theorem drain_of_packet (d d' : Decoder) {s s' : List UInt8} {p : Packet}
    (h : d.decode s = (.packet p, d', s')) :
    d.drain s = (p :: (d'.drain s').1, (d'.drain s').2) := by
  have hlt := length_of_packet d d' h
  have hfuel := drainAfter_fuel [] (s.length + 1) (s'.length + 2) d' s' (by omega) (by omega)
  rw [drain, drainAfter]
  simp only [h]
  rw [drainAfter_seen, hfuel]
  rfl

theorem drain_of_more (d d' : Decoder) {s s' : List UInt8} (h : d.decode s = (.more, d', s')) :
    d.drain s = ([], .more, d', s') := by
  rw [drain, drainAfter]
  simp only [h]
  rfl

theorem drain_of_failed (d d' : Decoder) {s s' : List UInt8} {e : FrameError}
    (h : d.decode s = (.failed e, d', s')) : d.drain s = ([], .failed e, d', s') := by
  rw [drain, drainAfter]
  simp only [h]
  rfl

/-- The calls of a drain, one after the other: packets, then the answer that ends it. -/
inductive Drains : Decoder → List UInt8 → List Packet → Answer → Decoder → List UInt8 → Prop
  | more {d d' : Decoder} {s s' : List UInt8} (h : d.decode s = (.more, d', s')) :
      Drains d s [] .more d' s'
  | failed {d d' : Decoder} {s s' : List UInt8} {e : FrameError}
      (h : d.decode s = (.failed e, d', s')) : Drains d s [] (.failed e) d' s'
  | packet {d d₁ d' : Decoder} {s s₁ s' : List UInt8} {p : Packet} {ps : List Packet} {a : Answer}
      (h : d.decode s = (.packet p, d₁, s₁)) (hs : Drains d₁ s₁ ps a d' s') :
      Drains d s (p :: ps) a d' s'

/-- A drain makes the calls one after the other. -/
theorem Drains.drain_eq {d d' : Decoder} {s s' : List UInt8} {ps : List Packet} {a : Answer}
    (h : Drains d s ps a d' s') : d.drain s = (ps, a, d', s') := by
  induction h with
  | more h => exact drain_of_more _ _ h
  | failed h => exact drain_of_failed _ _ h
  | packet h _ ih => rw [drain_of_packet _ _ h, ih]

/-- Every drain is such a row of calls, since each packet shortens the buffer. -/
theorem drains_of_drain_eq {d d' : Decoder} {s s' : List UInt8} {ps : List Packet} {a : Answer}
    (h : d.drain s = (ps, a, d', s')) : Drains d s ps a d' s' := by
  induction hn : s.length using Nat.strongRecOn generalizing d s ps with
  | ind n ih =>
    subst hn
    cases hd : d.decode s with
    | mk b rest =>
      obtain ⟨d₁, s₁⟩ := rest
      cases b with
      | packet p =>
        rw [drain_of_packet _ _ hd] at h
        obtain ⟨hps, hrest⟩ := Prod.mk.inj h
        subst hps
        exact .packet hd (ih s₁.length (length_of_packet _ _ hd) (Prod.ext rfl hrest) rfl)
      | more =>
        rw [drain_of_more _ _ hd] at h
        cases h
        exact .more hd
      | failed e =>
        rw [drain_of_failed _ _ hd] at h
        cases h
        exact .failed hd

/-- Every drain ends: each call takes a frame, so there are no more calls than octets. -/
theorem drains_drain (d : Decoder) (s : List UInt8) :
    Drains d s (d.drain s).1 (d.drain s).2.1 (d.drain s).2.2.1 (d.drain s).2.2.2 :=
  drains_of_drain_eq rfl

namespace Drains

variable {d d' : Decoder} {s s' : List UInt8} {ps : List Packet} {a : Answer}

/-- A drain ends where more is needed or where the decoder fails. -/
theorem ends (h : Drains d s ps a d' s') : a = .more ∨ ∃ e, a = .failed e := by
  induction h with
  | more => exact .inl rfl
  | failed => exact .inr ⟨_, rfl⟩
  | packet _ _ ih => exact ih

/-- After a drain that ended for want of octets another call has nothing new to say. -/
theorem decode_eq (h : Drains d s ps .more d' s') : d'.decode s' = (.more, d', s') := by
  generalize ha : Answer.more = a at h
  induction h with
  | more h => exact decode_more _ _ h
  | failed => cases ha
  | packet _ _ ih => exact ih ha

/-- More octets prolong a drain that ended for want of them. -/
theorem append (h : Drains d s ps .more d' s') {t : List UInt8} {qs : List Packet} {b : Answer}
    {e : Decoder} {r : List UInt8} (ht : Drains d' (s' ++ t) qs b e r) :
    Drains d (s ++ t) (ps ++ qs) b e r := by
  generalize ha : Answer.more = a at h
  induction h with
  | more h =>
    have hd := decode_append_more _ _ h t
    cases ht with
    | more ht => exact .more (hd.trans ht)
    | failed ht => exact .failed (hd.trans ht)
    | packet ht hs => exact .packet (hd.trans ht) hs
  | failed => cases ha
  | packet h _ ih => exact .packet (decode_append _ _ h (by simp) t) (ih ht ha)

/-- More octets change nothing in a drain that failed. -/
theorem append_failed {e : FrameError} (h : Drains d s ps (.failed e) d' s') (t : List UInt8) :
    Drains d (s ++ t) ps (.failed e) d' (s' ++ t) := by
  generalize ha : Answer.failed e = a at h
  induction h with
  | more => cases ha
  | failed h =>
    cases ha
    exact .failed (decode_append _ _ h (by simp) t)
  | packet h _ ih => exact .packet (decode_append _ _ h (by simp) t) (ih ha)

end Drains

def feed (d : Decoder) (s : List UInt8) :
    List (List UInt8) → List (List Packet × Answer) × Decoder × List UInt8
  | [] => ([], d, s)
  | c :: cs =>
    let (ps, a, d, s) := d.drain (s ++ c)
    let (out, d, s) := d.feed s cs
    ((ps, a) :: out, d, s)

/-- Chunks give the packets of the whole stream if nothing in it makes the decoder fail:
each drain asks for more, and the last one ends where a single drain would. -/
theorem feed_of_drains (chunks : List (List UInt8)) {d d' : Decoder} {s s' : List UInt8}
    {ps : List Packet} (hs : d.decode s = (.more, d, s))
    (h : Drains d (s ++ chunks.flatten) ps .more d' s') :
    ∃ out, d.feed s chunks = (out, d', s') ∧ out.flatMap Prod.fst = ps ∧
      ∀ a ∈ out.map Prod.snd, a = .more := by
  induction chunks generalizing d s ps with
  | nil =>
    have hnil := h.drain_eq
    rw [List.flatten_nil, List.append_nil, drain_of_more _ _ hs] at hnil
    cases hnil
    exact ⟨[], rfl, rfl, by simp⟩
  | cons c cs ih =>
    have hc := drains_drain d (s ++ c)
    cases hd : d.drain (s ++ c) with
    | mk qs rest =>
      obtain ⟨a, d₁, s₁⟩ := rest
      simp only [hd] at hc
      rw [List.flatten_cons, ← List.append_assoc] at h
      rcases hc.ends with rfl | ⟨e, rfl⟩
      · have hrest := drains_drain d₁ (s₁ ++ cs.flatten)
        have hall := (hc.append hrest).drain_eq
        rw [h.drain_eq] at hall
        simp only [Prod.mk.injEq] at hall
        obtain ⟨hps, ha, hd', hs'⟩ := hall
        rw [← ha, ← hd', ← hs'] at hrest
        obtain ⟨out, hout, hpackets, hmore⟩ := ih hc.decode_eq hrest
        refine ⟨(qs, .more) :: out, ?_, ?_, ?_⟩
        · simp only [feed, hd, hout]
        · rw [List.flatMap_cons, hpackets, hps]
        · simpa using hmore
      · have hfail := (hc.append_failed cs.flatten).drain_eq
        rw [h.drain_eq] at hfail
        simp at hfail

/-- Frames one after the other drain to their packets, and nothing is left. -/
theorem drains_frames {sent limit : Nat} {ps : List Packet} {frames : List (List UInt8)}
    (hword : sent < UInt32.size) (hlimit : sent ≤ limit)
    (h : ps.mapM (Frame.encode sent) = .ok frames) :
    Drains { limit } frames.flatten (ps.map Packet.received) .more { limit } [] := by
  induction ps generalizing frames with
  | nil =>
    rw [List.mapM_nil] at h
    cases h
    exact .more rfl
  | cons p ps ih =>
    rw [List.mapM_cons] at h
    cases hp : Frame.encode sent p with
    | error e =>
      rw [hp] at h
      cases h
    | ok frame =>
      cases hps : ps.mapM (Frame.encode sent) with
      | error e =>
        rw [hp, hps] at h
        cases h
      | ok rest =>
        rw [hp, hps] at h
        cases h
        obtain ⟨hsize, rfl⟩ := Frame.encode_eq_ok hp
        exact .packet (decode_frame limit p rest.flatten (by omega) (by omega)) (ih hps)

/-- Packets that one end wrote under its limit come out at the other end, under a limit
that is no smaller, in their order and once each, however the stream was cut; the
decoder then awaits the next length and has nothing buffered. -/
theorem feed_frames {sent limit : Nat} {ps : List Packet} {frames chunks : List (List UInt8)}
    (hword : sent < UInt32.size) (hlimit : sent ≤ limit)
    (h : ps.mapM (Frame.encode sent) = .ok frames) (hcut : chunks.flatten = frames.flatten) :
    ∃ out, ({ limit } : Decoder).feed [] chunks = (out, { limit }, []) ∧
      out.flatMap Prod.fst = ps.map Packet.received ∧ ∀ a ∈ out.map Prod.snd, a = .more := by
  have hdrain := drains_frames hword hlimit h
  rw [← hcut, ← List.nil_append chunks.flatten] at hdrain
  exact feed_of_drains chunks rfl hdrain

/-- A packet whose content was partly read and a query without content, cut inside the
first body, inside the second id, and with an empty chunk between. -/
theorem feed_two_frames :
    let ps : List Packet :=
      [{ channel := 5, content := { bytes := [1, 0xAA, 0xBB], cursor := 1 } },
        { channel := -1, id := some ⟨0, 7⟩ }]
    let chunks : List (List UInt8) :=
      [[8, 0, 0], [0, 5, 0, 2, 0xAA, 0xBB, 22, 255, 255, 255, 255, 1, 0, 0], [],
        [0, 0, 0, 0, 0, 0, 0, 0, 0, 0, 0, 0, 0, 7, 0]]
    (64 < UInt32.size ∧ 64 ≤ 100 ∧ ps.mapM (Frame.encode 64) = .ok [chunks.flatten.take 9,
      chunks.flatten.drop 9]) ∧
      ∃ out, ({ limit := 100 } : Decoder).feed [] chunks = (out, { limit := 100 }, []) ∧
        out.flatMap Prod.fst = ps.map Packet.received ∧ ∀ a ∈ out.map Prod.snd, a = .more := by
  intro ps chunks
  have hword : 64 < UInt32.size := by decide
  have hframes : ps.mapM (Frame.encode 64) =
      .ok [chunks.flatten.take 9, chunks.flatten.drop 9] := by
    have hsome : (ps.mapM (Frame.encode 64)).toOption =
        some [chunks.flatten.take 9, chunks.flatten.drop 9] := by decide +kernel
    cases hencode : ps.mapM (Frame.encode 64) with
    | error e => simp [hencode, Except.toOption] at hsome
    | ok frames =>
      rw [hencode] at hsome
      rw [Option.some.inj hsome]
  exact ⟨⟨hword, by decide, hframes⟩, feed_frames hword (by decide) hframes (by rfl)⟩

end Switchboard.Decoder
