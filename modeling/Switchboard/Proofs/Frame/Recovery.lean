import Switchboard.Proofs.Frame.Grammar

/-!
# Going on after a frame that holds no packet

An error in a body costs the frame that it is in, so a caller may go on after it; an error
of a length costs nothing and stays, so a caller has to stop there. `exhaust` is what a
caller sees who does both: what each frame held, and the length refused at the end if there
was one. A row of such rounds over the chunks of a stream shows the same up to that refusal
as one round over the whole stream, and leaves the same behind (`takeIn_cut_free`).
-/

namespace Switchboard.Decoder

/-- Whether the decoder awaits a length and the one at the front is too long or too great. -/
def refuses (d : Decoder) (s : List UInt8) : Bool :=
  match d.awaiting, VarInt.peek .int s with
  | none, .tooLong => true
  | none, .found length _ => d.limit < length
  | _, _ => false

/-- What a call comes to. -/
inductive Verdict where
  /-- A frame was taken: its packet, or what is wrong with its body. -/
  | frame (held : Except FrameError Packet)
  | more
  /-- The length at the front is refused. -/
  | refused (e : FrameError)

/-- Ask for the next packet, and tell an error of a body from one of a length. -/
def ask (d : Decoder) (s : List UInt8) : Verdict × Decoder × List UInt8 :=
  match d.decode s with
  | (.packet p, after) => (.frame (.ok p), after)
  | (.more, after) => (.more, after)
  | (.failed e, after) => (if d.refuses s then .refused e else .frame (.error e), after)

/-- Octets not taken yet, and one for a length that was. -/
def load (d : Decoder) (s : List UInt8) : Nat :=
  s.length + if d.awaiting.isSome then 1 else 0

def askBody (d : Decoder) (length : Nat) (s : List UInt8) : Verdict × Decoder × List UInt8 :=
  if length ≤ s.length then
    (.frame (Frame.decodeBody (s.take length)), { d with awaiting := none }, s.drop length)
  else (.more, { d with awaiting := some length }, s)

variable {d d' : Decoder} {s s' : List UInt8}

theorem ask_of_more (h : d.decode s = (.more, d', s')) : d.ask s = (.more, d', s') := by
  simp only [ask, h]

/-- Behind the length, asking is asking for the body. -/
theorem ask_of_stepBody {length : Nat} {r : List UInt8} (hr : d.refuses s = false)
    (h : d.decode s = d.stepBody length r) : d.ask s = d.askBody length r := by
  rcases Nat.lt_or_ge r.length length with hlt | hge
  · rw [stepBody_of_lt d hlt] at h
    rw [ask_of_more h, askBody, if_neg (Nat.not_le.mpr hlt)]
  · rw [stepBody_of_le d hge] at h
    rw [askBody, if_pos hge]
    cases hb : Frame.decodeBody (r.take length) with
    | ok p => simp only [ask, h, hb]
    | error e =>
      simp only [ask, h, hb, hr]
      rfl

/-- A frame is taken whole, whatever its body holds. -/
theorem ask_of_opens {limit : Nat} {body rest : List UInt8}
    (h : Frame.Opens body.length s (body ++ rest)) (hle : body.length ≤ limit) :
    ({ limit } : Decoder).ask s = (.frame (Frame.decodeBody body), { limit }, rest) := by
  obtain ⟨size, hpeek, -⟩ := h.peek
  have hkept : ({ limit } : Decoder).refuses s = false := by
    simp only [refuses, hpeek, decide_eq_false_iff_not]
    omega
  have hreach : body.length ≤ (body ++ rest).length := by
    rw [List.length_append]
    omega
  rw [ask_of_stepBody hkept (decode_of_opens h hle), askBody, if_pos hreach, List.take_left,
    List.drop_left]

/-- What a call can find, told for whatever octets may follow: a length that is refused, the
beginning of a length, or a frame whose body is next in `r`. -/
theorem ask_cases (d : Decoder) (s : List UInt8) :
    (∃ e, ∀ t, d.decode (s ++ t) = (.failed e, d, s ++ t) ∧
      d.ask (s ++ t) = (.refused e, d, s ++ t)) ∨
    d.ask s = (.more, d, s) ∨
    (∃ length r, r.length < d.load s ∧ ∀ t, d.ask (s ++ t) = d.askBody length (r ++ t)) := by
  cases hw : d.awaiting with
  | some length =>
    refine .inr (.inr ⟨length, s, by simp [load, hw], fun t => ?_⟩)
    exact ask_of_stepBody (by simp only [refuses, hw]) (by simp only [decode, hw])
  | none =>
    cases hp : VarInt.peek .int s with
    | incomplete => exact .inr (.inl (ask_of_more (by simp only [decode, hw, hp])))
    | tooLong =>
      refine .inl ⟨.malformed .varIntTooLong, fun t => ?_⟩
      have hp' := (VarInt.peek_append .int s t (by simp [hp])).trans hp
      have hd : d.decode (s ++ t) = (.failed (.malformed .varIntTooLong), d, s ++ t) := by
        simp only [decode, hw, hp']
      exact ⟨hd, by simp only [ask, hd, refuses, hw, hp', if_true]⟩
    | found length size =>
      have hsize := VarInt.peek_found .int hp
      have hp' (t : List UInt8) : VarInt.peek .int (s ++ t) = .found length size :=
        (VarInt.peek_append .int s t (by simp [hp])).trans hp
      by_cases hlimit : d.limit < length
      · refine .inl ⟨.tooLarge length d.limit, fun t => ?_⟩
        have hd : d.decode (s ++ t) = (.failed (.tooLarge length d.limit), d, s ++ t) := by
          simp only [decode, hw, hp', if_pos hlimit]
        exact ⟨hd, by simp only [ask, hd, refuses, hw, hp', hlimit, decide_true, if_true]⟩
      · refine .inr (.inr ⟨length, s.drop size, ?_, fun t => ?_⟩)
        · rw [List.length_drop, load]
          omega
        · rw [← List.drop_append_of_le_length hsize.2]
          apply ask_of_stepBody
          · simp only [refuses, hw, hp', hlimit, decide_false]
          · simp only [decode, hw, hp', if_neg hlimit]

/-- What a call came to tells which of these it found. -/
theorem ask_inv {v : Verdict} (h : d.ask s = (v, d', s')) :
    (∃ e, v = .refused e ∧ d' = d ∧ s' = s ∧ ∀ t, d.decode (s ++ t) = (.failed e, d, s ++ t) ∧
      d.ask (s ++ t) = (.refused e, d, s ++ t)) ∨
    (v = .more ∧ d' = d ∧ s' = s) ∨
    (∃ length r, r.length < d.load s ∧ d.askBody length r = (v, d', s') ∧
      ∀ t, d.ask (s ++ t) = d.askBody length (r ++ t)) := by
  obtain ⟨e, ha⟩ | ha | ⟨length, r, hload, ha⟩ := ask_cases d s
  · have hs := (ha []).2
    rw [List.append_nil, h] at hs
    cases hs
    exact .inl ⟨e, rfl, rfl, rfl, ha⟩
  · rw [h] at ha
    cases ha
    exact .inr (.inl ⟨rfl, rfl, rfl⟩)
  · have hs := ha []
    rw [List.append_nil, List.append_nil, h] at hs
    exact .inr (.inr ⟨length, r, hload, hs.symm, ha⟩)

/-- A body is taken when it is there, and kept otherwise. -/
theorem askBody_cases {length : Nat} {r : List UInt8} {v : Verdict}
    (h : d.askBody length r = (v, d', s')) :
    (length ≤ r.length ∧ v = .frame (Frame.decodeBody (r.take length)) ∧
      d' = { d with awaiting := none } ∧ s' = r.drop length) ∨
    (v = .more ∧ d' = { d with awaiting := some length } ∧ s' = r) := by
  rw [askBody] at h
  split at h <;> cases h
  · rename_i hle
    exact .inl ⟨hle, rfl, rfl, rfl⟩
  · exact .inr ⟨rfl, rfl, rfl⟩

/-- A verdict other than that more is needed stands when more octets come. -/
theorem ask_append {v : Verdict} (h : d.ask s = (v, d', s')) (hv : v ≠ .more) (t : List UInt8) :
    d.ask (s ++ t) = (v, d', s' ++ t) := by
  obtain ⟨e, rfl, rfl, rfl, ha⟩ | ⟨rfl, -, -⟩ | ⟨length, r, -, hbody, ha⟩ := ask_inv h
  · exact (ha t).2
  · exact absurd rfl hv
  · obtain ⟨hle, rfl, rfl, rfl⟩ | ⟨rfl, -, -⟩ := askBody_cases hbody
    · have hle' : length ≤ (r ++ t).length := by
        rw [List.length_append]
        omega
      rw [ha t, askBody, if_pos hle', List.take_append_of_le_length hle,
        List.drop_append_of_le_length hle]
    · exact absurd rfl hv

/-- Where more is needed, the next call goes on with what was kept. -/
theorem ask_append_more (h : d.ask s = (.more, d', s')) (t : List UInt8) :
    d.ask (s ++ t) = d'.ask (s' ++ t) := by
  obtain ⟨e, hv, -⟩ | ⟨-, rfl, rfl⟩ | ⟨length, r, -, hbody, ha⟩ := ask_inv h
  · cases hv
  · rfl
  · obtain ⟨-, hv, -⟩ | ⟨-, rfl, rfl⟩ := askBody_cases hbody
    · cases hv
    · have hnext : ({ d with awaiting := some length } : Decoder).decode (s' ++ t) =
          { d with awaiting := some length }.stepBody length (s' ++ t) := rfl
      rw [ha t, ask_of_stepBody rfl hnext]
      rfl

/-- A decoder that needs more needs it again as long as nothing comes. -/
theorem ask_more (h : d.ask s = (.more, d', s')) : d'.ask s' = (.more, d', s') := by
  have hagain := ask_append_more h []
  rw [List.append_nil, List.append_nil, h] at hagain
  exact hagain.symm

/-- A refusal takes nothing, and comes again whatever follows. -/
theorem ask_refused {e : FrameError} (h : d.ask s = (.refused e, d', s')) :
    d' = d ∧ s' = s ∧ ∀ t, d.decode (s ++ t) = (.failed e, d, s ++ t) := by
  obtain ⟨e', hv, hd, hs, ha⟩ | ⟨hv, -⟩ | ⟨length, r, -, hbody, -⟩ := ask_inv h
  · cases hv
    exact ⟨hd, hs, fun t => (ha t).1⟩
  · cases hv
  · obtain ⟨-, hv, -⟩ | ⟨hv, -⟩ := askBody_cases hbody <;> cases hv

/-- Each frame takes from the load, if it is only the length of an empty body. -/
theorem load_of_frame {held : Except FrameError Packet} (h : d.ask s = (.frame held, d', s')) :
    d'.load s' < d.load s := by
  obtain ⟨e, hv, -⟩ | ⟨hv, -⟩ | ⟨length, r, hload, hbody, -⟩ := ask_inv h
  · cases hv
  · cases hv
  · obtain ⟨-, -, rfl, rfl⟩ | ⟨hv, -⟩ := askBody_cases hbody
    · simp only [load, Option.isSome_none, Bool.false_eq_true, if_false, List.length_drop] at hload ⊢
      omega
    · cases hv

/-- What calls came to until more was needed or a length was refused. -/
structure Round where
  /-- What each frame held, in order. -/
  frames : List (Except FrameError Packet) := []
  /-- Why the length at which the calls ended is refused, if it is. -/
  refusal : Option FrameError := none
  decoder : Decoder
  unread : List UInt8

def Round.behind (r : Round) (frames : List (Except FrameError Packet)) : Round :=
  { r with frames := frames ++ r.frames }

@[simp] theorem Round.behind_behind (r : Round) (xs ys : List (Except FrameError Packet)) :
    (r.behind ys).behind xs = r.behind (xs ++ ys) := by
  simp [Round.behind]

@[simp] theorem Round.behind_nil (r : Round) : r.behind [] = r := rfl

/-- Ask again and again, after a packet and after an error in a body, until more is needed
or a length is refused. -/
def exhaust (d : Decoder) (s : List UInt8) : Round :=
  match _h : d.ask s with
  | (.frame held, d', s') => (exhaust d' s').behind [held]
  | (.more, d', s') => { decoder := d', unread := s' }
  | (.refused e, d', s') => { refusal := some e, decoder := d', unread := s' }
termination_by d.load s
decreasing_by exact load_of_frame _h

/-- A frame is taken, and the calls go on behind it. -/
theorem exhaust_of_frame {held : Except FrameError Packet} (h : d.ask s = (.frame held, d', s')) :
    d.exhaust s = (d'.exhaust s').behind [held] := by
  rw [exhaust]
  split <;> rename_i h' <;> rw [h] at h' <;> cases h'
  rfl

theorem exhaust_of_more (h : d.ask s = (.more, d', s')) :
    d.exhaust s = { decoder := d', unread := s' } := by
  rw [exhaust]
  split <;> rename_i h' <;> rw [h] at h' <;> cases h'
  rfl

theorem exhaust_of_refused {e : FrameError} (h : d.ask s = (.refused e, d', s')) :
    d.exhaust s = { refusal := some e, decoder := d', unread := s' } := by
  rw [exhaust]
  split <;> rename_i h' <;> rw [h] at h' <;> cases h'
  rfl

/-- A round is told by its first call. -/
theorem exhaust_congr (h : d.ask s = d'.ask s') : d.exhaust s = d'.exhaust s' := by
  rw [exhaust, exhaust.eq_def d', h]

/-- A round goes frame by frame to its end. -/
theorem exhaust_induction {P : Decoder → List UInt8 → Round → Prop}
    (frame : ∀ d s held d' s', d.ask s = (.frame held, d', s') → P d' s' (d'.exhaust s') →
      P d s ((d'.exhaust s').behind [held]))
    (more : ∀ d s d' s', d.ask s = (.more, d', s') → P d s { decoder := d', unread := s' })
    (refused : ∀ d s e, d.ask s = (.refused e, d, s) →
      P d s { refusal := some e, decoder := d, unread := s })
    (d : Decoder) (s : List UInt8) : P d s (d.exhaust s) := by
  induction hn : d.load s using Nat.strongRecOn generalizing d s with
  | ind n ih =>
    subst hn
    cases ha : d.ask s with
    | mk v after =>
      obtain ⟨d', s'⟩ := after
      cases v with
      | frame held =>
        rw [exhaust_of_frame ha]
        exact frame d s held d' s' ha (ih _ (load_of_frame ha) d' s' rfl)
      | more =>
        rw [exhaust_of_more ha]
        exact more d s d' s' ha
      | refused e =>
        obtain ⟨rfl, rfl, -⟩ := ask_refused ha
        rw [exhaust_of_refused ha]
        exact refused _ _ e ha

/-- The round that goes on with more octets: a refusal stays. -/
def Round.extend (r : Round) (t : List UInt8) : Round :=
  match r.refusal with
  | none => (r.decoder.exhaust (r.unread ++ t)).behind r.frames
  | some _ => { r with unread := r.unread ++ t }

/-- Frames in front do not matter for what comes later. -/
theorem Round.extend_behind (r : Round) (frames : List (Except FrameError Packet))
    (t : List UInt8) : (r.behind frames).extend t = (r.extend t).behind frames := by
  obtain ⟨out, refusal, d, s⟩ := r
  cases refusal <;> simp [Round.extend, Round.behind]

/-- A round over octets that come in two parts is one over the first, extended by the
second. -/
theorem exhaust_append (d : Decoder) (s t : List UInt8) :
    d.exhaust (s ++ t) = (d.exhaust s).extend t := by
  induction d, s using exhaust_induction with
  | frame d s held d' s' ha ih =>
    rw [exhaust_of_frame (ask_append ha (by simp) t), ih, Round.extend_behind]
  | more d s d' s' ha =>
    rw [exhaust_congr (ask_append_more ha t)]
    rfl
  | refused d s e ha =>
    rw [exhaust_of_refused (ask_append ha (by simp) t)]
    rfl

def Round.verdict (r : Round) : Verdict := r.refusal.elim .more .refused

/-- Another call after a round has nothing new to say. -/
theorem ask_exhaust (d : Decoder) (s : List UInt8) :
    (d.exhaust s).decoder.ask (d.exhaust s).unread =
      ((d.exhaust s).verdict, (d.exhaust s).decoder, (d.exhaust s).unread) := by
  induction d, s using exhaust_induction with
  | frame d s held d' s' ha ih => exact ih
  | more d s d' s' ha => exact ask_more ha
  | refused d s e ha => exact ha

/-- Take in chunks one after the other, with a round after each. -/
def takeIn (d : Decoder) (s : List UInt8) :
    List (List UInt8) → List Round × Decoder × List UInt8
  | [] => ([], d, s)
  | c :: cs =>
    let r := d.exhaust (s ++ c)
    let (rounds, after) := r.decoder.takeIn r.unread cs
    (r :: rounds, after)

/-- What frames held up to the first refusal, and that refusal. -/
def untilRefused : List Round → List (Except FrameError Packet) × Option FrameError
  | [] => ([], none)
  | r :: rounds =>
    match r.refusal with
    | some e => (r.frames, some e)
    | none => (r.frames ++ (untilRefused rounds).1, (untilRefused rounds).2)

/-- Once a length is refused, chunks pile up behind it. -/
theorem takeIn_of_refused {e : FrameError} (chunks : List (List UInt8))
    (h : d.ask s = (.refused e, d, s)) :
    (d.takeIn s chunks).2 = (d, s ++ chunks.flatten) := by
  induction chunks generalizing s with
  | nil => simp [takeIn]
  | cons c cs ih =>
    have hnext := ask_append h (by simp) c
    simp only [takeIn, exhaust_of_refused hnext, ih hnext, List.flatten_cons, List.append_assoc]

/-- Chunks taken in where more is needed show what the whole of them shows. -/
theorem takeIn_of_more (chunks : List (List UInt8)) (h : d.ask s = (.more, d, s)) :
    let whole := d.exhaust (s ++ chunks.flatten)
    untilRefused (d.takeIn s chunks).1 = (whole.frames, whole.refusal) ∧
      (d.takeIn s chunks).2 = (whole.decoder, whole.unread) := by
  induction chunks generalizing d s with
  | nil =>
    rw [List.flatten_nil, List.append_nil, exhaust_of_more h]
    exact ⟨rfl, rfl⟩
  | cons c cs ih =>
    have hwhole : d.exhaust (s ++ (c :: cs).flatten) = (d.exhaust (s ++ c)).extend cs.flatten := by
      rw [List.flatten_cons, ← List.append_assoc, exhaust_append]
    have hend := ask_exhaust d (s ++ c)
    rw [hwhole]
    cases hr : (d.exhaust (s ++ c)).refusal with
    | none =>
      simp only [Round.verdict, hr, Option.elim_none] at hend
      obtain ⟨hframes, hafter⟩ := ih hend
      simp only [takeIn, untilRefused, hr, hframes, hafter, Round.extend]
      exact ⟨rfl, rfl⟩
    | some e =>
      simp only [Round.verdict, hr, Option.elim_some] at hend
      simp only [takeIn, untilRefused, hr, takeIn_of_refused cs hend, Round.extend, and_self]

/-- A frame in a stream counts for what its body holds, and for nothing else in what comes
before and after it. -/
theorem exhaust_frame {limit : Nat} {before frame body after : List UInt8}
    {held : List (Except FrameError Packet)}
    (hbefore : ({ limit } : Decoder).exhaust before =
      { frames := held, decoder := { limit }, unread := [] })
    (hframe : Frame.Opens body.length frame body) (hle : body.length ≤ limit) :
    ({ limit } : Decoder).exhaust (before ++ frame ++ after) =
      (({ limit } : Decoder).exhaust after).behind (held ++ [Frame.decodeBody body]) := by
  have hask : ({ limit } : Decoder).ask (frame ++ after) =
      (.frame (Frame.decodeBody body), { limit }, after) := by
    obtain ⟨head, hhead, rfl⟩ := hframe
    rw [List.append_assoc]
    exact ask_of_opens ⟨head, hhead, rfl⟩ hle
  rw [List.append_assoc, exhaust_append, hbefore]
  simp only [Round.extend, List.nil_append]
  rw [exhaust_of_frame hask, Round.behind_behind]

/-- However a stream is cut, the rounds over its chunks show the same up to the first length
that is refused, and leave the same decoder and the same octets; a frame counts for what
its body holds and leaves what is before and after it alone; and a length that is refused
stays where it is and is refused for good. -/
theorem takeIn_cut_free (limit : Nat) :
    (∀ chunks : List (List UInt8),
      let whole := ({ limit } : Decoder).exhaust chunks.flatten
      untilRefused (({ limit } : Decoder).takeIn [] chunks).1 = (whole.frames, whole.refusal) ∧
        (({ limit } : Decoder).takeIn [] chunks).2 = (whole.decoder, whole.unread)) ∧
    (∀ before frame body after : List UInt8, ∀ held : List (Except FrameError Packet),
      ({ limit } : Decoder).exhaust before =
        { frames := held, decoder := { limit }, unread := [] } →
      Frame.Opens body.length frame body → body.length ≤ limit →
      ({ limit } : Decoder).exhaust (before ++ frame ++ after) =
        (({ limit } : Decoder).exhaust after).behind (held ++ [Frame.decodeBody body])) ∧
    (∀ s : List UInt8, ∀ e : FrameError, let whole := ({ limit } : Decoder).exhaust s
      whole.refusal = some e →
      ∀ t, whole.decoder.decode (whole.unread ++ t) =
        (.failed e, whole.decoder, whole.unread ++ t)) := by
  refine ⟨fun chunks => ?_, fun before frame body after held hbefore hframe hle =>
    exhaust_frame hbefore hframe hle, fun s e => ?_⟩
  · exact takeIn_of_more chunks (d := { limit }) (s := []) rfl
  · intro whole hrefusal t
    have hend := ask_exhaust { limit } s
    simp only [Round.verdict, hrefusal, Option.elim_some, whole] at hend
    exact (ask_refused hend).2.2 t

/-- A packet, a body with one octet to spare and a length beyond the limit, cut behind a
length, inside a channel and between frames: the second body costs its own frame only, and
the refusal comes at the end and stays. -/
theorem takeIn_cut_free_sixteen :
    let before : List UInt8 := [6, 0, 0, 0, 1, 0, 0]
    let body : List UInt8 := [0, 0, 0, 2, 0, 0, 0xFF]
    let packet : Packet := { channel := 1, content := .ofBytes [] }
    let chunks : List (List UInt8) := [before ++ [7], [0, 0], [0, 2, 0, 0, 0xFF], [17], [0]]
    let d : Decoder := { limit := 16 }
    chunks.flatten = before ++ 7 :: body ++ [17, 0] ∧
      d.exhaust before = { frames := [.ok packet], decoder := d, unread := [] } ∧
      untilRefused (d.takeIn [] chunks).1 =
        ([.ok packet, .error (.trailing 1)], some (.tooLarge 17 16)) ∧
      (d.takeIn [] chunks).2 = (d, [17, 0]) ∧
      ∀ t, d.decode ([17, 0] ++ t) = (.failed (.tooLarge 17 16), d, [17, 0] ++ t) := by
  intro before body packet chunks d
  obtain ⟨hcut, hframe, hstays⟩ := takeIn_cut_free 16
  have hbefore : d.exhaust before = { frames := [.ok packet], decoder := d, unread := [] } := by
    have hask : d.ask before = (.frame (.ok packet), d, []) := rfl
    rw [exhaust_of_frame hask, exhaust_of_more rfl]
    rfl
  have hopens : Frame.Opens body.length (7 :: body) body :=
    have hpeek : VarInt.peek .int (7 :: body) = .found 7 1 := rfl
    Frame.opens_of_peek hpeek
  have hwhole : d.exhaust chunks.flatten =
      { frames := [.ok packet, .error (.trailing 1)], refusal := some (.tooLarge 17 16),
        decoder := d, unread := [17, 0] } := by
    have hafter : d.exhaust [17, 0] =
        { refusal := some (.tooLarge 17 16), decoder := d, unread := [17, 0] } :=
      exhaust_of_refused rfl
    have h := hframe before (7 :: body) body [17, 0] [.ok packet] hbefore hopens (by decide)
    rw [hafter] at h
    exact h
  have hshown := hcut chunks
  have hrefused := hstays chunks.flatten (.tooLarge 17 16)
  rw [hwhole] at hshown hrefused
  exact ⟨rfl, hbefore, hshown.1, hshown.2, hrefused rfl⟩

end Switchboard.Decoder
