import Switchboard.Server.Lifecycle

/-!
# Starting and stopping in any order

A server in the course of its calls. One call at a time is under way, and between any two of its
steps the accept loops that earlier starts spawned may take theirs (`Course.step`). The flag is
lowered and the end announced in one step, the last one of the loop, and a start goes on only
while the flag is down. So where a start has passed its check no loop is left that could
interfere (`Sound`), and everything else follows: there is one loop at most, the flag is up from
the raise to the end of that loop, what is announced alternates, and a call that fails has changed
nothing.
-/

namespace Switchboard

namespace Lifecycle

/-- A server as its callers and the consumer of its events see it. -/
structure Scene where
  life : Lifecycle := {}
  /-- What was announced so far. -/
  told : List ServerEvent := []

/-- A step of the accept loop at a position. -/
def Scene.loop (s : Scene) (i : Nat) : Scene :=
  ⟨(s.life.stepLoop i).2, s.told ++ (s.life.stepLoop i).1⟩

/-- How far a call is that has passed its check. -/
inductive Stage where
  | binding
  /-- The endpoint and a fresh signal are kept. -/
  | raising (endpoint : Endpoint)
  /-- The flag is up. -/
  | announcing (endpoint : Endpoint)
  | spawning (endpoint : Endpoint)
  | signalling

structure Call where
  seen : Scene
  stage : Stage

inductive Answer where
  | start (result : Except ServerError Endpoint)
  | stop (result : Except ServerError Unit)

/-- A call that has returned: what it found, what it answered and what it left. -/
structure Return where
  seen : Scene
  answer : Answer
  left : Scene

structure Course where
  scene : Scene := {}
  call : Option Call := none
  returns : List Return := []

/-- What can happen next. -/
inductive Event where
  /-- A start is made and looks at the flag. -/
  | start
  /-- A stop is made and looks at the flag. -/
  | stop
  /-- Binding, at the endpoint that is configured, comes to its end. -/
  | bind (configured : String) (result : Except BindFault Endpoint)
  /-- The next step of the call under way. -/
  | proceed
  /-- A step of the accept loop at a position. -/
  | loop (position : Nat)

namespace Course

def enter (c : Course) (stage : Stage) : Course := { c with call := some ⟨c.scene, stage⟩ }

def move (c : Course) (seen scene : Scene) (stage : Stage) : Course :=
  { c with scene, call := some ⟨seen, stage⟩ }

def finish (c : Course) (seen scene : Scene) (answer : Answer) : Course :=
  { scene, call := none, returns := c.returns ++ [⟨seen, answer, scene⟩] }

def step (c : Course) : Event → Option Course
  | .start =>
    match c.call, c.scene.life.mayStart with
    | some _, _ => none
    | none, .error e => some (c.finish c.scene c.scene (.start (.error e)))
    | none, .ok () => some (c.enter .binding)
  | .stop =>
    match c.call, c.scene.life.mayStop with
    | some _, _ => none
    | none, .error e => some (c.finish c.scene c.scene (.stop (.error e)))
    | none, .ok () => some (c.enter .signalling)
  | .bind configured result =>
    match c.call, result with
    | some ⟨seen, .binding⟩, .error fault =>
      some (c.finish seen c.scene (.start (.error (.bindFailed configured fault))))
    | some ⟨seen, .binding⟩, .ok e =>
      some (c.move seen { c.scene with life := c.scene.life.bound e } (.raising e))
    | _, _ => none
  | .proceed =>
    match c.call with
    | some ⟨seen, .raising e⟩ =>
      some (c.move seen { c.scene with life := c.scene.life.raise } (.announcing e))
    | some ⟨seen, .announcing e⟩ =>
      some (c.move seen { c.scene with told := c.scene.told ++ [.started e] } (.spawning e))
    | some ⟨seen, .spawning e⟩ =>
      some (c.finish seen { c.scene with life := c.scene.life.spawn } (.start (.ok e)))
    | some ⟨seen, .signalling⟩ =>
      some (c.finish seen { c.scene with life := c.scene.life.sendSignal } (.stop (.ok ())))
    | _ => none
  | .loop i => some { c with scene := c.scene.loop i }

def run (c : Course) : List Event → Option Course
  | [] => some c
  | e :: es => (c.step e).bind fun c => c.run es

inductive Move (c : Course) : Event → Course → Prop where
  | startRefused (idle : c.call = none) (up : c.scene.life.running = true) :
      Move c .start (c.finish c.scene c.scene (.start (.error .alreadyRunning)))
  | startMade (idle : c.call = none) (down : c.scene.life.running = false) :
      Move c .start (c.enter .binding)
  | stopRefused (idle : c.call = none) (down : c.scene.life.running = false) :
      Move c .stop (c.finish c.scene c.scene (.stop (.error .notRunning)))
  | stopMade (idle : c.call = none) (up : c.scene.life.running = true) :
      Move c .stop (c.enter .signalling)
  | unbound {seen : Scene} (call : c.call = some ⟨seen, .binding⟩) (configured : String)
      (fault : BindFault) :
      Move c (.bind configured (.error fault))
        (c.finish seen c.scene (.start (.error (.bindFailed configured fault))))
  | bound {seen : Scene} (call : c.call = some ⟨seen, .binding⟩) (configured : String)
      (e : Endpoint) :
      Move c (.bind configured (.ok e))
        (c.move seen { c.scene with life := c.scene.life.bound e } (.raising e))
  | raised {seen : Scene} {e : Endpoint} (call : c.call = some ⟨seen, .raising e⟩) :
      Move c .proceed (c.move seen { c.scene with life := c.scene.life.raise } (.announcing e))
  | announced {seen : Scene} {e : Endpoint} (call : c.call = some ⟨seen, .announcing e⟩) :
      Move c .proceed
        (c.move seen { c.scene with told := c.scene.told ++ [.started e] } (.spawning e))
  | spawned {seen : Scene} {e : Endpoint} (call : c.call = some ⟨seen, .spawning e⟩) :
      Move c .proceed
        (c.finish seen { c.scene with life := c.scene.life.spawn } (.start (.ok e)))
  | signalled {seen : Scene} (call : c.call = some ⟨seen, .signalling⟩) :
      Move c .proceed
        (c.finish seen { c.scene with life := c.scene.life.sendSignal } (.stop (.ok ())))
  | loop (i : Nat) : Move c (.loop i) { c with scene := c.scene.loop i }

/-- By cases on the event and on the stage of the call under way. -/
theorem move_of_step {c c' : Course} {e : Event} (h : c.step e = some c') : Move c e c' := by
  cases e with
  | start =>
    cases hcall : c.call with
    | some call => simp [step, hcall] at h
    | none =>
      cases hflag : c.scene.life.running with
      | true =>
        simp only [step, hcall, mayStart, hflag, if_true] at h
        cases h
        exact .startRefused hcall hflag
      | false =>
        simp only [step, hcall, mayStart, hflag, Bool.false_eq_true, if_false] at h
        cases h
        exact .startMade hcall hflag
  | stop =>
    cases hcall : c.call with
    | some call => simp [step, hcall] at h
    | none =>
      cases hflag : c.scene.life.running with
      | true =>
        simp only [step, hcall, mayStop, hflag, if_true] at h
        cases h
        exact .stopMade hcall hflag
      | false =>
        simp only [step, hcall, mayStop, hflag, Bool.false_eq_true, if_false] at h
        cases h
        exact .stopRefused hcall hflag
  | bind configured result =>
    simp only [step] at h
    split at h
    · rename_i seen fault hcall
      cases h
      exact .unbound hcall configured fault
    · rename_i seen e hcall
      cases h
      exact .bound hcall configured e
    · cases h
  | proceed =>
    simp only [step] at h
    split at h
    · rename_i hcall
      cases h
      exact .raised hcall
    · rename_i hcall
      cases h
      exact .announced hcall
    · rename_i hcall
      cases h
      exact .spawned hcall
    · rename_i hcall
      cases h
      exact .signalled hcall
    · cases h
  | loop i =>
    cases h
    exact .loop i

/-- What every step keeps, every run keeps. -/
theorem run_induction {P : Course → Prop}
    (hmove : ∀ c c' e, Move c e c' → P c → P c') {c c' : Course} {es : List Event}
    (h : c.run es = some c') (hc : P c) : P c' := by
  induction es generalizing c with
  | nil =>
    cases h
    exact hc
  | cons e es ih =>
    obtain ⟨d, hd, hrest⟩ := Option.bind_eq_some_iff.mp h
    exact ih hrest (hmove c d e (move_of_step hd) hc)

end Course

/-- Started and Stopped in turn, Started first. -/
def Alternating (told : List ServerEvent) : Prop :=
  ∀ (i : Nat) (e : ServerEvent), told[i]? = some e → (e = .stopped ↔ i % 2 = 1)

/-- Started and Stopped go on in turn. -/
theorem Alternating.append {told : List ServerEvent} (h : Alternating told) {e : ServerEvent}
    (he : e = .stopped ↔ told.length % 2 = 1) : Alternating (told ++ [e]) := by
  intro i e' hi
  rcases Nat.lt_trichotomy i told.length with hlt | rfl | hgt
  · rw [List.getElem?_append_left hlt] at hi
    exact h i e' hi
  · rw [List.getElem?_concat_length] at hi
    cases hi
    exact he
  · rw [List.getElem?_eq_none (by simp; omega)] at hi
    cases hi

namespace Scene

/-- The flag is down, no loop is left and every start that was announced has its end. -/
structure Down (s : Scene) : Prop where
  running : s.life.running = false
  loops : s.life.loops = []
  told : s.told.length % 2 = 0

/-- The flag is up for the one loop there is, whose end is not announced yet. -/
structure Up (s : Scene) : Prop where
  running : s.life.running = true
  loops : ∃ l, s.life.loops = [l]
  told : s.told.length % 2 = 1

variable {s : Scene}

theorem loop_of_empty (h : s.life.loops = []) (i : Nat) : s.loop i = s := by
  obtain ⟨life, told⟩ := s
  have hnone : life.loops[i]? = none := by
    rw [show life.loops = [] from h]
    rfl
  simp only [loop, stepLoop, hnone, List.append_nil]

/-- The one loop goes on, or it leaves and takes the flag down with it. -/
theorem Up.loop_cases (h : s.Up) (i : Nat) :
    (s.loop i).Up ∧ (s.loop i).told = s.told ∨
      s.life.loops[i]? = some .leaving ∧ (s.loop i).Down ∧
        (s.loop i).told = s.told ++ [.stopped] := by
  obtain ⟨l, hl⟩ := h.loops
  have hrunning := h.running
  have htold := h.told
  cases i with
  | zero =>
    cases l with
    | accepting =>
      have hstep : s.loop 0 = s := by simp [loop, stepLoop, hl]
      rw [hstep]
      exact .inl ⟨h, rfl⟩
    | signalled =>
      refine .inl ⟨⟨?_, ⟨.leaving, ?_⟩, ?_⟩, ?_⟩ <;> simp [loop, stepLoop, hl, hrunning, htold]
    | leaving =>
      refine .inr ⟨by simp [hl], ⟨?_, ?_, ?_⟩, ?_⟩ <;> simp [loop, stepLoop, hl]
      omega
  | succ i =>
    have hstep : s.loop (i + 1) = s := by simp [loop, stepLoop, hl]
    rw [hstep]
    exact .inl ⟨h, rfl⟩

/-- A loop that ends lowers the flag and announces the end; while the flag is down there is none.
-/
theorem rests_loop (h : s.Down ∨ s.Up) (i : Nat) : (s.loop i).Down ∨ (s.loop i).Up := by
  rcases h with hdown | hup
  · rw [loop_of_empty hdown.loops]
    exact .inl hdown
  · rcases hup.loop_cases i with ⟨h, -⟩ | ⟨-, h, -⟩
    · exact .inr h
    · exact .inl h

/-- The end of a loop is announced once, behind its start. -/
theorem alternating_loop (h : s.Down ∨ s.Up) (halt : Alternating s.told) (i : Nat) :
    Alternating (s.loop i).told := by
  rcases h with hdown | hup
  · rwa [loop_of_empty hdown.loops]
  · rcases hup.loop_cases i with ⟨-, h⟩ | ⟨-, -, h⟩
    · rwa [h]
    · rw [h]
      exact halt.append (by simp [hup.told])

end Scene

/-- What holds at a stage of a call that found `seen`. No loop is left while a start is under
way. -/
inductive Stage.Holds (seen s : Scene) : Stage → Prop where
  | binding (same : s = seen) (down : s.Down) : Holds seen s .binding
  | raising (e : Endpoint) (down : s.Down) (told : s.told = seen.told) : Holds seen s (.raising e)
  | announcing (e : Endpoint) (running : s.life.running = true) (loops : s.life.loops = [])
      (told : s.told = seen.told) (even : seen.told.length % 2 = 0) : Holds seen s (.announcing e)
  | spawning (e : Endpoint) (running : s.life.running = true) (loops : s.life.loops = [])
      (told : s.told = seen.told ++ [.started e]) (even : seen.told.length % 2 = 0) :
      Holds seen s (.spawning e)
  | signalling (rests : s.Down ∨ s.Up) : Holds seen s .signalling

/-- The flag that the check of a call wants: a stop goes on while it is up, a start while it is
down. -/
def Stage.wanted : Stage → Bool
  | .signalling => true
  | .binding | .raising _ | .announcing _ | .spawning _ => false

def Stage.hasRaised : Stage → Bool
  | .announcing _ | .spawning _ => true
  | .binding | .raising _ | .signalling => false

def Stage.endpoint? : Stage → Option Endpoint
  | .raising e | .announcing e | .spawning e => some e
  | .binding | .signalling => none

/-- What a call answers is right for what it found, and a call that fails leaves that. -/
def Return.Right (r : Return) : Prop :=
  match r.answer with
  | .start result =>
    (result = .error .alreadyRunning ↔ r.seen.life.running = true) ∧
      (∀ e, result = .error e →
        (e = .alreadyRunning ∨ ∃ configured fault, e = .bindFailed configured fault) ∧
          r.left = r.seen) ∧
      ∀ endpoint, result = .ok endpoint →
        r.left.life.running = true ∧ r.left.told = r.seen.told ++ [.started endpoint]
  | .stop result =>
    (result = .error .notRunning ↔ r.seen.life.running = false) ∧
      ∀ e, result = .error e → e = .notRunning ∧ r.left = r.seen

namespace Course

structure Sound (c : Course) : Prop where
  idle : c.call = none → c.scene.Down ∨ c.scene.Up
  busy {seen : Scene} {stage : Stage} : c.call = some ⟨seen, stage⟩ →
    stage.Holds seen c.scene ∧ seen.life.running = stage.wanted
  alternating : Alternating c.scene.told
  returns : ∀ r ∈ c.returns, r.Right

theorem sound_start : Sound {} where
  idle _ := .inl ⟨rfl, rfl, rfl⟩
  busy h := by cases h
  alternating i e h := by cases h
  returns r h := by cases h

theorem running_sendSignal (s : Lifecycle) : s.sendSignal.running = s.running := by
  rw [sendSignal]
  split <;> rfl

/-- The signal changes how the one loop stands, if there is one, and nothing else that counts. -/
theorem rests_sendSignal {s : Scene} (h : s.Down ∨ s.Up) :
    Scene.Down { s with life := s.life.sendSignal } ∨
      Scene.Up { s with life := s.life.sendSignal } := by
  rcases h with hdown | hup
  · refine .inl ⟨(running_sendSignal _).trans hdown.running, ?_, hdown.told⟩
    simp only [sendSignal]
    split <;> simp [hdown.loops, signalNewest]
  · refine .inr ⟨(running_sendSignal _).trans hup.running, ?_, hup.told⟩
    obtain ⟨l, hl⟩ := hup.loops
    simp only [sendSignal]
    split <;> simp [hl, signalNewest]

namespace Sound

variable {c : Course} {seen scene : Scene}

theorem enter (h : c.Sound) {stage : Stage} (hstage : stage.Holds c.scene c.scene)
    (hwanted : c.scene.life.running = stage.wanted) : (c.enter stage).Sound where
  idle h := by cases h
  busy hcall := by
    cases hcall
    exact ⟨hstage, hwanted⟩
  alternating := h.alternating
  returns := h.returns

theorem move (h : c.Sound) {stage : Stage} (hstage : stage.Holds seen scene)
    (hwanted : seen.life.running = stage.wanted) (halternating : Alternating scene.told) :
    (c.move seen scene stage).Sound where
  idle h := by cases h
  busy hcall := by
    cases hcall
    exact ⟨hstage, hwanted⟩
  alternating := halternating
  returns := h.returns

/-- A call that returns leaves the server up or down. -/
theorem finish (h : c.Sound) {answer : Answer} (hrests : scene.Down ∨ scene.Up)
    (halternating : Alternating scene.told) (hright : Return.Right ⟨seen, answer, scene⟩) :
    (c.finish seen scene answer).Sound where
  idle _ := hrests
  busy hcall := by cases hcall
  alternating := halternating
  returns := by
    intro r hr
    rcases List.mem_append.mp hr with hr | hr
    · exact h.returns r hr
    · rw [List.mem_singleton.mp hr]
      exact hright

/-- While there is a loop, no start is under way. -/
theorem of_loops (h : c.Sound) (hloops : c.scene.life.loops ≠ []) :
    (c.scene.Down ∨ c.scene.Up) ∧
      ∀ (seen : Scene) (stage : Stage), c.call = some ⟨seen, stage⟩ → stage = .signalling := by
  cases hcall : c.call with
  | none => exact ⟨h.idle hcall, fun seen stage h => by cases h⟩
  | some call =>
    obtain ⟨found, stage⟩ := call
    cases (h.busy hcall).1 with
    | binding _ down => exact absurd down.loops hloops
    | raising e down _ => exact absurd down.loops hloops
    | announcing e _ loops _ _ => exact absurd loops hloops
    | spawning e _ loops _ _ => exact absurd loops hloops
    | signalling rests =>
      refine ⟨rests, fun seen stage h => ?_⟩
      cases h
      rfl

/-- The loop may go on at any time between the steps of a call. -/
theorem loop (h : c.Sound) (i : Nat) : Sound { c with scene := c.scene.loop i } := by
  by_cases hloops : c.scene.life.loops = []
  · rw [Scene.loop_of_empty hloops]
    exact h
  · obtain ⟨hrests, hstopping⟩ := h.of_loops hloops
    exact
      { idle := fun _ => Scene.rests_loop hrests i
        busy := by
          intro seen stage hcall
          obtain rfl := hstopping seen stage hcall
          exact ⟨.signalling (Scene.rests_loop hrests i), (h.busy hcall).2⟩
        alternating := Scene.alternating_loop hrests h.alternating i
        returns := h.returns }

/-- By cases on the step, each with the stage that it leaves. -/
theorem step {c' : Course} {e : Event} (h : c.Sound) (hmove : Move c e c') : c'.Sound := by
  cases hmove with
  | startRefused idle up =>
    exact h.finish (h.idle idle) h.alternating (by simp [Return.Right, up])
  | startMade idle down =>
    have hdown : c.scene.Down := (h.idle idle).resolve_right fun hup => by
      rw [hup.running] at down
      cases down
    exact h.enter (.binding rfl hdown) down
  | stopRefused idle down =>
    exact h.finish (h.idle idle) h.alternating (by simp [Return.Right, down])
  | stopMade idle up => exact h.enter (.signalling (h.idle idle)) up
  | unbound call configured fault =>
    obtain ⟨hstage, hwanted⟩ := h.busy call
    cases hstage with
    | binding same down =>
      refine h.finish (.inl down) h.alternating ?_
      simp [Return.Right, hwanted, same, Stage.wanted]
  | bound call configured e =>
    obtain ⟨hstage, hwanted⟩ := h.busy call
    cases hstage with
    | binding same down =>
      refine h.move (.raising e ⟨down.running, ?_, down.told⟩ (by rw [same])) hwanted h.alternating
      simp [Lifecycle.bound, down.loops, signalNewest]
  | raised call =>
    obtain ⟨hstage, hwanted⟩ := h.busy call
    cases hstage with
    | raising _ down told =>
      exact h.move (.announcing _ rfl down.loops told (told ▸ down.told)) hwanted h.alternating
  | announced call =>
    obtain ⟨hstage, hwanted⟩ := h.busy call
    cases hstage with
    | announcing _ running loops told even =>
      refine h.move (.spawning _ running loops (by rw [told]) even) hwanted
        (h.alternating.append ?_)
      simp [told, even]
  | spawned call =>
    obtain ⟨hstage, hwanted⟩ := h.busy call
    cases hstage with
    | spawning _ running loops told even =>
      refine h.finish (.inr ⟨running, ⟨.accepting, ?_⟩, ?_⟩) h.alternating ?_
      · simp [spawn, loops]
      · simp only [told, List.length_append, List.length_singleton]
        omega
      · simp [Return.Right, hwanted, Stage.wanted, spawn, running, told]
  | signalled call =>
    obtain ⟨hstage, hwanted⟩ := h.busy call
    cases hstage with
    | signalling rests =>
      exact h.finish (rests_sendSignal rests) h.alternating (by
        simp [Return.Right, hwanted, Stage.wanted])
  | loop i => exact h.loop i

/-- There is at most one loop. -/
theorem length_loops_le (h : c.Sound) : c.scene.life.loops.length ≤ 1 := by
  by_cases hloops : c.scene.life.loops = []
  · simp [hloops]
  · rcases (h.of_loops hloops).1 with hdown | hup
    · exact absurd hdown.loops hloops
    · obtain ⟨l, hl⟩ := hup.loops
      simp [hl]

/-- The flag is up from the raise on until the loop has ended. -/
theorem running_iff (h : c.Sound) : c.scene.life.running = true ↔
    c.call.any (·.stage.hasRaised) = true ∨ c.scene.life.loops ≠ [] := by
  have hrests (hrests : c.scene.Down ∨ c.scene.Up) :
      c.scene.life.running = true ↔ c.scene.life.loops ≠ [] := by
    rcases hrests with hdown | hup
    · simp [hdown.running, hdown.loops]
    · obtain ⟨l, hl⟩ := hup.loops
      simp [hup.running, hl]
  cases hcall : c.call with
  | none => simpa using hrests (h.idle hcall)
  | some call =>
    obtain ⟨found, stage⟩ := call
    cases (h.busy hcall).1 with
    | binding _ down => simpa [Stage.hasRaised] using hrests (.inl down)
    | raising _ down _ => simpa [Stage.hasRaised] using hrests (.inl down)
    | announcing _ running _ _ _ => simp [Stage.hasRaised, running]
    | spawning _ running _ _ _ => simp [Stage.hasRaised, running]
    | signalling rests => simpa [Stage.hasRaised] using hrests rests

end Sound

/-- Only the raise of a start and the end of a loop touch the flag. -/
theorem Move.running_cases {c c' : Course} {e : Event} (hmove : Move c e c') :
    c'.scene.life.running = c.scene.life.running ∨
      (∃ seen endpoint, c.call = some ⟨seen, .raising endpoint⟩ ∧
        c'.call = some ⟨seen, .announcing endpoint⟩ ∧ c'.scene.life.running = true) ∨
      ∃ i, e = .loop i ∧ c'.scene = c.scene.loop i := by
  cases hmove with
  | raised call => exact .inr (.inl ⟨_, _, call, rfl, rfl⟩)
  | loop i => exact .inr (.inr ⟨i, rfl, rfl⟩)
  | signalled call => exact .inl (running_sendSignal _)
  | _ => exact .inl rfl

/-- A start that has bound its endpoint goes on to its end and succeeds. -/
theorem Move.succeeds {c c' : Course} {e : Event} (hmove : Move c e c') {seen : Scene}
    {stage : Stage} {endpoint : Endpoint} (hcall : c.call = some ⟨seen, stage⟩)
    (hstage : stage.endpoint? = some endpoint) :
    (∃ next, c'.call = some ⟨seen, next⟩ ∧ next.endpoint? = some endpoint) ∨
      c'.call = none ∧ c'.returns = c.returns ++ [⟨seen, .start (.ok endpoint), c'.scene⟩] := by
  cases hmove with
  | startRefused idle | startMade idle | stopRefused idle | stopMade idle =>
    rw [idle] at hcall
    cases hcall
  | unbound call | bound call | signalled call =>
    rw [call] at hcall
    cases hcall
    cases hstage
  | raised call | announced call =>
    rw [call] at hcall
    cases hcall
    exact .inl ⟨_, rfl, hstage⟩
  | spawned call =>
    rw [call] at hcall
    cases hcall
    cases hstage
    exact .inr ⟨rfl, rfl⟩
  | loop i => exact .inl ⟨stage, hcall, hstage⟩

namespace Sound

variable {c c' : Course} {e : Event}

/-- The flag is raised by a start that has bound its endpoint. -/
theorem raises (h : c.Sound) (hmove : Move c e c') (hdown : c.scene.life.running = false)
    (hup : c'.scene.life.running = true) :
    ∃ seen endpoint, c.call = some ⟨seen, .raising endpoint⟩ ∧
      c'.call = some ⟨seen, .announcing endpoint⟩ := by
  rcases hmove.running_cases with hsame | ⟨seen, endpoint, hcall, hcall', -⟩ | ⟨i, -, hscene⟩
  · rw [hsame, hdown] at hup
    cases hup
  · exact ⟨seen, endpoint, hcall, hcall'⟩
  · by_cases hloops : c.scene.life.loops = []
    · rw [hscene, Scene.loop_of_empty hloops, hdown] at hup
      cases hup
    · rw [h.running_iff.mpr (.inr hloops)] at hdown
      cases hdown

/-- The flag is lowered by the one loop there is when it ends, and that is announced. -/
theorem lowers (h : c.Sound) (hmove : Move c e c') (hup : c.scene.life.running = true)
    (hdown : c'.scene.life.running = false) :
    ∃ i, e = .loop i ∧ c.scene.life.loops[i]? = some .leaving ∧ c'.scene.life.loops = [] ∧
      c'.scene.told = c.scene.told ++ [.stopped] := by
  rcases hmove.running_cases with hsame | ⟨-, -, -, -, hraised⟩ | ⟨i, rfl, hscene⟩
  · rw [hsame, hup] at hdown
    cases hdown
  · rw [hraised] at hdown
    cases hdown
  · by_cases hloops : c.scene.life.loops = []
    · rw [hscene, Scene.loop_of_empty hloops, hup] at hdown
      cases hdown
    · have hstands : c.scene.Up := (h.of_loops hloops).1.resolve_left fun h => hloops h.loops
      rcases hstands.loop_cases i with ⟨hstill, -⟩ | ⟨hleaving, hend, htold⟩
      · rw [hscene, hstill.running] at hdown
        cases hdown
      · exact ⟨i, rfl, hleaving, by rw [hscene, hend.loops], by rw [hscene, htold]⟩

end Sound

def after (c : Course) (answer : Answer) (told : List ServerEvent) (life : Lifecycle) : Course :=
  c.finish c.scene ⟨life, c.scene.told ++ told⟩ answer

/-- Without steps of others in between, a start comes to what `Lifecycle.start` says. -/
theorem exists_run_start {c : Course} (hidle : c.call = none) (configured : String)
    (result : Except BindFault Endpoint) :
    let outcome := c.scene.life.start (result.mapError (.bindFailed configured))
    ∃ es, c.run es = some (c.after (.start outcome.1) outcome.2.1 outcome.2.2) := by
  obtain ⟨⟨life, told⟩, call, returns⟩ := c
  obtain rfl : call = none := hidle
  cases hflag : life.running with
  | true =>
    refine ⟨[.start], ?_⟩
    simp [run, step, Lifecycle.start, mayStart, hflag, after, finish]
  | false =>
    cases result with
    | error fault =>
      refine ⟨[.start, .bind configured (.error fault)], ?_⟩
      have hfault : (Except.error fault : Except BindFault Endpoint).mapError
          (ServerError.bindFailed configured) = .error (.bindFailed configured fault) := rfl
      simp [run, step, Lifecycle.start, mayStart, hflag, enter, after, finish, hfault]
    | ok endpoint =>
      refine ⟨[.start, .bind configured (.ok endpoint), .proceed, .proceed, .proceed], ?_⟩
      have hbound : (Except.ok endpoint : Except BindFault Endpoint).mapError
          (ServerError.bindFailed configured) = .ok endpoint := rfl
      simp [run, step, Lifecycle.start, mayStart, hflag, enter, move, after, finish, hbound]

/-- Nor does a stop come to anything but what `Lifecycle.stop` says. -/
theorem exists_run_stop {c : Course} (hidle : c.call = none) :
    let outcome := c.scene.life.stop
    ∃ es, c.run es = some (c.after (.stop outcome.1) [] outcome.2) := by
  obtain ⟨⟨life, told⟩, call, returns⟩ := c
  obtain rfl : call = none := hidle
  cases hflag : life.running with
  | true =>
    refine ⟨[.stop, .proceed], ?_⟩
    simp [run, step, Lifecycle.stop, mayStop, hflag, enter, after, finish]
  | false =>
    refine ⟨[.stop], ?_⟩
    simp [run, step, Lifecycle.stop, mayStop, hflag, after, finish]

end Course

/-- In every course of starts, stops and steps of accept loops there is one loop at most; the flag
is raised by a start that has bound its endpoint, which then succeeds, and stays up until the loop
that it spawns has ended, and nothing else touches it; Started and Stopped are announced in turn;
and each call was answered by the flag as it found it, or by the fault of binding, and left
everything as it was if it failed. A call that nothing comes between does what the lifecycle does
at once. -/
theorem courses_stay_orderly {es : List Event} {c : Course} (h : Course.run {} es = some c) :
    c.scene.life.loops.length ≤ 1 ∧
    (c.scene.life.running = true ↔
      c.call.any (·.stage.hasRaised) = true ∨ c.scene.life.loops ≠ []) ∧
    (∀ e c', c.step e = some c' →
      (c.scene.life.running = false → c'.scene.life.running = true →
        ∃ seen endpoint, c.call = some ⟨seen, .raising endpoint⟩ ∧
          c'.call = some ⟨seen, .announcing endpoint⟩) ∧
      (∀ seen stage endpoint, c.call = some ⟨seen, stage⟩ → stage.endpoint? = some endpoint →
        (∃ next, c'.call = some ⟨seen, next⟩ ∧ next.endpoint? = some endpoint) ∨
          c'.call = none ∧
            c'.returns = c.returns ++ [⟨seen, .start (.ok endpoint), c'.scene⟩]) ∧
      (c.scene.life.running = true → c'.scene.life.running = false →
        ∃ i, e = .loop i ∧ c.scene.life.loops[i]? = some .leaving ∧
          c'.scene.life.loops = [] ∧ c'.scene.told = c.scene.told ++ [.stopped])) ∧
    Alternating c.scene.told ∧
    (∀ r ∈ c.returns, r.Right) ∧
    (c.call = none → ∀ (configured : String) (result : Except BindFault Endpoint),
      let outcome := c.scene.life.start (result.mapError (.bindFailed configured))
      ∃ es, c.run es = some (c.after (.start outcome.1) outcome.2.1 outcome.2.2)) ∧
    (c.call = none →
      let outcome := c.scene.life.stop
      ∃ es, c.run es = some (c.after (.stop outcome.1) [] outcome.2)) := by
  have hsound : c.Sound :=
    Course.run_induction (fun c c' e hmove hc => Course.Sound.step hc hmove) h Course.sound_start
  refine ⟨hsound.length_loops_le, hsound.running_iff, fun e c' he => ?_, hsound.alternating,
    hsound.returns, Course.exists_run_start, Course.exists_run_stop⟩
  have hmove := Course.move_of_step he
  exact ⟨hsound.raises hmove, fun seen stage endpoint => hmove.succeeds, hsound.lowers hmove⟩

/-- A start, a second one, two stops before the loop has ended, one after that, and a start that
finds its endpoint in use. -/
theorem courses_stay_orderly_restart :
    let endpoint : Endpoint := ⟨.v4 127 0 0 1, 2000⟩
    let es : List Event :=
      [.start, .bind "127.0.0.1:2000" (.ok endpoint), .proceed, .loop 0, .proceed, .proceed,
        .start, .stop, .loop 0, .proceed, .loop 0, .stop, .loop 0, .proceed, .stop, .start,
        .bind "127.0.0.1:2000" (.error .inUse)]
    ∃ c, Course.run {} es = some c ∧ c.scene.life.loops.length ≤ 1 ∧
      c.scene.told = [.started endpoint, .stopped] ∧ Alternating c.scene.told ∧
      c.returns.map (·.answer) =
        [.start (.ok endpoint), .start (.error .alreadyRunning), .stop (.ok ()), .stop (.ok ()),
          .stop (.error .notRunning), .start (.error (.bindFailed "127.0.0.1:2000" .inUse))] ∧
      ∀ r ∈ c.returns, r.Right := by
  intro endpoint es
  obtain ⟨c, hrun⟩ : ∃ c, Course.run {} es = some c := ⟨_, rfl⟩
  obtain ⟨hloops, -, -, halternating, hreturns, -⟩ := courses_stay_orderly hrun
  have hc : c = ((Course.run {} es).getD {}) := by rw [hrun]; rfl
  exact ⟨c, hrun, hloops, by rw [hc]; rfl, halternating, by rw [hc]; rfl, hreturns⟩

end Lifecycle

end Switchboard
