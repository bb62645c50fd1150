import Mathlib.Data.List.Nodup
import Switchboard.Listener.Detached

/-!
# Which listeners a dispatch runs

A dispatch goes along a chain of registries and takes the listeners of each when its turn
comes. Here listeners are arbitrary: a `Scene` says what a listener's run makes of a state,
and with it of every registry. `invoked` is what a dispatch runs in a scene, in order, and
`roll` is what is registered along the chain in one state. The two agree exactly if each
registry lists at its turn what it listed when the dispatch began
(`dispatch_takes_turns`); a listener that changes a registry further along the chain is
able to make them differ.
-/

namespace Switchboard

/-- Where the listeners of a channel run: which registries a state has, and what is left
of a state when a listener has run, in whatever way its run ended. -/
structure Scene (σ L : Type) where
  channel : Int32
  directory : σ → Directory L
  play : L → σ → σ

namespace Scene

variable {σ L : Type} (w : Scene σ L)

def listed (s : σ) (name : String) : List (String × Entry L) :=
  (((w.directory s).registry name).listeners w.channel).map (name, ·)

/-- The registrations for the channel along a chain, all in the same state. -/
def roll (s : σ) (names : List String) : List (String × Entry L) := names.flatMap (w.listed s)

def playAll (es : List (String × Entry L)) (s : σ) : σ :=
  es.foldl (fun s e => w.play e.2.listener s) s

def invoke (e : String × Entry L) : StateM (σ × List (String × Entry L)) Unit :=
  modify fun (s, log) => (w.play e.2.listener s, log ++ [e])

/-- Dispatch along a chain, with every run of a listener written down. -/
def traced (names : List String) : StateM (σ × List (String × Entry L)) Nat :=
  dispatch (fun name => do return w.listed (← get).1 name) w.invoke names

def count (names : List String) (s : σ) : Nat := ((w.traced names).run (s, [])).1

def after (names : List String) (s : σ) : σ := ((w.traced names).run (s, [])).2.1

/-- The registrations whose listeners a dispatch runs, in order. -/
def invoked (names : List String) (s : σ) : List (String × Entry L) :=
  ((w.traced names).run (s, [])).2.2

/-- The listeners are run in order, and each run is written down. -/
theorem run_forM_invoke (es : List (String × Entry L)) (s : σ) (log : List (String × Entry L)) :
    (es.forM w.invoke).run (s, log) = ((), w.playAll es s, log ++ es) := by
  induction es generalizing s log with
  | nil =>
    rw [List.append_nil]
    rfl
  | cons e es ih =>
    have hrest := ih (w.play e.2.listener s) (log ++ [e])
    rw [List.append_assoc, List.singleton_append] at hrest
    exact hrest

/-- The first registry of a chain lists its listeners now, and the rest of the chain goes on
where they leave the state. -/
theorem run_traced_cons (name : String) (names : List String) (s : σ)
    (log : List (String × Entry L)) :
    (w.traced (name :: names)).run (s, log) =
      (((w.listed s name).length +
          ((w.traced names).run (w.playAll (w.listed s name) s, log ++ w.listed s name)).1),
        ((w.traced names).run (w.playAll (w.listed s name) s, log ++ w.listed s name)).2) := by
  have hown := w.run_forM_invoke (w.listed s name) s log
  simp only [traced, dispatch, StateT.run_bind, StateT.run_get, StateT.run_pure, pure_bind]
  rw [hown]
  rfl

/-- What a dispatch does depends on the state it starts in, and not on what was written down
before. -/
theorem run_traced (names : List String) (s : σ) (log : List (String × Entry L)) :
    (w.traced names).run (s, log) = (w.count names s, w.after names s, log ++ w.invoked names s) := by
  induction names generalizing s log with
  | nil =>
    show _ = (_, _, log ++ [])
    rw [List.append_nil]
    rfl
  | cons name names ih =>
    have hnext := ih (w.playAll (w.listed s name) s) (w.listed s name)
    rw [run_traced_cons, ih, List.append_assoc]
    simp only [count, after, invoked, run_traced_cons, List.nil_append]
    rw [hnext]
    rfl

@[simp] theorem count_nil (s : σ) : w.count [] s = 0 := rfl

@[simp] theorem after_nil (s : σ) : w.after [] s = s := rfl

@[simp] theorem invoked_nil (s : σ) : w.invoked [] s = [] := rfl

/-- A registry has its turn in the state that the nearer ones have left. -/
theorem count_cons (name : String) (names : List String) (s : σ) :
    w.count (name :: names) s =
      (w.listed s name).length + w.count names (w.playAll (w.listed s name) s) := by
  rw [count, run_traced_cons, run_traced]

theorem after_cons (name : String) (names : List String) (s : σ) :
    w.after (name :: names) s = w.after names (w.playAll (w.listed s name) s) := by
  rw [after, run_traced_cons, run_traced]

theorem invoked_cons (name : String) (names : List String) (s : σ) :
    w.invoked (name :: names) s =
      w.listed s name ++ w.invoked names (w.playAll (w.listed s name) s) := by
  rw [invoked, run_traced_cons, run_traced, List.nil_append]

/-- A dispatch counts the listeners that it runs. -/
theorem count_eq (names : List String) (s : σ) :
    w.count names s = (w.invoked names s).length := by
  induction names generalizing s with
  | nil => rfl
  | cons name names ih => rw [count_cons, invoked_cons, List.length_append, ih]

/-- A dispatch along a chain goes on, behind any part of it, where that part leaves the
state. -/
theorem invoked_append (before rest : List String) (s : σ) :
    w.invoked (before ++ rest) s = w.invoked before s ++ w.invoked rest (w.after before s) := by
  induction before generalizing s with
  | nil => rfl
  | cons name before ih =>
    rw [List.cons_append, invoked_cons, invoked_cons, after_cons, ih, List.append_assoc]

/-- Something holds of every registry of a chain in the state in which its turn comes. -/
def EveryTurn (names : List String) (s : σ) (P : σ → String → Prop) : Prop :=
  ∀ before name rest, names = before ++ name :: rest → P (w.after before s) name

theorem everyTurn_nil (s : σ) (P : σ → String → Prop) : w.EveryTurn [] s P := by
  intro before name rest h
  simp at h

/-- The turn of a registry comes when the listeners of the nearer ones have run. -/
theorem everyTurn_cons (name : String) (names : List String) (s : σ) (P : σ → String → Prop) :
    w.EveryTurn (name :: names) s P ↔
      P s name ∧ w.EveryTurn names (w.playAll (w.listed s name) s) P := by
  constructor
  · intro h
    refine ⟨h [] name names rfl, fun before other rest hsplit => ?_⟩
    have hturn := h (name :: before) other rest (by rw [hsplit, List.cons_append])
    rwa [after_cons] at hturn
  · rintro ⟨hfirst, hrest⟩ before other rest hsplit
    cases before with
    | nil =>
      obtain ⟨rfl, rfl⟩ := List.cons.inj hsplit
      exact hfirst
    | cons head before =>
      obtain ⟨rfl, htail⟩ := List.cons.inj hsplit
      rw [after_cons]
      exact hrest before other rest htail

theorem roll_cons (s : σ) (name : String) (names : List String) :
    w.roll s (name :: names) = w.listed s name ++ w.roll s names := List.flatMap_cons

/-- What registries list is told apart by their names. -/
theorem filter_listed (s : σ) (name other : String) :
    (w.listed s name).filter (·.1 = other) = if name = other then w.listed s name else [] := by
  by_cases h : name = other
  · rw [if_pos h, List.filter_eq_self]
    simp [listed, h]
  · rw [if_neg h, List.filter_eq_nil_iff]
    simp [listed, h]

theorem filter_roll {names : List String} (s : σ) {name : String} (h : name ∉ names) :
    (w.roll s names).filter (·.1 = name) = [] := by
  induction names with
  | nil => rfl
  | cons other names ih =>
    rw [List.mem_cons, not_or] at h
    rw [roll_cons, List.filter_append, filter_listed, if_neg (Ne.symm h.1), ih h.2]
    rfl

/-- A registry that is not in the chain has no turn. -/
theorem filter_invoked {names : List String} (s : σ) {name : String} (h : name ∉ names) :
    (w.invoked names s).filter (·.1 = name) = [] := by
  induction names generalizing s with
  | nil => rfl
  | cons other names ih =>
    rw [List.mem_cons, not_or] at h
    rw [invoked_cons, List.filter_append, filter_listed, if_neg (Ne.symm h.1), ih _ h.2]
    rfl

/-- A dispatch from one state runs what is registered in another exactly if every registry
lists at its turn what it lists in the other. -/
theorem invoked_eq_roll_iff {names : List String} (hnames : names.Nodup) (s t : σ) :
    w.invoked names s = w.roll t names ↔
      w.EveryTurn names s fun now name => w.listed now name = w.listed t name := by
  induction names generalizing s with
  | nil => exact ⟨fun _ => w.everyTurn_nil s _, fun _ => rfl⟩
  | cons name names ih =>
    obtain ⟨hfresh, hnames⟩ := List.nodup_cons.mp hnames
    rw [invoked_cons, roll_cons, everyTurn_cons, ← ih hnames]
    constructor
    · intro h
      have hfirst : w.listed s name = w.listed t name := by
        have hown := congrArg (List.filter (·.1 = name)) h
        simp only [List.filter_append, filter_listed, filter_invoked _ _ hfresh,
          filter_roll _ _ hfresh, if_true, List.append_nil] at hown
        exact hown
      rw [hfirst] at h ⊢
      exact ⟨rfl, List.append_cancel_left h⟩
    · rintro ⟨hfirst, hrest⟩
      rw [hrest, hfirst]

/-- No registration runs twice where each registry lists none twice at its turn. -/
theorem nodup_invoked {names : List String} (hnames : names.Nodup) {s : σ}
    (h : w.EveryTurn names s fun now name => (w.listed now name).Nodup) :
    (w.invoked names s).Nodup := by
  induction names generalizing s with
  | nil => exact List.nodup_nil
  | cons name names ih =>
    obtain ⟨hfresh, hnames⟩ := List.nodup_cons.mp hnames
    obtain ⟨hfirst, hrest⟩ := (w.everyTurn_cons name names s _).mp h
    rw [invoked_cons, List.nodup_append]
    refine ⟨hfirst, ih hnames hrest, ?_⟩
    rintro e he _ he' rfl
    have hname : e.1 = name := by
      obtain ⟨entry, -, rfl⟩ := List.mem_map.mp he
      rfl
    have hnone := List.filter_eq_nil_iff.mp (w.filter_invoked _ hfresh) e he'
    exact hnone (decide_eq_true hname)

end Scene

namespace Detached

/-- Running one action behind another. -/
theorem run_bind {α β : Type} (a : Action α) (f : α → Action β) (d : Detached) :
    run (a >>= f) d = run (f (run a d).1) (run a d).2 := by
  show run (a.bind f) d = _
  induction a generalizing d with
  | pure a => rfl
  | note entry next ih => exact ih _
  | send p next ih => exact ih _ _
  | ask p next ih => exact ih _ _
  | close next ih => exact ih _
  | register name on listener next ih => exact ih _ _
  | unregister name on id next ih => exact ih _ _
  | unregisterChannel name on next ih => exact ih _ _
  | chain name next ih => exact ih _ _
  | snapshot name on next ih => exact ih _ _
  | handlers next ih => exact ih _ _

/-- Listeners of the program with a packet; dispatches from within one may nest `depth`
deep. -/
def scene (depth : Nat) (p : Packet) : Scene Detached Listener where
  channel := p.channel
  directory := Detached.directory
  play := fun l d => (run (l.run (dispatchPacket depth) p) d).2

variable (depth : Nat) (p : Packet)

theorem run_forM (es : List (String × Entry Listener)) (d : Detached) :
    run ((es.map (·.2.listener)).forM (Listener.run (dispatchPacket depth) p)) d =
      ((), (scene depth p).playAll es d) := by
  induction es generalizing d with
  | nil => rfl
  | cons e es ih =>
    rw [List.map_cons, List.forM_eq_forM, List.forM_cons, run_bind]
    exact ih _

/-- The program's dispatch is the dispatch of the scene. -/
theorem run_dispatch (names : List String) (d : Detached) :
    run (dispatch (fun name => Action.snapshot name p.channel .pure)
        (Listener.run (dispatchPacket depth) p) names) d =
      ((scene depth p).count names d, (scene depth p).after names d) := by
  induction names generalizing d with
  | nil => rfl
  | cons name names ih =>
    have hsnapshot : (run (Action.snapshot name p.channel .pure) d) =
        (((scene depth p).listed d name).map (·.2.listener), d) := by
      simp [run, scene, Scene.listed]
    rw [dispatch, run_bind, hsnapshot, run_bind, run_forM, run_bind, ih, Scene.count_cons,
      Scene.after_cons, List.length_map]
    rfl

/-- A dispatch of the program is one along the chain that the registries form when it
begins. -/
theorem run_dispatchPacket (registry : String) (d : Detached) :
    run (dispatchPacket (depth + 1) registry p) d =
      ((scene depth p).count (d.directory.chain registry) d,
        (scene depth p).after (d.directory.chain registry) d) := by
  rw [dispatchPacket, run_bind]
  exact run_dispatch depth p _ d

end Detached

/-- A dispatch along a chain runs, registry by registry, the listeners that each has when
its turn comes, and says how many. These are what was registered when it began exactly if
every registry then lists what it did; and no registration runs twice. The program's own
dispatch is such a one, along the chain that the registries form when it begins. -/
theorem dispatch_takes_turns {σ L : Type} (w : Scene σ L) (names : List String)
    (hnames : names.Nodup) (s : σ) :
    w.count names s = (w.invoked names s).length ∧
    (∀ before name rest, names = before ++ name :: rest →
      w.invoked names s = w.invoked before s ++ w.listed (w.after before s) name ++
        w.invoked rest (w.after (before ++ [name]) s)) ∧
    (w.invoked names s = w.roll s names ↔
      w.EveryTurn names s fun now name => w.listed now name = w.listed s name) ∧
    ((w.EveryTurn names s fun now name => (w.listed now name).Nodup) →
      (w.invoked names s).Nodup) ∧
    ∀ (depth : Nat) (registry : String) (p : Packet) (d : Detached),
      Detached.run (dispatchPacket (depth + 1) registry p) d =
        ((Detached.scene depth p).count (d.directory.chain registry) d,
          (Detached.scene depth p).after (d.directory.chain registry) d) := by
  refine ⟨w.count_eq names s, ?_, w.invoked_eq_roll_iff hnames s s, w.nodup_invoked hnames,
    fun depth registry p d => Detached.run_dispatchPacket depth p registry d⟩
  rintro before name rest rfl
  rw [← List.singleton_append, ← List.append_assoc, Scene.invoked_append, Scene.invoked_append,
    Scene.invoked_cons, Scene.invoked_nil, List.append_nil]

/-- One listener adds another to its own registry and the next one panics: what was
registered when the dispatch began runs, and nothing else. -/
theorem dispatch_takes_turns_adder :
    let root := (({} : Registry Listener).register 6 (.stock "listed" .record)).2
    let adder := Listener.stock "adder" (.register "kid" 6 "late" .record)
    let kid := ((({} : Registry Listener).register 6 adder).2.register 6
      (.stock "panicking" .panic)).2
    let d : Detached :=
      { directory := { registries := [("kid", kid, some "root"), ("root", root, none)] } }
    let p : Packet := { channel := 6, content := .ofBytes [0xAA] }
    let w := Detached.scene 255 p
    let names := d.directory.chain "kid"
    names.Nodup ∧
      (w.EveryTurn names d fun now name => w.listed now name = w.listed d name) ∧
      (w.EveryTurn names d fun now name => (w.listed now name).Nodup) ∧
      w.invoked names d = w.roll d names ∧
      (w.invoked names d).Nodup ∧
      (w.roll d names).map (fun e => (e.1, e.2.id)) = [("kid", 1), ("kid", 2), ("root", 1)] ∧
      (w.listed (w.after names d) "kid").map (fun e => (e.1, e.2.id)) =
        [("kid", 1), ("kid", 2), ("kid", 3)] ∧
      (Detached.run (dispatchPacket dispatchDepth "kid" p) d).1 = 3 := by
  intro root adder kid d p w names
  have hnames : names.Nodup := by decide
  have hsame : w.EveryTurn names d fun now name => w.listed now name = w.listed d name :=
    (w.everyTurn_cons _ _ _ _).mpr ⟨rfl, (w.everyTurn_cons _ _ _ _).mpr
      ⟨rfl, w.everyTurn_nil _ _⟩⟩
  have hdistinct : w.EveryTurn names d fun now name => (w.listed now name).Nodup := by
    refine (w.everyTurn_cons _ _ _ _).mpr ⟨?_, (w.everyTurn_cons _ _ _ _).mpr
      ⟨?_, w.everyTurn_nil _ _⟩⟩
    · have hids : ((w.listed d "kid").map (·.2.id)) = [1, 2] := rfl
      exact .of_map (·.2.id) (hids ▸ by decide)
    · have hids : ((w.listed (w.playAll (w.listed d "kid") d) "root").map (·.2.id)) = [1] := rfl
      exact .of_map (·.2.id) (hids ▸ by decide)
  obtain ⟨-, -, hroll, honce, hprogram⟩ := dispatch_takes_turns w names hnames d
  have hcount : w.count names d = 3 := by decide +kernel
  refine ⟨hnames, hsame, hdistinct, hroll.mpr hsame, honce hdistinct,
    by decide +kernel, by decide +kernel, ?_⟩
  rw [← hcount]
  exact congrArg Prod.fst (hprogram 255 "kid" p d)

/-- A listener of a registry takes one of its parent off the list, which was on it when the
dispatch began and is then passed over. -/
theorem listed_ancestor_passed_over :
    let root := (({} : Registry Listener).register 6 (.stock "listed" .record)).2
    let kid := (({} : Registry Listener).register 6 (.stock "remover" (.unregister "root" 6 1))).2
    let d : Detached :=
      { directory := { registries := [("kid", kid, some "root"), ("root", root, none)] } }
    let p : Packet := { channel := 6, content := .ofBytes [0xAA] }
    let w := Detached.scene 255 p
    let names := d.directory.chain "kid"
    names = ["kid", "root"] ∧
      (w.roll d names).map (fun e => (e.1, e.2.id)) = [("kid", 1), ("root", 1)] ∧
      (w.invoked names d).map (fun e => (e.1, e.2.id)) = [("kid", 1)] ∧
      w.invoked names d ≠ w.roll d names ∧
      (Detached.run (dispatchPacket dispatchDepth "kid" p) d).1 = 1 := by
  intro root kid d p w names
  have hroll : (w.roll d names).map (fun e => (e.1, e.2.id)) = [("kid", 1), ("root", 1)] := by
    decide +kernel
  have hinvoked : (w.invoked names d).map (fun e => (e.1, e.2.id)) = [("kid", 1)] := by
    decide +kernel
  refine ⟨by decide +kernel, hroll, hinvoked, fun heq => ?_, by decide +kernel⟩
  rw [heq, hroll] at hinvoked
  cases hinvoked

end Switchboard
