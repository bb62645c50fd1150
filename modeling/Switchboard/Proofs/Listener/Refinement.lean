import Mathlib.Logic.Function.Basic
import Switchboard.Proofs.Listener.Quiet
import Switchboard.Proofs.Listener.Roster

/-!
# Registries of a chain as plain lists

Calls on the registries of a parent chain, in any number and order, against rosters: what
each call has to answer is said in terms of the rosters alone (`Roster.Meets`), and every
sequence of calls is answered that way (`registries_refine_rosters`). Listeners are
arbitrary but for that they leave the registries alone; however their runs end, a dispatch
runs all of them.
-/

namespace Switchboard

namespace Directory

variable {L : Type}

def line : List String → Directory L
  | [] => {}
  | name :: ancestors => (line ancestors).create name ancestors.head?

def lineage : List String → List (String × Option String)
  | [] => []
  | name :: ancestors => (name, ancestors.head?) :: lineage ancestors

/-- The registries have these names, and each has the next one as its parent. -/
def Lined (d : Directory L) (names : List String) : Prop :=
  d.registries.map (fun e => (e.1, e.2.2)) = lineage names

theorem names_lineage (names : List String) : (lineage names).map (·.1) = names := by
  induction names with
  | nil => rfl
  | cons name ancestors ih => rw [lineage, List.map_cons, ih]

theorem Lined.names {d : Directory L} {names : List String} (h : d.Lined names) :
    d.registries.map (·.1) = names := by
  have hnames := congrArg (List.map (·.1)) h
  rwa [names_lineage, List.map_map] at hnames

/-- The registries of a line have their names and parents. -/
theorem lined_line {names : List String} (h : names.Nodup) :
    (line names : Directory L).Lined names := by
  induction names with
  | nil => rfl
  | cons name ancestors ih =>
    obtain ⟨hfresh, hrest⟩ := List.nodup_cons.mp h
    have hlined := ih hrest
    have hkeep : (line ancestors : Directory L).registries.filter (·.1 ≠ name) =
        (line ancestors : Directory L).registries := by
      refine List.filter_eq_self.mpr fun e he => decide_eq_true ?_
      rintro rfl
      exact hfresh (hlined.names ▸ List.mem_map_of_mem he)
    rw [Lined, line, create, List.map_cons, hkeep, hlined, lineage]

/-- All registries of a new line are empty. -/
theorem registry_line (names : List String) (name : String) :
    (line names : Directory L).registry name = {} := by
  have hempty : ∀ e ∈ (line names : Directory L).registries, e.2.1 = {} := by
    induction names with
    | nil => exact fun e he => absurd he List.not_mem_nil
    | cons other ancestors ih =>
      intro e he
      cases List.mem_cons.mp he with
      | inl hnew => rw [hnew]
      | inr hold => exact ih e (List.mem_filter.mp hold).1
  cases hlookup : (line names : Directory L).registries.lookup name with
  | none => rw [registry, hlookup, Option.elim_none]
  | some e =>
    obtain ⟨before, after, hsplit, -⟩ := List.lookup_eq_some_iff.mp hlookup
    rw [registry, hlookup, Option.elim_some]
    exact hempty (name, e) (hsplit ▸ List.mem_append_right before List.mem_cons_self)

/-- What stands under a name after the registry of one was changed. -/
theorem lookup_set (d : Directory L) (name other : String) (r : Registry L) :
    (d.set name r).registries.lookup other =
      (d.registries.lookup other).map fun e => if other = name then (r, e.2) else e := by
  obtain ⟨l⟩ := d
  simp only [set]
  induction l with
  | nil => rfl
  | cons e l ih =>
    obtain ⟨key, e⟩ := e
    rw [List.map_cons, List.lookup_cons, List.lookup_cons, ih]
    by_cases hother : other = key
    · subst hother
      by_cases hname : other = name <;> simp [hname]
    · have hbeq : (other == key) = false := beq_false_of_ne hother
      by_cases hname : key = name
      · subst hname
        simp [hbeq]
      · simp [hname, hbeq]

theorem Lined.isSome_lookup {d : Directory L} {names : List String} (h : d.Lined names)
    {name : String} (hname : name ∈ names) : (d.registries.lookup name).isSome := by
  rw [Option.isSome_iff_ne_none, ne_eq, List.lookup_eq_none_iff]
  rw [← h.names] at hname
  obtain ⟨e, he, rfl⟩ := List.mem_map.mp hname
  intro hnone
  simpa using hnone e he

theorem Lined.registry_set {d : Directory L} {names : List String} (h : d.Lined names)
    {name : String} (hname : name ∈ names) (r : Registry L) : (d.set name r).registry name = r := by
  obtain ⟨e, he⟩ := Option.isSome_iff_exists.mp (h.isSome_lookup hname)
  rw [registry, lookup_set, he, Option.map_some, if_pos rfl, Option.elim_some]

theorem registry_set_ne (d : Directory L) {name other : String} (h : other ≠ name)
    (r : Registry L) : (d.set name r).registry other = d.registry other := by
  rw [registry, lookup_set, registry]
  simp only [if_neg h, Option.map_id_fun', id_eq]

theorem Lined.set {d : Directory L} {names : List String} (h : d.Lined names) (name : String)
    (r : Registry L) : (d.set name r).Lined names := by
  rw [Lined, ← h, Directory.set, List.map_map]
  refine List.map_congr_left fun e _ => ?_
  simp only [Function.comp_apply]
  split
  · rename_i hname
    rw [← hname]
  · rfl

theorem lookup_lineage {before : List String} {name : String} (hfresh : name ∉ before)
    (after : List String) : (lineage (before ++ name :: after)).lookup name = some after.head? := by
  induction before with
  | nil => simp [lineage]
  | cons other before ih =>
    obtain ⟨hne, hfresh⟩ := not_or.mp (mt List.mem_cons.mpr hfresh)
    have hother : (name == other) = false := beq_false_of_ne hne
    rw [List.cons_append, lineage, List.lookup_cons, hother]
    exact ih hfresh

/-- A registry's parent is the next name. -/
theorem Lined.parent? {d : Directory L} {before after : List String} {name : String}
    (h : d.Lined (before ++ name :: after)) (hfresh : name ∉ before) :
    d.parent? name = after.head? := by
  have hkin : d.parent? name = ((d.registries.map fun e => (e.1, e.2.2)).lookup name).bind id := by
    rw [Directory.parent?]
    generalize d.registries = l
    induction l with
    | nil => rfl
    | cons e l ih =>
      rw [List.map_cons, List.lookup_cons, List.lookup_cons]
      split
      · rfl
      · exact ih
  rw [hkin, h, lookup_lineage hfresh]
  rfl

/-- The chain from a registry on is what follows it, as far as the fuel goes. -/
theorem Lined.chainFrom {d : Directory L} (fuel : Nat) {before after : List String} {name : String}
    (h : d.Lined (before ++ name :: after)) (hnames : (before ++ name :: after).Nodup) :
    d.chainFrom fuel name = (name :: after).take fuel := by
  induction fuel generalizing before after name with
  | zero => rfl
  | succ fuel ih =>
    have hfresh : name ∉ before := fun hmem =>
      (List.nodup_append.mp hnames).2.2 name hmem name List.mem_cons_self rfl
    rw [Directory.chainFrom, h.parent? hfresh, List.take_succ_cons]
    cases after with
    | nil =>
      rw [List.take_nil]
      rfl
    | cons next after =>
      have hsplit : before ++ name :: next :: after = (before ++ [name]) ++ next :: after := by simp
      rw [hsplit] at h hnames
      exact congrArg _ (ih h hnames)

/-- A registry and its ancestors are the rest of the line. -/
theorem Lined.chain {d : Directory L} {names : List String} (h : d.Lined names)
    (hnames : names.Nodup) {name : String} (hname : name ∈ names) :
    d.chain name = names.dropWhile (· ≠ name) := by
  obtain ⟨before, after, rfl, hfresh⟩ := List.eq_append_cons_of_mem hname
  have hcount : d.registries.length = (before ++ name :: after).length := by
    rw [← h.names, List.length_map]
  have hfuel : (name :: after).length ≤ d.registries.length := by
    rw [hcount, List.length_append]
    exact Nat.le_add_left _ _
  have hbefore : ∀ other ∈ before, decide (other ≠ name) = true := by
    rintro other hother
    exact decide_eq_true fun heq => hfresh (heq ▸ hother)
  rw [Directory.chain, h.chainFrom _ hnames, List.take_of_length_le hfuel,
    List.dropWhile_append_of_pos hbefore, List.dropWhile_cons_of_neg (by simp)]

end Directory

namespace Roster

inductive Call (L : Type) where
  | register (registry : String) (channel : Int32) (listener : L)
  | unregister (registry : String) (channel : Int32) (id : ListenerId)
  | unregisterChannel (registry : String) (channel : Int32)
  | channels (registry : String)
  | hasListeners (registry : String) (channel : Int32)
  | dispatch (registry : String) (p : Packet)

inductive Answer (L : Type) where
  | given (id : ListenerId)
  | found (b : Bool)
  | removed (count : Nat)
  | listed (channels : List Int32)
  /-- How many listeners a dispatch says it ran, and the registrations that it ran. -/
  | ran (count : Nat) (invoked : List (String × Entry L))

variable {L : Type}

def Call.registry : Call L → String
  | register registry _ _ | unregister registry _ _ | unregisterChannel registry _
  | channels registry | hasListeners registry _ | dispatch registry _ => registry

def Call.registersAt (name : String) : Call L → Bool
  | register registry _ _ => registry = name
  | unregister _ _ _ | unregisterChannel _ _ | channels _ | hasListeners _ _ | dispatch _ _ => false

/-- A registry of the chain and its ancestors. -/
def upward (names : List String) (name : String) : List String := names.dropWhile (· ≠ name)

/-- What a call has to answer, and what it has to make of the rosters of the chain. -/
def Meets (names : List String) (x : String → Roster L) :
    Call L → Answer L → (String → Roster L) → Prop
  | .register name channel l, .given id, x' =>
    id ∉ (x name).given ∧ x' = Function.update x name ((x name).add channel ⟨id, l⟩)
  | .unregister name channel id, .found b, x' =>
    (b = true ↔ (x name).Lists channel id) ∧
    (b = false → x' = x) ∧
    (b = true → x' = Function.update x name ((x name).strike channel id) ∧
      ∃ before e after, (x name).live = before ++ (channel, e) :: after ∧ e.id = id ∧
        (x' name).live = before ++ after)
  | .unregisterChannel name channel, .removed count, x' =>
    count = ((x name).on channel).length ∧
      x' = Function.update x name ((x name).clear channel)
  | .channels name, .listed cs, x' =>
    cs.Pairwise (· < ·) ∧ (∀ c, c ∈ cs ↔ ∃ e ∈ (x name).live, e.1 = c) ∧ x' = x
  | .hasListeners name channel, .found b, x' =>
    (b = true ↔ ∃ key ∈ upward names name, ∃ e ∈ (x key).live, e.1 = channel) ∧ x' = x
  | .dispatch name p, .ran count invoked, x' =>
    invoked = (upward names name).flatMap (fun key => ((x key).on p.channel).map (key, ·)) ∧
      count = invoked.length ∧ x' = x
  | _, _, _ => False

inductive Follows (names : List String) :
    (String → Roster L) → List (Call L) → List (Answer L) → (String → Roster L) → Prop
  | nil (x : String → Roster L) : Follows names x [] [] x
  | cons {x x' x'' : String → Roster L} {c : Call L} {a : Answer L} {cs : List (Call L)}
      {as : List (Answer L)} (hfirst : Meets names x c a x') (hrest : Follows names x' cs as x'') :
      Follows names x (c :: cs) (a :: as) x''

/-- Where calls on registries are made: which registries a state has, how they are put back,
and what is left of a state when a listener has run with a packet, in whatever way its run
ended. -/
structure World (σ L : Type) where
  directory : σ → Directory L
  assign : Directory L → σ → σ
  play : Packet → L → σ → σ
  directory_assign : ∀ d s, directory (assign d s) = d

namespace World

variable {σ : Type} (w : World σ L)

def scene (p : Packet) : Scene σ L where
  channel := p.channel
  directory := w.directory
  play := w.play p

def step (s : σ) : Call L → Answer L × σ
  | .register name channel l =>
    let (id, r) := ((w.directory s).registry name).register channel l
    (.given id, w.assign ((w.directory s).set name r) s)
  | .unregister name channel id =>
    let (b, r) := ((w.directory s).registry name).unregister channel id
    (.found b, w.assign ((w.directory s).set name r) s)
  | .unregisterChannel name channel =>
    let (count, r) := ((w.directory s).registry name).unregisterChannel channel
    (.removed count, w.assign ((w.directory s).set name r) s)
  | .channels name => (.listed ((w.directory s).registry name).channelList, s)
  | .hasListeners name channel => (.found ((w.directory s).hasListeners name channel), s)
  | .dispatch name p =>
    let names := (w.directory s).chain name
    (.ran ((w.scene p).count names s) ((w.scene p).invoked names s), (w.scene p).after names s)

def run (s : σ) : List (Call L) → List (Answer L) × σ
  | [] => ([], s)
  | c :: cs =>
    let (answer, s) := w.step s c
    let (answers, s) := run s cs
    (answer :: answers, s)

def Tame (l : L) : Prop := ∀ p s, w.directory (w.play p l s) = w.directory s

/-- The registries form the chain and keep the rosters, whose listeners are tame. -/
structure Holds (names : List String) (s : σ) (x : String → Roster L) : Prop where
  lined : (w.directory s).Lined names
  keeps : ∀ name ∈ names, ((w.directory s).registry name).Keeps (x name)
  tame : ∀ name ∈ names, ∀ e ∈ (x name).live, w.Tame e.2.listener

variable {w} {names : List String} {s : σ} {x : String → Roster L}

/-- A registry of the chain is put back changed. -/
theorem Holds.assign (h : w.Holds names s x) {name : String} (hname : name ∈ names)
    {r : Registry L} {y : Roster L} (hkeeps : r.Keeps y)
    (htame : ∀ e ∈ y.live, w.Tame e.2.listener) :
    w.Holds names (w.assign ((w.directory s).set name r) s) (Function.update x name y) where
  lined := by
    rw [w.directory_assign]
    exact h.lined.set name r
  keeps other hother := by
    rw [w.directory_assign]
    by_cases hsame : other = name
    · subst hsame
      rwa [h.lined.registry_set hother, Function.update_self]
    · rw [Directory.registry_set_ne _ hsame, Function.update_of_ne hsame]
      exact h.keeps other hother
  tame other hother := by
    by_cases hsame : other = name
    · subst hsame
      rwa [Function.update_self]
    · rw [Function.update_of_ne hsame]
      exact h.tame other hother

/-- Tame listeners leave the registries as they are, however many run. -/
theorem directory_playAll (p : Packet) {es : List (String × Entry L)}
    (h : ∀ e ∈ es, w.Tame e.2.listener) (s : σ) :
    w.directory ((w.scene p).playAll es s) = w.directory s := by
  induction es generalizing s with
  | nil => rfl
  | cons e es ih =>
    obtain ⟨hfirst, hrest⟩ := List.forall_mem_cons.mp h
    exact (ih hrest _).trans (hfirst p s)

theorem roll_congr (p : Packet) {s t : σ} (h : w.directory t = w.directory s)
    (keys : List String) : (w.scene p).roll t keys = (w.scene p).roll s keys := by
  have hlisted : (w.scene p).listed t = (w.scene p).listed s := by
    funext key
    simp only [Scene.listed, scene, h]
  rw [Scene.roll, hlisted, Scene.roll]

/-- Tame listeners all run, and leave the registries as they are. -/
theorem invoked_of_tame (p : Packet) {keys : List String} (s : σ)
    (h : ∀ e ∈ (w.scene p).roll s keys, w.Tame e.2.listener) :
    (w.scene p).invoked keys s = (w.scene p).roll s keys ∧
      w.directory ((w.scene p).after keys s) = w.directory s := by
  induction keys generalizing s with
  | nil => exact ⟨rfl, rfl⟩
  | cons key keys ih =>
    rw [Scene.roll_cons] at h
    have hown := directory_playAll p (fun e he => h e (List.mem_append_left _ he)) s
    have hroll := roll_congr p hown keys
    obtain ⟨hinvoked, hafter⟩ := ih ((w.scene p).playAll ((w.scene p).listed s key) s)
      (hroll ▸ fun e he => h e (List.mem_append_right _ he))
    rw [Scene.invoked_cons, Scene.roll_cons, Scene.after_cons, hinvoked, hroll, hafter, hown]
    exact ⟨rfl, rfl⟩

theorem mem_upward {names : List String} {name key : String} (h : key ∈ upward names name) :
    key ∈ names :=
  (List.dropWhile_suffix _).subset h

/-- The registrations that a dispatch finds are those of the rosters along the chain. -/
theorem Holds.roll (h : w.Holds names s x) (p : Packet) (name : String) :
    (w.scene p).roll s (upward names name) =
      (upward names name).flatMap fun key => ((x key).on p.channel).map (key, ·) := by
  refine List.flatMap_congr fun key hkey => ?_
  rw [Scene.listed]
  exact congrArg _ ((h.keeps key (mem_upward hkey)).listeners p.channel)

theorem Holds.tame_roll (h : w.Holds names s x) (p : Packet) (name : String) :
    ∀ e ∈ (w.scene p).roll s (upward names name), w.Tame e.2.listener := by
  rw [h.roll p name]
  intro e he
  obtain ⟨key, hkey, hentry⟩ := List.mem_flatMap.mp he
  obtain ⟨entry, hon, rfl⟩ := List.mem_map.mp hentry
  exact h.tame key (mem_upward hkey) _ (mem_on.mp hon)

theorem Holds.of_directory (h : w.Holds names s x) {t : σ}
    (hsame : w.directory t = w.directory s) : w.Holds names t x where
  lined := hsame ▸ h.lined
  keeps := hsame ▸ h.keeps
  tame := h.tame

/-- A call on a registry of the chain is answered as the rosters say. -/
theorem Holds.step (h : w.Holds names s x) (hnames : names.Nodup) {c : Call L}
    (hname : c.registry ∈ names)
    (htame : ∀ name channel l, c = .register name channel l → w.Tame l)
    (hroom : ∀ name, c.registersAt name → (x name).given.length + 1 < UInt64.size) :
    ∃ x', Meets names x c (w.step s c).1 x' ∧ w.Holds names (w.step s c).2 x' := by
  cases c with
  | register name channel l =>
    have hfree := hroom name (by simp [Call.registersAt])
    have hkeeps := h.keeps name hname
    refine ⟨_, ⟨hkeeps.fresh hfree, rfl⟩, h.assign hname (hkeeps.register hfree channel l) ?_⟩
    intro e he
    cases List.mem_append.mp he with
    | inl hold => exact h.tame name hname e hold
    | inr hnew =>
      rw [List.mem_singleton.mp hnew]
      exact htame name channel l rfl
  | unregister name channel id =>
    have hkeeps := h.keeps name hname
    obtain ⟨hfound, hafter⟩ := hkeeps.unregister channel id
    refine ⟨_, ⟨hfound, fun hnot => ?_, fun hyes => ⟨rfl, ?_⟩⟩, h.assign hname hafter
      fun e he => h.tame name hname e (List.mem_filter.mp he).1⟩
    · have hnone : ¬ (x name).Lists channel id := fun hlists =>
        Bool.false_ne_true (hnot.symm.trans (hfound.mpr hlists))
      rw [strike_of_not_lists hnone, Function.update_eq_self]
    · rw [Function.update_self]
      exact hkeeps.strike_of_lists (hfound.mp hyes)
  | unregisterChannel name channel =>
    obtain ⟨hcount, hafter⟩ := (h.keeps name hname).unregisterChannel channel
    exact ⟨_, ⟨hcount, rfl⟩, h.assign hname hafter
      fun e he => h.tame name hname e (List.mem_filter.mp he).1⟩
  | channels name =>
    obtain ⟨hsorted, hlisted⟩ := (h.keeps name hname).channelList
    exact ⟨x, ⟨hsorted, hlisted, rfl⟩, h⟩
  | hasListeners name channel =>
    have hchain := h.lined.chain hnames (show name ∈ names from hname)
    refine ⟨x, ⟨?_, rfl⟩, h⟩
    rw [Directory.hasListeners, hchain, List.any_eq_true]
    refine exists_congr fun key => and_congr_right fun hkey => ?_
    exact (h.keeps key (mem_upward hkey)).hasOwn channel
  | dispatch name p =>
    have hchain : (w.directory s).chain name = upward names name := h.lined.chain hnames hname
    obtain ⟨hinvoked, hafter⟩ := invoked_of_tame p s (h.tame_roll p name)
    refine ⟨x, ⟨?_, (w.scene p).count_eq _ s, rfl⟩, h.of_directory ?_⟩
    · rw [hchain, hinvoked, h.roll]
    · rw [← hafter, ← hchain]
      rfl

theorem given_update {key : String} {y : Roster L} (h : y.given = (x key).given) (name : String) :
    (Function.update x key y name).given = (x name).given := by
  by_cases hname : name = key
  · subst hname
    rw [Function.update_self, h]
  · rw [Function.update_of_ne hname]

/-- A call makes a registry give one id, or none. -/
theorem length_given {c : Call L} {a : Answer L} {x' : String → Roster L}
    (h : Meets names x c a x') (name : String) :
    (x' name).given.length = (x name).given.length + if c.registersAt name then 1 else 0 := by
  cases c with
  | register key channel l =>
    cases a with
    | given id =>
      obtain ⟨-, rfl⟩ := h
      by_cases hname : name = key
      · subst hname
        simp [Call.registersAt, add]
      · simp [Call.registersAt, Function.update_of_ne hname, Ne.symm hname]
    | found | removed | listed | ran => exact h.elim
  | unregister key channel id =>
    cases a with
    | found b =>
      cases b with
      | true => rw [(h.2.2 rfl).1, given_update (by rfl)]; rfl
      | false => rw [h.2.1 rfl]; rfl
    | given | removed | listed | ran => exact h.elim
  | unregisterChannel key channel =>
    cases a with
    | removed count => rw [h.2, given_update (by rfl)]; rfl
    | given | found | listed | ran => exact h.elim
  | channels key =>
    cases a with
    | listed cs => rw [h.2.2]; rfl
    | given | found | removed | ran => exact h.elim
  | hasListeners key channel =>
    cases a with
    | found b => rw [h.2]; rfl
    | given | removed | listed | ran => exact h.elim
  | dispatch key p =>
    cases a with
    | ran count invoked => rw [h.2.2]; rfl
    | given | found | removed | listed => exact h.elim

/-- By induction on the calls, each answered as the rosters say. -/
theorem Holds.run (h : w.Holds names s x) (hnames : names.Nodup) {cs : List (Call L)}
    (hon : ∀ c ∈ cs, c.registry ∈ names)
    (htame : ∀ name channel l, .register name channel l ∈ cs → w.Tame l)
    (hfew : ∀ name, (x name).given.length + cs.countP (·.registersAt name) < UInt64.size) :
    ∃ x', Follows names x cs (w.run s cs).1 x' ∧ w.Holds names (w.run s cs).2 x' := by
  induction cs generalizing s x with
  | nil => exact ⟨x, .nil x, h⟩
  | cons c cs ih =>
    have hroom (name : String) (hc : c.registersAt name) :
        (x name).given.length + 1 < UInt64.size := by
      have := hfew name
      rw [List.countP_cons_of_pos hc] at this
      omega
    obtain ⟨x', hfirst, hmid⟩ := h.step hnames (hon c List.mem_cons_self)
      (fun name channel l hc => htame name channel l (hc ▸ List.mem_cons_self)) hroom
    obtain ⟨x'', hrest, hend⟩ := ih hmid (fun c hc => hon c (List.mem_cons_of_mem _ hc))
      (fun name channel l hc => htame name channel l (List.mem_cons_of_mem _ hc)) (by
        intro name
        have := hfew name
        rw [List.countP_cons] at this
        rw [length_given hfirst]
        omega)
    exact ⟨x'', .cons hfirst hrest, hend⟩

end World

end Roster

namespace Detached

/-- Registries on a channel that leads nowhere; dispatches from within a listener may nest
`depth` deep. -/
def world (depth : Nat) : Roster.World Detached Listener where
  directory := Detached.directory
  assign := fun directory d => { d with directory }
  play := fun p l d => (run (l.run (dispatchPacket depth) p) d).2
  directory_assign := fun _ _ => rfl

theorem tame_of_quiet (depth : Nat) {l : Listener} (h : l.Quiet) : (world depth).Tame l :=
  fun p d => (l.quiet_run _ p h).directory_run d

/-- The calls there are the actions of the program. -/
theorem step_world (depth : Nat) (d : Detached) :
    (∀ name channel l, (world depth).step d (.register name channel l) =
      ((run (.register name channel l .pure) d).map .given id)) ∧
    (∀ name channel id', (world depth).step d (.unregister name channel id') =
      ((run (.unregister name channel id' .pure) d).map .found id)) ∧
    (∀ name channel, (world depth).step d (.unregisterChannel name channel) =
      ((run (.unregisterChannel name channel .pure) d).map .removed id)) ∧
    ∀ name p, (world depth).step d (.dispatch name p) =
      ((run (dispatchPacket (depth + 1) name p) d).map
        (.ran · ((scene depth p).invoked (d.directory.chain name) d)) id) := by
  refine ⟨fun _ _ _ => rfl, fun _ _ _ => rfl, fun _ _ => rfl, fun name p => ?_⟩
  rw [run_dispatchPacket]
  rfl

end Detached

/-- Whatever calls are made on the registries of a chain, in any order, fewer than 2 ^ 64 of
them to register at one registry, with listeners that leave the registries alone however their
runs end: all calls are answered as the rosters say that the registries started with empty. In
the world of the program's own listeners the calls are its actions. -/
theorem registries_refine_rosters {σ L : Type} (w : Roster.World σ L) {names : List String}
    (hnames : names.Nodup) {s : σ} (hs : w.directory s = Directory.line names)
    (calls : List (Roster.Call L)) (hon : ∀ c ∈ calls, c.registry ∈ names)
    (htame : ∀ name channel l, .register name channel l ∈ calls → w.Tame l)
    (hfew : ∀ name, calls.countP (·.registersAt name) < UInt64.size) :
    (∃ x, Roster.Follows names (fun _ => {}) calls (w.run s calls).1 x) ∧
    ∀ depth (d : Detached),
      (∀ name channel l, (Detached.world depth).step d (.register name channel l) =
        ((Detached.run (.register name channel l .pure) d).map .given id)) ∧
      (∀ name channel id', (Detached.world depth).step d (.unregister name channel id') =
        ((Detached.run (.unregister name channel id' .pure) d).map .found id)) ∧
      (∀ name channel, (Detached.world depth).step d (.unregisterChannel name channel) =
        ((Detached.run (.unregisterChannel name channel .pure) d).map .removed id)) ∧
      ∀ name p, (Detached.world depth).step d (.dispatch name p) =
        ((Detached.run (dispatchPacket (depth + 1) name p) d).map
          (.ran · ((Detached.scene depth p).invoked (d.directory.chain name) d)) id) := by
  have hempty : w.Holds names s fun _ => {} := by
    refine ⟨hs ▸ Directory.lined_line hnames, fun name _ => ?_, fun _ _ e he => ?_⟩
    · rw [hs, Directory.registry_line]
      exact Registry.keeps_empty
    · exact absurd he List.not_mem_nil
  have hrun := hempty.run hnames hon htame fun name => by
    rw [show ({} : Roster L).given.length = 0 from rfl, Nat.zero_add]
    exact hfew name
  obtain ⟨x, hfollows, -⟩ := hrun
  exact ⟨⟨x, hfollows⟩, Detached.step_world⟩

/-- Calls on a registry and its parent: two listeners of the one fail before that of the
other runs. -/
def failingCalls : List (Roster.Call Listener) :=
  [.register "root" 6 (.stock "survivor" .record), .register "kid" 6 (.stock "failing" (.fail "no")),
    .register "kid" 6 (.stock "panicking" .panic), .channels "kid", .hasListeners "kid" 6,
    .dispatch "kid" { channel := 6 }, .unregister "kid" 6 1, .unregister "kid" 6 1,
    .unregisterChannel "root" 6, .hasListeners "root" 6]

theorem failing_calls_refine_rosters :
    ∃ answers x invoked, Roster.Follows ["kid", "root"] (fun _ => {}) failingCalls answers x ∧
      answers = [.given 1, .given 1, .given 2, .listed [6], .found true, .ran 3 invoked,
        .found true, .found false, .removed 1, .found false] := by
  have hquiet : ∀ name channel l, .register name channel l ∈ failingCalls → l.Quiet := by
    intro name channel l h
    simp only [failingCalls, List.mem_cons, Roster.Call.register.injEq, reduceCtorEq,
      List.not_mem_nil, or_false] at h
    obtain ⟨-, -, rfl⟩ | ⟨-, -, rfl⟩ | ⟨-, -, rfl⟩ := h <;> trivial
  have hfew (name : String) : failingCalls.countP (·.registersAt name) < UInt64.size :=
    Nat.lt_of_le_of_lt List.countP_le_length (by decide)
  obtain ⟨⟨x, hfollows⟩, -⟩ := registries_refine_rosters (Detached.world 255)
    (show ["kid", "root"].Nodup by decide) (s := { directory := Directory.line ["kid", "root"] })
    rfl failingCalls (by decide)
    (fun name channel l h => Detached.tame_of_quiet 255 (hquiet name channel l h)) hfew
  exact ⟨_, x, _, hfollows, rfl⟩

end Switchboard
