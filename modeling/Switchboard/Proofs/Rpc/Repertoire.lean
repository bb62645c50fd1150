import Mathlib.Data.List.Nodup
import Switchboard.Proofs.Rpc.Listening

/-!
# The table of handlers as a plain list

A `Repertoire` is what one would write down of a table: each handler under its target and
method, no pair twice. A table keeps a repertoire if it finds the same handlers and has no
target without a method (`Handlers.Keeps`); the latter is what makes its targets and its
counts those of the handlers. Then each call is answered as the repertoire says, and the handler
of a pair is that of its latest registration, unless something has removed it since (`Stands`).
-/

namespace Switchboard

structure Repertoire where
  entries : List ((String × String) × Handler) := []

namespace Repertoire

def find? (x : Repertoire) (target method : String) : Option Handler :=
  x.entries.lookup (target, method)

def filter (x : Repertoire) (keep : String × String → Bool) : Repertoire :=
  { entries := x.entries.filter fun e => keep e.1 }

def put (x : Repertoire) (target method : String) (h : Handler) : Repertoire :=
  { entries := (x.filter (· ≠ (target, method))).entries ++ [((target, method), h)] }

def strike (x : Repertoire) (target method : String) : Repertoire :=
  x.filter (· ≠ (target, method))

def clear (x : Repertoire) (target : String) : Repertoire := x.filter (·.1 ≠ target)

def methods (x : Repertoire) (target : String) : List String :=
  (x.entries.filter (·.1.1 = target)).map (·.1.2)

def Distinct (x : Repertoire) : Prop := (x.entries.map (·.1)).Nodup

variable {x : Repertoire} {target method : String}

/-- Pairs that are kept are found as before. -/
theorem find?_filter (x : Repertoire) (keep : String × String → Bool) (target method : String) :
    (x.filter keep).find? target method =
      if keep (target, method) then x.find? target method else none := by
  obtain ⟨entries⟩ := x
  simp only [find?, filter]
  induction entries with
  | nil => simp
  | cons e entries ih =>
    obtain ⟨pair, h⟩ := e
    by_cases hkeep : keep pair = true
    · rw [List.filter_cons_of_pos (by exact hkeep), List.lookup_cons, List.lookup_cons, ih]
      by_cases hpair : (target, method) = pair
      · simp [hpair, hkeep]
      · simp [beq_false_of_ne hpair]
    · rw [List.filter_cons_of_neg (by exact hkeep), ih, List.lookup_cons]
      by_cases hpair : (target, method) = pair
      · simp [hpair, hkeep]
      · simp [beq_false_of_ne hpair]

theorem find?_strike (x : Repertoire) (target method target' method' : String) :
    (x.strike target method).find? target' method' =
      if (target', method') = (target, method) then none else x.find? target' method' := by
  rw [strike, find?_filter]
  by_cases h : (target', method') = (target, method) <;> simp [h]

theorem find?_clear (x : Repertoire) (target target' method' : String) :
    (x.clear target).find? target' method' =
      if target' = target then none else x.find? target' method' := by
  rw [clear, find?_filter]
  by_cases h : target' = target <;> simp [h]

theorem find?_put (x : Repertoire) (target method : String) (h : Handler)
    (target' method' : String) :
    (x.put target method h).find? target' method' =
      if (target', method') = (target, method) then some h else x.find? target' method' := by
  have hfilter := x.find?_filter (· ≠ (target, method)) target' method'
  rw [find?] at hfilter
  rw [put, find?, List.lookup_append, hfilter, List.lookup_cons, List.lookup_nil]
  by_cases hpair : (target', method') = (target, method)
  · simp [hpair]
  · simp [hpair, beq_false_of_ne hpair]

theorem Distinct.filter (h : x.Distinct) (keep : String × String → Bool) :
    (x.filter keep).Distinct :=
  h.sublist (List.filter_sublist.map _)

theorem Distinct.put (h : x.Distinct) (target method : String) (handler : Handler) :
    (x.put target method handler).Distinct := by
  rw [Distinct, Repertoire.put, List.map_append, List.nodup_append]
  refine ⟨h.filter _, List.nodup_singleton _, ?_⟩
  intro pair hpair pair' hpair' heq
  obtain ⟨e, he, rfl⟩ := List.mem_map.mp hpair
  rw [List.map_singleton, List.mem_singleton] at hpair'
  have hkept : e.1 ≠ (target, method) := of_decide_eq_true (List.mem_filter.mp he).2
  exact hkept (heq.trans hpair')

theorem mem_methods : method ∈ x.methods target ↔ (x.find? target method).isSome := by
  rw [find?, List.lookup_isSome_iff, methods, List.mem_map]
  constructor
  · rintro ⟨e, he, rfl⟩
    obtain ⟨hmem, htarget⟩ := List.mem_filter.mp he
    have hsame : e.1.1 = target := of_decide_eq_true htarget
    exact ⟨e, hmem, by simp [← hsame]⟩
  · rintro ⟨e, hmem, hpair⟩
    have hsame : (target, method) = e.1 := eq_of_beq hpair
    refine ⟨e, List.mem_filter.mpr ⟨hmem, ?_⟩, ?_⟩
    · simp [← hsame]
    · rw [← hsame]

/-- The pairs of one target differ in their methods. -/
theorem Distinct.nodup_methods (h : x.Distinct) (target : String) : (x.methods target).Nodup := by
  have hpairs : ((x.entries.filter (·.1.1 = target)).map (·.1)).Nodup :=
    h.sublist (List.filter_sublist.map _)
  have hmethods : x.methods target =
      ((x.entries.filter (·.1.1 = target)).map (·.1)).map (·.2) := by
    rw [List.map_map]
    rfl
  rw [hmethods]
  refine hpairs.map_on ?_
  intro pair hpair pair' hpair' hmethod
  have htarget {p : String × String}
      (hp : p ∈ (x.entries.filter (·.1.1 = target)).map (·.1)) : p.1 = target := by
    obtain ⟨e, he, rfl⟩ := List.mem_map.mp hp
    exact of_decide_eq_true (List.mem_filter.mp he).2
  exact Prod.ext ((htarget hpair).trans (htarget hpair').symm) hmethod

end Repertoire

namespace Handlers

variable {t : Handlers} {x : Repertoire}

theorem compare_targets_ne {a b : String} (h : a ≠ b) : compare a b ≠ .eq := fun heq =>
  h (Std.compare_eq_iff_eq.mp heq)

/-- Registering changes what is found under the pair alone. -/
theorem find?_register (t : Handlers) (target method : String) (h : Handler)
    (target' method' : String) :
    (t.register target method h).find? target' method' =
      if (target', method') = (target, method) then some h else t.find? target' method' := by
  rw [find?, register]
  by_cases htarget : target = target'
  · subst htarget
    rw [Std.TreeMap.getElem?_alter_self, Option.bind_some, Std.TreeMap.getElem?_insert]
    by_cases hmethod : method = method'
    · subst hmethod
      simp
    · rw [if_neg (compare_targets_ne hmethod), if_neg (by simp [Ne.symm hmethod]), find?]
      cases t.targets[target]? with
      | none => exact Std.TreeMap.getElem?_emptyc
      | some methods => rfl
  · rw [Std.TreeMap.getElem?_alter, if_neg (compare_targets_ne htarget),
      if_neg (by simp [Ne.symm htarget]), find?]

/-- Unregistering changes what is found under the pair alone, also where its target is dropped. -/
theorem find?_unregister (t : Handlers) (target method target' method' : String) :
    (t.unregister target method).2.find? target' method' =
      if (target', method') = (target, method) then none else t.find? target' method' := by
  rw [unregister]
  cases hmethods : t.targets[target]? with
  | none =>
    by_cases hpair : (target', method') = (target, method)
    · obtain ⟨rfl, rfl⟩ := Prod.mk.inj hpair
      simp [find?, hmethods]
    · rw [if_neg hpair]
  | some methods =>
    -- What is left of the target's methods, whether it is kept or not.
    have hrest : (methods.erase method)[method']? =
        if method' = method then none else methods[method']? := by
      rw [Std.TreeMap.getElem?_erase]
      by_cases hmethod : method = method'
      · subst hmethod
        simp
      · rw [if_neg (compare_targets_ne hmethod), if_neg (Ne.symm hmethod)]
    by_cases htarget : target = target'
    · subst htarget
      have hleft : (if (target, method') = (target, method) then none
          else t.find? target method') = (methods.erase method)[method']? := by
        rw [hrest, find?, hmethods, Option.bind_some]
        by_cases hmethod : method' = method <;> simp [hmethod]
      rw [hleft]
      by_cases hempty : (methods.erase method).isEmpty
      · simp only [if_pos hempty, find?, Std.TreeMap.getElem?_erase_self, Option.bind_none]
        exact (Std.TreeMap.getElem?_of_isEmpty hempty).symm
      · simp only [if_neg hempty, find?, Std.TreeMap.getElem?_insert_self, Option.bind_some]
    · have hother : ∀ targets : Std.TreeMap String (Std.TreeMap String Handler),
          targets[target']? = t.targets[target']? →
          find? { targets } target' method' = t.find? target' method' := by
        intro targets hsame
        rw [find?, hsame, find?]
      rw [if_neg (by simp [Ne.symm htarget])]
      apply hother
      split
      · rw [Std.TreeMap.getElem?_erase, if_neg (compare_targets_ne htarget)]
      · rw [Std.TreeMap.getElem?_insert, if_neg (compare_targets_ne htarget)]

theorem find?_unregisterTarget (t : Handlers) (target target' method' : String) :
    (t.unregisterTarget target).2.find? target' method' =
      if target' = target then none else t.find? target' method' := by
  rw [unregisterTarget, find?, Std.TreeMap.getElem?_erase]
  by_cases htarget : target = target'
  · subst htarget
    simp
  · rw [if_neg (compare_targets_ne htarget), if_neg (Ne.symm htarget), find?]

/-- Every target has a method. -/
def Inhabited (t : Handlers) : Prop :=
  ∀ (target : String) (methods : Std.TreeMap String Handler),
    t.targets[target]? = some methods → methods.isEmpty = false

/-- The table holds the handlers of the repertoire and no empty target. -/
structure Keeps (t : Handlers) (x : Repertoire) : Prop where
  finds (target method : String) : t.find? target method = x.find? target method
  inhabited : t.Inhabited
  distinct : x.Distinct

theorem keeps_empty : ({} : Handlers).Keeps {} where
  finds target method := by
    rw [find?, Std.TreeMap.getElem?_emptyc]
    rfl
  inhabited target methods h := by
    rw [Std.TreeMap.getElem?_emptyc] at h
    cases h
  distinct := List.nodup_nil

theorem Inhabited.register (h : t.Inhabited) (target method : String) (handler : Handler) :
    (t.register target method handler).Inhabited := by
  intro target' methods hmethods
  rw [Handlers.register, Std.TreeMap.getElem?_alter] at hmethods
  split at hmethods
  · cases hmethods
    exact Std.TreeMap.isEmpty_insert
  · exact h target' methods hmethods

/-- No target is left without a method. -/
theorem Inhabited.unregister (h : t.Inhabited) (target method : String) :
    (t.unregister target method).2.Inhabited := by
  rw [Handlers.unregister]
  split
  · exact h
  · intro target' methods hmethods
    simp only at hmethods
    split at hmethods
    · rw [Std.TreeMap.getElem?_erase] at hmethods
      split at hmethods
      · cases hmethods
      · exact h target' methods hmethods
    · rename_i hrest
      rw [Std.TreeMap.getElem?_insert] at hmethods
      split at hmethods
      · cases hmethods
        exact eq_false_of_ne_true hrest
      · exact h target' methods hmethods

theorem Inhabited.unregisterTarget (h : t.Inhabited) (target : String) :
    (t.unregisterTarget target).2.Inhabited := by
  intro target' methods hmethods
  rw [Handlers.unregisterTarget, Std.TreeMap.getElem?_erase] at hmethods
  split at hmethods
  · cases hmethods
  · exact h target' methods hmethods

/-- The targets come in strictly increasing order, and are those that have a method. -/
theorem Inhabited.names (h : t.Inhabited) :
    t.names.Pairwise (· < ·) ∧
      ∀ target, target ∈ t.names ↔ ∃ method, t.contains target method = true := by
  constructor
  · have hlt {a b : String} (h : compare a b = .lt) : a < b := compareOfLessAndEq_eq_lt.mp h
    exact Std.TreeMap.ordered_keys.imp hlt
  · intro target
    rw [Handlers.names, Std.TreeMap.mem_keys, Std.TreeMap.mem_iff_isSome_getElem?]
    simp only [contains, find?]
    cases hmethods : t.targets[target]? with
    | none => simp
    | some methods =>
      obtain ⟨method, hmethod⟩ :=
        Std.TreeMap.isEmpty_eq_false_iff_exists_mem.mp (h target methods hmethods)
      simp only [Option.isSome_some, Option.bind_some, true_iff]
      exact ⟨method, Std.TreeMap.mem_iff_isSome_getElem?.mp hmethod⟩

theorem Keeps.register (h : t.Keeps x) (target method : String) (handler : Handler) :
    (t.register target method handler).Keeps (x.put target method handler) where
  finds target' method' := by rw [find?_register, Repertoire.find?_put, h.finds]
  inhabited := h.inhabited.register target method handler
  distinct := h.distinct.put target method handler

theorem Keeps.unregister (h : t.Keeps x) (target method : String) :
    (t.unregister target method).1 = (x.find? target method).isSome ∧
      (t.unregister target method).2.Keeps (x.strike target method) := by
  refine ⟨?_, ?_, h.inhabited.unregister target method, h.distinct.filter _⟩
  · rw [← h.finds, Handlers.unregister, find?]
    cases t.targets[target]? with
    | none => rfl
    | some methods => exact Std.TreeMap.contains_eq_isSome_getElem?
  · intro target' method'
    rw [find?_unregister, Repertoire.find?_strike, h.finds]

theorem Keeps.unregisterTarget (h : t.Keeps x) (target : String) :
    (t.unregisterTarget target).1 = (x.methods target).length ∧
      (t.unregisterTarget target).2.Keeps (x.clear target) := by
  refine ⟨?_, ?_, h.inhabited.unregisterTarget target, h.distinct.filter _⟩
  · have hmem (method : String) :
        method ∈ x.methods target ↔ ((t.targets[target]?).bind (·[method]?)).isSome := by
      rw [Repertoire.mem_methods, ← h.finds, find?]
    rw [Handlers.unregisterTarget]
    cases hmethods : t.targets[target]? with
    | none =>
      have hnil : x.methods target = [] :=
        List.eq_nil_iff_forall_not_mem.mpr fun method hmethod => by
          simpa [hmethods] using (hmem method).mp hmethod
      rw [hnil]
      rfl
    | some methods =>
      have hperm : methods.keys.Perm (x.methods target) := by
        refine (List.perm_ext_iff_of_nodup Std.TreeMap.nodup_keys
          (h.distinct.nodup_methods target)).mpr fun method => ?_
        rw [hmem, hmethods, Option.bind_some, Std.TreeMap.mem_keys,
          Std.TreeMap.mem_iff_isSome_getElem?]
      rw [Option.elim_some, ← Std.TreeMap.length_keys, hperm.length_eq]
  · intro target' method'
    rw [find?_unregisterTarget, Repertoire.find?_clear, h.finds]

end Handlers

namespace Repertoire

/-- A call on a table of handlers. -/
inductive TableCall where
  | register (target method : String) (h : Handler)
  | unregister (target method : String)
  | unregisterTarget (target : String)
  | invoke (i : Invocation)

inductive Answer where
  | done
  | found (b : Bool)
  | removed (count : Nat)
  | outcome (r : Except String Buffer)

namespace TableCall

def isInvoke : TableCall → Bool
  | invoke _ => true
  | register _ _ _ | unregister _ _ | unregisterTarget _ => false

def Settles (target method : String) : TableCall → Prop
  | register target' method' _ | unregister target' method' => (target, method) = (target', method')
  | unregisterTarget target' => target = target'
  | invoke _ => False

def runEach {σ : Type} (step : σ → TableCall → Answer × σ) :
    List TableCall → σ → List Answer × σ
  | [], s => ([], s)
  | c :: cs, s =>
    ((step s c).1 :: (runEach step cs (step s c).2).1, (runEach step cs (step s c).2).2)

end TableCall

/-- The handler was registered under the pair, and no call since has put another there or
removed it. -/
def Stands (calls : List TableCall) (target method : String) (h : Handler) : Prop :=
  ∃ before after, calls = before ++ .register target method h :: after ∧
    ∀ c ∈ after, ¬ c.Settles target method

def step (x : Repertoire) : TableCall → Answer × Repertoire
  | .register target method h => (.done, x.put target method h)
  | .unregister target method => (.found (x.find? target method).isSome, x.strike target method)
  | .unregisterTarget target => (.removed (x.methods target).length, x.clear target)
  | .invoke i => (.outcome (match x.find? i.target i.method with
    | none => .error s!"method not found: {i.name}"
    | some h => i.told (h { left := i.arguments })), x)

def run (calls : List TableCall) : List Answer × Repertoire := TableCall.runEach step calls {}

end Repertoire

namespace Handlers

open Repertoire (TableCall Answer Stands)

def step (t : Handlers) : TableCall → Answer × Handlers
  | .register target method h => (.done, t.register target method h)
  | .unregister target method => (t.unregister target method).map .found id
  | .unregisterTarget target => (t.unregisterTarget target).map .removed id
  | .invoke i => (.outcome (t.invoke i), t)

def run (calls : List TableCall) : List Answer × Handlers := TableCall.runEach step calls {}

variable {t : Handlers} {x : Repertoire}

/-- A call on the table is answered as one on the repertoire. -/
theorem Keeps.step (h : t.Keeps x) (c : TableCall) :
    (t.step c).1 = (x.step c).1 ∧ (t.step c).2.Keeps (x.step c).2 := by
  cases c with
  | register target method handler => exact ⟨rfl, h.register target method handler⟩
  | unregister target method =>
    obtain ⟨hfound, hafter⟩ := h.unregister target method
    exact ⟨congrArg Answer.found hfound, hafter⟩
  | unregisterTarget target =>
    obtain ⟨hcount, hafter⟩ := h.unregisterTarget target
    exact ⟨congrArg Answer.removed hcount, hafter⟩
  | invoke i =>
    refine ⟨?_, h⟩
    cases hfind : x.find? i.target i.method <;>
      simp only [Handlers.step, Repertoire.step, invoke_eq, h.finds, hfind]

/-- By induction on the calls. -/
theorem Keeps.run (h : t.Keeps x) (calls : List TableCall) :
    (TableCall.runEach Handlers.step calls t).1 = (TableCall.runEach Repertoire.step calls x).1 ∧
      (TableCall.runEach Handlers.step calls t).2.Keeps
        (TableCall.runEach Repertoire.step calls x).2 := by
  induction calls generalizing t x with
  | nil => exact ⟨rfl, h⟩
  | cons c calls ih =>
    obtain ⟨hanswer, hnext⟩ := h.step c
    obtain ⟨hanswers, hafter⟩ := ih hnext
    simp only [TableCall.runEach, hanswer, hanswers]
    exact ⟨trivial, hafter⟩

/-- What is found after a call was put there by it, or was there and is left alone. -/
theorem find?_step (t : Handlers) (c : TableCall) (target method : String) (h : Handler) :
    (t.step c).2.find? target method = some h ↔
      c = .register target method h ∨
        ¬ c.Settles target method ∧ t.find? target method = some h := by
  cases c with
  | register target' method' h' =>
    simp only [step, find?_register, TableCall.Settles, TableCall.register.injEq]
    by_cases hpair : (target, method) = (target', method')
    · obtain ⟨rfl, rfl⟩ := Prod.mk.inj hpair
      simp
    · rw [if_neg hpair]
      simp only [Prod.mk.injEq] at hpair
      constructor
      · intro hfind
        exact .inr ⟨by simpa using hpair, hfind⟩
      · rintro (⟨rfl, rfl, -⟩ | ⟨-, hfind⟩)
        · exact absurd ⟨rfl, rfl⟩ hpair
        · exact hfind
  | unregister target' method' =>
    simp only [step, Prod.map_snd, id_eq, find?_unregister, TableCall.Settles, reduceCtorEq,
      false_or]
    by_cases hpair : (target, method) = (target', method') <;> simp [hpair]
  | unregisterTarget target' =>
    simp only [step, Prod.map_snd, id_eq, find?_unregisterTarget, TableCall.Settles, reduceCtorEq,
      false_or]
    by_cases htarget : target = target' <;> simp [htarget]
  | invoke i => simp [step, TableCall.Settles]

/-- What stands before a call stands after it, unless the call settles the pair. -/
theorem stands_cons {c : TableCall} {calls : List TableCall} {target method : String}
    {h : Handler} :
    Stands (c :: calls) target method h ↔ Stands calls target method h ∨
      c = .register target method h ∧ ∀ c' ∈ calls, ¬ c'.Settles target method := by
  constructor
  · rintro ⟨before, after, hcalls, hafter⟩
    cases before with
    | nil =>
      obtain ⟨rfl, rfl⟩ := List.cons.inj hcalls
      exact .inr ⟨rfl, hafter⟩
    | cons c' before =>
      obtain ⟨-, rfl⟩ := List.cons.inj hcalls
      exact .inl ⟨before, after, rfl, hafter⟩
  · rintro (⟨before, after, rfl, hafter⟩ | ⟨rfl, hcalls⟩)
    · exact ⟨c :: before, after, rfl, hafter⟩
    · exact ⟨[], calls, rfl, hcalls⟩

/-- The handler of a pair is the latest that was registered, or the one from before the calls,
if no call since has settled the pair. -/
theorem find?_run (t : Handlers) (calls : List TableCall) (target method : String) (h : Handler) :
    (TableCall.runEach step calls t).2.find? target method = some h ↔
      Stands calls target method h ∨
        (∀ c ∈ calls, ¬ c.Settles target method) ∧ t.find? target method = some h := by
  induction calls generalizing t with
  | nil => simp [TableCall.runEach, Stands]
  | cons c calls ih =>
    rw [TableCall.runEach, ih, find?_step, stands_cons, List.forall_mem_cons]
    tauto

/-- Invoking leaves the table as it is. -/
theorem run_filter (t : Handlers) (calls : List TableCall) :
    (TableCall.runEach step (calls.filter fun c => !c.isInvoke) t).2 =
      (TableCall.runEach step calls t).2 := by
  induction calls generalizing t with
  | nil => rfl
  | cons c calls ih =>
    cases c with
    | invoke i => exact ih t
    | register | unregister | unregisterTarget => exact ih _

/-- The table is changed and told as a map from targets and methods to handlers. -/
structure Flat (t : Handlers) : Prop where
  register (target method : String) (h : Handler) (target' method' : String) :
    (t.register target method h).find? target' method' =
      if (target', method') = (target, method) then some h else t.find? target' method'
  unregister (target method : String) :
    ((t.unregister target method).1 = true ↔ t.contains target method = true) ∧
    ∀ target' method', (t.unregister target method).2.find? target' method' =
      if (target', method') = (target, method) then none else t.find? target' method'
  unregisterTarget (target : String) :
    (∃ methods : List String, methods.Nodup ∧
      (∀ method, method ∈ methods ↔ t.contains target method = true) ∧
      (t.unregisterTarget target).1 = methods.length) ∧
    ∀ target' method', (t.unregisterTarget target).2.find? target' method' =
      if target' = target then none else t.find? target' method'
  sorted : t.names.Pairwise (· < ·)
  mem_names (target : String) : target ∈ t.names ↔ ∃ method, t.contains target method = true

/-- What the table holds tells all its answers. -/
theorem Keeps.flat (h : t.Keeps x) : t.Flat where
  register := t.find?_register
  unregister target method := by
    refine ⟨?_, t.find?_unregister target method⟩
    rw [(h.unregister target method).1, contains, h.finds]
  unregisterTarget target := by
    refine ⟨⟨x.methods target, h.distinct.nodup_methods target, fun method => ?_,
      (h.unregisterTarget target).1⟩, t.find?_unregisterTarget target⟩
    rw [Repertoire.mem_methods, contains, h.finds]
  sorted := h.inhabited.names.1
  mem_names := h.inhabited.names.2

/-- Whatever calls are made on a new table, in any order: each is answered as the plain list of
its handlers says, and the table then is as flat as that list. It has the handler under a pair
that was registered there last, if nothing has removed it since, and invokes that one. The
invocations have changed nothing, however their handlers ended. -/
theorem table_is_flat (calls : List TableCall) :
    (run calls).1 = (Repertoire.run calls).1 ∧
    (run calls).2.Keeps (Repertoire.run calls).2 ∧
    (run calls).2.Flat ∧
    (∀ target method h,
      (run calls).2.find? target method = some h ↔ Stands calls target method h) ∧
    (∀ target method,
      (run calls).2.contains target method = true ↔ ∃ h, Stands calls target method h) ∧
    (∀ i h, Stands calls i.target i.method h →
      (run calls).2.invoke i = i.told (h { left := i.arguments })) ∧
    (∀ i, (∀ h, ¬ Stands calls i.target i.method h) →
      (run calls).2.invoke i = .error s!"method not found: {i.name}") ∧
    (run (calls.filter fun c => !c.isInvoke)).2 = (run calls).2 := by
  obtain ⟨hanswers, hkeeps⟩ := keeps_empty.run calls
  have hstands (target method : String) (h : Handler) :
      (run calls).2.find? target method = some h ↔ Stands calls target method h := by
    have hnone : ({} : Handlers).find? target method = none := keeps_empty.finds target method
    rw [run, find?_run, hnone]
    simp
  refine ⟨hanswers, hkeeps, hkeeps.flat, hstands, fun target method => ?_, fun i h hh => ?_,
    fun i hnot => ?_, run_filter {} calls⟩
  · rw [contains, Option.isSome_iff_exists]
    exact exists_congr fun h => hstands target method h
  · rw [invoke_eq, (hstands i.target i.method h).mpr hh]
  · have hnone : (run calls).2.find? i.target i.method = none :=
      Option.eq_none_iff_forall_ne_some.mpr fun h hfind => hnot h ((hstands _ _ h).mp hfind)
    rw [invoke_eq, hnone]

/-- A handler that was replaced, one that panics, and one that was removed twice. -/
theorem table_is_flat_closing_shop :
    let order : Handler := fun _ => .ok .empty
    let calls : List TableCall :=
      [.register "Shop" "order" fun _ => .error (.failed ["closed"]),
        .register "Shop" "order" order, .register "Shop" "price" fun _ => .error .panicked,
        .invoke { target := "Shop", method := "price" }, .unregister "Shop" "price",
        .unregister "Shop" "price"]
    Stands calls "Shop" "order" order ∧
    (run calls).2.invoke { target := "Shop", method := "order" } = .ok .empty ∧
    (run calls).1 = [.done, .done, .done, .outcome (.error "Shop#price panicked"), .found true,
      .found false] ∧
    (run (calls ++ [.unregisterTarget "Shop"])).1 = [.done, .done, .done,
      .outcome (.error "Shop#price panicked"), .found true, .found false, .removed 1] := by
  intro order calls
  have hstands : Stands calls "Shop" "order" order := by
    refine ⟨[.register "Shop" "order" fun _ => .error (.failed ["closed"])],
      [.register "Shop" "price" fun _ => .error .panicked,
        .invoke { target := "Shop", method := "price" }, .unregister "Shop" "price",
        .unregister "Shop" "price"], rfl, ?_⟩
    simp [TableCall.Settles]
  refine ⟨hstands, ?_, ?_, ?_⟩
  · exact (table_is_flat calls).2.2.2.2.2.1 { target := "Shop", method := "order" } order hstands
  · rw [(table_is_flat calls).1]
    rfl
  · rw [(table_is_flat _).1]
    rfl

end Handlers

end Switchboard
