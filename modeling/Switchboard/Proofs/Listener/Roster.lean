import Mathlib.Data.List.Nodup
import Switchboard.Listener.Registry

/-!
# A registry as a plain list

A `Roster` is what one would write down of a registry: the registrations that were not
removed yet, in the order in which they were made, and the ids that were given. A registry
keeps a roster if it maps every channel to the entries of that channel, and no channel to
none (`Registry.Keeps`); then each operation answers what the roster says, and keeps the
roster that the operation makes of it.
-/

namespace Switchboard

structure Roster (L : Type) where
  /-- The registrations not removed yet, each with its channel. -/
  live : List (Int32 × Entry L) := []
  /-- Every id that was given, removed or not. -/
  given : List ListenerId := []

namespace Roster

variable {L : Type}

def on (x : Roster L) (channel : Int32) : List (Entry L) :=
  (x.live.filter (·.1 = channel)).map (·.2)

def Lists (x : Roster L) (channel : Int32) (id : ListenerId) : Prop :=
  ∃ e ∈ x.live, e.1 = channel ∧ e.2.id = id

/-- One more registration, under an id that was not given before. -/
def add (x : Roster L) (channel : Int32) (e : Entry L) : Roster L where
  live := x.live ++ [(channel, e)]
  given := x.given ++ [e.id]

def strike (x : Roster L) (channel : Int32) (id : ListenerId) : Roster L :=
  { x with live := x.live.filter fun e => ¬ (e.1 = channel ∧ e.2.id = id) }

def clear (x : Roster L) (channel : Int32) : Roster L :=
  { x with live := x.live.filter fun e => e.1 ≠ channel }

@[simp] theorem on_empty (c : Int32) : ({} : Roster L).on c = [] := rfl

theorem on_add (x : Roster L) (channel c : Int32) (e : Entry L) :
    (x.add channel e).on c = x.on c ++ if channel = c then [e] else [] := by
  by_cases h : channel = c <;> simp [on, add, h]

/-- Striking and clearing keep the order of what is left. -/
theorem on_filter (x : Roster L) (keep : Int32 × Entry L → Bool) (c : Int32) :
    { x with live := x.live.filter keep }.on c = (x.on c).filter fun e => keep (c, e) := by
  rw [on, on, List.filter_map, List.filter_filter, List.filter_filter]
  refine congrArg _ (List.filter_congr fun e _ => ?_)
  by_cases hc : e.1 = c
  · subst hc
    exact Bool.and_comm _ _
  · simp [hc]

theorem mem_on {x : Roster L} {channel : Int32} {e : Entry L} :
    e ∈ x.on channel ↔ (channel, e) ∈ x.live := by
  simp [on]

theorem lists_iff {x : Roster L} {channel : Int32} {id : ListenerId} :
    x.Lists channel id ↔ ∃ e ∈ x.on channel, e.id = id := by
  simp only [Lists, mem_on, Prod.exists]
  exact ⟨fun ⟨_, e, he, hc, hid⟩ => ⟨e, hc ▸ he, hid⟩, fun ⟨e, he, hid⟩ => ⟨_, e, he, rfl, hid⟩⟩

theorem on_ne_nil_iff {x : Roster L} {channel : Int32} :
    x.on channel ≠ [] ↔ ∃ e ∈ x.live, e.1 = channel := by
  simp [on]

/-- Striking what is not there changes nothing. -/
theorem strike_of_not_lists {x : Roster L} {channel : Int32} {id : ListenerId}
    (h : ¬ x.Lists channel id) : x.strike channel id = x := by
  have hkeep : (x.strike channel id).live = x.live :=
    List.filter_eq_self.mpr fun e he => decide_eq_true fun hsame => h ⟨e, he, hsame⟩
  calc x.strike channel id
    _ = ⟨(x.strike channel id).live, x.given⟩ := rfl
    _ = ⟨x.live, x.given⟩ := by rw [hkeep]

end Roster

/-- What a channel with these entries maps to: nothing if there are none. -/
def held {α : Type} (es : List α) : Option (List α) := if es.isEmpty then none else some es

@[simp] theorem getD_held {α : Type} (es : List α) : (held es).getD [] = es := by
  cases es <;> rfl

@[simp] theorem isSome_held {α : Type} (es : List α) : (held es).isSome = !es.isEmpty := by
  cases es <;> rfl

theorem compare_ne {a b : Int32} (h : a ≠ b) : compare a b ≠ .eq := fun heq =>
  h (Std.compare_eq_iff_eq.mp heq)

namespace Registry

variable {L : Type}

/-- The registry holds the entries of the roster, those of each channel under it, and gives
its ids in order. -/
structure Keeps (r : Registry L) (x : Roster L) : Prop where
  channels : ∀ c, r.channels[c]? = held (x.on c)
  given : x.given = (List.range x.given.length).map fun n => UInt64.ofNat (n + 1)
  last : r.lastId = UInt64.ofNat x.given.length
  few : x.given.length < UInt64.size
  ids : ∀ e ∈ x.live, e.2.id ∈ x.given
  distinct : (x.live.map (·.2.id)).Nodup

theorem keeps_empty : ({} : Registry L).Keeps {} where
  channels c := Std.TreeMap.getElem?_emptyc
  given := rfl
  last := rfl
  few := show 0 < UInt64.size by decide
  ids := by simp
  distinct := List.nodup_nil

variable {r : Registry L} {x : Roster L}

theorem Keeps.listeners (h : r.Keeps x) (c : Int32) : r.listeners c = x.on c := by
  rw [Registry.listeners, h.channels, getD_held]

theorem Keeps.hasOwn (h : r.Keeps x) (c : Int32) :
    r.hasOwn c = true ↔ ∃ e ∈ x.live, e.1 = c := by
  rw [Registry.hasOwn, Std.TreeMap.contains_eq_isSome_getElem?, h.channels, isSome_held,
    ← Roster.on_ne_nil_iff]
  simp

/-- The channels come in strictly increasing order, and are those with a live registration. -/
theorem Keeps.channelList (h : r.Keeps x) :
    r.channelList.Pairwise (· < ·) ∧ ∀ c, c ∈ r.channelList ↔ ∃ e ∈ x.live, e.1 = c := by
  constructor
  · exact Std.TreeMap.ordered_keys.imp Std.compare_eq_lt.mp
  · intro c
    rw [← h.hasOwn, Registry.channelList, Std.TreeMap.mem_keys, Registry.hasOwn,
      Std.TreeMap.contains_iff_mem]

/-- The ids given are the numbers from one on, as words. -/
theorem Keeps.mem_given (h : r.Keeps x) {id : ListenerId} :
    id ∈ x.given ↔ ∃ n < x.given.length, UInt64.ofNat (n + 1) = id := by
  conv_lhs => rw [h.given]
  simp [List.mem_map]

theorem Keeps.next (h : r.Keeps x) : r.lastId + 1 = UInt64.ofNat (x.given.length + 1) := by
  rw [h.last, UInt64.ofNat_add]
  rfl

/-- The next id was not given before. -/
theorem Keeps.fresh (h : r.Keeps x) (hroom : x.given.length + 1 < UInt64.size) :
    r.lastId + 1 ∉ x.given := by
  rw [h.mem_given, h.next]
  rintro ⟨n, hn, hid⟩
  have hvalue := congrArg UInt64.toNat hid
  rw [UInt64.toNat_ofNat_of_lt' (by omega), UInt64.toNat_ofNat_of_lt' hroom] at hvalue
  omega

/-- The next id was not given before, as long as numbers fit a word. -/
theorem Keeps.register (h : r.Keeps x) (hroom : x.given.length + 1 < UInt64.size)
    (channel : Int32) (l : L) :
    (r.register channel l).2.Keeps (x.add channel ⟨r.lastId + 1, l⟩) where
  channels c := by
    rw [Roster.on_add, Registry.register]
    by_cases hc : channel = c
    · subst hc
      rw [Std.TreeMap.getElem?_alter_self, if_pos rfl, h.channels, getD_held]
      simp [held]
    · rw [Std.TreeMap.getElem?_alter, if_neg (compare_ne hc), if_neg hc, List.append_nil,
        h.channels]
  given := by
    rw [Roster.add, List.length_append, List.length_singleton, List.range_succ, List.map_append,
      ← h.given, h.next]
    rfl
  last := by
    rw [Roster.add, List.length_append, List.length_singleton]
    exact h.next
  few := by
    rw [Roster.add, List.length_append, List.length_singleton]
    exact hroom
  ids := by
    intro e he
    cases List.mem_append.mp he with
    | inl hold => exact List.mem_append_left _ (h.ids e hold)
    | inr hnew =>
      rw [List.mem_singleton.mp hnew]
      exact List.mem_append_right _ (List.mem_singleton_self _)
  distinct := by
    rw [Roster.add, List.map_append, List.nodup_append]
    refine ⟨h.distinct, List.nodup_singleton _, fun id hid id' hid' => ?_⟩
    obtain ⟨e, he, rfl⟩ := List.mem_map.mp hid
    rw [List.map_singleton, List.mem_singleton] at hid'
    rw [hid']
    exact fun heq => h.fresh hroom (Eq.subst heq (h.ids e he))

/-- A registry from which registrations were removed, with the ids as they were. -/
theorem Keeps.filter (h : r.Keeps x) {r' : Registry L} {keep : Int32 × Entry L → Bool}
    (hlast : r'.lastId = r.lastId)
    (hchannels : ∀ c, r'.channels[c]? = held ((x.on c).filter fun e => keep (c, e))) :
    r'.Keeps { x with live := x.live.filter keep } where
  channels c := by rw [hchannels, Roster.on_filter]
  given := h.given
  last := hlast.trans h.last
  few := h.few
  ids e he := h.ids e (List.mem_filter.mp he).1
  distinct := h.distinct.sublist (List.filter_sublist.map _)

/-- What a channel maps to decides what entries it has. -/
theorem Keeps.on_eq (h : r.Keeps x) (c : Int32) : x.on c = (r.channels[c]?).getD [] := by
  rw [h.channels, getD_held]

/-- A registration is found under its channel and id alone. -/
theorem Keeps.unregister (h : r.Keeps x) (channel : Int32) (id : ListenerId) :
    ((r.unregister channel id).1 = true ↔ x.Lists channel id) ∧
      (r.unregister channel id).2.Keeps (x.strike channel id) := by
  have hon := h.on_eq channel
  rw [Roster.lists_iff, Registry.unregister]
  cases hes : r.channels[channel]? with
  | none =>
    rw [hes, Option.getD_none] at hon
    refine ⟨by simp [hon], h.filter rfl fun c => ?_⟩
    by_cases hc : c = channel
    · simp [hc, hes, hon, held]
    · simp [hc, h.channels]
  | some es =>
    rw [hes, Option.getD_some] at hon
    rw [hon]
    constructor
    · simp [List.length_filter_eq_length_iff]
    · refine h.filter rfl fun c => ?_
      by_cases hc : channel = c
      · subst hc
        have hkept : ((x.on channel).filter fun e =>
            decide (¬ (channel = channel ∧ e.id = id))) = es.filter fun e => e.id ≠ id := by
          simp [hon]
        rw [hkept, held]
        by_cases hrest : (es.filter fun e => e.id ≠ id).isEmpty
        · simp only [if_pos hrest, Std.TreeMap.getElem?_erase_self]
        · simp only [if_neg hrest, Std.TreeMap.getElem?_insert_self]
      · have hsame : ((x.on c).filter fun e => decide (¬ (c = channel ∧ e.id = id))) = x.on c :=
          List.filter_eq_self.mpr (by simp [Ne.symm hc])
        simp only [hsame]
        split
        · rw [Std.TreeMap.getElem?_erase, if_neg (compare_ne hc), h.channels]
        · rw [Std.TreeMap.getElem?_insert, if_neg (compare_ne hc), h.channels]

/-- All entries of the channel go, and their number is told. -/
theorem Keeps.unregisterChannel (h : r.Keeps x) (channel : Int32) :
    (r.unregisterChannel channel).1 = (x.on channel).length ∧
      (r.unregisterChannel channel).2.Keeps (x.clear channel) := by
  constructor
  · rw [Registry.unregisterChannel, h.listeners]
  · refine h.filter rfl fun c => ?_
    rw [Registry.unregisterChannel]
    by_cases hc : channel = c
    · subst hc
      rw [Std.TreeMap.getElem?_erase_self]
      simp [held]
    · rw [Std.TreeMap.getElem?_erase, if_neg (compare_ne hc), h.channels]
      simp [Ne.symm hc]

/-- Striking takes one entry out of its place. -/
theorem Keeps.strike_of_lists (h : r.Keeps x) {channel : Int32} {id : ListenerId}
    (hlists : x.Lists channel id) : ∃ before e after,
      x.live = before ++ (channel, e) :: after ∧ e.id = id ∧
      (x.strike channel id).live = before ++ after := by
  obtain ⟨⟨c, e⟩, he, rfl, rfl⟩ := hlists
  obtain ⟨before, after, hlive⟩ := List.append_of_mem he
  refine ⟨before, e, after, hlive, rfl, ?_⟩
  have hdistinct := h.distinct
  rw [hlive, List.map_append, List.map_cons, List.nodup_append, List.nodup_cons] at hdistinct
  obtain ⟨-, ⟨hafter, -⟩, hbefore⟩ := hdistinct
  have hkeep (l : List (Int32 × Entry L)) (hl : ∀ e' ∈ l, e'.2.id ≠ e.id) :
      l.filter (fun e' => decide (¬ (e'.1 = c ∧ e'.2.id = e.id))) = l :=
    List.filter_eq_self.mpr fun e' he' => decide_eq_true fun hsame => hl e' he' hsame.2
  rw [Roster.strike, hlive, List.filter_append, List.filter_cons_of_neg (by simp), hkeep, hkeep]
  · exact fun e' he' heq => hafter (List.mem_map.mpr ⟨e', he', heq⟩)
  · exact fun e' he' => hbefore _ (List.mem_map_of_mem he') _ List.mem_cons_self

end Registry

end Switchboard
