import Switchboard.Query.Table

/-!
# The entries of the table

What each locked section does to the list of entries, for a table in which no two
entries have the same id (`Distinct`): an entry under an id is the one that is found, and
taking it out leaves all the others.
-/

namespace Switchboard.QueryTable

def owner (e : Identity × Pending) : Ticket × Identity := (e.2.ticket, e.1)

def Distinct (t : QueryTable) : Prop := (t.entries.map (·.1)).Nodup

theorem find?_eq_none {t : QueryTable} {id : Identity} :
    t.find? id = none ↔ ∀ e ∈ t.entries, e.1 ≠ id := by
  simp only [find?, List.lookup_eq_none_iff, bne_iff_ne]
  exact ⟨fun h e he heq => h e he heq.symm, fun h e he heq => h e he heq.symm⟩

theorem mem_of_find? {t : QueryTable} {id : Identity} {p : Pending} (h : t.find? id = some p) :
    (id, p) ∈ t.entries := by
  obtain ⟨before, after, hentries, -⟩ := List.lookup_eq_some_iff.mp h
  rw [hentries]
  exact List.mem_append_right before List.mem_cons_self

/-- With distinct ids an entry is found under its own. -/
theorem find?_of_mem {t : QueryTable} (ht : t.Distinct) {id : Identity} {p : Pending}
    (h : (id, p) ∈ t.entries) : t.find? id = some p := by
  obtain ⟨before, after, hentries⟩ := List.append_of_mem h
  refine List.lookup_eq_some_iff.mpr ⟨before, after, hentries, fun e he => ?_⟩
  rw [Distinct, hentries, List.map_append, List.nodup_append] at ht
  have hne := ht.2.2 e.1 (List.mem_map_of_mem he) id (by simp)
  exact bne_iff_ne.mpr (Ne.symm hne)

theorem isPending_iff {t : QueryTable} {id : Identity} :
    t.isPending id = true ↔ id ∈ t.entries.map (·.1) := by
  rw [isPending, Option.isSome_iff_ne_none, ne_eq, find?_eq_none, List.mem_map]
  simp

def push (t : QueryTable) (id : Identity) (p : Pending) : QueryTable :=
  { t with entries := t.entries ++ [(id, p)] }

theorem insert_closed {t : QueryTable} (h : t.closed = true) (id : Identity) (p : Pending) :
    t.insert id p = .error .closed := by
  simp [insert, h]

theorem insert_duplicate {t : QueryTable} (h : t.closed = false) {id : Identity}
    (hid : t.isPending id = true) (p : Pending) : t.insert id p = .error (.duplicate id) := by
  simp [insert, h, hid]

theorem insert_free {t : QueryTable} (h : t.closed = false) {id : Identity}
    (hid : t.find? id = none) (p : Pending) :
    t.insert id p = .ok (t.push id p) := by
  simp [insert, push, h, isPending, hid]

theorem Distinct.push {t : QueryTable} (ht : t.Distinct) {id : Identity}
    (hid : t.find? id = none) (p : Pending) : (t.push id p).Distinct := by
  rw [Distinct, QueryTable.push, List.map_append, List.nodup_append]
  refine ⟨ht, by simp, fun a ha b hb => ?_⟩
  obtain ⟨e, he, rfl⟩ := List.mem_map.mp ha
  rw [List.map_singleton, List.mem_singleton] at hb
  rw [hb]
  exact find?_eq_none.mp hid e he

theorem ids_attach (t : QueryTable) (id : Identity) (alarm : Ticket) :
    (t.attach id alarm).entries.map (·.1) = t.entries.map (·.1) := by
  simp only [attach, List.map_map]
  refine List.map_congr_left fun e _ => ?_
  simp only [Function.comp_apply]
  split <;> rfl

theorem owners_attach (t : QueryTable) (id : Identity) (alarm : Ticket) :
    (t.attach id alarm).entries.map owner = t.entries.map owner := by
  simp only [attach, List.map_map]
  refine List.map_congr_left fun e _ => ?_
  simp only [Function.comp_apply]
  split <;> rfl

theorem remove_none {t : QueryTable} {id : Identity} (h : t.find? id = none) :
    t.remove id = (none, t) := by
  have hkeep : t.entries.filter (fun e => e.1 ≠ id) = t.entries :=
    List.filter_eq_self.mpr fun e he => decide_eq_true (find?_eq_none.mp h e he)
  simp only [remove, h, hkeep]

/-- Removing takes out the entry that was found and no other. -/
theorem perm_remove {t : QueryTable} (ht : t.Distinct) {id : Identity} {p : Pending}
    (h : t.find? id = some p) : t.entries.Perm ((id, p) :: (t.remove id).2.entries) := by
  obtain ⟨before, after, hentries⟩ := List.append_of_mem (mem_of_find? h)
  have hids := ht
  rw [Distinct, hentries, List.map_append, List.map_cons, List.nodup_append,
    List.nodup_cons] at hids
  obtain ⟨-, ⟨hafter, -⟩, hbefore⟩ := hids
  have hkeep : (t.remove id).2.entries = before ++ after := by
    simp only [remove, hentries, List.filter_append, ne_eq, not_true_eq_false, decide_false,
      Bool.false_eq_true, not_false_eq_true, List.filter_cons_of_neg]
    rw [List.filter_eq_self.mpr, List.filter_eq_self.mpr]
    · intro e he
      exact decide_eq_true fun heq => hafter (List.mem_map.mpr ⟨e, he, heq⟩)
    · intro e he
      exact decide_eq_true (hbefore e.1 (List.mem_map_of_mem he) id List.mem_cons_self)
  rw [hkeep, hentries]
  exact List.perm_middle

theorem Distinct.remove {t : QueryTable} (ht : t.Distinct) (id : Identity) :
    (t.remove id).2.Distinct :=
  List.Nodup.sublist (List.Sublist.map _ List.filter_sublist) ht

end Switchboard.QueryTable
