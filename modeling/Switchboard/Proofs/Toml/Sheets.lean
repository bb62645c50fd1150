import Switchboard.Proofs.Toml.Values

/-!
# Sheets are read back

The text of a sheet is a document whose tables are the sections of the sheet, with their cells
in order (`parse?_render`), when names need no quotes and none stands twice (`Sheet.Plain`). A
sheet has a text exactly if no integer in it is too great (`Sheet.render_eq_none_iff`). The
reader is followed line by line from the end of the text: what it makes of a text decides what
it makes of the text with one more line before it (`Continues`).
-/

namespace Switchboard.Toml

section

variable {α β : Type} {f : α → Option β} {x : α} {xs : List α} {ys : List β}

theorem mapM_cons_eq_some (h : (x :: xs).mapM f = some ys) :
    ∃ y zs, f x = some y ∧ xs.mapM f = some zs ∧ ys = y :: zs := by
  simp only [List.mapM_cons, Option.bind_eq_bind, Option.bind_eq_some_iff] at h
  obtain ⟨y, hy, zs, hzs, h⟩ := h
  cases h
  exact ⟨y, zs, hy, hzs, rfl⟩

theorem exists_of_mem_mapM (h : xs.mapM f = some ys) {y : β} (hy : y ∈ ys) :
    ∃ x ∈ xs, f x = some y := by
  induction xs generalizing ys with
  | nil =>
    cases h
    cases hy
  | cons x xs ih =>
    obtain ⟨z, zs, hz, hzs, rfl⟩ := mapM_cons_eq_some h
    rcases List.mem_cons.1 hy with rfl | hy
    · exact ⟨x, List.mem_cons_self .., hz⟩
    · obtain ⟨x', hx', hf⟩ := ih hzs hy
      exact ⟨x', List.mem_cons_of_mem _ hx', hf⟩

theorem mapM_eq_none_iff : xs.mapM f = none ↔ ∃ x ∈ xs, f x = none := by
  induction xs with
  | nil => simp
  | cons x xs ih =>
    cases hx : f x <;> cases hxs : xs.mapM f <;> simp_all

end

structure Bare (key : String) : Prop where
  ne_nil : key.toList ≠ []
  bare : key.toList.all isBareKeyChar = true

instance (key : String) : Decidable (Bare key) :=
  decidable_of_iff (key.toList ≠ [] ∧ key.toList.all isBareKeyChar = true)
    ⟨fun h => ⟨h.1, h.2⟩, fun h => ⟨h.1, h.2⟩⟩

theorem Bare.of_mem {key : String} (h : Bare key) : ∀ c ∈ key.toList, isBareKeyChar c = true :=
  List.all_eq_true.1 h.bare

theorem Bare.no_return {key : String} (h : Bare key) : '\r' ∉ key.toList :=
  fun hc => ne_of_kind (h.of_mem _ hc) (d := '\r') (by decide) rfl

theorem Bare.exists_cons {key : String} (h : Bare key) :
    ∃ c cs, key.toList = c :: cs ∧ isBareKeyChar c = true := by
  obtain ⟨c, cs, hkey⟩ := List.exists_cons_of_ne_nil h.ne_nil
  exact ⟨c, cs, hkey, h.of_mem c (hkey ▸ List.mem_cons_self ..)⟩

theorem skipBlanks_cons {c : Char} (h : isBlank c = false) (r : List Char) :
    skipBlanks (c :: r) = c :: r := by
  simp [skipBlanks, h]

/-- A bare key is read as far as it goes. -/
theorem readSimpleKey_bare {key : String} (h : Bare key) {d : Char} (hd : isBareKeyChar d = false)
    (r : List Char) : readSimpleKey (key.toList ++ d :: r) = some (key, d :: r) := by
  obtain ⟨c, cs, hkey, hc⟩ := h.exists_cons
  obtain ⟨hname, hrest⟩ := span_of_kind h.of_mem hd r
  rw [readSimpleKey, hname, hrest]
  · simp [h.ne_nil]
  · rw [hkey]
    exact fun t e => ne_of_kind hc (by decide) (List.cons.inj e).1
  · rw [hkey]
    exact fun t e => ne_of_kind hc (by decide) (List.cons.inj e).1

theorem readKey_bare {key : String} (h : Bare key) {d : Char} (hd : isBareKeyChar d = false)
    (r : List Char) (hdot : ∀ t, skipBlanks (d :: r) ≠ '.' :: t) :
    readKey maxDepth (key.toList ++ d :: r) = some ([], key, skipBlanks (d :: r)) := by
  obtain ⟨c, cs, hkey, hc⟩ := h.exists_cons
  have hblank : isBlank c = false := by
    simp [isBlank, ne_of_kind hc (d := ' ') (by decide), ne_of_kind hc (d := '\t') (by decide)]
  have hskip : skipBlanks (key.toList ++ d :: r) = key.toList ++ d :: r := by
    rw [hkey]
    exact skipBlanks_cons hblank _
  rw [maxDepth, readKey, hskip, readSimpleKey_bare h hd]
  simp only [Option.bind_eq_bind, Option.bind_some]
  rfl

def assignment (e : String × Cell) : Assignment := ⟨[], e.1, e.2.node⟩

/-- One line gives its key and its value. -/
theorem readAssignment_line {key : String} (hkey : Bare key) {s : List Char} {n : Node}
    (hs : ReadsBack s n) (r : List Char) :
    readAssignment (readValue maxDepth) (key.toList ++ ' ' :: '=' :: ' ' :: (s ++ '\n' :: r)) =
      some (⟨[], key, n⟩, '\n' :: r) := by
  have hvalue : skipBlanks (' ' :: (s ++ '\n' :: r)) = s ++ '\n' :: r := by
    cases s with
    | nil => rfl
    | cons c cs => exact skipBlanks_cons (hs.head c rfl) (cs ++ '\n' :: r)
  have hequals (t : List Char) : skipBlanks (' ' :: '=' :: t) = '=' :: t := rfl
  have hread := readKey_bare hkey (d := ' ') (by decide) ('=' :: ' ' :: (s ++ '\n' :: r))
    (by simp [hequals])
  rw [hequals] at hread
  simp only [readAssignment, hread, Option.bind_eq_bind, Option.bind_some, hvalue, hs.read]
  rfl

theorem readHeader_line {name : String} (hname : Bare name) (r : List Char) :
    readHeader ('[' :: (name.toList ++ ']' :: r)) = some (.table [] name, r) := by
  have hbracket : skipBlanks (']' :: r) = ']' :: r := skipBlanks_cons (by decide) r
  have hread := readKey_bare hname (d := ']') (by decide) r (by simp [hbracket])
  rw [hbracket] at hread
  obtain ⟨c, cs, hcons, hc⟩ := hname.exists_cons
  rw [readHeader]
  · simp only [hread, Option.bind_eq_bind, Option.bind_some]
    rfl
  · rw [hcons]
    exact fun t e => ne_of_kind hc (by decide) (List.cons.inj e).1

theorem skipLines_of_bare {c : Char} (h : isBareKeyChar c = true ∨ c = '[') (r : List Char) :
    skipLines false (c :: r) = some (c :: r) := by
  have hne {d : Char} (hd : isBareKeyChar d = false ∧ d ≠ '[') : c ≠ d := by
    rintro rfl
    simp [hd] at h
  simp [skipLines, isBlank, hne (d := '\n') (by decide), hne (d := '#') (by decide),
    hne (d := ' ') (by decide), hne (d := '\t') (by decide)]

/-- With fuel enough for the text, what follows the lines read so far is read as the blocks. -/
def Continues (header : Header) (lines : List Assignment) (s : List Char) (bs : List Block) :
    Prop :=
  ∀ fuel, s.length < fuel → readBlocks header lines fuel s = some bs

section

variable {head : Header} {lines : List Assignment} {s : List Char} {bs : List Block}

theorem Continues.nil : Continues head lines [] [⟨head, lines.reverse⟩] := by
  intro fuel hfuel
  cases fuel with
  | zero => cases hfuel
  | succ fuel => rfl

/-- An empty line says nothing. -/
theorem Continues.gap (h : Continues head lines s bs) :
    Continues head lines ('\n' :: s) bs := by
  intro fuel hfuel
  rw [List.length_cons] at hfuel
  cases fuel with
  | zero => cases hfuel
  | succ fuel =>
    rw [← h (fuel + 1) (by omega), readBlocks, readBlocks]
    rfl

/-- A line more is an assignment more. -/
theorem Continues.line {key : String} (hkey : Bare key) {v : List Char} {n : Node}
    (hv : ReadsBack v n) (h : Continues head (⟨[], key, n⟩ :: lines) s bs) :
    Continues head lines (key.toList ++ ' ' :: '=' :: ' ' :: (v ++ '\n' :: s)) bs := by
  intro fuel hfuel
  obtain ⟨c, cs, hcons, hc⟩ := hkey.exists_cons
  simp only [List.length_append, List.length_cons] at hfuel
  cases fuel with
  | zero => omega
  | succ fuel =>
    have hskip : skipLines false (key.toList ++ ' ' :: '=' :: ' ' :: (v ++ '\n' :: s)) =
        some (key.toList ++ ' ' :: '=' :: ' ' :: (v ++ '\n' :: s)) := by
      rw [hcons]
      exact skipLines_of_bare (.inl hc) _
    rw [readBlocks, hskip, Option.bind_eq_bind, Option.bind_some]
    -- A text that begins with a bare key is not empty and no header.
    split
    · rename_i heq
      simp at heq
    · rename_i heq
      rw [hcons] at heq
      exact absurd (List.cons.inj heq).1 (ne_of_kind hc (by decide))
    · rw [readAssignment_line hkey hv]
      exact h fuel (by omega)

/-- A header ends the block before it. -/
theorem Continues.table {name : String} (hname : Bare name)
    (h : Continues (.table [] name) [] s bs) :
    Continues head lines ('[' :: (name.toList ++ ']' :: '\n' :: s))
      (⟨head, lines.reverse⟩ :: bs) := by
  intro fuel hfuel
  simp only [List.length_append, List.length_cons] at hfuel
  cases fuel with
  | zero => omega
  | succ fuel =>
    have hend : lineEnd? ('\n' :: s) = some s := rfl
    simp only [readBlocks, skipLines_of_bare (.inr rfl), Option.bind_eq_bind, Option.bind_some,
      readHeader_line hname, hend, h fuel (by omega)]
    rfl

theorem renderLine_eq_some {key text : String} {c : Cell} (h : renderLine key c = some text) :
    ∃ v : String, c.render = some v ∧
      text.toList = key.toList ++ ' ' :: '=' :: ' ' :: (v.toList ++ ['\n']) := by
  simp only [renderLine, Option.bind_eq_bind, Option.bind_eq_some_iff] at h
  obtain ⟨v, hv, htext⟩ := h
  cases htext
  exact ⟨v, hv, by simp⟩

/-- The lines of a section are its assignments, in order. -/
theorem Continues.cells {cells : List (String × Cell)} (hkeys : ∀ e ∈ cells, Bare e.1)
    {texts : List String} (htexts : cells.mapM (fun (key, c) => renderLine key c) = some texts)
    (h : Continues head ((cells.map assignment).reverse ++ lines) s bs) :
    Continues head lines ((String.join texts).toList ++ s) bs := by
  induction cells generalizing texts lines with
  | nil =>
    cases htexts
    exact h
  | cons e cells ih =>
    rw [List.forall_mem_cons] at hkeys
    obtain ⟨line, rest, hline, hrest, rfl⟩ := mapM_cons_eq_some htexts
    obtain ⟨v, hv, htext⟩ := renderLine_eq_some hline
    have hcontinues := Continues.line hkeys.1 (Cell.readsBack_render hv)
      (ih hkeys.2 hrest (by simpa [assignment] using h))
    simpa [htext] using hcontinues

end

structure SheetSection.Plain (s : SheetSection) : Prop where
  name : Bare s.name
  keys : ∀ e ∈ s.cells, Bare e.1
  nodup : (s.cells.map Prod.fst).Nodup

theorem SheetSection.Plain.of_names {s : SheetSection} (name : String) (keys : List String)
    (hname : s.name = name) (hkeys : s.cells.map Prod.fst = keys)
    (h : Bare name ∧ (∀ key ∈ keys, Bare key) ∧ keys.Nodup) : s.Plain where
  name := hname ▸ h.1
  keys := List.forall_mem_map.1 (hkeys ▸ h.2.1)
  nodup := hkeys ▸ h.2.2

structure Sheet.Plain (s : Sheet) : Prop where
  sections : ∀ t ∈ s, t.Plain
  nodup : (s.map SheetSection.name).Nodup

def SheetSection.block (s : SheetSection) : Block := ⟨.table [] s.name, s.cells.map assignment⟩

def SheetSection.entry (s : SheetSection) : String × Node :=
  (s.name, .table .header (s.cells.map fun e => (e.1, e.2.node)))

def Sheet.entries (s : Sheet) : Entries := s.map SheetSection.entry

theorem SheetSection.render_eq_some {t : SheetSection} {text : String}
    (h : t.render = some text) :
    ∃ texts, t.cells.mapM (fun (key, c) => renderLine key c) = some texts ∧
      text.toList = '[' :: (t.name.toList ++ ']' :: '\n' :: (String.join texts).toList) := by
  simp only [render, Option.bind_eq_bind, Option.bind_eq_some_iff] at h
  obtain ⟨texts, htexts, h⟩ := h
  cases h
  exact ⟨texts, htexts, by simp⟩

theorem Continues.sheetSection {t : SheetSection} (ht : t.Plain) {text : String}
    (htext : t.render = some text) {head : Header} {lines : List Assignment} {s : List Char}
    {bs : List Block}
    (h : Continues (.table [] t.name) (t.cells.map assignment).reverse s bs) :
    Continues head lines (text.toList ++ s) (⟨head, lines.reverse⟩ :: bs) := by
  obtain ⟨texts, htexts, htext⟩ := SheetSection.render_eq_some htext
  have hcells : Continues (.table [] t.name) [] ((String.join texts).toList ++ s) bs :=
    .cells ht.keys htexts (by simpa using h)
  simpa [htext] using (hcells.table ht.name : Continues head lines _ _)

/-- The sections of a sheet follow the block that comes first. -/
theorem Continues.sheet {sheet : Sheet} (hsheet : ∀ t ∈ sheet, t.Plain) {texts : List String}
    (htexts : sheet.mapM SheetSection.render = some texts) (head : Header)
    (lines : List Assignment) :
    Continues head lines ("\n".intercalate texts).toList
      (⟨head, lines.reverse⟩ :: sheet.map SheetSection.block) := by
  induction sheet generalizing texts head lines with
  | nil =>
    cases htexts
    exact .nil
  | cons t sheet ih =>
    rw [List.forall_mem_cons] at hsheet
    obtain ⟨text, rest, htext, hrest, rfl⟩ := mapM_cons_eq_some htexts
    have hrest : Continues (.table [] t.name) (t.cells.map assignment).reverse
        ("\n".intercalate rest).toList (t.block :: sheet.map SheetSection.block) := by
      simpa [SheetSection.block] using ih hsheet.2 hrest _ (t.cells.map assignment).reverse
    cases rest with
    | nil => simpa using Continues.sheetSection hsheet.1 htext hrest
    | cons next rest =>
      simpa [String.toList_intercalate] using Continues.sheetSection hsheet.1 htext hrest.gap

theorem unifyBreaks_of_not_mem {s : List Char} (h : '\r' ∉ s) : unifyBreaks s = s := by
  induction s with
  | nil => rfl
  | cons c cs ih =>
    rw [List.mem_cons, not_or] at h
    rw [unifyBreaks, ih h.2]
    exact fun _ hc _ => h.1 hc.symm

theorem not_mem_intercalate {α : Type} {a : α} {separator : List α} (hseparator : a ∉ separator)
    {ls : List (List α)} (h : ∀ l ∈ ls, a ∉ l) : a ∉ separator.intercalate ls := by
  induction ls with
  | nil => simp
  | cons l ls ih =>
    rw [List.forall_mem_cons] at h
    cases ls with
    | nil => simpa using h.1
    | cons l' ls =>
      rw [List.intercalate_cons_cons, List.mem_append, List.mem_append]
      exact fun hmem => hmem.elim (fun hmem => hmem.elim h.1 hseparator) (ih h.2)

theorem SheetSection.Plain.return_not_mem {t : SheetSection} (ht : t.Plain) {text : String}
    (htext : t.render = some text) : '\r' ∉ text.toList := by
  obtain ⟨texts, htexts, htext⟩ := SheetSection.render_eq_some htext
  have hlines : ∀ line ∈ texts, '\r' ∉ line.toList := by
    intro line hline
    obtain ⟨e, he, hrender⟩ := exists_of_mem_mapM htexts hline
    obtain ⟨v, hv, hspelled⟩ := renderLine_eq_some hrender
    simp [hspelled, (ht.keys e he).no_return, (Cell.readsBack_render hv).no_return]
  simpa [htext, ht.name.no_return] using hlines

/-- Nor has a whole sheet one. -/
theorem Sheet.Plain.return_not_mem {s : Sheet} (hs : s.Plain) {texts : List String}
    (htexts : s.mapM SheetSection.render = some texts) :
    '\r' ∉ ("\n".intercalate texts).toList := by
  rw [String.toList_intercalate]
  refine not_mem_intercalate (by decide) ?_
  rw [List.forall_mem_map]
  intro text htext
  obtain ⟨t, ht, hrender⟩ := exists_of_mem_mapM htexts htext
  exact (hs.sections t ht).return_not_mem hrender

/-- Entries with names of their own are added one after the other. -/
theorem foldlM_insert {α : Type} {step : Entries → α → Option Entries} {entry : α → String × Node}
    {xs : List α}
    (hstep : ∀ x ∈ xs, ∀ es, es.lookup (entry x).1 = none → step es x = some (es ++ [entry x]))
    {es : Entries} (h : ((es ++ xs.map entry).map Prod.fst).Nodup) :
    xs.foldlM step es = some (es ++ xs.map entry) := by
  induction xs generalizing es with
  | nil => simp
  | cons x xs ih =>
    rw [List.forall_mem_cons] at hstep
    have hnew : es.lookup (entry x).1 = none := by
      rw [List.map_append, List.nodup_append] at h
      rw [List.lookup_eq_none_iff]
      intro e he
      have hne := h.2.2 e.1 (List.mem_map_of_mem he) (entry x).1 (by simp)
      simp [hne.symm]
    rw [List.foldlM_cons, hstep.1 es hnew, Option.bind_eq_bind, Option.bind_some,
      ih hstep.2 (by simpa using h)]
    simp

theorem insert?_of_lookup {es : Entries} {key : String} (h : es.lookup key = none) (n : Node) :
    es.insert? key n = some (es ++ [(key, n)]) := by
  rw [Entries.insert?, h]
  rfl

theorem assignAll?_cells {cells : List (String × Cell)} (h : (cells.map Prod.fst).Nodup) :
    assignAll? [] (cells.map assignment) = some (cells.map fun e => (e.1, e.2.node)) := by
  rw [assignAll?, List.foldlM_map]
  exact foldlM_insert (fun e _ es hnew => insert?_of_lookup hnew e.2.node)
    (by simpa [Function.comp_def] using h)

theorem SheetSection.Plain.run?_block {t : SheetSection} (ht : t.Plain) {es : Entries}
    (h : es.lookup t.name = none) : t.block.run? es = some (es ++ [t.entry]) := by
  have hroot (change : Origin → Entries → Option Entries) :
      es.update false change [] .header = change .header es := rfl
  simp only [SheetSection.block, Block.run?, hroot, h, assignAll?_cells ht.nodup,
    Option.bind_eq_bind, Option.bind_some]
  exact insert?_of_lookup h _

/-- The sections of a sheet become its entries, as no name stands twice. -/
theorem Sheet.Plain.document?_blocks {s : Sheet} (hs : s.Plain) :
    document? (⟨.root, []⟩ :: s.map SheetSection.block) = some s.entries := by
  have hroot : Block.run? [] ⟨.root, []⟩ = some [] := rfl
  rw [document?, List.foldlM_cons, hroot, Option.bind_eq_bind, Option.bind_some, List.foldlM_map]
  exact foldlM_insert (fun t ht es hnew => (hs.sections t ht).run?_block hnew)
    (by simpa [SheetSection.entry, Function.comp_def] using hs.nodup)

/-- A byte order mark begins no line. -/
theorem readBlocks_mark (header : Header) (lines : List Assignment) (fuel : Nat) (s : List Char) :
    readBlocks header lines fuel ('\ufeff' :: s) = none := by
  cases fuel <;> rfl

/-- **The text of a sheet is read as the sheet.** -/
theorem parse?_render {s : Sheet} (hs : s.Plain) {text : String} (h : s.render = some text) :
    parse? text = some s.entries := by
  simp only [Sheet.render, Option.bind_eq_bind, Option.bind_eq_some_iff] at h
  obtain ⟨texts, htexts, h⟩ := h
  cases h
  have hread := Continues.sheet hs.sections htexts .root [] _ (Nat.lt_succ_self _)
  rw [parse?, unifyBreaks_of_not_mem (hs.return_not_mem htexts)]
  split
  · rename_i heq
    rw [heq, readBlocks_mark] at hread
    cases hread
  · rw [hread]
    exact hs.document?_blocks

def Cell.integer? : Cell → Option Nat
  | .integer n => some n
  | _ => none

def Sheet.integers (s : Sheet) : List Nat :=
  s.flatMap fun t => t.cells.filterMap fun e => e.2.integer?

theorem Cell.render_eq_none_iff {c : Cell} :
    c.render = none ↔ ∃ n, c.integer? = some n ∧ greatest < n := by
  cases c <;> simp [Cell.render, Cell.integer?]

/-- **A sheet can be written** exactly if all its integers fit a document. -/
theorem Sheet.render_eq_none_iff {s : Sheet} :
    s.render = none ↔ ∃ n ∈ s.integers, greatest < n := by
  have hmap {α β : Type} (o : Option α) (f : α → β) : (do return f (← o)) = none ↔ o = none := by
    cases o <;> simp
  have hsection (t : SheetSection) : t.render = none ↔ ∃ e ∈ t.cells, e.2.render = none := by
    rw [SheetSection.render, hmap, mapM_eq_none_iff]
    simp only [renderLine, hmap]
  rw [Sheet.render, hmap, mapM_eq_none_iff]
  simp only [hsection, Cell.render_eq_none_iff, integers, List.mem_flatMap, List.mem_filterMap]
  grind

end Switchboard.Toml
