import Switchboard.Proofs.Buffer.Uses

/-!
# Cursors and marks stay inside

Only rolling back takes octets away from a draft, and it may be asked for at any time. What
keeps the cursor inside then is that every mark lies inside the octets it cuts back to, and
that no mark cuts back to more than the one above it (`Draft.Sound`). Every use keeps that.
-/

namespace Switchboard

namespace Draft

/-- The marks are those of the open transactions, the latest one first. -/
structure Sound (d : Draft) : Prop where
  cursor_le : d.cursor ≤ d.size
  mark_le : ∀ m ∈ d.marks, m.1 ≤ m.2
  ordered : d.marks.Pairwise fun upper lower => lower.2 ≤ upper.2
  top_le : ∀ m ∈ d.marks.head?, m.2 ≤ d.size

variable {d e : Draft} {u : Use}

theorem sound_ofBytes (s : List UInt8) : (ofBytes s).Sound where
  cursor_le := Nat.zero_le _
  mark_le := by simp [ofBytes]
  ordered := .nil
  top_le := by simp [ofBytes]

namespace Sound

theorem seek {n : Nat} (h : d.Sound) (hn : n ≤ d.size) : (d.seek n).Sound where
  cursor_le := hn
  mark_le := h.mark_le
  ordered := h.ordered
  top_le := h.top_le

theorem write (h : d.Sound) (s : List UInt8) : (d.write s).Sound where
  cursor_le := by
    rw [size_write]
    exact Nat.le_trans h.cursor_le (Nat.le_add_right _ _)
  mark_le := h.mark_le
  ordered := h.ordered
  top_le m hm := by
    rw [size_write]
    exact Nat.le_trans (h.top_le m hm) (Nat.le_add_right _ _)

/-- Of all marks, the latest cuts back to the most. -/
theorem mark_le_size (h : d.Sound) {m : Nat × Nat} (hm : m ∈ d.marks) : m.2 ≤ d.size := by
  have hordered := h.ordered
  have htop := h.top_le
  cases hmarks : d.marks with
  | nil => simp [hmarks] at hm
  | cons top marks =>
    rw [hmarks] at hm hordered htop
    have hle : top.2 ≤ d.size := htop top rfl
    rcases List.mem_cons.mp hm with rfl | hlower
    · exact hle
    · exact Nat.le_trans ((List.pairwise_cons.mp hordered).1 m hlower) hle

theorem mark (h : d.Sound) : (Source.mark d).Sound where
  cursor_le := h.cursor_le
  mark_le := by
    rintro m (_ | ⟨_, hm⟩)
    · exact h.cursor_le
    · exact h.mark_le m hm
  ordered := .cons (fun _ hm => h.mark_le_size hm) h.ordered
  top_le := by
    rintro m ⟨⟩
    exact Nat.le_refl d.size

/-- The latest mark is inside the draft, and the earlier ones are inside that. -/
theorem rollback (h : d.Sound) : (Source.rollback d).Sound := by
  have hmarkLe := h.mark_le
  have hordered := h.ordered
  cases hmarks : d.marks with
  | nil =>
    have hsame : Source.rollback d = d := by simp only [Source.rollback, hmarks]
    rwa [hsame]
  | cons top marks =>
    have hback : Source.rollback d =
        { bytes := d.bytes.take top.2, cursor := top.1, marks } := by
      simp only [Source.rollback, hmarks]
    have htop : top.2 ≤ d.bytes.length := h.mark_le_size (hmarks ▸ List.mem_cons_self)
    have hsize : (d.bytes.take top.2).length = top.2 := List.length_take_of_le htop
    rw [hmarks] at hmarkLe hordered
    obtain ⟨hlower, hrest⟩ := List.pairwise_cons.mp hordered
    -- As many octets are left as the mark says, so its cursor and the marks below it are inside.
    rw [hback]
    constructor
    · exact Nat.le_trans (hmarkLe top List.mem_cons_self) (Nat.le_of_eq hsize.symm)
    · exact fun m hm => hmarkLe m (List.mem_cons_of_mem top hm)
    · exact hrest
    · exact fun m hm => Nat.le_trans (hlower m (List.mem_of_mem_head? hm)) (Nat.le_of_eq hsize.symm)

theorem move (h : d.Sound) (hmove : d.Move u e) : e.Sound := by
  cases hmove with
  | seek _ hn => exact h.seek (hn h.cursor_le)
  | write s _ => exact h.write s
  | mark => exact h.mark
  | rollback => exact h.rollback

/-- No sequence of uses leads out of the sound drafts. -/
theorem useEach (h : d.Sound) (us : List Use) : (Draft.useEach us d).Sound := by
  induction us generalizing d with
  | nil => exact h
  | cons u us ih => exact ih (h.move (move_on u d))

end Sound

/-- What is there stays there, whatever is done but rolling back. -/
theorem Move.grown (h : d.Move u e) (hu : u ≠ .source .rollback) : d.bytes <+: e.bytes := by
  cases h with
  | seek => exact List.prefix_refl _
  | write s _ => exact List.prefix_append _ s
  | mark => exact List.prefix_refl _
  | rollback => exact absurd rfl hu

/-- Freezing keeps the octets and the cursor. -/
theorem Sound.freeze_eq (h : d.Sound) : d.freeze = { bytes := d.bytes, cursor := d.cursor } :=
  freeze_seek d d.cursor h.cursor_le

end Draft

namespace Buffer

/-- A frozen buffer is sound if the draft of its octets is. -/
theorem sound_useEach {b : Buffer} (h : b.thaw.Sound) (us : List Source.Use) :
    (Source.useEach us b).2.thaw.Sound := by
  have hthawed := h.useEach (us.map .source)
  rwa [Draft.useEach_source, hom_thaw.useEach] at hthawed

/-- No use writes to a frozen buffer. -/
theorem bytes_on (u : Source.Use) (b : Buffer) : (u.on b).2.bytes = b.bytes := by
  cases u with
  | read r => rfl
  | advance n =>
    simp only [Source.Use.on, Source.advance]
    cases Position.add? b.cursor n <;> rfl
  | mark => rfl
  | rollback =>
    simp only [Source.Use.on, Source.rollback]
    split <;> rfl
  | lend target => simp only [Source.Use.on, Draft.embed_buffer]

theorem bytes_useEach (us : List Source.Use) (b : Buffer) :
    (Source.useEach us b).2.bytes = b.bytes := by
  induction us generalizing b with
  | nil => rfl
  | cons u us ih => exact (ih (u.on b).2).trans (bytes_on u b)

end Buffer

/-- Whatever is done to a new draft, in any order: its cursor and its marks stay inside;
rolling back leaves the cursor inside too and cuts below no transaction that is still open;
nothing else changes an octet that was written; and freezing it keeps octets and cursor, and
the cursor then stays inside whatever is done to the frozen buffer. -/
theorem drafts_stay_sound (s : List UInt8) (us : List Draft.Use) :
    let d := Draft.useEach us (.ofBytes s)
    d.Sound ∧
    ((Source.rollback d).cursor ≤ (Source.rollback d).size ∧
      ∀ m ∈ (Source.rollback d).marks, m.2 ≤ (Source.rollback d).size) ∧
    (∀ u : Draft.Use, u ≠ .source .rollback → d.bytes <+: (u.on d).bytes) ∧
    (d.size < wordSize → d.freeze = { bytes := d.bytes, cursor := d.cursor } ∧
      ∀ vs : List Source.Use, (Source.useEach vs d.freeze).2.bytes = d.bytes ∧
        (Source.useEach vs d.freeze).2.cursor ≤ d.size) := by
  intro d
  have hsound : d.Sound := (Draft.sound_ofBytes s).useEach us
  have hback := hsound.rollback
  refine ⟨hsound, ⟨hback.cursor_le, fun m hm => hback.mark_le_size hm⟩,
    fun u hu => (Draft.move_on u d).grown hu, fun _ => ?_⟩
  have hfreeze := hsound.freeze_eq
  refine ⟨hfreeze, fun vs => ?_⟩
  have hfrozen : d.freeze.thaw.Sound := by
    rw [hfreeze]
    exact ⟨hsound.cursor_le, by simp [Buffer.thaw], .nil, by simp [Buffer.thaw]⟩
  have hbytes : (Source.useEach vs d.freeze).2.bytes = d.bytes := by
    rw [Buffer.bytes_useEach, hfreeze]
  refine ⟨hbytes, ?_⟩
  have hle := (Buffer.sound_useEach hfrozen vs).cursor_le
  rw [Draft.size, Buffer.thaw, hbytes] at hle
  exact hle

/-- A draft that was rolled back twice as often as it had marks, could not write an object,
and was moved on beyond its end before it was frozen. -/
theorem drafts_stay_sound_unbalanced :
    let unmapped : Mapper Unit := { toBytes _ := .error .object, ofBytes _ := .error .object }
    let us : List Draft.Use :=
      [.source .rollback, .source .mark, .write [4, 5], .source .mark, .source (.read Reader.u32),
        .writeObject unmapped (), .source .rollback, .source .rollback, .source .rollback,
        .source .mark, .write [6], .source (.advance 9)]
    let d := Draft.useEach us (.ofBytes [1, 2, 3])
    d = { bytes := [1, 2, 3, 6], cursor := 4, marks := [(0, 3)] } ∧
      d.Sound ∧ d.size < wordSize ∧ d.freeze = { bytes := [1, 2, 3, 6], cursor := 4 } := by
  intro unmapped us d
  have hd : d = { bytes := [1, 2, 3, 6], cursor := 4, marks := [(0, 3)] } := by decide +kernel
  have hsize : d.size < wordSize := by
    rw [hd]
    decide
  obtain ⟨hsound, -, -, hfreeze⟩ := drafts_stay_sound [1, 2, 3] us
  refine ⟨hd, hsound, hsize, ?_⟩
  rw [(hfreeze hsize).1]
  exact congrArg (fun d : Draft => ({ bytes := d.bytes, cursor := d.cursor } : Buffer)) hd

end Switchboard
