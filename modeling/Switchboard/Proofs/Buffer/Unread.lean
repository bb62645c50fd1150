import Switchboard.Proofs.Buffer.Bounds

/-!
# Reading sees the unread octets alone

What was read before, where the cursor stands, which transactions are open and whether a
buffer is frozen: none of it shows in what is read next. A buffer is used as a new one of its
unread octets would be, and stands as that one would, behind what it had read already
(`Draft.following`). So two buffers with the same unread octets are used alike
(`reads_see_unread_octets`).
-/

namespace Switchboard

/-- The cursor is inside, where every use leaves it (`Draft.Sound`), and there are no more
octets than memory can hold in one place. -/
structure AnyBuffer.Inside (b : AnyBuffer) : Prop where
  cursor_le : b.cursor ≤ b.size
  size_lt : b.size < 2 ^ 63

namespace Source

/-- No transaction is ended that was not begun, and the cursor is not moved on by so much that
its position might be no machine word. -/
structure Contained (us : List Use) : Prop where
  opened : (Source.opened us 0).isSome
  advance_lt : ∀ n, .advance n ∈ us → n < 2 ^ 62

/-- The uses answer the same on both buffers, move their cursors by the same number of octets
and leave the same octets unread. -/
def Alike (us : List Use) (b c : AnyBuffer) : Prop :=
  (useEach us b).1 = (useEach us c).1 ∧
  (∃ n, (useEach us b).2.cursor = b.cursor + n ∧ (useEach us c).2.cursor = c.cursor + n) ∧
  unread (useEach us b).2 = unread (useEach us c).2

end Source

namespace Draft

/-- The draft when a new buffer of its unread octets has come to be `w`. -/
def following (d : Draft) (w : Buffer) : Draft :=
  { d with
    cursor := d.cursor + w.cursor
    marks := w.marks.map (fun c => (d.cursor + c, d.size)) ++ d.marks }

variable {d : Draft} {w : Buffer}

theorem following_new (d : Draft) : d.following (.ofBytes d.unread) = d := rfl

theorem unread_following (hw : w.bytes = d.unread) : (d.following w).unread = w.unread := by
  simp only [following, unread, Buffer.unread, hw, List.drop_drop]

/-- Reading the copy moves the draft that follows it. -/
theorem read_following (hw : w.bytes = d.unread) {α : Type} (r : Reader α) :
    Source.read r (d.following w) =
      ((Source.read r w).1, d.following (Source.read r w).2) := by
  have hunread : Source.unread (d.following w) = Source.unread w := unread_following hw
  simp only [Source.read, hunread]
  simp only [Source.consume, following, Nat.add_assoc]

theorem rollback_following {c : Nat} {marks : List Nat} (hmarks : w.marks = c :: marks) :
    Source.rollback (d.following w) = d.following (Source.rollback w) := by
  simp only [Source.rollback, following, hmarks, List.map_cons, List.cons_append, size,
    List.take_length]

/-- Moving on stops at the same place, for the positions in the draft are machine words. -/
theorem advance_following (hd : (AnyBuffer.draft d).Inside) (hw : w.bytes = d.unread)
    (hle : w.cursor ≤ w.size) {n : Nat} (hn : n < 2 ^ 62) :
    Source.advance n (d.following w) = (Source.advance n w).map d.following := by
  have hcursor : d.cursor ≤ d.bytes.length := hd.cursor_le
  have hroom : d.bytes.length < 2 ^ 63 := hd.size_lt
  have hsize : w.bytes.length = d.bytes.length - d.cursor := by
    rw [hw, unread, List.length_drop]
  have hword : wordSize = 2 ^ 64 := rfl
  rw [Buffer.size] at hle
  -- Neither sum reaches 2 ^ 64, so both are cut off at the end of the octets alone.
  have hfar : Position.add? (d.cursor + w.cursor) n = some (d.cursor + w.cursor + n) :=
    if_pos (by omega)
  have hnear : Position.add? w.cursor n = some (w.cursor + n) := if_pos (by omega)
  have hstop : min (d.cursor + w.cursor + n) d.bytes.length =
      d.cursor + min (w.cursor + n) w.bytes.length := by omega
  simp only [Source.advance, following, hfar, hnear, hstop, Option.map_some]

variable {u : Source.Use}

/-- A use of the draft answers as one of the copy does, and the draft still follows. -/
theorem on_following (hd : (AnyBuffer.draft d).Inside) (hw : w.bytes = d.unread)
    (hle : w.cursor ≤ w.size) (hopened : (u.opened w.marks.length).isSome)
    (hadvance : ∀ n, u = .advance n → n < 2 ^ 62) :
    u.on (d.following w) = ((u.on w).1, d.following (u.on w).2) := by
  cases u with
  | read r => simp only [Source.Use.on, read_following hw]
  | advance n =>
    simp only [Source.Use.on, advance_following hd hw hle (hadvance n rfl)]
    cases Source.advance n w <;> rfl
  | mark => rfl
  | rollback =>
    cases hmarks : w.marks with
    | nil => simp [hmarks, Source.Use.opened] at hopened
    | cons c marks => simp only [Source.Use.on, rollback_following hmarks]
  | lend target =>
    simp only [Source.Use.on, embed_draft, embed_buffer, unread_following hw]

end Draft

/-- The marks of a frozen buffer count the transactions that are open. -/
theorem Buffer.length_marks_on {u : Source.Use} {w : Buffer} {k : Nat}
    (h : u.opened w.marks.length = some k) : (u.on w).2.marks.length = k := by
  cases u with
  | read r => exact Option.some.inj h
  | advance n =>
    rw [← Option.some.inj h]
    simp only [Source.Use.on, Source.advance]
    cases Position.add? w.cursor n <;> rfl
  | mark => exact Option.some.inj h
  | rollback =>
    cases hmarks : w.marks with
    | nil => simp [hmarks, Source.Use.opened] at h
    | cons c marks =>
      simp only [hmarks, List.length_cons, Source.Use.opened, Option.some.injEq] at h
      simp only [Source.Use.on, Source.rollback, hmarks, h]
  | lend target =>
    rw [Source.Use.on, Draft.embed_buffer]
    exact Option.some.inj h

/-- A draft goes on following the new buffer of its unread octets, whatever is done to the
two. -/
theorem Draft.useEach_following {d : Draft} {w : Buffer} {us : List Source.Use}
    (hd : (AnyBuffer.draft d).Inside) (hw : w.bytes = d.unread) (hsound : w.thaw.Sound)
    (hopened : (Source.opened us w.marks.length).isSome)
    (hadvance : ∀ n, .advance n ∈ us → n < 2 ^ 62) :
    Source.useEach us (d.following w) =
      ((Source.useEach us w).1, d.following (Source.useEach us w).2) := by
  -- The new buffer goes on having the unread octets of `d` and a cursor inside them.
  induction us generalizing w with
  | nil => rfl
  | cons u us ih =>
    obtain ⟨k, hus⟩ := Option.isSome_iff_exists.mp hopened
    obtain ⟨j, hu, hus⟩ := Option.bind_eq_some_iff.mp hus
    have hon := on_following hd hw hsound.cursor_le (Option.isSome_iff_exists.mpr ⟨j, hu⟩)
      fun n hn => hadvance n (hn ▸ List.mem_cons_self)
    have hnext := ih ((Buffer.bytes_on u w).trans hw) (Buffer.sound_useEach hsound [u])
      (by rw [Buffer.length_marks_on hu, hus]; rfl)
      fun n hn => hadvance n (List.mem_cons_of_mem u hn)
    simp only [Source.useEach, hon, hnext]

/-- A buffer of either kind is used as a new one of its unread octets. -/
theorem AnyBuffer.useEach_eq {b : AnyBuffer} (hb : b.Inside) {us : List Source.Use}
    (hus : Source.Contained us) :
    let w := Source.useEach us (Buffer.ofBytes (Source.unread b))
    (Source.useEach us b).1 = w.1 ∧ (Source.useEach us b).2.cursor = b.cursor + w.2.cursor ∧
      Source.unread (Source.useEach us b).2 = w.2.unread := by
  intro w
  have hinside : (draft b.thaw).Inside := by
    constructor
    · have h := hb.cursor_le
      rwa [← cursor_thaw, ← size_thaw] at h
    · have h := hb.size_lt
      rwa [← size_thaw] at h
  have hunread : Source.unread b = b.thaw.unread := (hom_thaw.unread b).symm
  have hnew : (Buffer.ofBytes b.thaw.unread).thaw.Sound := Draft.sound_ofBytes b.thaw.unread
  have hfollowing := Draft.useEach_following hinside rfl hnew hus.opened hus.advance_lt
  rw [Draft.following_new, hom_thaw.useEach, ← hunread] at hfollowing
  obtain ⟨hanswers, hafter⟩ := Prod.mk.inj hfollowing
  have hbytes : w.2.bytes = b.thaw.unread := (Buffer.bytes_useEach us _).trans hunread
  refine ⟨hanswers, ?_, ?_⟩
  · rw [← cursor_thaw, hafter, ← cursor_thaw b]
    rfl
  · rw [← hom_thaw.unread, hafter]
    exact Draft.unread_following hbytes

/-- What is unread decides the answers, on buffers of either kind. -/
theorem Source.alike_of_unread {us : List Use} (hus : Contained us) {b c : AnyBuffer}
    (hb : b.Inside) (hc : c.Inside) (h : unread b = unread c) : Alike us b c := by
  obtain ⟨hanswers, hcursor, hunread⟩ := AnyBuffer.useEach_eq hb hus
  obtain ⟨hanswers', hcursor', hunread'⟩ := AnyBuffer.useEach_eq hc hus
  rw [h] at hanswers hcursor hunread
  exact ⟨hanswers.trans hanswers'.symm, ⟨_, hcursor, hcursor'⟩, hunread.trans hunread'.symm⟩

/-- Reading and all else that writes nothing sees the unread octets of a buffer alone: with
these two buffers agree, of whatever kind each of them is, they are used alike; so a draft is
read as the buffer frozen from it, and frozen buffers that agree cannot be told apart. -/
theorem reads_see_unread_octets {us : List Source.Use} (hus : Source.Contained us) :
    (∀ b c : AnyBuffer, b.Inside → c.Inside → Source.unread b = Source.unread c →
      Source.Alike us b c) ∧
    (∀ d : Draft, (AnyBuffer.draft d).Inside → Source.Alike us (.frozen d.freeze) (.draft d)) ∧
    (∀ b c : Buffer, (AnyBuffer.frozen b).Inside → (AnyBuffer.frozen c).Inside → b.agrees c →
      Source.Alike us (.frozen b) (.frozen c)) := by
  refine ⟨fun b c hb hc h => Source.alike_of_unread hus hb hc h, fun d hd => ?_,
    fun b c hb hc h => ?_⟩
  · have hfreeze : d.freeze = { bytes := d.bytes, cursor := d.cursor } :=
      d.freeze_seek d.cursor hd.cursor_le
    rw [hfreeze]
    exact Source.alike_of_unread hus ⟨hd.cursor_le, hd.size_lt⟩ hd rfl
  · exact Source.alike_of_unread hus hb hc (eq_of_beq h)

/-- A draft with a transaction open and a frozen buffer with none, read beyond a text that breaks
off. -/
theorem reads_see_unread_octets_text :
    let us : List Source.Use :=
      [.mark, .read Reader.text, .read Reader.text, .rollback, .advance 2, .read Reader.varInt]
    let b : AnyBuffer := .draft { bytes := [9, 1, 0x61, 5, 7], cursor := 1, marks := [(0, 1)] }
    let c : AnyBuffer := .frozen (.ofBytes [1, 0x61, 5, 7])
    Source.Contained us ∧ b.Inside ∧ c.Inside ∧ Source.unread b = Source.unread c ∧
      Source.Alike us b c ∧ (Source.useEach us b).2.cursor = 4 ∧
      (Source.useEach us c).2.cursor = 3 := by
  intro us b c
  have hus : Source.Contained us := by
    refine ⟨rfl, fun n hn => ?_⟩
    simp only [us, List.mem_cons, reduceCtorEq, Source.Use.advance.injEq, List.not_mem_nil,
      false_or, or_false] at hn
    omega
  have hb : b.Inside := ⟨by decide, by decide⟩
  have hc : c.Inside := ⟨by decide, by decide⟩
  have halike : Source.Alike us b c := (reads_see_unread_octets hus).1 b c hb hc rfl
  exact ⟨hus, hb, hc, rfl, halike, by decide +kernel, by decide +kernel⟩

end Switchboard
