import Switchboard.Proofs.Buffer.Uses

/-!
# Rolling back

A transaction remembers where the cursor stood and, for a draft, how many octets there were.
Inside it octets are only appended, and the transactions begun inside it cut back to no less
than it does itself (`Draft.Within`). So when those are ended too, rolling back restores the
buffer to the last mark, whatever was done in between (`rollback_restores`).
-/

namespace Switchboard

namespace Draft

/-- The draft `e` has come from `d` by uses in a transaction that began at `d`, with `k` more
open. -/
structure Within (d : Draft) (k : Nat) (e : Draft) : Prop where
  grown : d.bytes <+: e.bytes
  marks : ∃ inner, inner.length = k ∧ (∀ m ∈ inner, d.size ≤ m.2) ∧
    e.marks = inner ++ (d.cursor, d.size) :: d.marks

variable {d e e' : Draft} {k k' : Nat} {u : Use}

theorem within_mark (d : Draft) : d.Within 0 (Source.mark d) where
  grown := List.prefix_refl _
  marks := ⟨[], rfl, by simp, rfl⟩

namespace Within

theorem begin (h : d.Within k e) : d.Within (k + 1) (Source.mark e) where
  grown := h.grown
  marks := by
    obtain ⟨inner, rfl, hsize, hmarks⟩ := h.marks
    refine ⟨(e.cursor, e.size) :: inner, rfl, ?_, ?_⟩
    · rintro m (_ | ⟨_, hm⟩)
      · exact h.grown.length_le
      · exact hsize m hm
    · exact congrArg ((e.cursor, e.size) :: ·) hmarks

theorem finish (h : d.Within (k + 1) e) : d.Within k (Source.rollback e) := by
  obtain ⟨inner, hlength, hsize, hmarks⟩ := h.marks
  cases inner with
  | nil => cases hlength
  | cons m inner =>
    have hback : Source.rollback e =
        { bytes := e.bytes.take m.2, cursor := m.1,
          marks := inner ++ (d.cursor, d.size) :: d.marks } := by
      simp only [Source.rollback, hmarks, List.cons_append]
    rw [hback]
    constructor
    -- The inner mark cuts back to no less than there was at the start.
    · exact List.prefix_take_iff.mpr ⟨h.grown, hsize m List.mem_cons_self⟩
    · exact ⟨inner, Nat.succ.inj hlength, fun m' hm' => hsize m' (List.mem_cons_of_mem m hm'), rfl⟩

/-- A use that does not end the transaction stays within it. -/
theorem move (h : d.Within k e) (hmove : e.Move u e') (hopened : u.opened k = some k') :
    d.Within k' e' := by
  cases hmove with
  | seek hplain =>
    obtain rfl : k = k' := Option.some.inj ((hplain k).symm.trans hopened)
    exact ⟨h.grown, h.marks⟩
  | write s hplain =>
    obtain rfl : k = k' := Option.some.inj ((hplain k).symm.trans hopened)
    exact ⟨h.grown.trans (List.prefix_append _ s), h.marks⟩
  | mark =>
    cases hopened
    exact h.begin
  | rollback =>
    cases k with
    | zero => cases hopened
    | succ k =>
      cases hopened
      exact h.finish

/-- So do uses one after the other. -/
theorem useEach {us : List Use} (h : d.Within k e) (hopened : opened us k = some k') :
    d.Within k' (Draft.useEach us e) := by
  induction us generalizing k e with
  | nil =>
    cases hopened
    exact h
  | cons u us ih =>
    obtain ⟨j, hu, hus⟩ := Option.bind_eq_some_iff.mp hopened
    exact ih (h.move (move_on u e) hu) hus

/-- Nothing is left of a transaction when it ends after all that were begun inside it. -/
theorem rollback_eq (h : d.Within 0 e) : Source.rollback e = d := by
  obtain ⟨inner, hlength, -, hmarks⟩ := h.marks
  obtain rfl := List.eq_nil_of_length_eq_zero hlength
  obtain ⟨written, hbytes⟩ := h.grown
  have htake : e.bytes.take d.size = d.bytes := by rw [← hbytes, size, List.take_left]
  simp only [Source.rollback, hmarks, List.nil_append, htake]

end Within

end Draft

/-- Rolling back restores a draft and a frozen buffer to what they were when the transaction
began, whatever was done to them since, if the transactions that were begun in between are
ended and no others; without a transaction there is nothing to roll back. -/
theorem rollback_restores :
    (∀ (d : Draft) (us : List Draft.Use), Draft.opened us 0 = some 0 →
      Source.rollback (Draft.useEach us (Source.mark d)) = d) ∧
    (∀ (b : Buffer) (us : List Source.Use), Source.opened us 0 = some 0 →
      Source.rollback (Source.useEach us (Source.mark b)).2 = b) ∧
    (∀ d : Draft, d.marks = [] → Source.rollback d = d) ∧
    (∀ b : Buffer, b.marks = [] → Source.rollback b = b) := by
  have hdraft : ∀ (d : Draft) (us : List Draft.Use), Draft.opened us 0 = some 0 →
      Source.rollback (Draft.useEach us (Source.mark d)) = d :=
    fun d us hopened => (d.within_mark.useEach hopened).rollback_eq
  refine ⟨hdraft, fun b us hopened => Buffer.thaw_injective ?_, fun d hmarks => ?_,
    fun b hmarks => ?_⟩
  -- A frozen buffer is rolled back as its draft is.
  · have hthawed := hdraft b.thaw (us.map .source) ((Draft.opened_source us 0).trans hopened)
    rw [Draft.useEach_source, Buffer.hom_thaw.mark, Buffer.hom_thaw.useEach,
      Buffer.hom_thaw.rollback] at hthawed
    exact hthawed
  · simp only [Source.rollback, hmarks]
  · simp only [Source.rollback, hmarks]

/-- A text that breaks off behind its length, a write, and a transaction in the transaction
that is cut back itself. -/
theorem rollback_restores_half_read :
    let d : Draft := { bytes := [7, 7, 3, 0x61], cursor := 1, marks := [(0, 2)] }
    let us : List Draft.Use :=
      [.source (.read Reader.u8), .source (.read Reader.text), .write [9, 9], .source .mark,
        .source (.advance 5), .embed (.draft d), .source .rollback, .source (.lend d)]
    Draft.opened us 0 = some 0 ∧
      Draft.useEach us (Source.mark d) =
        { bytes := [7, 7, 3, 0x61, 9, 9], cursor := 3, marks := [(1, 4), (0, 2)] } ∧
      Source.rollback (Draft.useEach us (Source.mark d)) = d := by
  intro d us
  exact ⟨rfl, by decide +kernel, rollback_restores.1 d us rfl⟩

end Switchboard
