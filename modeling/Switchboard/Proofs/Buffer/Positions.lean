import Switchboard.Proofs.Buffer.Careful

/-!
# Positions stay machine words inside the buffer

Every operation on a buffer, with every argument, is carried out with no sum that is no word,
no negative difference and no slice beyond the octets, and only rolling back puts the cursor
back. The one exception is moving on by so much that the sum is no word: the program stops
there, although it would stop at the end of the octets for any smaller number beyond it
(`position_arithmetic_holds`, `advance_overflows`).
-/

namespace Switchboard

/-- What reads a buffer, moves its cursor or keeps a position, with its argument. -/
inductive Operation : Type 1 where
  | remaining
  | unread
  | ensure (n : Nat)
  | array (n : Nat)
  | raw (n : Nat)
  | varNat (w : VarInt.Width)
  | value (t : Ty)
  | object {α : Type} (m : Mapper α)
  | advance (n : Nat)
  | mark
  | rollback
  /-- The unread octets are embedded in `target`. -/
  | lend (target : Draft)

namespace Operation

/-- The operation as it runs. -/
def use : Operation → Source.Use
  | remaining => .read Reader.remaining
  | unread => .read fun s => (.ok s, s)
  | ensure n => .read (Reader.ensure n)
  | array n => .read (Reader.take n)
  | raw n => .read (Reader.take n)
  | varNat w => .read (Reader.varNat w)
  | value t => .read t.reader
  | object m => .read m.reader
  | advance n => .advance n
  | mark => .mark
  | rollback => .rollback
  | lend target => .lend target

def answered {α : Type} (answer : Except BufferError α → Source.Answer) (x : Careful α)
    (b : AnyBuffer) : Option (Source.Answer × AnyBuffer) :=
  (x b).map fun after => (answer after.1, after.2)

def orNone : Except BufferError (List UInt8) → List UInt8
  | .ok s => s
  | .error _ => []

/-- The operation with each step of its arithmetic told. -/
def careful : Operation → AnyBuffer → Option (Source.Answer × AnyBuffer)
  | remaining => answered .outcome Careful.remaining
  | unread => answered .outcome Careful.unread
  | ensure n => answered .outcome (Careful.ensure n)
  | array n => answered .outcome (Careful.array n)
  | raw n => answered .outcome (Careful.raw n)
  | varNat w => answered .outcome (Careful.varNat w)
  | value t => answered .outcome (Careful.ofType t)
  | object m => answered .outcome (Careful.object m)
  | advance n => answered (fun _ => .nothing) (Careful.advance n)
  | mark => fun b => some (.nothing, Source.mark b)
  | rollback => fun b => some (.nothing, Source.rollback b)
  | lend target => fun b =>
    let whole : Careful (List UInt8) := Careful.remaining >>= Careful.raw
    (answered (fun s => .target (target.write (block (orNone s)))) whole (Source.mark b)).map
      fun after => (after.1, Source.rollback after.2)

/-- The cursor is moved on by so much that the sum is no machine word. -/
def overruns : Operation → AnyBuffer → Bool
  | advance n, b => wordSize ≤ b.cursor + n
  | _, _ => false

variable {b : AnyBuffer}

theorem overruns_iff {n : Nat} : (advance n).overruns b = true ↔ Source.advance n b = none :=
  decide_eq_true_iff.trans AnyBuffer.advance_eq_none_iff.symm

theorem answered_outcome {α : Type} {x : Careful α} {r : Reader α} (h : x.Keeps r)
    (hb : b.Inside) : answered .outcome x b = some ((Source.Use.read r).on b) := by
  rw [answered, h.run_eq hb]
  rfl

theorem inside_mark (hb : b.Inside) : (Source.mark b).Inside := by
  cases b with
  | draft d => exact ⟨hb.cursor_le, hb.size_lt⟩
  | frozen b => exact ⟨hb.cursor_le, hb.size_lt⟩

theorem embed_eq (target : Draft) (b : AnyBuffer) :
    target.embed b = (target.write (block (Source.unread b)), b) := by
  refine Source.embed_eq target b ?_ fun n => ?_
  · cases b <;> rfl
  · cases b with
    | draft d => exact congrArg AnyBuffer.draft (d.rollback_consume_mark n)
    | frozen b => rfl

theorem careful_lend (target : Draft) (hb : b.Inside) :
    (lend target).careful b = some ((lend target).use.on b) := by
  have hinside := inside_mark hb
  have hwhole : (Careful.remaining >>= Careful.raw) (Source.mark b) =
      some (Source.read (Reader.take (Source.unread (Source.mark b)).length) (Source.mark b)) := by
    rw [Careful.bind_of_ok (Careful.remaining_eq hinside)]
    exact (Careful.keeps_raw _).run_eq hinside
  simp only [careful, answered, hwhole, Option.map_some, use, Source.Use.on, Draft.embed]
  cases (Source.read (Reader.take (Source.unread (Source.mark b)).length) (Source.mark b)).1 <;> rfl

/-- With each step told, an operation does what it does as it runs, unless it overruns. -/
theorem careful_eq (o : Operation) (hb : b.Inside) :
    o.careful b = if o.overruns b then none else some (o.use.on b) := by
  cases o with
  | remaining => exact answered_outcome Careful.keeps_remaining hb
  | unread => exact answered_outcome Careful.keeps_unread hb
  | ensure n => exact answered_outcome (Careful.keeps_ensure n) hb
  | array n => exact answered_outcome (Careful.keeps_array n) hb
  | raw n => exact answered_outcome (Careful.keeps_raw n) hb
  | varNat w => exact answered_outcome (Careful.keeps_varNat w) hb
  | value t => exact answered_outcome (Careful.keeps_ofType t) hb
  | object m => exact answered_outcome (Careful.keeps_object m) hb
  | advance n =>
    simp only [careful, answered, Careful.advance_eq, use, Source.Use.on]
    cases h : Source.advance n b with
    | none => rw [if_pos (overruns_iff.mpr h)]; rfl
    | some b' =>
      have hfits : ¬(advance n).overruns b = true := by
        rw [overruns_iff, h]
        exact Option.some_ne_none b'
      rw [if_neg hfits]
      rfl
  | mark => rfl
  | rollback => rfl
  | lend target => exact careful_lend target hb

/-- Where an operation overruns, the program stops and the buffer is as it was. -/
theorem on_of_overruns (o : Operation) (h : o.overruns b = true) :
    o.use.on b = (.overflow, b) := by
  cases o with
  | advance n =>
    simp only [use, Source.Use.on, overruns_iff.mp h, Option.elim_none, Option.getD_none]
  | _ => cases h

/-- Nothing but rolling back puts the cursor back. -/
theorem cursor_le (o : Operation) (hb : b.Inside) (hback : o ≠ .rollback) :
    b.cursor ≤ (o.use.on b).2.cursor := by
  have hread {α : Type} (r : Reader α) : b.cursor ≤ ((Source.Use.read r).on b).2.cursor := by
    simp only [Source.Use.on, Source.read, AnyBuffer.consume_eq, AnyBuffer.cursor_seek]
    omega
  cases o with
  | remaining => exact hread _
  | unread => exact hread _
  | ensure n => exact hread _
  | array n => exact hread _
  | raw n => exact hread _
  | varNat w => exact hread _
  | value t => exact hread _
  | object m => exact hread _
  | advance n =>
    have hcursor := hb.cursor_le
    simp only [use, Source.Use.on, AnyBuffer.advance_eq, Position.add?]
    split
    · rw [Option.map_some, Option.getD_some, AnyBuffer.cursor_seek]
      omega
    · exact Nat.le_refl _
  | mark => cases b <;> exact Nat.le_refl _
  | rollback => exact absurd rfl hback
  | lend target =>
    simp only [use, Source.Use.on, embed_eq]
    exact Nat.le_refl _

end Operation

/-- New buffers of either kind, what any use makes of them, and what is frozen from a draft. -/
inductive AnyBuffer.Reached : AnyBuffer → Prop
  | draft (s : List UInt8) : Reached (.draft (.ofBytes s))
  | frozen (s : List UInt8) : Reached (.frozen (.ofBytes s))
  | use {d : Draft} (h : Reached (.draft d)) (u : Draft.Use) : Reached (.draft (u.on d))
  | read {b : Buffer} (h : Reached (.frozen b)) (u : Source.Use) : Reached (.frozen (u.on b).2)
  | freeze {d : Draft} (h : Reached (.draft d)) : Reached (.frozen d.freeze)

/-- Every buffer that comes about is sound, a frozen one as a draft of its octets. -/
theorem AnyBuffer.Reached.sound {b : AnyBuffer} (h : b.Reached) : b.thaw.Sound := by
  induction h with
  | draft s => exact Draft.sound_ofBytes s
  | frozen s => exact Draft.sound_ofBytes s
  | use _ u ih => exact ih.move (Draft.move_on u _)
  | read _ u ih => exact Buffer.sound_useEach ih [u]
  | freeze =>
    exact ⟨Nat.min_le_right _ _, by simp [thaw, Buffer.thaw, Draft.freeze], .nil,
      by simp [thaw, Buffer.thaw, Draft.freeze]⟩

/-- In memory such a buffer has positions that are machine words. -/
theorem AnyBuffer.Reached.inside {b : AnyBuffer} (h : b.Reached) (hsize : b.size < 2 ^ 63) :
    b.Inside := by
  have hle := h.sound.cursor_le
  rw [cursor_thaw, size_thaw] at hle
  exact ⟨hle, hsize⟩

/-- Writing to a draft leaves its cursor where it is. -/
theorem Draft.Use.cursor_on (u : Draft.Use) (hu : ∀ v, u ≠ .source v) (d : Draft) :
    (u.on d).cursor = d.cursor := by
  cases u with
  | source v => exact absurd rfl (hu v)
  | write s => rfl
  | writeObject m a =>
    simp only [on, Mapper.write]
    cases m.toBytes a with
    | ok s => rfl
    | error e => rfl
  | embed b => rfl

/-- In every buffer that comes about and fits memory, every operation with every argument ends
with its sums machine words, its differences not negative and its slices inside, unless it
moves on by so much that the sum is no word, where the program stops with the buffer as it was;
and the cursor is put back by rolling back alone. Writing to a draft leaves its cursor, and so
does freezing it, without a sum that is no word. -/
theorem position_arithmetic_holds {b : AnyBuffer} (h : b.Reached) (hsize : b.size < 2 ^ 63) :
    (∀ o : Operation, o.careful b = if o.overruns b then none else some (o.use.on b)) ∧
    (∀ o : Operation, o.overruns b = true → o.use.on b = (.overflow, b)) ∧
    (∀ o : Operation, o ≠ .rollback → b.cursor ≤ (o.use.on b).2.cursor) ∧
    ∀ d, b = .draft d →
      (∀ u : Draft.Use, (∀ v, u ≠ .source v) → (u.on d).cursor = d.cursor) ∧
      Careful.advance d.cursor (.frozen (.ofBytes d.bytes)) = some (.ok (), .frozen d.freeze) ∧
      d.freeze.cursor = d.cursor := by
  have hb := h.inside hsize
  refine ⟨fun o => o.careful_eq hb, fun o => o.on_of_overruns,
    fun o hback => o.cursor_le hb hback, ?_⟩
  rintro d rfl
  have hcursor : d.cursor ≤ d.size := hb.cursor_le
  refine ⟨fun u hu => u.cursor_on hu d, ?_, Nat.min_eq_left hcursor⟩
  have hsum : Position.add? 0 d.cursor = some d.cursor := by
    have hlt : d.size < 2 ^ 63 := hsize
    have hword : wordSize = 2 ^ 64 := rfl
    rw [Position.add?_of_lt (by omega), Nat.zero_add]
  rw [Careful.advance_eq, AnyBuffer.advance_eq]
  exact congrArg (fun sum : Option Nat => (sum.map _).map _) hsum

/-- A draft with one of three octets read, asked for the most octets that a word can tell and
for a list whose count is missing. -/
theorem position_arithmetic_holds_greatest :
    let b : AnyBuffer := .draft { bytes := [1, 0x82, 0x83], cursor := 1 }
    b.Reached ∧ b.size < 2 ^ 63 ∧
      (Operation.raw (wordSize - 1)).careful b =
        some (.outcome (.error (.underflow (wordSize - 1) 2) : Except BufferError (List UInt8)), b) ∧
      (Operation.value (.vec .u8)).careful b =
        some (.outcome (.error (.underflow 3 2) : Except BufferError (List UInt8)), b) ∧
      b.cursor ≤ ((Operation.advance 5).use.on b).2.cursor := by
  intro b
  have hreached : b.Reached := (AnyBuffer.Reached.draft [1, 0x82, 0x83]).use (.source (.advance 1))
  have hsize : b.size < 2 ^ 63 := by decide
  obtain ⟨hcareful, -, hcursor, -⟩ := position_arithmetic_holds hreached hsize
  exact ⟨hreached, hsize, hcareful (.raw (wordSize - 1)), hcareful (.value (.vec .u8)),
    hcursor (.advance 5) nofun⟩

/-- From behind one octet, moving on by the greatest word has a sum that is no word: the program
stops, where for any smaller number beyond the end it puts the cursor at the end. -/
theorem advance_overflows :
    let b : AnyBuffer := .frozen { bytes := [1, 2, 3], cursor := 1 }
    b.Reached ∧ b.size < 2 ^ 63 ∧ (Operation.advance (wordSize - 1)).careful b = none ∧
      Source.advance (wordSize - 1) b = none ∧
      Source.advance (wordSize - 2) b = some (.frozen { bytes := [1, 2, 3], cursor := 3 }) := by
  intro b
  have hreached : b.Reached := (AnyBuffer.Reached.frozen [1, 2, 3]).read (.advance 1)
  have hsize : b.size < 2 ^ 63 := by decide
  have hoverruns : (Operation.advance (wordSize - 1)).overruns b = true := by decide
  refine ⟨hreached, hsize, ?_, Operation.overruns_iff.mp hoverruns, by decide +kernel⟩
  rw [Operation.careful_eq _ (hreached.inside hsize), if_pos hoverruns]

end Switchboard
