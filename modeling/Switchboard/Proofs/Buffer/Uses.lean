import Switchboard.Proofs.Buffer.Source
import Switchboard.Buffer.Any
import Switchboard.Record.Mapper

/-!
# What is done with a buffer

A buffer is read, moved on, embedded in a draft and put under transactions (`Source.Use`);
a draft is also written to (`Draft.Use`). `opened` counts the transactions that are open
behind a row of uses; it has no answer where one is ended that was not begun.

A frozen buffer is used as the draft of its octets is (`hom_thaw`), so what holds of drafts
is proved once. What a use can do to a draft is said once too, by `Draft.Move`.
-/

namespace Switchboard

namespace Source

/-- One use of a buffer that writes nothing to it. -/
inductive Use : Type 1 where
  /-- Reading of any kind: of a typed value, an integer of variable width, a nested buffer, an
  optional value, an object or octets as they are, or only checking how many are there. -/
  | read {α : Type} (r : Reader α)
  | advance (n : Nat)
  | mark
  | rollback
  /-- The unread octets are embedded in `target`. -/
  | lend (target : Draft)

inductive Answer : Type 1 where
  | nothing
  /-- The program stopped at an addition, and the buffer is as it was. -/
  | overflow
  | outcome {α : Type} (outcome : Except BufferError α)
  | target (d : Draft)

variable {σ : Type} [Source σ]

namespace Use

def on : Use → σ → Answer × σ
  | read r, b => (.outcome (Source.read r b).1, (Source.read r b).2)
  | advance n, b => ((Source.advance n b).elim .overflow fun _ => .nothing, (Source.advance n b).getD b)
  | mark, b => (.nothing, Source.mark b)
  | rollback, b => (.nothing, Source.rollback b)
  | lend target, b => (.target (target.embed b).1, (target.embed b).2)

/-- The transactions that are open after the use, if `k` were open before it. -/
def opened : Use → (k : Nat) → Option Nat
  | mark, k => some (k + 1)
  | rollback, 0 => none
  | rollback, k + 1 => some k
  | _, k => some k

end Use

def useEach : List Use → σ → List Answer × σ
  | [], b => ([], b)
  | u :: us, b =>
    let (answers, after) := useEach us (u.on b).2
    ((u.on b).1 :: answers, after)

def opened : List Use → (k : Nat) → Option Nat
  | [], k => some k
  | u :: us, k => (u.opened k).bind (opened us)

/-- Embedding takes the unread octets as a block and leaves their buffer as it was, in every
kind of buffer where a transaction restores the cursor. -/
theorem embed_eq (target : Draft) (b : σ) (hunread : unread (Source.mark b) = unread b)
    (hback : ∀ n, Source.rollback (consume n (Source.mark b)) = b) :
    target.embed b = (target.write (block (unread b)), b) := by
  have hall : (Reader.take (unread b).length).on (unread b) = (.ok (unread b), []) := by
    simp [Reader.on, Reader.take]
  simp only [Draft.embed, read, hunread, hall, hback]

end Source

/-- The map keeps the unread octets and respects the ways of moving a cursor. -/
structure Source.Hom {σ τ : Type} [Source σ] [Source τ] (f : σ → τ) : Prop where
  unread (b : σ) : Source.unread (f b) = Source.unread b
  consume (n : Nat) (b : σ) : Source.consume n (f b) = f (Source.consume n b)
  advance (n : Nat) (b : σ) : Source.advance n (f b) = (Source.advance n b).map f
  mark (b : σ) : Source.mark (f b) = f (Source.mark b)
  rollback (b : σ) : Source.rollback (f b) = f (Source.rollback b)

namespace Source.Hom

variable {σ τ : Type} [Source σ] [Source τ] {f : σ → τ}

theorem read (h : Source.Hom f) {α : Type} (r : Reader α) (b : σ) :
    Source.read r (f b) = ((Source.read r b).1, f (Source.read r b).2) := by
  simp only [Source.read, h.unread, h.consume]

/-- A map that keeps the unread octets carries each use over. -/
theorem on (h : Source.Hom f) (u : Source.Use) (b : σ) :
    u.on (f b) = ((u.on b).1, f (u.on b).2) := by
  cases u with
  | read r => simp only [Source.Use.on, h.read]
  | advance n =>
    simp only [Source.Use.on, h.advance]
    cases Source.advance n b <;> rfl
  | mark => simp only [Source.Use.on, h.mark]
  | rollback => simp only [Source.Use.on, h.rollback]
  | lend target => simp only [Source.Use.on, Draft.embed, h.mark, h.unread, h.read, h.rollback]

/-- And so every sequence of them. -/
theorem useEach (h : Source.Hom f) (us : List Source.Use) (b : σ) :
    Source.useEach us (f b) = ((Source.useEach us b).1, f (Source.useEach us b).2) := by
  induction us generalizing b with
  | nil => rfl
  | cons u us ih => simp only [Source.useEach, h.on, ih]

end Source.Hom

/-- The draft of the same octets: each mark cuts back to all of them, as nothing was written
since. -/
def Buffer.thaw (b : Buffer) : Draft :=
  { bytes := b.bytes, cursor := b.cursor, marks := b.marks.map fun c => (c, b.bytes.length) }

theorem Buffer.hom_thaw : Source.Hom Buffer.thaw where
  unread _ := rfl
  consume _ _ := rfl
  advance n b := by
    simp only [Source.advance, Option.map_map]
    rfl
  mark _ := rfl
  rollback b := by
    obtain ⟨bytes, cursor, marks⟩ := b
    cases marks with
    | nil => rfl
    | cons c marks => simp [Source.rollback, thaw]

theorem Buffer.thaw_injective {b c : Buffer} (h : b.thaw = c.thaw) : b = c := by
  obtain ⟨bytes, cursor, marks⟩ := b
  obtain ⟨bytes', cursor', marks'⟩ := c
  simp only [thaw, Draft.mk.injEq] at h
  obtain ⟨rfl, rfl, hmarks⟩ := h
  have hmarks' := congrArg (List.map Prod.fst) hmarks
  simp only [List.map_map, Function.comp_def, List.map_id'] at hmarks'
  rw [hmarks']

instance : LawfulSource AnyBuffer where
  unread_consume n b := by
    cases b with
    | draft d => exact LawfulSource.unread_consume n d
    | frozen b => exact LawfulSource.unread_consume n b
  consume_zero b := by cases b <;> rfl
  consume_consume m n b := by
    cases b with
    | draft d => exact congrArg AnyBuffer.draft (LawfulSource.consume_consume m n d)
    | frozen b => exact congrArg AnyBuffer.frozen (LawfulSource.consume_consume m n b)

namespace AnyBuffer

def thaw : AnyBuffer → Draft
  | draft d => d
  | frozen b => b.thaw

theorem hom_thaw : Source.Hom thaw where
  unread b := by cases b <;> rfl
  consume n b := by cases b <;> rfl
  advance n b := by
    cases b with
    | draft d =>
      show Source.advance n d = ((Source.advance n d).map draft).map thaw
      rw [Option.map_map]
      exact Option.map_id'.symm
    | frozen b =>
      show Source.advance n b.thaw = ((Source.advance n b).map frozen).map thaw
      rw [Option.map_map]
      exact Buffer.hom_thaw.advance n b
  mark b := by cases b <;> rfl
  rollback b := by
    cases b with
    | draft d => rfl
    | frozen b => exact Buffer.hom_thaw.rollback b

@[simp] theorem cursor_thaw (b : AnyBuffer) : b.thaw.cursor = b.cursor := by
  cases b <;> rfl

@[simp] theorem size_thaw (b : AnyBuffer) : b.thaw.size = b.size := by
  cases b <;> rfl

end AnyBuffer

namespace Draft

/-- One use of a draft. -/
inductive Use : Type 1 where
  | source (u : Source.Use)
  /-- Octets are appended: those of a value of any kind, or any others. -/
  | write (s : List UInt8)
  /-- An object is appended, unless it does not map. -/
  | writeObject {α : Type} (m : Mapper α) (a : α)
  /-- The unread octets of another buffer are embedded. -/
  | embed (b : AnyBuffer)

namespace Use

def on : Use → Draft → Draft
  | source u, d => (u.on d).2
  | write s, d => d.write s
  | writeObject m a, d =>
    match m.write a d with
    | .ok d => d
    | .error _ => d
  | embed b, d => (d.embed b).1

def opened : Use → (k : Nat) → Option Nat
  | source u, k => u.opened k
  | _, k => some k

end Use

def useEach : List Use → Draft → Draft
  | [], d => d
  | u :: us, d => useEach us (u.on d)

def opened : List Use → (k : Nat) → Option Nat
  | [], k => some k
  | u :: us, k => (u.opened k).bind (opened us)

theorem useEach_source (us : List Source.Use) (d : Draft) :
    useEach (us.map .source) d = (Source.useEach us d).2 := by
  induction us generalizing d with
  | nil => rfl
  | cons u us ih => simp only [List.map_cons, useEach, Source.useEach, Use.on, ih]

theorem opened_source (us : List Source.Use) (k : Nat) :
    opened (us.map .source) k = Source.opened us k := by
  induction us generalizing k with
  | nil => rfl
  | cons u us ih => simp only [List.map_cons, opened, Source.opened, Use.opened, funext ih]

/-- A transaction that ends where it began leaves the draft as it was. -/
theorem rollback_consume_mark (d : Draft) (n : Nat) :
    Source.rollback (Source.consume n (Source.mark d)) = d := by
  simp [Source.rollback, Source.consume, Source.mark]

theorem embed_draft (target d : Draft) : target.embed d = (target.write (block d.unread), d) :=
  Source.embed_eq target d rfl d.rollback_consume_mark

theorem embed_buffer (target : Draft) (b : Buffer) :
    target.embed b = (target.write (block b.unread), b) :=
  Source.embed_eq target b rfl fun _ => rfl

/-- What a use can do to a draft: put its cursor somewhere inside it, append octets, begin a
transaction or end one. -/
inductive Move (d : Draft) : Use → Draft → Prop
  | seek {u : Use} {n : Nat} (h : ∀ k, u.opened k = some k) (hn : d.cursor ≤ d.size → n ≤ d.size) :
      Move d u (d.seek n)
  | write {u : Use} (s : List UInt8) (h : ∀ k, u.opened k = some k) : Move d u (d.write s)
  | mark : Move d (.source .mark) (Source.mark d)
  | rollback : Move d (.source .rollback) (Source.rollback d)

/-- Every use of a draft is one of the four moves. -/
theorem move_on (u : Use) (d : Draft) : d.Move u (u.on d) := by
  cases u with
  | source u =>
    cases u with
    | read r =>
      refine .seek (n := d.cursor + (d.unread.length - (r.on d.unread).2.length)) (fun _ => rfl) ?_
      intro h
      simp only [unread, List.length_drop, size] at h ⊢
      omega
    | advance n =>
      simp only [Use.on, Source.Use.on, Source.advance]
      cases Position.add? d.cursor n with
      | none => exact .seek (n := d.cursor) (fun _ => rfl) id
      | some stop => exact .seek (fun _ => rfl) fun _ => Nat.min_le_right _ _
    | mark => exact .mark
    | rollback => exact .rollback
    | lend target =>
      -- The draft is read in a transaction of its own, which is over again.
      have hsame : (Use.source (.lend target)).on d = d.seek d.cursor :=
        congrArg Prod.snd (embed_draft target d)
      exact hsame ▸ .seek (fun _ => rfl) id
  | write s => exact .write s fun _ => rfl
  | writeObject m a =>
    cases h : m.toBytes a with
    | ok s =>
      have hsame : (Use.writeObject m a).on d = d.write (block s) := by
        simp only [Use.on, Mapper.write, h]
      exact hsame ▸ .write _ fun _ => rfl
    | error e =>
      have hsame : (Use.writeObject m a).on d = d.seek d.cursor := by
        simp only [Use.on, Mapper.write, h]
        rfl
      exact hsame ▸ .seek (fun _ => rfl) id
  | embed b => exact .write _ fun _ => rfl

end Draft

end Switchboard
