import Switchboard.Proofs.Buffer.RoundTrip
import Switchboard.Proofs.Buffer.Uses

/-!
# Objects keep their place

An object is a block. Whatever a mapper makes of its octets, the one it was written with or any
other, reading it passes over exactly that block (`Passage.passes`), and so does skipping it. A
row of objects and plain values is then read from one part to the next: `Source.Passes` is joined
along the row, in which an object that did not map has no part.
-/

namespace Switchboard

namespace Source

theorem useEach_append {σ : Type} [Source σ] (us vs : List Use) (b : σ) :
    useEach (us ++ vs) b =
      ((useEach us b).1 ++ (useEach vs (useEach us b).2).1, (useEach vs (useEach us b).2).2) := by
  induction us generalizing b with
  | nil => rfl
  | cons u us ih => simp only [List.cons_append, useEach, ih]

/-- Wherever `s` is unread next, the uses give `answers` and the cursor then stands behind it. -/
structure Passes (us : List Use) (s : List UInt8) (answers : List Answer) : Prop where
  useEach_eq {σ : Type} [Source σ] [LawfulSource σ] (b : σ) (rest : List UInt8)
    (hb : unread b = s ++ rest) : useEach us b = (answers, consume s.length b)

namespace Passes

variable {us vs : List Use} {s t : List UInt8} {answers answers' : List Answer} {α : Type}

theorem nil : Passes [] [] [] where
  useEach_eq b rest hb := by rw [useEach, List.length_nil, LawfulSource.consume_zero]

/-- A reader that leaves what follows passes over what it is read from, also where it fails. -/
theorem of_on {r : Reader α} {outcome : Except BufferError α}
    (h : ∀ rest, r.on (s ++ rest) = (outcome, rest)) :
    Passes [.read r] s [.outcome outcome] where
  useEach_eq b rest hb := by simp only [useEach, Use.on, read_of_on (h rest) b hb]

/-- Rows that are passed one behind the other are passed as one row. -/
theorem append (hu : Passes us s answers) (hv : Passes vs t answers') :
    Passes (us ++ vs) (s ++ t) (answers ++ answers') where
  useEach_eq b rest hb := by
    rw [List.append_assoc] at hb
    have hnext : unread (consume s.length b) = t ++ rest := unread_consume_append hb
    rw [useEach_append, hu.useEach_eq b _ hb, hv.useEach_eq _ rest hnext,
      LawfulSource.consume_consume, List.length_append]

end Passes

end Source

namespace Mapper

variable {α : Type} {m : Mapper α} {a : α} {s : List UInt8}

theorem write_of_error {e : BufferError} (h : m.toBytes a = .error e) (d : Draft) :
    m.write a d = .error e ∧ (Draft.Use.writeObject m a).on d = d := by
  simp only [Draft.Use.on, write, h, and_self]

theorem write_of_ok (h : m.toBytes a = .ok s) (d : Draft) :
    m.write a d = .ok (d.write (block s)) ∧
      (Draft.Use.writeObject m a).on d = d.write (block s) := by
  simp only [Draft.Use.on, write, h, and_self]

/-- The outcome is the mapper's, and what follows the block is left unread either way. -/
theorem on_reader (m : Mapper α) (h : s.length < UInt32.size) (rest : List UInt8) :
    m.reader.on (block s ++ rest) = (m.ofBytes s, rest) := by
  rw [reader, Reader.on_bind, Reader.reads_block s h]
  cases hs : m.ofBytes s <;> simp only [hs] <;> rfl

end Mapper

/-- How an object is passed: unread, or through a mapper of objects of any type. -/
inductive Passage : Type 1 where
  | skip
  | map {β : Type} (m : Mapper β)

namespace Passage

def toUse : Passage → Source.Use
  | skip => .read Reader.block
  | map m => .read m.reader

def answer (s : List UInt8) : Passage → Source.Answer
  | skip => .outcome (.ok s)
  | map m => .outcome (m.ofBytes s)

theorem passes (p : Passage) {s : List UInt8} (h : s.length < UInt32.size) :
    Source.Passes [p.toUse] (block s) [p.answer s] := by
  cases p with
  | skip => exact .of_on (Reader.reads_block s h)
  | map m => exact .of_on (m.on_reader h)

end Passage

/-- What is written in a row: objects, with the way each is to be passed, and plain values. -/
inductive Item : Type 1 where
  | object {α : Type} (m : Mapper α) (a : α) (passage : Passage)
  | value (v : Typed)
  | varInt (n : UInt32)
  | varLong (n : UInt64)
  | octets (s : List UInt8)

namespace Item

def toUse : Item → Draft.Use
  | object m a _ => .writeObject m a
  | value v => .write v.encode
  | varInt n => .write (VarInt.encode n.toNat)
  | varLong n => .write (VarInt.encode n.toNat)
  | octets s => .write s

def Fits : Item → Prop
  | object m a _ => ∀ s, m.toBytes a = .ok s → s.length < UInt32.size
  | value v => v.Fits
  | varInt _ | varLong _ | octets _ => True

/-- The use that reads it, with what is to be answered. There is none for an object that did
not map. -/
def reading : Item → List (Source.Use × Source.Answer)
  | object m a passage =>
    match m.toBytes a with
    | .ok s => [(passage.toUse, passage.answer s)]
    | .error _ => []
  | value v => [(.read v.type.reader, .outcome (.ok (v.type.reread v.value)))]
  | varInt n => [(.read Reader.varInt, .outcome (.ok n))]
  | varLong n => [(.read Reader.varLong, .outcome (.ok n))]
  | octets s => [(.read (Reader.take s.length), .outcome (.ok s))]

/-- What it appends. -/
def written : Item → List UInt8
  | object m a _ =>
    match m.toBytes a with
    | .ok s => block s
    | .error _ => []
  | value v => v.encode
  | varInt n => VarInt.encode n.toNat
  | varLong n => VarInt.encode n.toNat
  | octets s => s

theorem on_toUse (x : Item) (d : Draft) : x.toUse.on d = d.write x.written := by
  cases x with
  | object m a passage =>
    cases h : m.toBytes a with
    | ok s => simp only [toUse, written, h, (Mapper.write_of_ok h d).2]
    | error e => simp only [toUse, written, h, (Mapper.write_of_error h d).2, Draft.write_nil]
  | _ => rfl

theorem useEach_toUse (xs : List Item) (d : Draft) :
    Draft.useEach (xs.map toUse) d = d.write (xs.flatMap written) := by
  induction xs generalizing d with
  | nil => exact d.write_nil.symm
  | cons x xs ih =>
    rw [List.map_cons, Draft.useEach, on_toUse, ih, Draft.write_write, List.flatMap_cons]

/-- An item that fits is passed by its reading. -/
theorem passes {x : Item} (h : x.Fits) :
    Source.Passes (x.reading.map Prod.fst) x.written (x.reading.map Prod.snd) := by
  cases x with
  | object m a passage =>
    cases hm : m.toBytes a with
    | ok s =>
      simp only [reading, written, hm]
      exact passage.passes (h s hm)
    | error e =>
      simp only [reading, written, hm]
      exact .nil
  | value v => exact .of_on (v.type.reads_encode v.value h)
  | varInt n =>
    have hreads := Reader.reads_varInt n.toNat n.toNat_lt
    rw [UInt32.ofNat_toNat] at hreads
    exact .of_on hreads
  | varLong n =>
    have hreads := Reader.reads_varLong n.toNat n.toNat_lt
    rw [UInt64.ofNat_toNat] at hreads
    exact .of_on hreads
  | octets s => exact .of_on (Reader.reads_take s)

/-- So is a row of items. -/
theorem passes_row {xs : List Item} (h : ∀ x ∈ xs, x.Fits) :
    Source.Passes ((xs.flatMap reading).map Prod.fst) (xs.flatMap written)
      ((xs.flatMap reading).map Prod.snd) := by
  induction xs with
  | nil => exact .nil
  | cons x xs ih =>
    obtain ⟨hx, hxs⟩ := List.forall_mem_cons.mp h
    simp only [List.flatMap_cons, List.map_append]
    exact (passes hx).append (ih hxs)

/-- A row is read from where it was written on, from the draft and from the buffer frozen from
it, and the cursor then stands where the write behind it began. -/
theorem useEach_reading {xs : List Item} (h : ∀ x ∈ xs, x.Fits) (d : Draft)
    (rest : List UInt8) :
    let after := Draft.useEach (xs.map toUse) d
    let e := (after.write rest).seek d.size
    let steps := xs.flatMap reading
    Source.useEach (steps.map Prod.fst) e = (steps.map Prod.snd, e.seek after.size) ∧
      (e.size < wordSize → Source.useEach (steps.map Prod.fst) e.freeze =
        (steps.map Prod.snd, e.freeze.seek after.size)) := by
  intro after e steps
  have hafter : after = d.write (xs.flatMap written) := useEach_toUse xs d
  have he : e = (d.write (xs.flatMap written ++ rest)).seek d.size := by
    simp only [e, hafter, Draft.write_write]
  have hsize : after.size = d.size + (xs.flatMap written).length := by
    rw [hafter, Draft.size_write]
  have hrow := passes_row h
  constructor
  · rw [hrow.useEach_eq e rest (he ▸ d.unread_seek_write _), hsize]
    rfl
  · intro _
    obtain ⟨hunread, hcursor⟩ : Source.unread e.freeze = xs.flatMap written ++ rest ∧
        e.freeze.cursor = d.size := by
      rw [he]
      exact d.freeze_seek_write _
    rw [hrow.useEach_eq e.freeze rest hunread, hsize, ← hcursor]
    rfl

end Item

/-- Objects keep what follows them in its place. One that does not map leaves the draft as it
was, and one that does is appended as the block of its octets. Where that is unread next, every
mapper reads its own outcome, a failure also, and passes over that block alone, and so does
skipping it; a mapper that takes the octets for the object reads it back. So a row of objects and
values, written with any mappers and passed in any way, is read part by part as it was written. -/
theorem objects_keep_alignment :
    (∀ {α : Type} (m : Mapper α) (a : α) (d : Draft),
      (∀ e, m.toBytes a = .error e →
        m.write a d = .error e ∧ (Draft.Use.writeObject m a).on d = d) ∧
      (∀ s, m.toBytes a = .ok s → m.write a d = .ok (d.write (block s)) ∧
        (Draft.Use.writeObject m a).on d = d.write (block s))) ∧
    (∀ (b : AnyBuffer) (s rest : List UInt8), s.length < UInt32.size →
      Source.unread b = block s ++ rest →
      (∀ {β : Type} (m : Mapper β),
        Source.read m.reader b = (m.ofBytes s, Source.consume (block s).length b)) ∧
      Source.read Reader.block b = (.ok s, Source.consume (block s).length b) ∧
      Source.unread (Source.consume (block s).length b) = rest) ∧
    (∀ {α : Type} (m m' : Mapper α) (a : α) (s : List UInt8) (d d' : Draft) (rest : List UInt8),
      m.toBytes a = .ok s → m'.ofBytes s = .ok a → s.length < UInt32.size →
      m.write a d = .ok d' →
      ((d'.write rest).seek d.size).GivesBack (Source.read m'.reader) a d'.size rest) ∧
    (∀ (xs : List Item) (d : Draft) (rest : List UInt8), (∀ x ∈ xs, x.Fits) →
      let after := Draft.useEach (xs.map Item.toUse) d
      let e := (after.write rest).seek d.size
      let steps := xs.flatMap Item.reading
      Source.useEach (steps.map Prod.fst) e = (steps.map Prod.snd, e.seek after.size) ∧
        (e.size < wordSize → Source.useEach (steps.map Prod.fst) e.freeze =
          (steps.map Prod.snd, e.freeze.seek after.size))) ∧
    (∀ v : Typed, v.type.Agrees (v.type.reread v.value) v.value) := by
  refine ⟨fun m a d => ⟨fun e h => m.write_of_error h d, fun s h => m.write_of_ok h d⟩, ?_, ?_,
    fun xs d rest h => Item.useEach_reading h d rest, fun v => v.type.agrees_reread v.value⟩
  · intro b s rest hs hb
    refine ⟨fun m => ?_, ?_, Source.unread_consume_append hb⟩
    · exact Source.read_of_on (m.on_reader hs rest) b hb
    · exact Source.read_of_reads (Reader.reads_block s hs) b hb
  · intro α m m' a s d d' rest hm hm' hs hwrite
    obtain rfl : d.write (block s) = d' := by
      rw [(Mapper.write_of_ok hm d).1] at hwrite
      exact Except.ok.inj hwrite
    have hreads : m'.reader.Reads (block s) a := fun rest => by rw [m'.on_reader hs rest, hm']
    exact d.givesBack_write (block s) rest a _ (Source.read_of_reads hreads)

/-- Numbers that take one octet, or are too great to map, and a mapper that maps nothing. -/
theorem numbers_keep_alignment :
    let small : Mapper Nat :=
      { toBytes n := if n < 256 then .ok [UInt8.ofNat n] else .error .object
        ofBytes s := .ok (Octet.value s) }
    let refusing : Mapper String :=
      { toBytes _ := .error .object, ofBytes _ := .error .object }
    let xs : List Item :=
      [.object small 7 (.map refusing), .object small 300 .skip, .value ⟨.string, "λ"⟩,
        .object small 9 .skip, .varInt 300, .object small 5 (.map small)]
    let d : Draft := .ofBytes [1]
    let b : AnyBuffer := .frozen (.ofBytes [1, 7, 4])
    let e : Draft := ((Draft.useEach (xs.map Item.toUse) d).write [2]).seek 1
    small.write 300 d = .error .object ∧
      Source.read refusing.reader b = (.error .object, Source.consume 2 b) ∧
      Source.read small.reader ((d.write [1, 5]).seek 1) = (.ok 5, (d.write [1, 5]).seek 3) ∧
      (∀ x ∈ xs, x.Fits) ∧ e.size < wordSize ∧
      Source.useEach [.read refusing.reader, .read Reader.text, .read Reader.block,
          .read Reader.varInt, .read small.reader] e.freeze =
        ([.outcome (.error .object : Except BufferError String), .outcome (.ok "λ"),
          .outcome (.ok ([9] : List UInt8)), .outcome (.ok (300 : UInt32)),
          .outcome (.ok (5 : Nat))], e.freeze.seek 12) := by
  intro small refusing xs d b e
  obtain ⟨hwrite, hread, hback, hrow, -⟩ := objects_keep_alignment
  have hblock (n : UInt8) : block [n] = [1, n] := by
    have hprefix : lengthPrefix 1 = [1] := VarInt.encode_of_lt (by decide)
    rw [block, List.length_singleton, hprefix, List.singleton_append]
  have hmapped (n : Nat) (p : Passage) : (Item.object small n p).Fits := by
    intro s hs
    simp only [small] at hs
    split at hs
    · rw [← Except.ok.inj hs, List.length_singleton]
      decide
    · cases hs
  have htext : (Item.value ⟨.string, "λ"⟩).Fits := by
    have hlength : (Utf8.encode "λ").length = 2 := by decide +kernel
    simp only [Item.Fits, Typed.Fits, Ty.Fits, hlength]
    decide
  have hfits : ∀ x ∈ xs, x.Fits := by
    simp only [xs, List.forall_mem_cons]
    exact ⟨hmapped 7 _, hmapped 300 _, htext, hmapped 9 _, trivial, hmapped 5 _, by simp⟩
  have hwritten : Draft.useEach (xs.map Item.toUse) d =
      { bytes := [1, 1, 7, 2, 0xCE, 0xBB, 1, 9, 0xAC, 0x02, 1, 5] } := by
    decide +kernel
  have hsize : e.size < wordSize := by
    simp only [e, hwritten]
    decide
  refine ⟨((hwrite small 300 d).1 .object rfl).1, ?_, ?_, hfits, hsize, ?_⟩
  · have hrefused := (hread b [7] [4] (by decide) (by rw [hblock]; rfl)).1 refusing
    rwa [hblock] at hrefused
  · have hfive := (hback small small 5 [5] d _ [] rfl (by decide) (by decide) rfl).draft
    rwa [hblock, Draft.write_nil] at hfive
  · have hafter : (Draft.useEach (xs.map Item.toUse) d).size = 12 := by
      rw [hwritten]
      rfl
    have hframe := (hrow xs d [2] hfits).2 hsize
    rw [hafter] at hframe
    exact hframe

end Switchboard
