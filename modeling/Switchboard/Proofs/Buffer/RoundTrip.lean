import Mathlib.Data.List.Forall2
import Switchboard.Proofs.Buffer.Source
import Switchboard.Buffer.Value

/-!
# Typed values are read back

A value whose lengths fit their prefixes is read back from where its octets begin, up to
the nested buffers in it, which come back as new buffers of their unread octets. The
induction is on the type; that whatever follows is left alone is what lets it go through
counts, options and nested blocks. A list of values of any types is then read back in
its order, from the draft it was written to and from the frozen buffer.
-/

namespace Switchboard

namespace Ty

/-- Every length and every count that stands in front of a part of the value is a 32-bit
word. -/
def Fits : (t : Ty) → t.Value → Prop
  | string, text => (Utf8.encode text).length < UInt32.size
  | bytes, s => s.length < UInt32.size
  | buf, b => b.unread.length < UInt32.size
  | opt t, v => ∀ w ∈ v, t.Fits w
  | vec t, vs => vs.length < UInt32.size ∧ ∀ v ∈ vs, t.Fits v
  | bool, _ | u8, _ | i8, _ | u16, _ | i16, _ | u32, _ | i32, _ | u64, _ | i64, _ | f32, _
  | f64, _ | char, _ | uuid, _ | unit, _ => True

/-- The value as it is read back: each nested buffer is a new one of its unread octets. -/
def reread : (t : Ty) → t.Value → t.Value
  | buf, b => Buffer.ofBytes b.unread
  | opt t, v => v.map t.reread
  | vec t, vs => vs.map t.reread
  | bool, v | u8, v | i8, v | u16, v | i16, v | u32, v | i32, v | u64, v | i64, v | f32, v
  | f64, v | char, v | uuid, v | unit, v | string, v | bytes, v => v

/-- Equality of values that compares nested buffers by their unread octets. -/
def Agrees : (t : Ty) → t.Value → t.Value → Prop
  | buf, b, c => b.agrees c
  | opt _, none, none => True
  | opt t, some v, some w => t.Agrees v w
  | opt _, some _, none | opt _, none, some _ => False
  | vec t, vs, ws => List.Forall₂ t.Agrees vs ws
  | bool, v, w | u8, v, w | i8, v, w | u16, v, w | i16, v, w | u32, v, w | i32, v, w | u64, v, w
  | i64, v, w | f32, v, w | f64, v, w | char, v, w | uuid, v, w | unit, v, w | string, v, w
  | bytes, v, w => v = w

theorem agrees_reread (t : Ty) (v : t.Value) : t.Agrees (t.reread v) v := by
  induction t with
  | buf => simp [Agrees, reread, Buffer.agrees, Buffer.unread, Buffer.ofBytes]
  | opt t ih =>
    cases v with
    | none => trivial
    | some v => exact ih v
  | vec t ih =>
    simp only [Agrees, reread, List.forall₂_map_left_iff]
    exact List.forall₂_same.mpr fun v _ => ih v
  | _ => rfl

/-- The reader of a type takes exactly the octets of a value of that type. -/
theorem reads_encode (t : Ty) (v : t.Value) (h : t.Fits v) :
    t.reader.Reads (t.encode v) (t.reread v) := by
  induction t with
  | bool => exact Reader.reads_bool v
  | u8 => exact Reader.reads_u8 v
  | i8 => exact Reader.reads_i8 v
  | u16 => exact Reader.reads_u16 v
  | i16 => exact Reader.reads_i16 v
  | u32 => exact Reader.reads_u32 v
  | i32 => exact Reader.reads_i32 v
  | u64 => exact Reader.reads_u64 v
  | i64 => exact Reader.reads_i64 v
  | f32 => exact Reader.reads_u32 v
  | f64 => exact Reader.reads_u64 v
  | char => exact Reader.reads_char v
  | uuid => exact Reader.reads_identity v
  | unit => exact Reader.Reads.pure ()
  | string => exact Reader.reads_text v h
  | bytes => exact Reader.reads_block v h
  | buf => exact Reader.reads_buffer v.unread h
  | opt t ih =>
    cases v with
    | none => exact Reader.reads_nullable_none t.reader
    | some v => exact Reader.reads_nullable_some (ih v (h v rfl))
  | vec t ih => exact Reader.reads_counted v (fun w hw => ih w (h.2 w hw)) h.1

end Ty

namespace Typed

def Fits (v : Typed) : Prop := v.type.Fits v.value

def reread (v : Typed) : Typed := ⟨v.type, v.type.reread v.value⟩

end Typed

def Draft.writeEach (d : Draft) (vs : List Typed) : Draft :=
  vs.foldl (fun d v => d.write v.encode) d

theorem Draft.writeEach_eq (d : Draft) (vs : List Typed) :
    d.writeEach vs = d.write (vs.flatMap Typed.encode) := by
  induction vs generalizing d with
  | nil => simp [writeEach]
  | cons v vs ih =>
    rw [writeEach, List.foldl_cons, ← writeEach, ih, write_write, List.flatMap_cons]

namespace Source

variable {σ : Type} [Source σ]

def readEach : List Ty → σ → Except BufferError (List Typed) × σ
  | [], b => (.ok [], b)
  | t :: ts, b =>
    match read t.reader b with
    | (.error e, b) => (.error e, b)
    | (.ok v, b) =>
      match readEach ts b with
      | (.error e, b) => (.error e, b)
      | (.ok vs, b) => (.ok (⟨t, v⟩ :: vs), b)

/-- Each value is found where the one before it ended. -/
theorem readEach_of_unread [LawfulSource σ] (vs : List Typed) (h : ∀ v ∈ vs, v.Fits) (b : σ)
    (rest : List UInt8) (hb : unread b = vs.flatMap Typed.encode ++ rest) :
    readEach (vs.map Typed.type) b =
      (.ok (vs.map Typed.reread), consume (vs.flatMap Typed.encode).length b) := by
  induction vs generalizing b with
  | nil => simp [readEach, LawfulSource.consume_zero]
  | cons v vs ih =>
    rw [List.flatMap_cons, List.append_assoc] at hb
    have hv := read_of_reads (v.type.reads_encode v.value (h v (List.mem_cons_self ..))) b hb
    have hnext : unread (consume v.encode.length b) = vs.flatMap Typed.encode ++ rest :=
      unread_consume_append hb
    have hvs := ih (fun w hw => h w (List.mem_cons_of_mem v hw)) (consume v.encode.length b) hnext
    rw [LawfulSource.consume_consume] at hvs
    simp only [Typed.encode] at hvs
    simp only [List.map_cons, readEach, hv, hvs, List.flatMap_cons, List.length_append,
      Typed.encode]
    rfl

end Source

/-- A way of reading buffers gives `a` and stops at `past` with `rest` unread, on a draft
and on the buffer frozen from it, whose positions are machine words. -/
structure Draft.GivesBack {α : Type} (e : Draft)
    (run : {σ : Type} → [Source σ] → σ → Except BufferError α × σ) (a : α) (past : Nat)
    (rest : List UInt8) : Prop where
  draft : run e = (.ok a, e.seek past)
  unread : Source.unread (e.seek past) = rest
  frozen : e.size < wordSize → run e.freeze = (.ok a, e.freeze.seek past)
  unread_frozen : e.size < wordSize → Source.unread (e.freeze.seek past) = rest

/-- What takes `s` off the front of any lawful source gives it back from the place in a
draft where `s` was written. -/
theorem Draft.givesBack_write {α : Type} (d : Draft) (s rest : List UInt8) (a : α)
    (run : {σ : Type} → [Source σ] → σ → Except BufferError α × σ)
    (h : ∀ {σ : Type} [Source σ] [LawfulSource σ] (b : σ), Source.unread b = s ++ rest →
      run b = (.ok a, Source.consume s.length b)) :
    GivesBack (((d.write s).write rest).seek d.size) run a (d.write s).size rest := by
  have hstart : Source.unread (((d.write s).write rest).seek d.size) = s ++ rest := by
    rw [write_write]
    exact d.unread_seek_write (s ++ rest)
  have hrest : Source.unread (((d.write s).write rest).seek (d.write s).size) = rest :=
    (d.write s).unread_seek_write rest
  have hcursor : d.size ≤ ((d.write s).write rest).size := by
    simp only [size_write]
    omega
  constructor
  · rw [h _ hstart, size_write]
    rfl
  · exact hrest
  · intro _
    have hfrozen : Source.unread
        ((Buffer.ofBytes ((d.write s).write rest).bytes).seek d.size) = s ++ rest := hstart
    rw [freeze_seek _ _ hcursor, h _ hfrozen, size_write]
    rfl
  · intro _
    rw [freeze_seek _ _ hcursor]
    exact hrest

/-- A value is read back from where it was written, and the cursor then stands where the
write after it began; values written in a row are read back in their order until nothing
is unread. -/
theorem values_read_back (d : Draft) (rest : List UInt8) :
    (∀ (t : Ty) (v : t.Value), t.Fits v →
      t.Agrees (t.reread v) v ∧
      (((d.write (t.encode v)).write rest).seek d.size).GivesBack
        (Source.read t.reader) (t.reread v) (d.write (t.encode v)).size rest) ∧
    (∀ vs : List Typed, (∀ v ∈ vs, v.Fits) →
      ((d.writeEach vs).seek d.size).GivesBack
        (Source.readEach (vs.map Typed.type)) (vs.map Typed.reread) (d.writeEach vs).size []) := by
  constructor
  · intro t v h
    exact ⟨t.agrees_reread v, d.givesBack_write _ rest _ _
      (Source.read_of_reads (t.reads_encode v h))⟩
  · intro vs h
    have hback := d.givesBack_write (vs.flatMap Typed.encode) [] _ _
      (fun b => Source.readEach_of_unread vs h b [])
    rw [Draft.write_nil, ← Draft.writeEach_eq] at hback
    exact hback

/-- A list with a partly read buffer in it and a text, behind two octets that were there. -/
theorem nested_values_read_back :
    let vs : List Typed :=
      [⟨.vec (.opt .buf), [none, some { bytes := [1, 2, 3], cursor := 1 }]⟩, ⟨.string, "λ"⟩]
    let e := (Draft.ofBytes [7, 7]).writeEach vs
    (∀ v ∈ vs, v.Fits) ∧ e.size < wordSize ∧
      Source.readEach [.vec (.opt .buf), .string] (e.seek 2).freeze =
        (.ok [⟨.vec (.opt .buf), [none, some (.ofBytes [2, 3])]⟩, ⟨.string, "λ"⟩],
          (e.seek 2).freeze.seek e.size) := by
  intro vs e
  have hfits : ∀ v ∈ vs, v.Fits := by
    simp [vs, Typed.Fits, Ty.Fits, Buffer.unread, UInt32.size]
    decide +kernel
  have hsize : e.size < wordSize := by
    have : e.size = 11 := by decide +kernel
    simp [this, wordSize, UInt64.size]
  exact ⟨hfits, hsize, ((values_read_back (Draft.ofBytes [7, 7]) []).2 vs hfits).frozen hsize⟩

end Switchboard
