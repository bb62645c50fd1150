import Switchboard.Proofs.Buffer.Unread
import Switchboard.Proofs.Buffer.Locality

/-!
# Reading with its arithmetic told

Positions are machine words, and reading adds, subtracts and slices with them. `Careful` is
reading with each such step told: it has no outcome where a sum is no machine word, a
difference is negative or a slice reaches beyond the octets. On every buffer whose cursor is
inside it ends, and as reading does (`Keeps`), because each step stands behind a check of what
is unread. Moving on is the exception: it adds before it looks (`advance_eq`).
-/

namespace Switchboard

namespace Position

def sub? (m n : Nat) : Option Nat := if n ≤ m then some (m - n) else none

/-- The octets from one position to another, if these are in order and inside. -/
def slice? (s : List UInt8) (i j : Nat) : Option (List UInt8) :=
  if i ≤ j ∧ j ≤ s.length then some ((s.take j).drop i) else none

variable {m n : Nat}

theorem add?_of_lt (h : m + n < wordSize) : add? m n = some (m + n) := if_pos h

theorem sub?_of_le (h : n ≤ m) : sub? m n = some (m - n) := if_pos h

theorem slice?_of_le {s : List UInt8} {i j : Nat} (hij : i ≤ j) (hj : j ≤ s.length) :
    slice? s i j = some ((s.take j).drop i) := if_pos ⟨hij, hj⟩

end Position

namespace AnyBuffer

def bytes : AnyBuffer → List UInt8
  | draft d => d.bytes
  | frozen b => b.bytes

def seek (n : Nat) : AnyBuffer → AnyBuffer
  | draft d => draft (d.seek n)
  | frozen b => frozen (b.seek n)

theorem length_bytes (b : AnyBuffer) : b.bytes.length = b.size := by cases b <;> rfl

theorem unread_eq (b : AnyBuffer) : Source.unread b = b.bytes.drop b.cursor := by
  cases b <;> rfl

theorem consume_eq (n : Nat) (b : AnyBuffer) : Source.consume n b = b.seek (b.cursor + n) := by
  cases b <;> rfl

theorem advance_eq (n : Nat) (b : AnyBuffer) :
    Source.advance n b = (Position.add? b.cursor n).map fun stop => b.seek (min stop b.size) := by
  cases b <;> exact Option.map_map ..

/-- Moving on stops the program exactly where the sum is no machine word. -/
theorem advance_eq_none_iff {n : Nat} {b : AnyBuffer} :
    Source.advance n b = none ↔ wordSize ≤ b.cursor + n := by
  rw [advance_eq, Option.map_eq_none_iff, Position.add?, ite_eq_right_iff, Nat.not_lt.symm]
  simp

theorem length_unread (b : AnyBuffer) : (Source.unread b).length = b.size - b.cursor := by
  rw [unread_eq, List.length_drop, length_bytes]

@[simp] theorem cursor_seek (n : Nat) (b : AnyBuffer) : (b.seek n).cursor = n := by
  cases b <;> rfl

@[simp] theorem size_seek (n : Nat) (b : AnyBuffer) : (b.seek n).size = b.size := by
  cases b <;> rfl

section

variable {b : AnyBuffer} {n : Nat}

/-- Octets that are there end where the buffer does or before. -/
theorem Inside.reach_le (h : b.Inside) (hn : n ≤ (Source.unread b).length) :
    b.cursor + n ≤ b.size := by
  have hcursor := h.cursor_le
  rw [length_unread] at hn
  omega

/-- Where so many octets are unread, the sum of the cursor and their number is a machine word. -/
theorem Inside.reach_lt (h : b.Inside) (hn : n ≤ (Source.unread b).length) :
    b.cursor + n < wordSize :=
  calc b.cursor + n ≤ b.size := h.reach_le hn
    _ < 2 ^ 63 := h.size_lt
    _ < wordSize := by decide

theorem Inside.consume (h : b.Inside) (hn : n ≤ (Source.unread b).length) :
    (Source.consume n b).Inside := by
  rw [consume_eq]
  constructor
  · rw [cursor_seek, size_seek]
    exact h.reach_le hn
  · rw [size_seek]
    exact h.size_lt

end

end AnyBuffer

/-- A computation on a buffer that has no outcome where a step of its arithmetic has none. -/
abbrev Careful (α : Type) := ExceptT BufferError (StateT AnyBuffer Option) α

namespace Careful

variable {α β : Type}

def step (x : Option α) : Careful α := fun b => x.map fun a => (.ok a, b)

def remaining : Careful Nat := do
  let b ← get
  step (Position.sub? b.size b.cursor)

def unread : Careful (List UInt8) := do
  let b ← get
  step (Position.slice? b.bytes b.cursor b.size)

def advance (n : Nat) : Careful Unit := do
  let b ← get
  set (b.seek (min (← step (Position.add? b.cursor n)) b.size))

def ensure (n : Nat) : Careful Unit := do
  let left ← remaining
  if left < n then throw (.underflow n left)

/-- The next `n` octets, copied out of the unread ones. -/
def array (n : Nat) : Careful (List UInt8) := do
  ensure n
  let out ← step (Position.slice? (← unread) 0 n)
  advance n
  return out

/-- The next `n` octets, as a slice of all. -/
def raw (n : Nat) : Careful (List UInt8) := do
  ensure n
  let b ← get
  let out ← step (Position.slice? b.bytes b.cursor (← step (Position.add? b.cursor n)))
  set (b.seek (← step (Position.add? b.cursor n)))
  return out

def word (size : Nat) : Careful Nat := do return Octet.value (← array size)
def u8 : Careful UInt8 := do return UInt8.ofNat (← word 1)
def u16 : Careful UInt16 := do return UInt16.ofNat (← word 2)
def u32 : Careful UInt32 := do return UInt32.ofNat (← word 4)
def u64 : Careful UInt64 := do return UInt64.ofNat (← word 8)
def bool : Careful Bool := do return (← u8) != 0

def char : Careful Char := do
  let scalar ← u32
  if h : scalar.isValidChar then return ⟨scalar, h⟩ else throw (.invalidChar scalar)

def identity : Careful Identity := do return ⟨← u64, ← u64⟩

def varNat (w : VarInt.Width) : Careful Nat := do
  match VarInt.peek w (← unread) with
  | .found value length =>
    advance length
    return value
  | .incomplete =>
    let needed ← step (Position.add? (← remaining) 1)
    throw (.underflow needed (← remaining))
  | .tooLong => throw .varIntTooLong

def varInt : Careful UInt32 := do return UInt32.ofNat (← varNat .int)

def block : Careful (List UInt8) := do raw (← varInt).toNat

def text : Careful String := do
  match Utf8.decode (← block) with
  | .ok text => return text
  | .error fault => throw (.invalidUtf8 fault)

def buffer : Careful Buffer := do return Buffer.ofBytes (← block)

def nullable (x : Careful α) : Careful (Option α) := do
  if ← bool then return some (← x) else return none

def timesAfter (x : Careful α) (seen : List α) : (n : Nat) → Careful (List α)
  | 0 => return seen.reverse
  | n + 1 => do timesAfter x ((← x) :: seen) n

/-- A count and that many values; room is made for no more of them than octets are unread. -/
def counted (x : Careful α) : Careful (List α) := do
  let n ← varInt
  let _room ← remaining
  timesAfter x [] n.toNat

def ofType : (t : Ty) → Careful t.Value
  | .bool => bool
  | .u8 => u8
  | .i8 => do return (← u8).toInt8
  | .u16 => u16
  | .i16 => do return (← u16).toInt16
  | .u32 => u32
  | .i32 => do return (← u32).toInt32
  | .u64 => u64
  | .i64 => do return (← u64).toInt64
  | .f32 => u32
  | .f64 => u64
  | .char => char
  | .uuid => identity
  | .unit => return ()
  | .string => text
  | .bytes => block
  | .buf => buffer
  | .opt t => nullable (ofType t)
  | .vec t => counted (ofType t)

def object (m : Mapper α) : Careful α := do
  match m.ofBytes (← block) with
  | .ok a => return a
  | .error e => throw e

end Careful

namespace Careful

variable {α β : Type} {x : Careful α} {r : Reader α} {b : AnyBuffer}

theorem bind_eq (x : Careful α) (f : α → Careful β) (b : AnyBuffer) :
    (x >>= f) b = match x b with
      | some (.ok a, b) => f a b
      | some (.error e, b) => some (.error e, b)
      | none => none := by
  cases h : x b with
  | none => simp only [bind, ExceptT.bind, ExceptT.mk, StateT.bind, h, Option.bind]
  | some after =>
    obtain ⟨outcome, b'⟩ := after
    simp only [bind, ExceptT.bind, ExceptT.mk, StateT.bind, h, Option.bind]
    cases outcome with
    | ok a => rfl
    | error e => rfl

theorem bind_of_ok {f : α → Careful β} {b' : AnyBuffer} {a : α} (h : x b = some (.ok a, b')) :
    (x >>= f) b = f a b' := by
  rw [bind_eq, h]

theorem get_bind (f : AnyBuffer → Careful β) (b : AnyBuffer) : (get >>= f) b = f b b := rfl

theorem set_bind (b' : AnyBuffer) (f : PUnit → Careful β) (b : AnyBuffer) :
    (set b' >>= f) b = f ⟨⟩ b' := rfl

theorem step_some (a : α) (b : AnyBuffer) : step (some a) b = some (.ok a, b) := rfl

/-- On every buffer inside, the computation ends as the reader does, which takes octets that
are there. -/
def Keeps (x : Careful α) (r : Reader α) : Prop :=
  ∀ b : AnyBuffer, b.Inside → ∃ outcome n, n ≤ (Source.unread b).length ∧
    r.on (Source.unread b) = (outcome, (Source.unread b).drop n) ∧
    x b = some (outcome, Source.consume n b)

/-- On a buffer inside, what keeps a reader runs to its end and does the same. -/
theorem Keeps.run_eq (h : x.Keeps r) (hb : b.Inside) : x b = some (Source.read r b) := by
  obtain ⟨outcome, n, hn, hon, hx⟩ := h b hb
  have htaken : (Source.unread b).length - ((Source.unread b).drop n).length = n := by
    rw [List.length_drop]
    omega
  simp only [Source.read, hon, hx, htaken]

namespace Keeps

theorem of_run {outcome : Except BufferError α} (hon : ∀ s, r.on s = (outcome, s))
    (hx : ∀ b : AnyBuffer, b.Inside → x b = some (outcome, b)) : x.Keeps r := fun b hb =>
  ⟨outcome, 0, Nat.zero_le _, hon _, by rw [hx b hb, LawfulSource.consume_zero]⟩

theorem pure (a : α) : Keeps (Pure.pure a) (Pure.pure a) :=
  of_run (fun _ => rfl) fun _ _ => rfl

theorem throw (e : BufferError) : Keeps (α := α) (MonadExcept.throw e) (MonadExcept.throw e) :=
  of_run (fun _ => rfl) fun _ _ => rfl

/-- The first part leaves the buffer inside, where the second keeps its reader. -/
theorem bind {f : α → Careful β} {g : α → Reader β} (h : x.Keeps r)
    (hf : ∀ a, (f a).Keeps (g a)) : (x >>= f).Keeps (r >>= g) := by
  intro b hb
  obtain ⟨outcome, n, hn, hon, hx⟩ := h b hb
  rw [Reader.on_bind, hon, bind_eq, hx]
  cases outcome with
  | error e => exact ⟨_, n, hn, rfl, rfl⟩
  | ok a =>
    obtain ⟨outcome', m, hm, hon', hx'⟩ := hf a _ (hb.consume hn)
    rw [LawfulSource.unread_consume] at hm hon'
    rw [LawfulSource.consume_consume] at hx'
    rw [List.length_drop] at hm
    rw [List.drop_drop] at hon'
    exact ⟨outcome', n + m, by omega, hon', hx'⟩

theorem map (h : x.Keeps r) (g : α → β) :
    Keeps (x >>= fun a => Pure.pure (g a)) (r >>= fun a => Pure.pure (g a)) :=
  h.bind fun a => pure (g a)

end Keeps

theorem remaining_eq (hb : b.Inside) : remaining b = some (.ok (Source.unread b).length, b) := by
  rw [remaining, get_bind, Position.sub?_of_le hb.cursor_le, AnyBuffer.length_unread, step_some]

theorem unread_eq (hb : b.Inside) : unread b = some (.ok (Source.unread b), b) := by
  have hall : (b.bytes.take b.size).drop b.cursor = Source.unread b := by
    rw [← b.length_bytes, List.take_length, AnyBuffer.unread_eq]
  rw [unread, get_bind, Position.slice?_of_le hb.cursor_le (Nat.le_of_eq b.length_bytes.symm), hall,
    step_some]

/-- Moving on has an outcome where it has one as it runs. -/
theorem advance_eq (n : Nat) (b : AnyBuffer) :
    advance n b = (Source.advance n b).map fun b => (.ok (), b) := by
  rw [advance, get_bind, AnyBuffer.advance_eq]
  cases Position.add? b.cursor n with
  | none => rfl
  | some stop => rfl

/-- Past octets that are there, moving on is consuming them. -/
theorem advance_of_le (hb : b.Inside) {n : Nat} (hn : n ≤ (Source.unread b).length) :
    advance n b = some (.ok (), Source.consume n b) := by
  rw [advance_eq, AnyBuffer.advance_eq, Position.add?_of_lt (hb.reach_lt hn), Option.map_some,
    Nat.min_eq_left (hb.reach_le hn), Option.map_some, AnyBuffer.consume_eq]

theorem ensure_eq (hb : b.Inside) (n : Nat) :
    ensure n b = some (if (Source.unread b).length < n
      then .error (.underflow n (Source.unread b).length) else .ok (), b) := by
  rw [ensure, bind_of_ok (remaining_eq hb)]
  split <;> rfl

theorem keeps_remaining : remaining.Keeps Reader.remaining := fun b hb =>
  ⟨_, 0, Nat.zero_le _, rfl, by rw [remaining_eq hb, LawfulSource.consume_zero]⟩

theorem keeps_unread : unread.Keeps fun s => (.ok s, s) := fun b hb =>
  ⟨_, 0, Nat.zero_le _, rfl, by rw [unread_eq hb, LawfulSource.consume_zero]⟩

theorem keeps_ensure (n : Nat) : (ensure n).Keeps (Reader.ensure n) := by
  intro b hb
  refine ⟨_, 0, Nat.zero_le _, ?_, (ensure_eq hb n).trans (by rw [LawfulSource.consume_zero])⟩
  simp only [Reader.on, Reader.ensure, Octet.reaches_eq, decide_eq_true_eq, List.drop_zero]
  rcases Nat.lt_or_ge (Source.unread b).length n with hlt | hge
  · rw [if_pos hlt, if_neg (Nat.not_le.mpr hlt)]
  · rw [if_neg (Nat.not_lt.mpr hge), if_pos hge]

/-- Behind the check, a computation that takes `n` octets does so as a reader does. -/
theorem keeps_take {n : Nat} {y : Careful (List UInt8)}
    (hy : ∀ b : AnyBuffer, b.Inside → n ≤ (Source.unread b).length →
      y b = some (.ok ((Source.unread b).take n), Source.consume n b)) :
    (ensure n >>= fun _ => y).Keeps (Reader.take n) := by
  intro b hb
  rw [bind_eq, ensure_eq hb]
  rcases Nat.lt_or_ge (Source.unread b).length n with hlt | hge
  · refine ⟨_, 0, Nat.zero_le _, Reader.on_take_of_lt hlt, ?_⟩
    rw [if_pos hlt, LawfulSource.consume_zero]
  · refine ⟨_, n, hge, Reader.on_take_of_le hge, ?_⟩
    rw [if_neg (Nat.not_lt.mpr hge)]
    exact hy b hb hge

theorem keeps_array (n : Nat) : (array n).Keeps (Reader.take n) := by
  refine keeps_take fun b hb hn => ?_
  rw [bind_of_ok (unread_eq hb), Position.slice?_of_le (Nat.zero_le n) hn,
    bind_of_ok (step_some _ b), bind_of_ok (advance_of_le hb hn)]
  rfl

theorem keeps_raw (n : Nat) : (raw n).Keeps (Reader.take n) := by
  refine keeps_take fun b hb hn => ?_
  have hlt := hb.reach_lt hn
  have hend : b.cursor + n ≤ b.bytes.length := by
    rw [b.length_bytes]
    exact hb.reach_le hn
  have hslice : (b.bytes.take (b.cursor + n)).drop b.cursor = (Source.unread b).take n := by
    rw [AnyBuffer.unread_eq, List.drop_take, Nat.add_sub_cancel_left]
  rw [get_bind, Position.add?_of_lt hlt, bind_of_ok (step_some _ b),
    Position.slice?_of_le (Nat.le_add_right _ n) hend, hslice, bind_of_ok (step_some _ b),
    bind_of_ok (step_some _ b), set_bind, AnyBuffer.consume_eq]
  rfl

/-- The octets of an integer that was found are there, so its end has a position. -/
theorem keeps_varNat (w : VarInt.Width) : (varNat w).Keeps (Reader.varNat w) := by
  intro b hb
  rw [varNat, bind_of_ok (unread_eq hb)]
  cases hp : VarInt.peek w (Source.unread b) with
  | found value length =>
    have hle := (VarInt.peek_found w hp).2
    exact ⟨_, length, hle, Reader.on_varNat_of_found hp, bind_of_ok (advance_of_le hb hle)⟩
  | incomplete =>
    have hsize := hb.size_lt
    have hword : wordSize = 2 ^ 64 := rfl
    have hlt : (Source.unread b).length + 1 < wordSize := by
      rw [AnyBuffer.length_unread]
      omega
    refine ⟨_, 0, Nat.zero_le _, Reader.on_varNat_of_incomplete hp, ?_⟩
    simp only
    rw [bind_of_ok (remaining_eq hb), Position.add?_of_lt hlt, bind_of_ok (step_some _ b),
      bind_of_ok (remaining_eq hb), LawfulSource.consume_zero]
    rfl
  | tooLong =>
    refine ⟨_, 0, Nat.zero_le _, Reader.on_varNat_of_tooLong hp, ?_⟩
    rw [LawfulSource.consume_zero]
    rfl

theorem keeps_word (size : Nat) : (word size).Keeps (Reader.word size) :=
  (keeps_array size).map Octet.value

theorem keeps_u8 : u8.Keeps Reader.u8 := (keeps_word 1).map UInt8.ofNat
theorem keeps_u16 : u16.Keeps Reader.u16 := (keeps_word 2).map UInt16.ofNat
theorem keeps_u32 : u32.Keeps Reader.u32 := (keeps_word 4).map UInt32.ofNat
theorem keeps_u64 : u64.Keeps Reader.u64 := (keeps_word 8).map UInt64.ofNat
theorem keeps_bool : bool.Keeps Reader.bool := keeps_u8.map (· != 0)

theorem keeps_char : char.Keeps Reader.char :=
  keeps_u32.bind fun scalar => by
    by_cases h : scalar.isValidChar
    · simp only [dif_pos h]
      exact .pure _
    · simp only [dif_neg h]
      exact .throw _

theorem keeps_identity : identity.Keeps Identity.reader :=
  keeps_u64.bind fun high => keeps_u64.map (Identity.mk high)

theorem keeps_varInt : varInt.Keeps Reader.varInt := (keeps_varNat .int).map UInt32.ofNat

theorem keeps_block : block.Keeps Reader.block :=
  keeps_varInt.bind fun n => keeps_raw n.toNat

theorem keeps_text : text.Keeps Reader.text :=
  keeps_block.bind fun s => by
    cases Utf8.decode s with
    | ok text => exact .pure text
    | error fault => exact .throw _

theorem keeps_buffer : buffer.Keeps Reader.buffer := keeps_block.map Buffer.ofBytes

theorem keeps_object (m : Mapper α) : (object m).Keeps m.reader :=
  keeps_block.bind fun s => by
    cases m.ofBytes s with
    | ok a => exact .pure a
    | error e => exact .throw e

theorem keeps_nullable (h : x.Keeps r) : (nullable x).Keeps (Reader.nullable r) :=
  keeps_bool.bind fun present => by
    cases present with
    | true => exact h.map some
    | false => exact .pure none

theorem keeps_timesAfter (h : x.Keeps r) (seen : List α) (n : Nat) :
    (timesAfter x seen n).Keeps (Reader.timesAfter r seen n) := by
  induction n generalizing seen with
  | zero => exact .pure seen.reverse
  | succ n ih =>
    rw [Reader.timesAfter_succ]
    exact h.bind fun a => ih (a :: seen)

theorem keeps_counted (h : x.Keeps r) : (counted x).Keeps (Reader.counted r) :=
  keeps_varInt.bind fun n => keeps_remaining.bind fun _ => keeps_timesAfter h [] n.toNat

/-- A value of any type is read carefully as it is read. -/
theorem keeps_ofType (t : Ty) : (ofType t).Keeps t.reader := by
  induction t with
  | bool => exact keeps_bool
  | u8 => exact keeps_u8
  | i8 => exact keeps_u8.map UInt8.toInt8
  | u16 => exact keeps_u16
  | i16 => exact keeps_u16.map UInt16.toInt16
  | u32 => exact keeps_u32
  | i32 => exact keeps_u32.map UInt32.toInt32
  | u64 => exact keeps_u64
  | i64 => exact keeps_u64.map UInt64.toInt64
  | f32 => exact keeps_u32
  | f64 => exact keeps_u64
  | char => exact keeps_char
  | uuid => exact keeps_identity
  | unit => exact .pure ()
  | string => exact keeps_text
  | bytes => exact keeps_block
  | buf => exact keeps_buffer
  | opt t ih => exact keeps_nullable ih
  | vec t ih => exact keeps_counted ih

end Careful

end Switchboard
