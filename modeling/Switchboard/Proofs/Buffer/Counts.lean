import Switchboard.Proofs.Buffer.Locality

/-!
# Announced counts

Arguments and list elements follow a count that the peer chose. An invocation is refused at once
when the count exceeds the unread octets; that check turns away only what would be short of
octets anyway (`SameValues`). The elements of a list are read without such a check, but each of
them takes an octet unless it is a unit, so a count that is too great runs out of octets before
more elements were read than there are octets (`stops_short`).
-/

namespace Switchboard

/-- The reader of an invocation that trusts the announced count. -/
def Invocation.trustingReader : Reader Invocation := do
  let target ← Reader.text
  let method ← Reader.text
  let expectsResult ← Reader.bool
  let count ← Reader.varInt
  let arguments ← Reader.times count.toNat Reader.buffer
  return { target, method, expectsResult, arguments }

namespace Reader

variable {α β : Type}

/-- Two readers that accept the same octets, give the same values for them and leave the same
octets unread. Their errors may differ. -/
def SameValues (r r' : Reader α) : Prop :=
  ∀ (s : List UInt8) (a : α) (rest : List UInt8), r.on s = (.ok a, rest) ↔ r'.on s = (.ok a, rest)

/-- The same reader may come first. -/
theorem SameValues.bind {r : Reader α} {f g : α → Reader β} (h : ∀ a, SameValues (f a) (g a)) :
    SameValues (r >>= f) (r >>= g) := by
  intro s b rest
  rw [on_bind, on_bind]
  cases r.on s with
  | mk outcome left =>
    cases outcome with
    | error e => exact Iff.rfl
    | ok a => exact h a left b rest

/-- A check that asks for no more octets than are taken behind it. -/
theorem sameValues_ensure {r : Reader α} (hr : r.Local) {n : Nat}
    (hlong : ∀ {s : List UInt8} {a : α} {k : Nat}, r.Takes s a k → n ≤ k) :
    SameValues (ensure n >>= fun _ => r) r := by
  intro s a rest
  rcases Nat.lt_or_ge s.length n with hlt | hle
  · rw [on_ensure_of_lt hlt]
    constructor
    · intro h
      cases h
    · intro h
      obtain ⟨k, hk⟩ := hr.taken h
      have := hlong hk
      have := hk.le
      omega
  · rw [on_ensure_of_le hle]

/-- The reader takes an octet at least for each value. -/
def Hungry (r : Reader α) : Prop :=
  ∀ ⦃s : List UInt8⦄ ⦃a : α⦄ ⦃k : Nat⦄, r.Takes s a k → 0 < k

/-- A hungry reader is hungry whatever is read after it. -/
theorem Hungry.bind {r : Reader α} {f : α → Reader β} (h : r.Hungry) (hr : r.Local)
    (hf : ∀ a, (f a).Local) : (r >>= f).Hungry := by
  intro s b k hk
  obtain ⟨a, n, m, hn, -, rfl⟩ := hk.of_bind hr hf
  exact Nat.add_pos_left (h hn) m

theorem Hungry.map {r : Reader α} (h : r.Hungry) (hr : r.Local) (g : α → β) :
    (r >>= fun a => Pure.pure (g a)).Hungry :=
  h.bind hr fun a => .pure (g a)

theorem hungry_word {size : Nat} (h : 0 < size) : (word size).Hungry := by
  have htake : (take size).Hungry := by
    intro s a k hk
    rw [(takes_take_iff.mp hk).1]
    exact h
  exact htake.map (local_take size) Octet.value

theorem hungry_u8 : u8.Hungry := (hungry_word (by decide)).map (local_word 1) UInt8.ofNat
theorem hungry_u16 : u16.Hungry := (hungry_word (by decide)).map (local_word 2) UInt16.ofNat
theorem hungry_u32 : u32.Hungry := (hungry_word (by decide)).map (local_word 4) UInt32.ofNat
theorem hungry_u64 : u64.Hungry := (hungry_word (by decide)).map (local_word 8) UInt64.ofNat
theorem hungry_bool : bool.Hungry := hungry_u8.map local_u8 (· != 0)

theorem hungry_char : char.Hungry :=
  hungry_u32.bind local_u32 fun scalar => by
    by_cases h : scalar.isValidChar
    · simp only [dif_pos h]
      exact .pure _
    · simp only [dif_neg h]
      exact .throw (by simp)

theorem hungry_identity : Identity.reader.Hungry :=
  hungry_u64.bind local_u64 fun high => local_u64.map (Identity.mk high)

theorem hungry_varInt : varInt.Hungry := by
  have hnat : (varNat .int).Hungry := fun s n k hk =>
    (VarInt.peek_found .int (takes_varNat_iff.mp hk)).1
  exact hnat.map (local_varNat .int) UInt32.ofNat

theorem hungry_block : block.Hungry := hungry_varInt.bind local_varInt fun n => local_take n.toNat

theorem hungry_text : text.Hungry :=
  hungry_block.bind local_block fun s => by
    cases Utf8.decode s with
    | ok text => exact .pure text
    | error fault => exact .throw (by simp)

theorem hungry_nullable {r : Reader α} (hr : r.Local) : (nullable r).Hungry :=
  hungry_bool.bind local_bool fun present => by
    cases present with
    | true => exact hr.map some
    | false => exact .pure none

theorem hungry_counted {r : Reader α} (hr : r.Local) : (counted r).Hungry :=
  hungry_varInt.bind local_varInt fun n => local_timesAfter hr [] n.toNat

/-- As many values are read as were asked for. -/
theorem length_of_timesAfter {r : Reader α} {seen as : List α} {n : Nat} {s rest : List UInt8}
    (h : (timesAfter r seen n).on s = (.ok as, rest)) : as.length = seen.length + n := by
  induction n generalizing seen s with
  | zero =>
    cases h
    exact List.length_reverse
  | succ n ih =>
    rw [timesAfter_succ, on_bind] at h
    cases hs : r.on s with
    | mk outcome left =>
      rw [hs] at h
      cases outcome with
      | error e => cases h
      | ok a =>
        rw [ih h, List.length_cons]
        omega

/-- Elements that take an octet each: when there are fewer octets than elements to read, some
element cannot be read, and those before it are no more than there are octets. -/
theorem stops_short {r : Reader α} (hr : r.Local) (hungry : r.Hungry) (seen : List α) {n : Nat}
    {s : List UInt8} (h : s.length < n) :
    ∃ k ≤ s.length, ∃ (as : List α) (left : List UInt8) (e : BufferError) (rest : List UInt8),
      (timesAfter r seen k).on s = (.ok as, left) ∧ r.on left = (.error e, rest) ∧
        (timesAfter r seen n).on s = (.error e, rest) := by
  induction n generalizing seen s with
  | zero => exact absurd h (Nat.not_lt_zero _)
  | succ n ih =>
    cases hs : r.on s with
    | mk outcome behind =>
      cases outcome with
      | error e =>
        refine ⟨0, Nat.zero_le _, seen.reverse, s, e, behind, rfl, hs, ?_⟩
        rw [timesAfter_succ, on_bind, hs]
      | ok a =>
        obtain ⟨size, hsize⟩ := hr.taken hs
        have hbehind : s.drop size = behind := congrArg Prod.snd (hsize.on_eq.symm.trans hs)
        have hpos := hungry hsize
        have hle := hsize.le
        have hlength := congrArg List.length hbehind
        rw [List.length_drop] at hlength
        obtain ⟨k, hk, as, left, e, rest, hread, hstop, hwhole⟩ :=
          ih (a :: seen) (s := behind) (by omega)
        refine ⟨k + 1, by omega, as, left, e, rest, ?_, hstop, ?_⟩
        · rw [timesAfter_succ, on_bind, hs]
          exact hread
        · rw [timesAfter_succ, on_bind, hs]
          exact hwhole

end Reader

/-- Every type but the unit takes an octet at least. -/
theorem Ty.hungry_reader {t : Ty} (h : t ≠ .unit) : t.reader.Hungry := by
  cases t with
  | bool => exact Reader.hungry_bool
  | u8 => exact Reader.hungry_u8
  | i8 => exact Reader.hungry_u8.map Reader.local_u8 UInt8.toInt8
  | u16 => exact Reader.hungry_u16
  | i16 => exact Reader.hungry_u16.map Reader.local_u16 UInt16.toInt16
  | u32 => exact Reader.hungry_u32
  | i32 => exact Reader.hungry_u32.map Reader.local_u32 UInt32.toInt32
  | u64 => exact Reader.hungry_u64
  | i64 => exact Reader.hungry_u64.map Reader.local_u64 UInt64.toInt64
  | f32 => exact Reader.hungry_u32
  | f64 => exact Reader.hungry_u64
  | char => exact Reader.hungry_char
  | uuid => exact Reader.hungry_identity
  | unit => exact absurd rfl h
  | string => exact Reader.hungry_text
  | bytes => exact Reader.hungry_block
  | buf => exact fun _ _ _ => Reader.Takes.pos_of_buffer
  | opt t => exact Reader.hungry_nullable t.local_reader
  | vec t => exact Reader.hungry_counted t.local_reader

theorem lengthPrefix_ne_nil (n : Nat) : lengthPrefix n ≠ [] := by
  rw [lengthPrefix, VarInt.encode]
  split <;> exact List.cons_ne_nil _ _

theorem block_ne_nil (s : List UInt8) : block s ≠ [] :=
  List.append_ne_nil_of_left_ne_nil (lengthPrefix_ne_nil s.length) s

/-- The unit is the only type with a value that takes no octet. -/
theorem Ty.encode_ne_nil_iff (t : Ty) : (∀ v, t.encode v ≠ []) ↔ t ≠ .unit := by
  constructor
  · rintro h rfl
    exact h () rfl
  · intro h v
    cases t with
    | unit => exact absurd rfl h
    | string => exact block_ne_nil _
    | bytes => exact block_ne_nil _
    | buf => exact block_ne_nil _
    | vec t => exact List.append_ne_nil_of_left_ne_nil (lengthPrefix_ne_nil _) _
    | opt t => cases v <;> exact List.cons_ne_nil _ _
    | _ => exact List.cons_ne_nil _ _

namespace Invocation

/-- The check of the count refuses nothing that could be read without it. -/
theorem sameValues_reader : Reader.SameValues reader trustingReader :=
  .bind fun _ => .bind fun _ => .bind fun _ => .bind fun count =>
    Reader.sameValues_ensure
      ((Reader.local_timesAfter Reader.local_buffer [] count.toNat).map _)
      Reader.Takes.le_of_buffers

end Invocation

namespace Reader

variable {α : Type} {r : Reader α}

/-- A list is read as its count and what follows that. -/
theorem on_counted {s behind : List UInt8} {count : UInt32}
    (h : varInt.on s = (.ok count, behind)) :
    (counted r).on s = (times count.toNat r).on behind := by
  rw [counted, on_bind, h]

theorem count_of_counted {s rest : List UInt8} {as : List α}
    (h : (counted r).on s = (.ok as, rest)) :
    ∃ count behind, varInt.on s = (.ok count, behind) ∧
      (times count.toNat r).on behind = (.ok as, rest) := by
  rw [counted, on_bind] at h
  cases hs : varInt.on s with
  | mk outcome behind =>
    rw [hs] at h
    cases outcome with
    | error e => cases h
    | ok count => exact ⟨count, behind, rfl, h⟩

/-- A list that was read took an octet for each of its elements, which are as many as were
announced. -/
theorem taken_of_times (hr : r.Local) (hungry : r.Hungry) {n : Nat} {s rest : List UInt8}
    {as : List α} (h : (times n r).on s = (.ok as, rest)) :
    as.length = n ∧ ∃ taken, s = taken ++ rest ∧ n ≤ taken.length := by
  obtain ⟨k, hk⟩ := (local_timesAfter hr [] n).taken h
  have hrest : s.drop k = rest := congrArg Prod.snd (hk.on_eq.symm.trans h)
  have hcount := hk.le_of_timesAfter hr fun h => hungry h
  refine ⟨by simpa using length_of_timesAfter h, s.take k, ?_, ?_⟩
  · rw [← hrest, List.take_append_drop]
  · rwa [List.length_take_of_le hk.le]

end Reader

/-- The check of the count of arguments turns no invocation away that could be read without it,
and changes neither its value nor what is left unread. The elements of a list, other than units,
took an octet each, so that the count, cut to the octets that are left behind it, is their
number; and if more elements are announced than octets are left, the list is refused, after no
more elements were read than there are octets. -/
theorem announced_counts_lossless :
    (∀ (s : List UInt8) (i : Invocation) (rest : List UInt8),
      Invocation.reader.on s = (.ok i, rest) ↔ Invocation.trustingReader.on s = (.ok i, rest)) ∧
    (∀ t : Ty, (∀ v, t.encode v ≠ []) ↔ t ≠ .unit) ∧
    ∀ t : Ty, t ≠ .unit → ∀ s : List UInt8,
      (∀ (vs : List t.Value) (rest : List UInt8), (Ty.vec t).reader.on s = (.ok vs, rest) →
        ∃ count behind taken, Reader.varInt.on s = (.ok count, behind) ∧
          behind = taken ++ rest ∧ vs.length ≤ taken.length ∧
          min count.toNat behind.length = vs.length) ∧
      ∀ count behind, Reader.varInt.on s = (.ok count, behind) → behind.length < count.toNat →
        ∃ k ≤ behind.length, ∃ seen left e rest,
          (Reader.times k t.reader).on behind = (.ok seen, left) ∧ seen.length = k ∧
          t.reader.on left = (.error e, rest) ∧ (Ty.vec t).reader.on s = (.error e, rest) := by
  refine ⟨Invocation.sameValues_reader, Ty.encode_ne_nil_iff, fun t ht s => ⟨?_, ?_⟩⟩
  · intro vs rest h
    obtain ⟨count, behind, hcount, hread⟩ := Reader.count_of_counted h
    obtain ⟨hlength, taken, rfl, htaken⟩ :=
      Reader.taken_of_times t.local_reader (Ty.hungry_reader ht) hread
    refine ⟨count, _, taken, hcount, rfl, by omega, ?_⟩
    rw [hlength, List.length_append]
    omega
  · intro count behind hcount hshort
    obtain ⟨k, hk, seen, left, e, rest, hread, hstop, hwhole⟩ :=
      Reader.stops_short t.local_reader (Ty.hungry_reader ht) [] hshort
    refine ⟨k, hk, seen, left, e, rest, hread, ?_, hstop, ?_⟩
    · simpa using Reader.length_of_timesAfter hread
    · exact (Reader.on_counted hcount).trans hwhole

/-- Two words and an octet behind them; and four words announced where three octets are left. -/
theorem announced_counts_lossless_words :
    (∃ count behind taken, Reader.varInt.on [2, 0, 1, 0, 2, 9] = (.ok count, behind) ∧
      behind = taken ++ [9] ∧ 2 ≤ taken.length ∧ min count.toNat behind.length = 2) ∧
    ∃ k ≤ 3, ∃ seen left e rest,
      (Reader.times k Reader.u16).on [0, 1, 0] = (.ok seen, left) ∧ seen.length = k ∧
      Reader.u16.on left = (.error e, rest) ∧
      (Ty.vec .u16).reader.on [4, 0, 1, 0] = (.error e, rest) :=
  have h := announced_counts_lossless.2.2 .u16 (by decide)
  ⟨(h [2, 0, 1, 0, 2, 9]).1 [1, 2] [9] rfl, (h [4, 0, 1, 0]).2 4 [0, 1, 0] rfl (by decide)⟩

end Switchboard
