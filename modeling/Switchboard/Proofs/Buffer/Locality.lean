import Switchboard.Proofs.Buffer.Languages
import Switchboard.Buffer.Value
import Switchboard.Rpc.Invocation

/-!
# Readers look no further than they take

Whether a value is at the front of the octets is settled by the octets that it takes:
more octets behind it change nothing, fewer than it takes are always told as an underflow,
and any other error stays whatever comes later (`Local`). A reader put together from such
readers is one; only a check of an announced count looks ahead, and it is harmless where
as many octets are taken behind it.
-/

namespace Switchboard

/-- Every octet of an admitted spelling but the last promises another one. -/
theorem VarInt.Groups.le_of_mem_take {n m : Nat} {s : List UInt8} (h : VarInt.Groups n s)
    (hm : m < s.length) {b : UInt8} (hb : b ∈ s.take m) : 0x80 ≤ b := by
  induction h generalizing m with
  | last =>
    obtain rfl : m = 0 := by
      rw [List.length_singleton] at hm
      omega
    simp at hb
  | @more c n s hc hs ih =>
    cases m with
    | zero => simp at hb
    | succ m =>
      rw [List.take_succ_cons, List.mem_cons] at hb
      rcases hb with rfl | hb
      · exact hc
      · exact ih (by simpa using hm) hb

namespace Reader

variable {α β : Type}

structure Takes (r : Reader α) (s : List UInt8) (a : α) (n : Nat) : Prop where
  le : n ≤ s.length
  on_eq : r.on s = (.ok a, s.drop n)

/-- The reader is short of octets. -/
def RunsOut (r : Reader α) (s : List UInt8) : Prop :=
  ∃ needed remaining, (r.on s).1 = .error (.underflow needed remaining)

/-- The outcome depends on the octets that are taken, and a lack of them is an underflow. -/
structure Local (r : Reader α) : Prop where
  taken {s rest : List UInt8} {a : α} (h : r.on s = (.ok a, rest)) : ∃ n, r.Takes s a n
  longer {s : List UInt8} {a : α} {n : Nat} (h : r.Takes s a n) (t : List UInt8) :
    r.Takes (s ++ t) a n
  shorter {s : List UInt8} {a : α} {n : Nat} (h : r.Takes s a n) : r.Takes (s.take n) a n
  cut {s : List UInt8} {a : α} {n : Nat} (h : r.Takes s a n) {m : Nat} (hm : m < n) :
    r.RunsOut (s.take m)
  lasting {s : List UInt8} {e : BufferError} (h : (r.on s).1 = .error e)
    (he : ∀ needed remaining, e ≠ .underflow needed remaining) (t : List UInt8) :
    (r.on (s ++ t)).1 = .error e
  lacking {s : List UInt8} {needed remaining : Nat}
    (h : (r.on s).1 = .error (.underflow needed remaining)) : remaining < needed

/-- What a reader takes, and for which value, is determined. -/
theorem Takes.unique {r : Reader α} {s : List UInt8} {a b : α} {n m : Nat} (h : r.Takes s a n)
    (h' : r.Takes s b m) : a = b ∧ n = m := by
  have hon := h.on_eq.symm.trans h'.on_eq
  simp only [Prod.mk.injEq, Except.ok.injEq] at hon
  have hlength := congrArg List.length hon.2
  rw [List.length_drop, List.length_drop] at hlength
  have hn := h.le
  have hm := h'.le
  exact ⟨hon.1, by omega⟩

theorem Takes.bind {r : Reader α} {f : α → Reader β} {s : List UInt8} {a : α} {b : β} {n m : Nat}
    (h : r.Takes s a n) (h' : (f a).Takes (s.drop n) b m) : (r >>= f).Takes s b (n + m) where
  le := by
    have hn := h.le
    have hm := h'.le
    rw [List.length_drop] at hm
    omega
  on_eq := by
    rw [on_bind, h.on_eq, ← List.drop_drop]
    exact h'.on_eq

/-- Both readers have a part in what the two take in turn. -/
theorem Takes.of_bind {r : Reader α} {f : α → Reader β} {s : List UInt8} {b : β} {k : Nat}
    (hr : r.Local) (hf : ∀ a, (f a).Local) (h : (r >>= f).Takes s b k) :
    ∃ a n m, r.Takes s a n ∧ (f a).Takes (s.drop n) b m ∧ k = n + m := by
  have hon := h.on_eq
  rw [on_bind] at hon
  cases hs : r.on s with
  | mk outcome rest =>
    rw [hs] at hon
    cases outcome with
    | error e => cases hon
    | ok a =>
      obtain ⟨n, hn⟩ := hr.taken hs
      obtain rfl : s.drop n = rest := congrArg Prod.snd (hn.on_eq.symm.trans hs)
      obtain ⟨m, hm⟩ := (hf a).taken hon
      exact ⟨a, n, m, hn, hm, (h.unique (hn.bind hm)).2⟩

theorem on_bind_error {r : Reader α} {f : α → Reader β} {s : List UInt8} {e : BufferError}
    (h : (r.on s).1 = .error e) : ((r >>= f).on s).1 = .error e := by
  rw [on_bind]
  cases hs : r.on s with
  | mk outcome rest =>
    rw [hs] at h
    subst h
    rfl

theorem on_bind_of_takes {r : Reader α} {f : α → Reader β} {s : List UInt8} {a : α} {n : Nat}
    (h : r.Takes s a n) : (r >>= f).on s = (f a).on (s.drop n) := by
  rw [on_bind, h.on_eq]

/-- A failure of two readers in turn is one of the first, or of the second behind what the
first takes. -/
theorem error_of_bind {r : Reader α} {f : α → Reader β} (hr : r.Local) {s : List UInt8}
    {e : BufferError} (h : ((r >>= f).on s).1 = .error e) :
    (r.on s).1 = .error e ∨ ∃ a n, r.Takes s a n ∧ ((f a).on (s.drop n)).1 = .error e := by
  cases hs : r.on s with
  | mk outcome rest =>
    cases outcome with
    | error e' =>
      rw [on_bind, hs] at h
      exact .inl (congrArg Except.error (Except.error.inj h))
    | ok a =>
      obtain ⟨n, hn⟩ := hr.taken hs
      rw [on_bind_of_takes hn] at h
      exact .inr ⟨a, n, hn, h⟩

namespace Local

/-- Readers that depend on the octets taken alone may follow one another. -/
theorem bind {r : Reader α} {f : α → Reader β} (hr : r.Local) (hf : ∀ a, (f a).Local) :
    (r >>= f).Local where
  taken {s rest b} h := by
    rw [on_bind] at h
    cases hs : r.on s with
    | mk outcome rest' =>
      rw [hs] at h
      cases outcome with
      | error e => cases h
      | ok a =>
        obtain ⟨n, hn⟩ := hr.taken hs
        obtain rfl : s.drop n = rest' := congrArg Prod.snd (hn.on_eq.symm.trans hs)
        obtain ⟨m, hm⟩ := (hf a).taken h
        exact ⟨n + m, hn.bind hm⟩
  longer {s b k} h t := by
    obtain ⟨a, n, m, hn, hm, rfl⟩ := h.of_bind hr hf
    refine (hr.longer hn t).bind ?_
    rw [List.drop_append_of_le_length hn.le]
    exact (hf a).longer hm t
  shorter {s b k} h := by
    obtain ⟨a, n, m, hn, hm, rfl⟩ := h.of_bind hr hf
    have hfirst := hr.longer (hr.shorter hn) ((s.drop n).take m)
    rw [← List.take_add] at hfirst
    refine hfirst.bind ?_
    rw [List.drop_take, Nat.add_sub_cancel_left]
    exact (hf a).shorter hm
  cut {s b k} h m' hm' := by
    obtain ⟨a, n, m, hn, hm, rfl⟩ := h.of_bind hr hf
    rcases Nat.lt_or_ge m' n with hlt | hge
    · obtain ⟨needed, remaining, he⟩ := hr.cut hn hlt
      exact ⟨needed, remaining, on_bind_error he⟩
    · -- The first reader still has all that it takes; the cut is in the octets of the second.
      obtain ⟨i, rfl⟩ := Nat.exists_eq_add_of_le hge
      have hfirst := hr.longer (hr.shorter hn) ((s.drop n).take i)
      rw [← List.take_add] at hfirst
      obtain ⟨needed, remaining, he⟩ := (hf a).cut hm (m := i) (by omega)
      refine ⟨needed, remaining, ?_⟩
      rw [on_bind_of_takes hfirst, List.drop_take, Nat.add_sub_cancel_left]
      exact he
  lasting {s e} h he t := by
    rcases error_of_bind hr h with hfirst | ⟨a, n, hn, hsecond⟩
    · exact on_bind_error (hr.lasting hfirst he t)
    · rw [on_bind_of_takes (hr.longer hn t), List.drop_append_of_le_length hn.le]
      exact (hf a).lasting hsecond he t
  lacking {s needed remaining} h := by
    rcases error_of_bind hr h with hfirst | ⟨a, n, -, hsecond⟩
    · exact hr.lacking hfirst
    · exact (hf a).lacking hsecond

theorem pure (a : α) : Local (Pure.pure a : Reader α) where
  taken {s rest b} h := by
    cases h
    exact ⟨0, Nat.zero_le _, rfl⟩
  longer h t := by
    obtain ⟨rfl, rfl⟩ := h.unique ⟨Nat.zero_le _, rfl⟩
    exact ⟨Nat.zero_le _, rfl⟩
  shorter h := by
    obtain ⟨rfl, rfl⟩ := h.unique ⟨Nat.zero_le _, rfl⟩
    exact ⟨Nat.zero_le _, rfl⟩
  cut h m hm := by
    obtain ⟨-, rfl⟩ := h.unique ⟨Nat.zero_le _, rfl⟩
    exact absurd hm (Nat.not_lt_zero m)
  lasting h := by cases h
  lacking h := by cases h

theorem throw {e : BufferError} (he : ∀ needed remaining, e ≠ .underflow needed remaining) :
    Local (MonadExcept.throw e : Reader α) where
  taken h := by cases h
  longer h := by cases h.on_eq
  shorter h := by cases h.on_eq
  cut h := by cases h.on_eq
  lasting h _ _ := h
  lacking {s needed remaining} h := absurd (Except.error.inj h) (he needed remaining)

theorem map {r : Reader α} (hr : r.Local) (g : α → β) :
    (r >>= fun a => Pure.pure (g a)).Local :=
  hr.bind fun a => pure (g a)

end Local

theorem on_take_of_le {n : Nat} {s : List UInt8} (h : n ≤ s.length) :
    (take n).on s = (.ok (s.take n), s.drop n) := by
  simp only [on, take, Octet.reaches_eq, h, decide_true, if_true]

theorem on_take_of_lt {n : Nat} {s : List UInt8} (h : s.length < n) :
    (take n).on s = (.error (.underflow n s.length), s) := by
  simp only [on, take, Octet.reaches_eq, Nat.not_le.mpr h, decide_false, Bool.false_eq_true,
    if_false]

theorem takes_take_iff {n m : Nat} {s a : List UInt8} :
    (take n).Takes s a m ↔ m = n ∧ n ≤ s.length ∧ a = s.take n := by
  rcases Nat.lt_or_ge s.length n with hlt | hle
  · constructor
    · intro h
      cases (on_take_of_lt hlt).symm.trans h.on_eq
    · rintro ⟨-, hle, -⟩
      exact absurd hlt (Nat.not_lt.mpr hle)
  · have hall : (take n).Takes s (s.take n) n := ⟨hle, on_take_of_le hle⟩
    constructor
    · intro h
      obtain ⟨rfl, rfl⟩ := h.unique hall
      exact ⟨rfl, hle, rfl⟩
    · rintro ⟨rfl, -, rfl⟩
      exact hall

/-- Taking octets depends on those taken, and on nothing behind them. -/
theorem local_take (n : Nat) : (take n).Local where
  taken {s rest a} h := by
    rcases Nat.lt_or_ge s.length n with hlt | hle
    · cases (on_take_of_lt hlt).symm.trans h
    · rw [on_take_of_le hle] at h
      cases h
      exact ⟨n, hle, on_take_of_le hle⟩
  longer {s a m} h t := by
    obtain ⟨rfl, hle, rfl⟩ := takes_take_iff.mp h
    refine takes_take_iff.mpr ⟨rfl, ?_, (List.take_append_of_le_length hle).symm⟩
    rw [List.length_append]
    omega
  shorter {s a m} h := by
    obtain ⟨rfl, hle, rfl⟩ := takes_take_iff.mp h
    have hlength : (s.take m).length = m := List.length_take_of_le hle
    exact takes_take_iff.mpr ⟨rfl, Nat.le_of_eq hlength.symm, by rw [List.take_take, Nat.min_self]⟩
  cut {s a m} h k hk := by
    obtain ⟨rfl, hle, rfl⟩ := takes_take_iff.mp h
    have hshort : (s.take k).length < m := by
      rw [List.length_take]
      omega
    exact ⟨m, _, congrArg Prod.fst (on_take_of_lt hshort)⟩
  lasting {s e} h he t := by
    rcases Nat.lt_or_ge s.length n with hlt | hle
    · rw [on_take_of_lt hlt] at h
      exact absurd (Except.error.inj h).symm (he _ _)
    · rw [on_take_of_le hle] at h
      cases h
  lacking {s needed remaining} h := by
    rcases Nat.lt_or_ge s.length n with hlt | hle
    · rw [on_take_of_lt hlt] at h
      cases h
      exact hlt
    · rw [on_take_of_le hle] at h
      cases h

theorem local_word (size : Nat) : (word size).Local := (local_take size).map Octet.value
theorem local_u8 : u8.Local := (local_word 1).map UInt8.ofNat
theorem local_u16 : u16.Local := (local_word 2).map UInt16.ofNat
theorem local_u32 : u32.Local := (local_word 4).map UInt32.ofNat
theorem local_u64 : u64.Local := (local_word 8).map UInt64.ofNat
theorem local_bool : bool.Local := local_u8.map (· != 0)

theorem local_char : char.Local :=
  local_u32.bind fun scalar => by
    by_cases h : scalar.isValidChar
    · simp only [dif_pos h]
      exact .pure _
    · simp only [dif_neg h]
      exact .throw (by simp)

theorem local_identity : Identity.reader.Local :=
  local_u64.bind fun high => local_u64.map (Identity.mk high)

section

variable {w : VarInt.Width} {s : List UInt8} {n size : Nat}

theorem on_varNat_of_found (h : VarInt.peek w s = .found n size) :
    (varNat w).on s = (.ok n, s.drop size) := by
  simp only [on, varNat, h]

theorem on_varNat_of_incomplete (h : VarInt.peek w s = .incomplete) :
    (varNat w).on s = (.error (.underflow (s.length + 1) s.length), s) := by
  simp only [on, varNat, h]

theorem on_varNat_of_tooLong (h : VarInt.peek w s = .tooLong) :
    (varNat w).on s = (.error .varIntTooLong, s) := by
  simp only [on, varNat, h]

theorem takes_varNat_iff : (varNat w).Takes s n size ↔ VarInt.peek w s = .found n size := by
  constructor
  · intro h
    cases hp : VarInt.peek w s with
    | found value length =>
      have hfound : (varNat w).Takes s value length :=
        ⟨(VarInt.peek_found w hp).2, on_varNat_of_found hp⟩
      obtain ⟨rfl, rfl⟩ := h.unique hfound
      rfl
    | incomplete => cases (on_varNat_of_incomplete hp).symm.trans h.on_eq
    | tooLong => cases (on_varNat_of_tooLong hp).symm.trans h.on_eq
  · exact fun hp => ⟨(VarInt.peek_found w hp).2, on_varNat_of_found hp⟩

/-- A spelling that is cut off asks for more octets. -/
theorem peek_cut {head : List UInt8} (h : VarInt.Spells w n head) {m : Nat}
    (hm : m < head.length) (rest : List UInt8) :
    VarInt.peek w ((head ++ rest).take m) = .incomplete := by
  rw [VarInt.peek_eq_incomplete_iff, List.take_append_of_le_length (Nat.le_of_lt hm)]
  refine ⟨?_, fun b hb => h.groups.le_of_mem_take hm hb⟩
  have hlength := h.length_le
  rw [List.length_take]
  omega

end

/-- An integer that is found does not depend on what is behind it. -/
theorem local_varNat (w : VarInt.Width) : (varNat w).Local where
  taken {s rest n} h := by
    cases hp : VarInt.peek w s with
    | found value size =>
      rw [on_varNat_of_found hp] at h
      cases h
      exact ⟨size, takes_varNat_iff.mpr hp⟩
    | incomplete => cases (on_varNat_of_incomplete hp).symm.trans h
    | tooLong => cases (on_varNat_of_tooLong hp).symm.trans h
  longer {s n size} h t := by
    have hp := takes_varNat_iff.mp h
    rw [takes_varNat_iff, VarInt.peek_append w s t (by simp [hp])]
    exact hp
  shorter {s n size} h := by
    obtain ⟨head, rest, rfl, rfl, hspells⟩ :=
      (VarInt.peek_eq_found_iff w s n size).mp (takes_varNat_iff.mp h)
    have hp := VarInt.peek_of_spells hspells []
    rw [List.append_nil] at hp
    rw [List.take_left, takes_varNat_iff]
    exact hp
  cut {s n size} h m hm := by
    obtain ⟨head, rest, rfl, rfl, hspells⟩ :=
      (VarInt.peek_eq_found_iff w s n size).mp (takes_varNat_iff.mp h)
    exact ⟨_, _, congrArg Prod.fst (on_varNat_of_incomplete (peek_cut hspells hm rest))⟩
  lasting {s e} h he t := by
    cases hp : VarInt.peek w s with
    | found value size =>
      rw [on_varNat_of_found hp] at h
      cases h
    | incomplete =>
      rw [on_varNat_of_incomplete hp] at h
      exact absurd (Except.error.inj h).symm (he _ _)
    | tooLong =>
      have hp' := VarInt.peek_append w s t (by simp [hp])
      rw [on_varNat_of_tooLong hp] at h
      rw [on_varNat_of_tooLong (hp'.trans hp)]
      exact h
  lacking {s needed remaining} h := by
    cases hp : VarInt.peek w s with
    | found value size =>
      rw [on_varNat_of_found hp] at h
      cases h
    | incomplete =>
      rw [on_varNat_of_incomplete hp] at h
      cases h
      exact Nat.lt_succ_self _
    | tooLong =>
      rw [on_varNat_of_tooLong hp] at h
      cases h

theorem local_varInt : varInt.Local := (local_varNat .int).map UInt32.ofNat

theorem local_block : block.Local := local_varInt.bind fun n => local_take n.toNat

theorem local_buffer : buffer.Local := local_block.map Buffer.ofBytes

theorem local_text : text.Local :=
  local_block.bind fun s => by
    cases Utf8.decode s with
    | ok text => exact .pure text
    | error fault => exact .throw (by simp)

theorem local_nullable {r : Reader α} (hr : r.Local) : (nullable r).Local :=
  local_bool.bind fun present => by
    cases present with
    | true => exact hr.map some
    | false => exact .pure none

theorem timesAfter_succ (r : Reader α) (seen : List α) (n : Nat) :
    timesAfter r seen (n + 1) = r >>= fun a => timesAfter r (a :: seen) n := by
  funext s
  refine Eq.trans ?_ (on_bind r (fun a => timesAfter r (a :: seen) n) s).symm
  cases h : r s with
  | mk outcome rest => cases outcome <;> simp only [timesAfter, on, h]

theorem local_timesAfter {r : Reader α} (hr : r.Local) (seen : List α) (n : Nat) :
    (timesAfter r seen n).Local := by
  induction n generalizing seen with
  | zero => exact .pure seen.reverse
  | succ n ih =>
    rw [timesAfter_succ]
    exact hr.bind fun a => ih (a :: seen)

theorem local_counted {r : Reader α} (hr : r.Local) : (counted r).Local :=
  local_varInt.bind fun n => local_timesAfter hr [] n.toNat

/-- Values that take an octet each take as many octets as there are values. -/
theorem Takes.le_of_timesAfter {r : Reader α} (hr : r.Local)
    (hpos : ∀ {s : List UInt8} {a : α} {k : Nat}, r.Takes s a k → 0 < k) {seen : List α} {n : Nat}
    {s : List UInt8} {as : List α} {k : Nat} (h : (timesAfter r seen n).Takes s as k) : n ≤ k := by
  induction n generalizing seen s k with
  | zero => exact Nat.zero_le k
  | succ n ih =>
    rw [timesAfter_succ] at h
    obtain ⟨a, i, j, hi, hj, rfl⟩ := h.of_bind hr fun a => local_timesAfter hr (a :: seen) n
    have := hpos hi
    have := ih hj
    omega

section

variable {r : Reader α} {n : Nat} {s : List UInt8}

theorem on_ensure_of_le (h : n ≤ s.length) : (ensure n >>= fun _ => r).on s = r.on s := by
  have hpass : (ensure n).on s = (.ok (), s) := by
    simp only [on, ensure, Octet.reaches_eq, h, decide_true, if_true]
  rw [on_bind, hpass]

theorem on_ensure_of_lt (h : s.length < n) :
    (ensure n >>= fun _ => r).on s = (.error (.underflow n s.length), s) := by
  have hstop : (ensure n).on s = (.error (.underflow n s.length), s) := by
    simp only [on, ensure, Octet.reaches_eq, Nat.not_le.mpr h, decide_false, Bool.false_eq_true,
      if_false]
  rw [on_bind, hstop]

/-- Where the reader takes as much anyhow, a check in front of it changes only its errors. -/
theorem takes_ensure_iff (hlong : ∀ {s : List UInt8} {a : α} {k : Nat}, r.Takes s a k → n ≤ k)
    {a : α} {k : Nat} : (ensure n >>= fun _ => r).Takes s a k ↔ r.Takes s a k := by
  rcases Nat.lt_or_ge s.length n with hlt | hle
  · constructor
    · intro h
      cases (on_ensure_of_lt hlt).symm.trans h.on_eq
    · intro h
      have := hlong h
      have := h.le
      omega
  · constructor
    · exact fun h => ⟨h.le, (on_ensure_of_le hle).symm.trans h.on_eq⟩
    · exact fun h => ⟨h.le, (on_ensure_of_le hle).trans h.on_eq⟩

end

/-- Where at least as many octets are taken behind a check, the check turns away only what
would be short of octets anyway. -/
theorem local_ensure {r : Reader α} (hr : r.Local) (n : Nat)
    (hlong : ∀ {s : List UInt8} {a : α} {k : Nat}, r.Takes s a k → n ≤ k) :
    (ensure n >>= fun _ => r).Local where
  taken {s rest a} h := by
    rcases Nat.lt_or_ge s.length n with hlt | hle
    · cases (on_ensure_of_lt hlt).symm.trans h
    · obtain ⟨k, hk⟩ := hr.taken ((on_ensure_of_le hle).symm.trans h)
      exact ⟨k, (takes_ensure_iff hlong).mpr hk⟩
  longer h t := (takes_ensure_iff hlong).mpr (hr.longer ((takes_ensure_iff hlong).mp h) t)
  shorter h := (takes_ensure_iff hlong).mpr (hr.shorter ((takes_ensure_iff hlong).mp h))
  cut {s a k} h m hm := by
    rcases Nat.lt_or_ge (s.take m).length n with hlt | hle
    · exact ⟨_, _, congrArg Prod.fst (on_ensure_of_lt hlt)⟩
    · obtain ⟨needed, remaining, hon⟩ := hr.cut ((takes_ensure_iff hlong).mp h) hm
      exact ⟨needed, remaining, (congrArg Prod.fst (on_ensure_of_le hle)).trans hon⟩
  lasting {s e} h he t := by
    rcases Nat.lt_or_ge s.length n with hlt | hle
    · rw [on_ensure_of_lt hlt] at h
      exact absurd (Except.error.inj h).symm (he _ _)
    · have hle' : n ≤ (s ++ t).length := by
        rw [List.length_append]
        omega
      rw [on_ensure_of_le hle] at h
      rw [on_ensure_of_le hle']
      exact hr.lasting h he t
  lacking {s needed remaining} h := by
    rcases Nat.lt_or_ge s.length n with hlt | hle
    · rw [on_ensure_of_lt hlt] at h
      cases h
      exact hlt
    · rw [on_ensure_of_le hle] at h
      exact hr.lacking h

end Reader

/-- A nested buffer takes its length at least. -/
theorem Reader.Takes.pos_of_buffer {s : List UInt8} {b : Buffer} {k : Nat}
    (h : Reader.buffer.Takes s b k) : 0 < k := by
  obtain ⟨t, ⟨head, content, hspells, rfl, -⟩, hs⟩ := Reader.parses_buffer.splits h.on_eq
  have hpos := hspells.groups.length_pos
  have hlength := congrArg List.length hs
  have hle := h.le
  simp only [List.length_append, List.length_drop] at hlength
  omega

/-- A row of nested buffers takes as many octets as there are buffers. -/
theorem Reader.Takes.le_of_buffers {α : Type} {n : Nat} {g : List Buffer → α} {s : List UInt8}
    {a : α} {k : Nat}
    (h : (Reader.times n Reader.buffer >>= fun as => Pure.pure (g as)).Takes s a k) : n ≤ k := by
  obtain ⟨as, i, j, hi, -, rfl⟩ :=
    h.of_bind (Reader.local_timesAfter Reader.local_buffer [] n) fun as => Reader.Local.pure _
  have := hi.le_of_timesAfter Reader.local_buffer Reader.Takes.pos_of_buffer
  omega

/-- Whatever the type, what is behind a value does not matter for reading it. -/
theorem Ty.local_reader (t : Ty) : t.reader.Local := by
  induction t with
  | bool => exact Reader.local_bool
  | u8 => exact Reader.local_u8
  | i8 => exact Reader.local_u8.map UInt8.toInt8
  | u16 => exact Reader.local_u16
  | i16 => exact Reader.local_u16.map UInt16.toInt16
  | u32 => exact Reader.local_u32
  | i32 => exact Reader.local_u32.map UInt32.toInt32
  | u64 => exact Reader.local_u64
  | i64 => exact Reader.local_u64.map UInt64.toInt64
  | f32 => exact Reader.local_u32
  | f64 => exact Reader.local_u64
  | char => exact Reader.local_char
  | uuid => exact Reader.local_identity
  | unit => exact .pure ()
  | string => exact Reader.local_text
  | bytes => exact Reader.local_block
  | buf => exact Reader.local_buffer
  | opt t ih => exact Reader.local_nullable ih
  | vec t ih => exact Reader.local_counted ih

theorem Invocation.local_reader : Invocation.reader.Local :=
  Reader.local_text.bind fun target => Reader.local_text.bind fun method =>
    Reader.local_bool.bind fun expectsResult => Reader.local_varInt.bind fun count => by
      have htimes := Reader.local_timesAfter Reader.local_buffer [] count.toNat
      exact Reader.local_ensure (htimes.map _) count.toNat Reader.Takes.le_of_buffers

/-- Of every type and of invocations: what is at the front is settled by the octets that it
takes, a cut in them is told as an underflow, and every other error outlasts what comes
later. -/
theorem readers_local : (∀ t : Ty, t.reader.Local) ∧ Invocation.reader.Local :=
  ⟨Ty.local_reader, Invocation.local_reader⟩

end Switchboard
