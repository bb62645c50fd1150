import Switchboard.Proofs.Buffer.Languages

/-!
# How much there is to say of a failed read

The numbers in what is said of a failed read are lengths that were announced and places in
what was read, so they have few digits and the message is short, however long the octets
are that could not be read.
-/

namespace Switchboard

namespace Utf8

theorem encode_eq_flatMap (text : String) :
    encode text = text.toList.flatMap String.utf8EncodeChar := by
  rw [encode, ← String.utf8Encode_toList, List.utf8Encode]
  simp

/-- No character takes more than four octets. -/
theorem length_encode_le (text : String) : (encode text).length ≤ 4 * text.length := by
  rw [encode_eq_flatMap, ← String.length_toList]
  induction text.toList with
  | nil => exact Nat.zero_le _
  | cons c cs ih =>
    have hc := c.utf8Size_le_four
    rw [List.flatMap_cons, List.length_append, List.length_cons, String.length_utf8EncodeChar]
    omega

theorem continued_le (total left seen : Nat) (s : List UInt8) {n : Nat}
    (hle : seen + left ≤ total)
    (h : continued total left seen s = .character n ∨ continued total left seen s = .illFormed n) :
    n ≤ total := by
  induction left generalizing seen s with
  | zero =>
    simp only [continued] at h
    rcases h with h | h <;> cases h
    exact Nat.le_refl _
  | succ left ih =>
    cases s with
    | nil => rcases h with h | h <;> cases h
    | cons b s =>
      rw [continued] at h
      split at h
      · exact ih (seen + 1) s (by omega) h
      · rcases h with h | h <;> cases h
        omega

theorem lead_bounds {b low high : UInt8} {total : Nat} (h : lead b = some (total, low, high)) :
    2 ≤ total ∧ total ≤ 4 := by
  simp only [lead] at h
  grind

/-- A character and what is ill-formed of one take four octets at most. -/
theorem front_le {s : List UInt8} {n : Nat} (h : front s = .character n ∨ front s = .illFormed n) :
    n ≤ 4 := by
  cases s with
  | nil => rcases h with h | h <;> cases h
  | cons b s =>
    simp only [front] at h
    split at h
    · rcases h with h | h <;> cases h
      decide
    · split at h
      · rcases h with h | h <;> cases h
        decide
      · rename_i total low high hlead
        obtain ⟨hlow, hhigh⟩ := lead_bounds hlead
        split at h
        · rcases h with h | h <;> cases h
        · split at h
          · exact Nat.le_trans (continued_le total (total - 2) 2 _ (by omega) h) hhigh
          · rcases h with h | h <;> cases h
            decide

/-- A fault has at most four octets, and is no further on than the characters looked at. -/
theorem faultFrom_le (valid fuel : Nat) (s : List UInt8) :
    (faultFrom valid fuel s).validUpTo ≤ valid + 4 * fuel ∧
      ∀ n ∈ (faultFrom valid fuel s).length, n ≤ 4 := by
  induction fuel generalizing valid s with
  | zero => simp [faultFrom]
  | succ fuel ih =>
    rw [faultFrom]
    split
    · rename_i n hfront
      have hn := front_le (.inl hfront)
      obtain ⟨hvalid, hlength⟩ := ih (valid + n) (s.drop n)
      exact ⟨by omega, hlength⟩
    · rename_i n hfront
      refine ⟨Nat.le_add_right _ _, fun m hm => ?_⟩
      cases hm
      exact front_le (.inr hfront)
    · simp

end Utf8

theorem length_toString_le {n k : Nat} (hk : 0 < k) (h : n < 10 ^ k) :
    (toString n).length ≤ k := by
  rw [Nat.toString_eq_repr, ← String.length_toList, Nat.toList_repr]
  exact (Nat.length_toDigits_le_iff (by decide) hk).mpr h

namespace BufferError

def Brief (e : BufferError) : Prop := e.message.length ≤ 100

theorem brief_underflow {needed remaining : Nat} (hneeded : needed < UInt32.size)
    (hlt : remaining < needed) : (underflow needed remaining).Brief := by
  have hsize : UInt32.size = 4294967296 := rfl
  have hn : (toString needed).length ≤ 10 := length_toString_le (by decide) (by omega)
  have hr : (toString remaining).length ≤ 10 := length_toString_le (by decide) (by omega)
  have hmessage : (underflow needed remaining).message =
      "Buffer underflow: needed " ++ toString needed ++ " bytes, " ++ toString remaining ++
        " remaining" := rfl
  have hwords : "Buffer underflow: needed ".length + " bytes, ".length + " remaining".length = 43 :=
    by decide
  rw [Brief, hmessage]
  simp only [String.length_append]
  omega

theorem brief_varIntTooLong : varIntTooLong.Brief := by
  have hwords : "Variable-length integer is too long".length ≤ 100 := by decide
  exact hwords

theorem length_fault_le {f : Utf8.Fault} (hvalid : f.validUpTo < 10 ^ 11)
    (hlength : ∀ n ∈ f.length, n ≤ 4) : f.message.length ≤ 56 := by
  obtain ⟨valid, length⟩ := f
  have hv : (toString valid).length ≤ 11 := length_toString_le (by decide) hvalid
  cases length with
  | none =>
    have hmessage : Utf8.Fault.message ⟨valid, none⟩ =
        "incomplete utf-8 byte sequence from index " ++ toString valid := rfl
    have hwords : "incomplete utf-8 byte sequence from index ".length = 42 := by decide
    rw [hmessage, String.length_append]
    omega
  | some n =>
    have hn : (toString n).length ≤ 1 :=
      length_toString_le (by decide) (Nat.lt_of_le_of_lt (hlength n rfl) (by decide))
    have hmessage : Utf8.Fault.message ⟨valid, some n⟩ =
        "invalid utf-8 sequence of " ++ toString n ++ " bytes from index " ++ toString valid := rfl
    have hwords : "invalid utf-8 sequence of ".length + " bytes from index ".length = 44 := by
      decide
    rw [hmessage]
    simp only [String.length_append]
    omega

theorem brief_invalidUtf8 {s : List UInt8} (h : s.length < UInt32.size) :
    (invalidUtf8 (Utf8.fault s)).Brief := by
  have hsize : UInt32.size = 4294967296 := rfl
  obtain ⟨hvalid, hlength⟩ := Utf8.faultFrom_le 0 s.length s
  have hfault : (Utf8.fault s).message.length ≤ 56 := length_fault_le (by rw [Utf8.fault]; omega) hlength
  have hmessage : (invalidUtf8 (Utf8.fault s)).message =
      "Invalid UTF-8 string: " ++ (Utf8.fault s).message := rfl
  have hwords : "Invalid UTF-8 string: ".length = 22 := by decide
  rw [Brief, hmessage, String.length_append]
  omega

/-- Errors that tell of numbers alone have short messages. -/
theorem brief_of_structural {e : BufferError} (h : e.Structural) : e.Brief := by
  cases e with
  | underflow needed remaining => exact brief_underflow h.2 h.1
  | varIntTooLong => exact brief_varIntTooLong
  | invalidUtf8 fault => exact h.elim
  | invalidChar scalar => exact h.elim
  | object => exact h.elim

end BufferError

namespace Reader

open BufferError

variable {α : Type} {E : BufferError → Prop} {r : Reader α}

theorem fails_ensure {n : Nat} (hn : n < UInt32.size) :
    (ensure n).FailsOnly BufferError.Structural := by
  intro s rest e h
  simp only [on, ensure, Octet.reaches_eq, decide_eq_true_eq] at h
  split at h
  · cases h
  · rename_i hlt
    cases h
    exact ⟨Nat.not_le.mp hlt, hn⟩

/-- Reading values in turn fails as reading one of them does. -/
theorem fails_timesAfter (hr : r.FailsOnly E) (seen : List α) (n : Nat) :
    (timesAfter r seen n).FailsOnly E := by
  induction n generalizing seen with
  | zero =>
    intro s rest e h
    cases h
  | succ n ih =>
    intro s rest e h
    cases hs : r s with
    | mk outcome s' =>
      simp only [on, timesAfter, hs] at h
      cases outcome with
      | error e' =>
        cases h
        exact hr _ _ _ hs
      | ok a => exact ih (a :: seen) _ _ _ h

theorem brief_text : text.FailsOnly Brief := by
  refine (fails_block.mono fun _ => brief_of_structural).bind_of fun a s rest ha => ?_
  obtain ⟨t, ⟨head, hhead, -⟩, -⟩ := parses_block.splits ha
  cases hd : Utf8.decode a with
  | ok text => exact .pure text
  | error fault =>
    have hfault : fault = Utf8.fault a := by
      rw [Utf8.decode] at hd
      split at hd
      · cases hd
      · exact (Except.error.inj hd).symm
    subst hfault
    exact .throw (brief_invalidUtf8 hhead.lt_size)

end Reader

end Switchboard
