import Switchboard.Proofs.Toml.Quotes
import Switchboard.Toml.Document
import Switchboard.Toml.Sheet

/-!
# Written values are read back

A cell of a sheet is a text, a natural number or a truth value. Numbers are written in decimal
digits without leading zeros (`integer?_toDigits`), and up to the greatest integer that a
document can hold all cells are read back at the end of a line (`Cell.readsBack_render`).
-/

namespace Switchboard.Toml

theorem ne_of_kind {p : Char → Bool} {c d : Char} (hc : p c = true) (hd : p d = false) : c ≠ d :=
  fun e => by simp [e, hd] at hc

/-- What is made of characters of a kind ends where another one stands. -/
theorem span_of_kind {p : Char → Bool} {s : List Char} (hs : ∀ c ∈ s, p c = true) {d : Char}
    (hd : p d = false) (r : List Char) :
    (s ++ d :: r).takeWhile p = s ∧ (s ++ d :: r).dropWhile p = d :: r := by
  rw [List.takeWhile_append_of_pos hs, List.dropWhile_append_of_pos hs]
  simp [hd]

theorem isDigit_of_mem_toDigits {n : Nat} {c : Char} (h : c ∈ Nat.toDigits 10 n) :
    isDigit c = true :=
  Nat.isDigit_of_mem_toDigits (by decide) (by decide) h

theorem digitValue?_digitChar : ∀ d < 10, Identity.digitValue? (Nat.digitChar d) = some d := by
  decide

/-- Digits have the value of the number they were made from. -/
theorem numeral_toDigits (n : Nat) : numeral 10 (Nat.toDigits 10 n) = n := by
  induction n using Nat.strongRecOn with
  | ind n ih =>
    rw [Nat.toDigits_eq_if (by decide)]
    split
    · rename_i h
      simp [numeral, digitValue?_digitChar n h]
    · have hlast := digitValue?_digitChar (n % 10) (by omega)
      have hfirst := ih (n / 10) (by omega)
      unfold numeral at hfirst
      simp only [numeral, List.foldl_append, List.foldl_cons, List.foldl_nil, hlast, hfirst,
        Option.getD_some]
      omega

theorem exists_cons_toDigits (n : Nat) : ∃ c cs, Nat.toDigits 10 n = c :: cs :=
  List.exists_cons_of_ne_nil Nat.toDigits_ne_nil

/-- Only zero is written with a zero at the front. -/
theorem head?_toDigits {n : Nat} (h : n ≠ 0) : (Nat.toDigits 10 n).head? ≠ some '0' := by
  have hdigit : ∀ d < 10, d ≠ 0 → Nat.digitChar d ≠ '0' := by decide
  induction n using Nat.strongRecOn with
  | ind n ih =>
    rw [Nat.toDigits_eq_if (by decide)]
    split
    · rename_i hlt
      simpa using hdigit n hlt h
    · obtain ⟨c, cs, hdigits⟩ := exists_cons_toDigits (n / 10)
      have hfirst := ih (n / 10) (by omega) (by omega)
      rw [hdigits] at hfirst ⊢
      exact hfirst

theorem toDigits_cases (n : Nat) :
    (n = 0 ∧ Nat.toDigits 10 n = ['0']) ∨
      ∃ c cs, Nat.toDigits 10 n = c :: cs ∧ c ≠ '0' ∧ isDigit c = true ∧
        ∀ d ∈ cs, isDigit d = true := by
  by_cases hzero : n = 0
  · exact .inl ⟨hzero, by rw [hzero]; rfl⟩
  · obtain ⟨c, cs, hdigits⟩ := exists_cons_toDigits n
    have hall (d : Char) (hd : d ∈ c :: cs) : isDigit d = true :=
      isDigit_of_mem_toDigits (hdigits ▸ hd)
    have hfirst := head?_toDigits hzero
    rw [hdigits] at hfirst
    exact .inr ⟨c, cs, hdigits, fun h => hfirst (by rw [h]; rfl),
      hall c (List.mem_cons_self ..), fun d hd => hall d (List.mem_cons_of_mem _ hd)⟩

theorem moreDigits?_of_forall {s : List Char} (h : ∀ c ∈ s, isDigit c = true) :
    moreDigits? isDigit s = some s := by
  induction s with
  | nil => rfl
  | cons c cs ih =>
    rw [List.forall_mem_cons] at h
    rw [moreDigits?]
    · simp [h.1, ih h.2]
    · exact fun _ _ hc _ => ne_of_kind h.1 (by decide) hc

/-- Decimal digits without leading zeros are read as a number. -/
theorem decimal?_toDigits (n : Nat) : decimal? (Nat.toDigits 10 n) = some (Nat.toDigits 10 n) := by
  rcases toDigits_cases n with ⟨-, hdigits⟩ | ⟨c, cs, hdigits, hzero, hc, hcs⟩
  · rw [hdigits]
    rfl
  · rw [hdigits, decimal?, digits?, if_pos hc, moreDigits?_of_forall hcs, Option.map_some]
    split
    · simp_all
    · rfl

/-- A number is read back from its digits, unless it is too great for a document. -/
theorem integer?_toDigits {n : Nat} (h : n ≤ greatest) :
    integer? (Nat.toDigits 10 n) = some (n : Int) := by
  have hsigned : signed? false (Nat.toDigits 10 n) = some (n : Int) := by
    have hguard : (guard (numeral 10 (Nat.toDigits 10 n) ≤ greatest) : Option Unit) = some () :=
      if_pos (by rwa [numeral_toDigits])
    calc signed? false (Nat.toDigits 10 n)
        = (guard (numeral 10 (Nat.toDigits 10 n) ≤ greatest) : Option Unit).bind fun _ =>
            some (numeral 10 (Nat.toDigits 10 n) : Int) := by
          rw [signed?, decimal?_toDigits]
          rfl
      _ = some (n : Int) := by rw [hguard, numeral_toDigits, Option.bind_some]
  rcases toDigits_cases n with ⟨rfl, -⟩ | ⟨c, cs, hdigits, hzero, hc, hcs⟩
  · rfl
  · rw [← hsigned, hdigits, integer?]
    · exact fun _ h => hzero (List.cons.inj h).1
    · exact fun _ h => hzero (List.cons.inj h).1
    · exact fun _ h => hzero (List.cons.inj h).1
    · exact fun _ h => ne_of_kind hc (by decide) (List.cons.inj h).1
    · exact fun _ h => ne_of_kind hc (by decide) (List.cons.inj h).1

def Cell.node : Cell → Node
  | .text s => .text s
  | .integer n => .integer n
  | .bool b => .bool b

/-- Written at the end of a line, the value is read. -/
structure ReadsBack (s : List Char) (n : Node) : Prop where
  read (r : List Char) : readValue maxDepth (s ++ '\n' :: r) = some (n, '\n' :: r)
  head (c : Char) (h : c ∈ s.head?) : isBlank c = false
  no_return : '\r' ∉ s

/-- A value that does not start with a bracket or a brace. -/
theorem ReadsBack.atom {c : Char} {s : List Char} {n : Node}
    (hc : isBlank c = false ∧ c ≠ '[' ∧ c ≠ '\x7b') (hreturn : '\r' ∉ c :: s)
    (hread : ∀ r, readAtom (c :: s ++ '\n' :: r) = some (n, '\n' :: r)) :
    ReadsBack (c :: s) n where
  read r := by
    rw [← hread r, readValue.eq_def]
    split <;> simp_all
  head d hd := by
    cases hd
    exact hc.1
  no_return := hreturn

theorem ReadsBack.text (text : String) : ReadsBack (quote text.toList) (.text text) := by
  have hread (r : List Char) :
      readAtom (quote text.toList ++ '\n' :: r) = some (.text text, '\n' :: r) := by
    rw [readAtom, readString_quote _ (by simp)]
    simp
  have hreturn := return_not_mem_quote text.toList
  rcases quote_cases text.toList with ⟨s, hs | hs⟩ <;> rw [hs] at hread hreturn ⊢
  · exact .atom (by decide) hreturn hread
  · exact .atom (by decide) hreturn hread

theorem readScalar_append {s : List Char} {n : Node} (hs : ∀ c ∈ s, isScalarChar c = true)
    (hn : scalarOf? s = some n) (r : List Char) :
    readScalar (s ++ '\n' :: r) = some (n, '\n' :: r) := by
  obtain ⟨hfirst, hrest⟩ := span_of_kind hs (d := '\n') (by decide) r
  simp [readScalar, hfirst, hrest, hn]

/-- A value of scalar characters ends with its line. -/
theorem ReadsBack.scalar {s : List Char} {n : Node} (hs : s.all isScalarChar = true)
    (hn : scalarOf? s = some n) : ReadsBack s n := by
  rw [List.all_eq_true] at hs
  cases s with
  | nil => cases hn
  | cons c cs =>
    have hc := hs c (List.mem_cons_self ..)
    have hbracket : c ≠ '[' ∧ c ≠ '\x7b' := ⟨ne_of_kind hc (by decide), ne_of_kind hc (by decide)⟩
    refine .atom ⟨?_, hbracket⟩ (fun h => ?_) fun r => ?_
    · simp [isBlank, ne_of_kind hc (d := ' ') (by decide), ne_of_kind hc (d := '\t') (by decide)]
    · exact ne_of_kind (hs _ h) (d := '\r') (by decide) rfl
    · have hquotes : readString (c :: cs ++ '\n' :: r) = none := by
        have hdouble := ne_of_kind hc (d := '"') (by decide)
        have hsingle := ne_of_kind hc (d := '\x27') (by decide)
        rw [List.cons_append, readString.eq_def]
        split <;> simp_all
      rw [readAtom, hquotes]
      exact readScalar_append hs hn r

theorem scalarOf?_toDigits {n : Nat} (h : n ≤ greatest) :
    scalarOf? (Nat.toDigits 10 n) = some (.integer n) := by
  have hletter {c : Char} (cs : List Char) (hc : isDigit c = false) : Nat.toDigits 10 n ≠ c :: cs :=
    fun e => ne_of_kind (isDigit_of_mem_toDigits (e ▸ List.mem_cons_self ..)) hc rfl
  have htrue := hletter (c := 't') ['r', 'u', 'e'] (by decide)
  have hfalse := hletter (c := 'f') ['a', 'l', 's', 'e'] (by decide)
  rw [scalarOf?, if_neg htrue, if_neg hfalse, integer?_toDigits h]

/-- **A cell is read back from what is written for it.** -/
theorem Cell.readsBack_render {c : Cell} {text : String} (h : c.render = some text) :
    ReadsBack text.toList c.node := by
  cases c with
  | text s =>
    cases h
    rw [String.toList_ofList]
    exact .text s
  | integer n =>
    simp only [Cell.render, Option.ite_none_right_eq_some, Option.some.injEq] at h
    obtain ⟨hn, rfl⟩ := h
    rw [Nat.toString_eq_repr, Nat.toList_repr]
    refine .scalar (List.all_eq_true.2 fun c hc => ?_) (scalarOf?_toDigits hn)
    have : c.isDigit = true := isDigit_of_mem_toDigits hc
    simp [isScalarChar, Char.isAlphanum, this]
  | bool b =>
    cases h
    cases b <;> exact .scalar rfl rfl

end Switchboard.Toml
