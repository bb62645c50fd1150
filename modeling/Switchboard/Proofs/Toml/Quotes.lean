import Switchboard.Toml.Text

/-!
# Quoted texts are read back

Whichever of the four quotings is chosen for a text, reading the quoted text gives it back and
leaves what follows (`readString_quote`). Quotings without escapes are chosen only for texts that
have no long run of their delimiter; in the others one character is read back at a time, from
itself or from its escape (`spelling_cases`), and no more quotes stand in a row than the closing
ones allow.
-/

namespace Switchboard.Toml

/-- A character as it is written in a basic string where no quote stands for itself. -/
def spelling (lines : Bool) (c : Char) : List Char := escaped lines 0 [c] 0

theorem escaped_cons (lines : Bool) (quotes : Nat) (c : Char) (cs : List Char) (seen : Nat) :
    escaped lines quotes (c :: cs) seen =
      if c = '"' ∧ seen < quotes then '"' :: escaped lines quotes cs (seen + 1)
      else spelling lines c ++ escaped lines quotes cs 0 := by
  by_cases hquote : c = '"'
  · subst hquote
    by_cases hseen : seen < quotes <;> simp [escaped, spelling, hseen]
  · simp only [escaped, spelling, hquote, false_and, if_false]
    repeat' split
    all_goals simp

theorem digitValue?_upperDigit : ∀ n < 16, Identity.digitValue? (upperDigit n) = some n := by
  decide

theorem scalar?_toNat (c : Char) : scalar? c.toNat = some c := by
  have hvalid : c.toNat.isValidChar := c.valid
  rw [scalar?, dif_pos hvalid]
  congr 1

theorem toNat_lt_of_not_printable {c : Char} (h : printable c = false) : c.toNat < 128 := by
  simp only [printable, Bool.or_eq_false_iff, Bool.and_eq_false_iff, decide_eq_false_iff_not] at h
  rcases h.2 with hlow | hlast
  · have : ¬ ' '.toNat ≤ c.toNat := hlow
    have hblank : ' '.toNat = 32 := rfl
    omega
  · have hdelete : c = '\x7f' := by simpa using hlast
    rw [hdelete]
    decide

theorem unicode?_digits {c : Char} (h : c.toNat < 128) :
    unicode? ['0', '0', upperDigit (c.toNat / 16), upperDigit (c.toNat % 16)] = some c := by
  have hzero : Identity.digitValue? '0' = some 0 := by decide
  have hhigh := digitValue?_upperDigit (c.toNat / 16) (by omega)
  have hlow := digitValue?_upperDigit (c.toNat % 16) (by omega)
  have hvalues : ['0', '0', upperDigit (c.toNat / 16), upperDigit (c.toNat % 16)].mapM
      Identity.digitValue? = some [0, 0, c.toNat / 16, c.toNat % 16] := by
    simp [hzero, hhigh, hlow]
  have hvalue : [0, 0, c.toNat / 16, c.toNat % 16].foldl (fun n d => n * 16 + d) 0 = c.toNat := by
    simp only [List.foldl_cons, List.foldl_nil]
    omega
  rw [unicode?, hvalues, Option.bind_eq_bind, Option.bind_some, hvalue, scalar?_toNat]

structure Escape (c : Char) (e : List Char) : Prop where
  read (r : List Char) : escape? (e ++ r) = some (c, r)
  /-- It does not continue the line. -/
  nextLine (r : List Char) : nextLine? (e ++ r) = none
  no_return : '\r' ∉ e

/-- A control character has two hexadecimal digits. -/
theorem Escape.numeric {c : Char} (h : printable c = false) :
    Escape c (numericEscape c).tail where
  read r := by
    simp only [numericEscape, List.tail_cons, List.cons_append, List.nil_append, escape?,
      unicode?_digits (toNat_lt_of_not_printable h), Option.map_some]
  nextLine r := rfl
  no_return := by
    have hdigit : ∀ n < 16, '\r' ≠ upperDigit n := by decide
    have hlt := toNat_lt_of_not_printable h
    simp [numericEscape, hdigit (c.toNat / 16) (by omega), hdigit (c.toNat % 16) (by omega)]

/-- A character is written as an escape or as itself. -/
theorem spelling_cases (lines : Bool) (c : Char) :
    (∃ e, spelling lines c = '\\' :: e ∧ Escape c e) ∨
    (spelling lines c = [c] ∧ c ≠ '"' ∧ c ≠ '\\' ∧
      (printable c = true ∨ lines = true ∧ c = '\n')) := by
  by_cases hquote : c = '"'
  · subst hquote
    exact .inl ⟨['"'], rfl, fun _ => rfl, fun _ => rfl, by decide⟩
  by_cases hbackslash : c = '\\'
  · subst hbackslash
    exact .inl ⟨['\\'], rfl, fun _ => rfl, fun _ => rfl, by decide⟩
  by_cases hbreak : c = '\n'
  · subst hbreak
    cases lines with
    | true => exact .inr ⟨rfl, by decide, by decide, .inr ⟨rfl, rfl⟩⟩
    | false => exact .inl ⟨['n'], rfl, fun _ => rfl, fun _ => rfl, by decide⟩
  by_cases htab : c = '\t'
  · subst htab
    exact .inl ⟨['t'], rfl, fun _ => rfl, fun _ => rfl, by decide⟩
  by_cases hbackspace : c = '\x08'
  · subst hbackspace
    exact .inl ⟨['b'], rfl, fun _ => rfl, fun _ => rfl, by decide⟩
  by_cases hfeed : c = '\x0c'
  · subst hfeed
    exact .inl ⟨['f'], rfl, fun _ => rfl, fun _ => rfl, by decide⟩
  by_cases hreturn : c = '\r'
  · subst hreturn
    exact .inl ⟨['r'], rfl, fun _ => rfl, fun _ => rfl, by decide⟩
  by_cases hprintable : printable c = true
  · refine .inr ⟨?_, hquote, hbackslash, .inl hprintable⟩
    simp [spelling, escaped, *]
  · refine .inl ⟨(numericEscape c).tail, ?_, .numeric (by simpa using hprintable)⟩
    simp [spelling, escaped, numericEscape, *]

/-- Each character is read from its spelling. -/
theorem readBasic_spelling (c : Char) (r : List Char) :
    readBasic (spelling false c ++ r) = (readBasic r).map fun (t, rest) => (c :: t, rest) := by
  rcases spelling_cases false c with ⟨e, hspelling, he⟩ | ⟨hspelling, hquote, hbackslash, hplain⟩
  · rw [hspelling, List.cons_append, readBasic]
    split <;> simp_all [he.read]
  · have hprintable : printable c = true := by simpa using hplain
    rw [hspelling, List.singleton_append, readBasic]
    · rw [if_pos hprintable]
    · exact fun h => hquote h
    · exact fun h => hbackslash h

/-- A text is read from its basic form. -/
theorem readBasic_escaped (text r : List Char) :
    readBasic (escaped false 0 text 0 ++ '"' :: r) = some (text, r) := by
  induction text with
  | nil => rw [escaped, List.nil_append, readBasic]
  | cons c cs ih =>
    rw [escaped_cons, if_neg (fun h => Nat.not_lt_zero _ h.2), List.append_assoc,
      readBasic_spelling, ih]
    rfl

theorem readBasicLines_spelling (c : Char) (r : List Char) :
    readBasicLines (spelling true c ++ r) =
      (readBasicLines r).map fun (t, rest) => (c :: t, rest) := by
  rcases spelling_cases true c with ⟨e, hspelling, he⟩ | ⟨hspelling, hquote, hbackslash, hplain⟩
  · rw [hspelling, List.cons_append, readBasicLines]
    split <;> simp_all [he.nextLine]
    split <;> simp_all [he.read]
  · rw [hspelling, List.singleton_append, readBasicLines]
    · rw [if_pos (by simpa using hplain)]
    all_goals simp_all

/-- A quote opens the end of the string only if two more follow. -/
theorem readBasicLines_quote {r : List Char} (h : ∀ t, r ≠ '"' :: '"' :: t) :
    readBasicLines ('"' :: r) = (readBasicLines r).map fun (t, rest) => ('"' :: t, rest) := by
  rw [readBasicLines]
  · rw [if_pos (by decide)]
  all_goals simp_all

theorem readBasicLines_close {r : List Char} (hr : ∀ t, r ≠ '"' :: t) :
    readBasicLines ('"' :: '"' :: '"' :: r) = some ([], r) ∧
      readBasicLines ('"' :: '"' :: '"' :: '"' :: r) = some (['"'], r) ∧
      readBasicLines ('"' :: '"' :: '"' :: '"' :: '"' :: r) = some (['"', '"'], r) := by
  refine ⟨?_, ?_, ?_⟩ <;> rw [readBasicLines] <;> simp_all

/-- A quote that may not stand for itself is escaped. -/
theorem escaped_ne_quote {lines : Bool} {quotes seen : Nat} {c : Char} (cs w t : List Char)
    (h : c = '"' → quotes ≤ seen) : escaped lines quotes (c :: cs) seen ++ w ≠ '"' :: t := by
  rw [escaped_cons, if_neg (fun hc => absurd (h hc.1) (Nat.not_le.2 hc.2))]
  rcases spelling_cases lines c with ⟨e, hspelling, -⟩ | ⟨hspelling, hquote, -⟩ <;>
    rw [hspelling] <;> simp_all

/-- No more than two quotes stand for themselves in a row, so three are the end. -/
theorem readBasicLines_escaped {r : List Char} (hr : ∀ t, r ≠ '"' :: t) (text : List Char)
    (seen : Nat) :
    readBasicLines (escaped true 2 text seen ++ '"' :: '"' :: '"' :: r) = some (text, r) := by
  obtain ⟨hthree, hfour, hfive⟩ := readBasicLines_close hr
  induction text generalizing seen with
  | nil => exact hthree
  | cons c cs ih =>
    by_cases hbare : c = '"' ∧ seen < 2
    case neg =>
      rw [escaped_cons, if_neg hbare, List.append_assoc, readBasicLines_spelling, ih]
      rfl
    have hread (h : ∀ t, escaped true 2 cs (seen + 1) ++ '"' :: '"' :: '"' :: r ≠ '"' :: '"' :: t) :
        readBasicLines (escaped true 2 (c :: cs) seen ++ '"' :: '"' :: '"' :: r) =
          some (c :: cs, r) := by
      rw [escaped_cons, if_pos hbare, List.cons_append, readBasicLines_quote h, ih, hbare.1]
      rfl
    -- The quotes at the end may be four or five in a row, which are read at once.
    cases cs with
    | nil =>
      rw [escaped_cons, if_pos hbare, hbare.1]
      exact hfour
    | cons d ds =>
      by_cases hnext : d = '"' ∧ seen + 1 < 2
      case neg => exact hread fun t => escaped_ne_quote ds _ _ fun hd => by grind
      cases ds with
      | nil =>
        rw [escaped_cons, if_pos hbare, escaped_cons, if_pos hnext, hbare.1, hnext.1]
        exact hfive
      | cons e es =>
        refine hread fun t => ?_
        rw [escaped_cons, if_pos hnext, List.cons_append]
        exact fun h => escaped_ne_quote es _ _ (fun _ => by omega) (List.cons.inj h).2

theorem le_longestRun (c : Char) (text : List Char) (seen : Nat) :
    seen ≤ longestRun c text seen := by
  induction text generalizing seen with
  | nil => exact Nat.le_refl _
  | cons d ds ih =>
    have := ih (seen + 1)
    grind [longestRun]

theorem longestRun_mono (c : Char) (text : List Char) {m n : Nat} (h : m ≤ n) :
    longestRun c text m ≤ longestRun c text n := by
  induction text generalizing m n with
  | nil => exact h
  | cons d ds ih =>
    have := @ih (m + 1) (n + 1) (by omega)
    grind [longestRun]

theorem not_mem_of_longestRun_eq_zero {c : Char} {text : List Char}
    (h : longestRun c text 0 = 0) : c ∉ text := by
  induction text with
  | nil => simp
  | cons d ds ih =>
    have := le_longestRun c ds 1
    grind [longestRun]

theorem readLiteral_append {text : List Char} (r : List Char) (h : ∀ c ∈ text, printable c = true)
    (hquote : '\x27' ∉ text) : readLiteral (text ++ '\x27' :: r) = some (text, r) := by
  induction text with
  | nil => rw [List.nil_append, readLiteral]
  | cons c cs ih =>
    rw [List.forall_mem_cons] at h
    rw [List.mem_cons, not_or] at hquote
    rw [List.cons_append, readLiteral, if_pos h.1, ih h.2 hquote.2]
    · rfl
    · exact fun hc => hquote.1 hc.symm

/-- The first of a text's characters, unless it is a quote that ends the string. -/
theorem readLiteralLines_cons {c : Char} {r : List Char} (hc : printable c = true ∨ c = '\n')
    (h : c = '\x27' → ∀ t, r ≠ '\x27' :: '\x27' :: t) :
    readLiteralLines (c :: r) = (readLiteralLines r).map fun (t, rest) => (c :: t, rest) := by
  rw [readLiteralLines]
  · rw [if_pos (by simpa using hc)]
  all_goals simp_all

theorem readLiteralLines_close {r : List Char} (hr : ∀ t, r ≠ '\x27' :: t) :
    readLiteralLines ('\x27' :: '\x27' :: '\x27' :: r) = some ([], r) ∧
      readLiteralLines ('\x27' :: '\x27' :: '\x27' :: '\x27' :: r) = some (['\x27'], r) ∧
      readLiteralLines ('\x27' :: '\x27' :: '\x27' :: '\x27' :: '\x27' :: r) =
        some (['\x27', '\x27'], r) := by
  refine ⟨?_, ?_, ?_⟩ <;> rw [readLiteralLines] <;> simp_all

/-- A run of two quotes at most cannot close the text. -/
theorem readLiteralLines_append {r : List Char} (hr : ∀ t, r ≠ '\x27' :: t) {text : List Char}
    (h : ∀ c ∈ text, printable c = true ∨ c = '\n') (hrun : longestRun '\x27' text 0 ≤ 2) :
    readLiteralLines (text ++ '\x27' :: '\x27' :: '\x27' :: r) = some (text, r) := by
  obtain ⟨hthree, hfour, hfive⟩ := readLiteralLines_close hr
  induction text with
  | nil => exact hthree
  | cons c cs ih =>
    rw [List.forall_mem_cons] at h
    have htail : longestRun '\x27' cs 0 ≤ 2 := by
      have := longestRun_mono '\x27' cs (Nat.zero_le 1)
      grind [longestRun]
    have hread (hends : c = '\x27' → ∀ t, cs ++ '\x27' :: '\x27' :: '\x27' :: r ≠
        '\x27' :: '\x27' :: t) :
        readLiteralLines (c :: cs ++ '\x27' :: '\x27' :: '\x27' :: r) = some (c :: cs, r) := by
      rw [List.cons_append, readLiteralLines_cons h.1 hends, ih h.2 htail]
      rfl
    by_cases hquote : c = '\x27'
    case neg => exact hread fun hc => absurd hc hquote
    subst hquote
    -- A third quote in a row would make the run too long.
    match cs, hread, hrun with
    | [], _, _ => exact hfour
    | [d], hread, _ =>
      by_cases hd : d = '\x27'
      · rw [hd]
        exact hfive
      · exact hread (by simp [hd])
    | d :: e :: es, hread, hrun =>
      refine hread fun _ t ht => ?_
      have : 0 + 1 + 1 + 1 ≤ _ := le_longestRun '\x27' es _
      simp only [List.cons_append, List.cons.injEq] at ht
      simp only [longestRun, ht.1, ht.2.1, if_true] at hrun
      omega

theorem Quoting.suits_literal {text : List Char} (h : Quoting.literal.suits text = true) :
    (∀ c ∈ text, printable c = true) ∧ '\x27' ∉ text := by
  simp only [suits, needsEscape, Bool.and_eq_true, decide_eq_true_eq, Bool.not_eq_true',
    List.any_eq_false, List.contains_eq_mem, decide_eq_false_iff_not] at h
  refine ⟨fun c hc => ?_, not_mem_of_longestRun_eq_zero h.1.2⟩
  have := h.1.1 c hc
  have hbreak : c ≠ '\n' := fun he => h.2 (he ▸ hc)
  simpa [hbreak] using this

theorem Quoting.suits_literalLines {text : List Char}
    (h : Quoting.literalLines.suits text = true) :
    (∀ c ∈ text, printable c = true ∨ c = '\n') ∧ longestRun '\x27' text 0 ≤ 2 := by
  simp only [suits, needsEscape, Bool.and_eq_true, decide_eq_true_eq, Bool.not_eq_true',
    List.any_eq_false] at h
  refine ⟨fun c hc => ?_, h.2⟩
  simpa [← Decidable.imp_iff_not_or, Decidable.or_iff_not_imp_left] using h.1 c hc

theorem dropBreak_of_ne {s : List Char} (h : ∀ r, s ≠ '\n' :: r) : dropBreak s = s := by
  rw [dropBreak]
  exact h

/-- The line break after the opening quotes is the one that is dropped. -/
theorem dropBreak_opening {text written : List Char} (h : '\n' ∉ text → ∀ r, written ≠ '\n' :: r) :
    dropBreak ((if text.contains '\n' then ['\n'] else []) ++ written) = written := by
  by_cases hbreak : '\n' ∈ text
  · rw [if_pos (by simpa using hbreak)]
    rfl
  · rw [if_neg (by simpa using hbreak)]
    exact dropBreak_of_ne (h hbreak)

theorem escaped_ne_break {quotes : Nat} {text : List Char} (h : '\n' ∉ text) (w t : List Char) :
    escaped true quotes text 0 ++ '"' :: w ≠ '\n' :: t := by
  cases text with
  | nil => simp [escaped]
  | cons c cs =>
    have hc : c ≠ '\n' := fun e => h (by simp [e])
    rw [escaped_cons]
    rcases spelling_cases true c with ⟨e, hspelling, -⟩ | ⟨hspelling, -⟩ <;>
      rw [hspelling] <;> split <;> simp [hc]

/-- A text is read back from a quoting with escapes, and from one without that suits it. -/
theorem readString_write {q : Quoting} {text : List Char}
    (h : q.hasEscapes = true ∨ q.suits text = true) {r : List Char}
    (hr : ∀ c ∈ r.head?, c ≠ '"' ∧ c ≠ '\x27') :
    readString (q.write text ++ r) = some (text, r) := by
  have hdouble (t : List Char) : r ≠ '"' :: t := fun e => (hr '"' (by simp [e])).1 rfl
  have hsingle (t : List Char) : r ≠ '\x27' :: t := fun e => (hr '\x27' (by simp [e])).2 rfl
  cases q with
  | basic =>
    have hwritten : Quoting.basic.write text ++ r =
        '"' :: (escaped false 0 text 0 ++ '"' :: r) := by
      simp [Quoting.write, Quoting.delimiter, Quoting.hasLines, Quoting.hasEscapes]
    rw [hwritten, readString]
    · exact readBasic_escaped text r
    · intro t
      cases text with
      | nil => simp [escaped, hdouble]
      | cons c cs => exact escaped_ne_quote cs _ _ (fun _ => Nat.zero_le _)
  | literal =>
    obtain ⟨hplain, hquote⟩ := Quoting.suits_literal (h.resolve_left (by decide))
    have hwritten : Quoting.literal.write text ++ r = '\x27' :: (text ++ '\x27' :: r) := by
      simp [Quoting.write, Quoting.delimiter, Quoting.hasLines, Quoting.hasEscapes]
    rw [hwritten, readString]
    · exact readLiteral_append r hplain hquote
    · intro t
      cases text with
      | nil => simp [hsingle]
      | cons c cs => exact fun e => hquote (by simp [(List.cons.inj e).1])
  | basicLines =>
    have hwritten : Quoting.basicLines.write text ++ r = '"' :: '"' :: '"' ::
        ((if text.contains '\n' then ['\n'] else []) ++
          (escaped true 2 text 0 ++ '"' :: '"' :: '"' :: r)) := by
      simp [Quoting.write, Quoting.delimiter, Quoting.hasLines, Quoting.hasEscapes]
    rw [hwritten, readString, dropBreak_opening fun hbreak => escaped_ne_break hbreak _]
    exact readBasicLines_escaped hdouble text 0
  | literalLines =>
    obtain ⟨hplain, hrun⟩ := Quoting.suits_literalLines (h.resolve_left (by decide))
    have hwritten : Quoting.literalLines.write text ++ r = '\x27' :: '\x27' :: '\x27' ::
        ((if text.contains '\n' then ['\n'] else []) ++
          (text ++ '\x27' :: '\x27' :: '\x27' :: r)) := by
      simp [Quoting.write, Quoting.delimiter, Quoting.hasLines, Quoting.hasEscapes]
    rw [hwritten, readString, dropBreak_opening]
    · exact readLiteralLines_append hsingle hplain hrun
    · intro hbreak t
      cases text with
      | nil => simp
      | cons c cs => exact fun e => hbreak (by simp [(List.cons.inj e).1])

/-- A form without escapes is chosen only for texts that it suits. -/
theorem hasEscapes_or_suits_choose (text : List Char) :
    (Quoting.choose text).hasEscapes = true ∨ (Quoting.choose text).suits text = true := by
  unfold Quoting.choose
  split
  · exact .inr (List.find?_some ‹_›)
  · split <;> exact .inl rfl

/-- **A quoted text is read back**, up to where the quotes end. -/
theorem readString_quote (text : List Char) {r : List Char}
    (hr : ∀ c ∈ r.head?, c ≠ '"' ∧ c ≠ '\x27') : readString (quote text ++ r) = some (text, r) :=
  readString_write (hasEscapes_or_suits_choose text) hr

theorem quote_cases (text : List Char) :
    ∃ s, quote text = '"' :: s ∨ quote text = '\x27' :: s := by
  unfold quote Quoting.write
  cases Quoting.choose text <;> simp [Quoting.delimiter]

theorem return_not_mem_spelling (lines : Bool) (c : Char) : '\r' ∉ spelling lines c := by
  rcases spelling_cases lines c with ⟨e, hspelling, he⟩ | ⟨hspelling, -, -, hplain⟩
  · simp [hspelling, he.no_return]
  · rw [hspelling, List.mem_singleton]
    rintro rfl
    simp [printable] at hplain

theorem return_not_mem_escaped (lines : Bool) (quotes : Nat) (text : List Char) (seen : Nat) :
    '\r' ∉ escaped lines quotes text seen := by
  induction text generalizing seen with
  | nil => simp [escaped]
  | cons c cs ih =>
    rw [escaped_cons]
    split <;> simp [ih, return_not_mem_spelling]

theorem Quoting.return_not_mem_of_suits {q : Quoting} {text : List Char}
    (h : q.suits text = true) : '\r' ∉ text := by
  intro hmem
  have hescape : text.any needsEscape = true := List.any_eq_true.2 ⟨'\r', hmem, by decide⟩
  cases q <;> simp [suits, hescape] at h

/-- No form has a carriage return, so line breaks stay as they are. -/
theorem return_not_mem_write {q : Quoting} {text : List Char}
    (h : q.hasEscapes = true ∨ q.suits text = true) : '\r' ∉ q.write text := by
  have hdelimiter : '\r' ∉ q.delimiter := by cases q <;> decide
  simp only [Quoting.write, List.mem_append, not_or]
  refine ⟨⟨⟨hdelimiter, ?_⟩, ?_⟩, hdelimiter⟩
  · split <;> simp
  · split
    · exact return_not_mem_escaped _ _ text 0
    · exact Quoting.return_not_mem_of_suits (h.resolve_left ‹_›)

/-- Carriage returns are escaped. -/
theorem return_not_mem_quote (text : List Char) : '\r' ∉ quote text :=
  return_not_mem_write (hasEscapes_or_suits_choose text)

end Switchboard.Toml
