/-!
# Decimal integers

Integers as a user types them: an optional sign, then digits, at most a bound. A digit is
looked at before the bound, so the leftmost fault decides.
-/

namespace Switchboard.Decimal

/-- Why a text is no integer of the wanted range. -/
inductive Fault where
  | empty
  | invalidDigit
  | tooLarge
  | tooSmall
  deriving DecidableEq, Repr

def Fault.message : Fault → String
  | .empty => "cannot parse integer from empty string"
  | .invalidDigit => "invalid digit found in string"
  | .tooLarge => "number too large to fit in target type"
  | .tooSmall => "number too small to fit in target type"

def digit? (c : Char) : Option Nat :=
  if '0' ≤ c ∧ c ≤ '9' then some (c.toNat - 48) else none

/-- The number that `digits` continue `n` to; `excess` when it exceeds `bound`. -/
def magnitude (bound : Nat) (excess : Fault) :
    (digits : List Char) → (n : Nat) → Except Fault Nat
  | [], n => .ok n
  | c :: cs, n =>
    match digit? c with
    | none => .error .invalidDigit
    | some d =>
      if n * 10 + d ≤ bound then magnitude bound excess cs (n * 10 + d) else .error excess

/-- At least one digit, then no more than `bound`. -/
def digits (bound : Nat) (excess : Fault) (text : List Char) : Except Fault Nat :=
  if text.isEmpty then .error .invalidDigit else magnitude bound excess text 0

/-- A number up to `bound`, with or without a plus sign. -/
def natural (bound : Nat) (text : String) : Except Fault Nat :=
  match text.toList with
  | [] => .error .empty
  | '+' :: cs => digits bound .tooLarge cs
  | cs => digits bound .tooLarge cs

def integer (bound : Nat) (text : String) : Except Fault Int :=
  match text.toList with
  | [] => .error .empty
  | '+' :: cs => (digits bound .tooLarge cs).map (↑·)
  | '-' :: cs => (digits (bound + 1) .tooSmall cs).map fun n => -n
  | cs => (digits bound .tooLarge cs).map (↑·)

end Switchboard.Decimal
