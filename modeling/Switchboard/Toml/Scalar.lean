import Switchboard.Toml.Node
import Switchboard.Identity

/-!
# TOML numbers, dates and booleans

The values that are written without quotes or brackets. Integers are kept; of fractions and
dates it only matters here whether they are well-formed.
-/

namespace Switchboard.Toml

def isDigit (c : Char) : Bool := '0' ≤ c && c ≤ '9'

def moreDigits? (isDigit : Char → Bool) : List Char → Option (List Char)
  | [] => some []
  | '_' :: c :: r => if isDigit c then (moreDigits? isDigit r).map (c :: ·) else none
  | c :: r => if isDigit c then (moreDigits? isDigit r).map (c :: ·) else none

/-- The digits of a number with single underscores between some of them. -/
def digits? (isDigit : Char → Bool) : List Char → Option (List Char)
  | [] => none
  | c :: r => if isDigit c then (moreDigits? isDigit r).map (c :: ·) else none

def numeral (base : Nat) (digits : List Char) : Nat :=
  digits.foldl (fun n c => n * base + (Identity.digitValue? c).getD 0) 0

/-- Decimal digits, of which a leading zero can only stand alone. -/
def decimal? (s : List Char) : Option (List Char) :=
  match digits? isDigit s with
  | some ('0' :: _ :: _) => none
  | ds => ds

def based? (base : Nat) (s : List Char) : Option Int := do
  let ds ← digits? (fun c => (Identity.digitValue? c).any (· < base)) s
  guard (numeral base ds ≤ greatest)
  return numeral base ds

def signed? (negative : Bool) (s : List Char) : Option Int := do
  let n := numeral 10 (← decimal? s)
  guard (if negative then n ≤ greatest + 1 else n ≤ greatest)
  return if negative then -n else n

def integer? : List Char → Option Int
  | '0' :: 'x' :: s => based? 16 s
  | '0' :: 'o' :: s => based? 8 s
  | '0' :: 'b' :: s => based? 2 s
  | '+' :: s => signed? false s
  | '-' :: s => signed? true s
  | s => signed? false s

/-- The least number that is rounded beyond the greatest double. -/
def hugeBound : Nat := Nat.pow 2 1024 - Nat.pow 2 970

/-- Whether `digits` times ten to the `exponent` is too large for a double. -/
def isHuge (digits : List Char) (exponent : Int) : Bool :=
  let n := numeral 10 digits
  let size := (digits.dropWhile (· = '0')).length + exponent
  if n = 0 || size ≤ 308 then false
  else if 310 < size then true
  else hugeBound * Nat.pow 10 (-exponent).toNat ≤ n * Nat.pow 10 exponent.toNat

def exponent? : List Char → Option Int
  | e :: s => do
    guard (e = 'e' ∨ e = 'E')
    match s with
    | '+' :: s => return numeral 10 (← digits? isDigit s)
    | '-' :: s => return -numeral 10 (← digits? isDigit s)
    | s => return numeral 10 (← digits? isDigit s)
  | [] => none

/-- The whole part, then a fraction, an exponent or both; a positive number must be finite. -/
def unsignedFloat? (negative : Bool) (s : List Char) : Option Unit := do
  let inPart := fun c => isDigit c || c = '_'
  let whole ← decimal? (s.takeWhile inPart)
  let (fraction, exponent) ← match s.dropWhile inPart with
    | '.' :: r => do
      let fraction ← digits? isDigit (r.takeWhile inPart)
      match r.dropWhile inPart with
      | [] => some (fraction, (0 : Int))
      | e => (exponent? e).map (fraction, ·)
    | r => (exponent? r).map ([], ·)
  guard (negative ∨ ¬ isHuge (whole ++ fraction) (exponent - fraction.length))

def float? : List Char → Option Unit
  | '+' :: s => unsignedOrSpecial? false s
  | '-' :: s => unsignedOrSpecial? true s
  | s => unsignedOrSpecial? false s
where
  unsignedOrSpecial? (negative : Bool) (s : List Char) : Option Unit :=
    if s = ['i', 'n', 'f'] ∨ s = ['n', 'a', 'n'] then some () else unsignedFloat? negative s

def twoDigits? (lo hi : Nat) (a b : Char) : Option Nat := do
  guard (isDigit a ∧ isDigit b)
  let n := numeral 10 [a, b]
  guard (lo ≤ n ∧ n ≤ hi)
  return n

def daysInMonth (year month : Nat) : Nat :=
  if month = 2 then
    if year % 4 = 0 ∧ (year % 100 ≠ 0 ∨ year % 400 = 0) then 29 else 28
  else if month = 4 ∨ month = 6 ∨ month = 9 ∨ month = 11 then 30 else 31

def afterDate? : List Char → Option (List Char)
  | y₁ :: y₂ :: y₃ :: y₄ :: '-' :: m₁ :: m₂ :: '-' :: d₁ :: d₂ :: r => do
    guard ([y₁, y₂, y₃, y₄].all isDigit)
    let month ← twoDigits? 1 12 m₁ m₂
    let _ ← twoDigits? 1 (daysInMonth (numeral 10 [y₁, y₂, y₃, y₄]) month) d₁ d₂
    return r
  | _ => none

/-- What follows a time of the day, which may have a leap second and a fraction. -/
def afterTime? : List Char → Option (List Char)
  | h₁ :: h₂ :: ':' :: m₁ :: m₂ :: ':' :: s₁ :: s₂ :: r => do
    let _ ← twoDigits? 0 23 h₁ h₂
    let _ ← twoDigits? 0 59 m₁ m₂
    let _ ← twoDigits? 0 60 s₁ s₂
    match r with
    | '.' :: f => if (f.takeWhile isDigit).isEmpty then none else some (f.dropWhile isDigit)
    | r => some r
  | _ => none

def offset? : List Char → Option Unit
  | [] => some ()
  | [z] => guard (z = 'Z' ∨ z = 'z')
  | [sign, h₁, h₂, ':', m₁, m₂] => do
    guard (sign = '+' ∨ sign = '-')
    let _ ← twoDigits? 0 23 h₁ h₂
    let _ ← twoDigits? 0 59 m₁ m₂
  | _ => none

/-- A date, a time, or a date and a time with or without an offset. -/
def dateTime? (s : List Char) : Option Unit :=
  match afterDate? s with
  | some [] => some ()
  | some (t :: r) => do
    guard (t = 'T' ∨ t = 't' ∨ t = ' ')
    offset? (← afterTime? r)
  | none => do
    guard (← afterTime? s).isEmpty

def isScalarChar (c : Char) : Bool :=
  c.isAlphanum || c = '_' || c = '+' || c = '-' || c = '.' || c = ':'

def scalarOf? (s : List Char) : Option Node :=
  if s = ['t', 'r', 'u', 'e'] then some (.bool true)
  else if s = ['f', 'a', 'l', 's', 'e'] then some (.bool false)
  else match integer? s with
    | some n => some (.integer n)
    | none =>
      if (dateTime? s).isSome then some .dateTime
      else if (float? s).isSome then some .float else none

/-- Read one of them. A date may be parted from its time by a space. -/
def readScalar (s : List Char) : Option (Node × List Char) := do
  let first := s.takeWhile isScalarChar
  let rest := s.dropWhile isScalarChar
  match rest with
  | ' ' :: c :: r =>
    if afterDate? first = some [] ∧ isDigit c then
      let time := (c :: r).takeWhile isScalarChar
      return (← scalarOf? (first ++ ' ' :: time), (c :: r).dropWhile isScalarChar)
    else return (← scalarOf? first, rest)
  | _ => return (← scalarOf? first, rest)

end Switchboard.Toml
