/-!
# Texts of durations

From one second on a duration is written in seconds, below in milliseconds; a fraction
has no trailing zeros.
-/

namespace Switchboard.Duration

def padded (width n : Nat) : String :=
  let digits := toString n
  String.ofList (List.replicate (width - digits.length) '0') ++ digits

/-- The digits of a fraction of `width` places, without trailing zeros. -/
def fraction (width n : Nat) : String :=
  let digits := ((padded width n).toList.reverse.dropWhile (· = '0')).reverse
  if digits.isEmpty then "" else "." ++ String.ofList digits

def text (nanoseconds : Nat) : String :=
  if 1000000000 ≤ nanoseconds then
    toString (nanoseconds / 1000000000) ++ fraction 9 (nanoseconds % 1000000000) ++ "s"
  else if 1000000 ≤ nanoseconds then
    toString (nanoseconds / 1000000) ++ fraction 6 (nanoseconds % 1000000) ++ "ms"
  else if 1000 ≤ nanoseconds then
    toString (nanoseconds / 1000) ++ fraction 3 (nanoseconds % 1000) ++ "µs"
  else toString nanoseconds ++ "ns"

def ofMillis (n : Nat) : String := text (n * 1000000)

end Switchboard.Duration
