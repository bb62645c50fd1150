/-!
# Pipes

One direction of a connection: octets on their way, never more than the capacity. Either
end may close it; then nothing more goes in, and what is inside can still be taken out.
-/

namespace Switchboard

structure Pipe where
  capacity : Nat
  content : List UInt8 := []
  closed : Bool := false
  deriving DecidableEq, Repr

namespace Pipe

inductive Put where
  /-- How many went in. -/
  | accepted (count : Nat)
  | full
  | broken
  deriving DecidableEq, Repr

/-- Put as many octets of `s` in as there is room for. -/
def put (p : Pipe) (s : List UInt8) : Put × Pipe :=
  if p.closed then (.broken, p)
  else
    let count := min s.length (p.capacity - p.content.length)
    if count = 0 ∧ s ≠ [] then (.full, p)
    else (.accepted count, { p with content := p.content ++ s.take count })

/-- Whether `put` would say that the pipe is full. -/
def isFull (p : Pipe) : Bool := !p.closed && p.capacity ≤ p.content.length

inductive Taken where
  | octets (s : List UInt8)
  /-- Nothing is there yet. -/
  | nothing
  /-- Nothing is there and nothing will come. -/
  | ended
  deriving DecidableEq, Repr

/-- Take at most `limit` octets out. -/
def take (p : Pipe) (limit : Nat) : Taken × Pipe :=
  if p.content.isEmpty then (if p.closed then .ended else .nothing, p)
  else (.octets (p.content.take limit), { p with content := p.content.drop limit })

def close (p : Pipe) : Pipe := { p with closed := true }

end Pipe

end Switchboard
