/-!
# Octets in outline

A row of octets shown by its length and both its ends, and a row told by a unit that is repeated,
which can be longer than anything that is held in a list.
-/

namespace Switchboard

structure Outline where
  length : Nat
  head : List UInt8
  tail : List UInt8
  deriving DecidableEq, Repr

/-- A unit of octets, so many times. -/
structure Repeated where
  unit : List UInt8
  times : Nat

namespace Repeated

def octets (r : Repeated) : List UInt8 := (List.replicate r.times r.unit).flatten

def length (r : Repeated) : Nat := r.times * r.unit.length

theorem length_octets (r : Repeated) : r.octets.length = r.length := by
  simp [octets, length]

def cut (n : Nat) (r : Repeated) : Repeated := { r with times := min r.times n }

theorem octets_add (unit : List UInt8) (m n : Nat) :
    octets ⟨unit, m + n⟩ = octets ⟨unit, m⟩ ++ octets ⟨unit, n⟩ := by
  simp [octets, ← List.replicate_append_replicate]

/-- Of a unit that is not empty, `n` repetitions have `n` octets unless there are no more. -/
theorem le_length_cut {n : Nat} {r : Repeated} (hunit : r.unit ≠ []) (h : n ≤ r.length) :
    n ≤ (r.cut n).length := by
  have hpos := List.length_pos_iff.mpr hunit
  rcases Nat.le_total r.times n with hle | hle
  · rwa [cut, Nat.min_eq_left hle]
  · rw [cut, Nat.min_eq_right hle]
    exact Nat.le_mul_of_pos_right n hpos

end Repeated

namespace Outline

/-- The outline that shows `width` octets of either end. -/
def of (width : Nat) (s : List UInt8) : Outline :=
  { length := s.length, head := s.take width, tail := s.drop (s.length - width) }

/-- The outline of `s` and a repeated unit behind it, from no more repetitions than it shows. -/
def before (width : Nat) (s : List UInt8) (r : Repeated) : Outline :=
  let few := (r.cut width).octets
  { length := s.length + r.length
    head := (s ++ few).take width
    tail := few.drop (few.length - width) }

/-- The outline of a row with a repeated unit at its end is told from few repetitions. -/
theorem before_eq {width : Nat} {r : Repeated} (s : List UInt8) (hunit : r.unit ≠ [])
    (h : width ≤ r.length) : before width s r = of width (s ++ r.octets) := by
  have hcut := Repeated.le_length_cut hunit h
  obtain ⟨more, hmore⟩ : ∃ more, r.times = min r.times width + more :=
    Nat.exists_eq_add_of_le (Nat.min_le_left _ _)
  have hfront : r.octets = (r.cut width).octets ++ Repeated.octets ⟨r.unit, more⟩ := by
    rw [Repeated.cut, ← Repeated.octets_add, ← hmore]
  have hback : r.octets = Repeated.octets ⟨r.unit, more⟩ ++ (r.cut width).octets := by
    rw [Repeated.cut, ← Repeated.octets_add, Nat.add_comm, ← hmore]
  rw [← Repeated.length_octets] at hcut
  simp only [before, of, mk.injEq]
  refine ⟨by rw [List.length_append, Repeated.length_octets], ?_, ?_⟩
  · have hlong : width ≤ (s ++ (r.cut width).octets).length := by
      rw [List.length_append]
      omega
    rw [hfront, ← List.append_assoc, List.take_append_of_le_length hlong]
  · rw [hback, ← List.append_assoc, List.length_append, Nat.add_sub_assoc hcut,
      List.drop_append, List.drop_eq_nil_of_le (Nat.le_add_right _ _), Nat.add_sub_cancel_left,
      List.nil_append]

end Outline

end Switchboard
