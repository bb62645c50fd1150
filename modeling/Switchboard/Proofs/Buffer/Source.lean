import Switchboard.Proofs.Buffer.Reads

/-!
# Reading a buffer

A buffer is read through the octets behind its cursor, and what a reader takes moves the
cursor and nothing else. `LawfulSource` is what that asks of a kind of buffer; a reader
that takes `s` then puts the cursor exactly behind `s`.
-/

namespace Switchboard

class LawfulSource (σ : Type) [Source σ] : Prop where
  unread_consume (n : Nat) (b : σ) : Source.unread (Source.consume n b) = (Source.unread b).drop n
  consume_zero (b : σ) : Source.consume 0 b = b
  consume_consume (m n : Nat) (b : σ) :
    Source.consume n (Source.consume m b) = Source.consume (m + n) b

instance : LawfulSource Draft where
  unread_consume n d := by simp [Source.unread, Source.consume, Draft.unread]
  consume_zero _ := rfl
  consume_consume m n d := by simp [Source.consume, Nat.add_assoc]

instance : LawfulSource Buffer where
  unread_consume n b := by simp [Source.unread, Source.consume, Buffer.unread]
  consume_zero _ := rfl
  consume_consume m n b := by simp [Source.consume, Nat.add_assoc]

namespace Source

variable {σ : Type} [Source σ] {α : Type}

/-- What a reader leaves of the unread octets stays unread, whether it gives a value or fails. -/
theorem read_of_on {r : Reader α} {s rest : List UInt8} {outcome : Except BufferError α}
    (h : r.on (s ++ rest) = (outcome, rest)) (b : σ) (hb : unread b = s ++ rest) :
    read r b = (outcome, consume s.length b) := by
  simp only [read, hb, h, List.length_append, Nat.add_sub_cancel]

/-- What a reader takes off the unread octets is what the buffer's cursor passes. -/
theorem read_of_reads {r : Reader α} {s rest : List UInt8} {a : α} (h : r.Reads s a) (b : σ)
    (hb : unread b = s ++ rest) : read r b = (.ok a, consume s.length b) :=
  read_of_on (h rest) b hb

/-- What follows is unread behind what the cursor passes. -/
theorem unread_consume_append [LawfulSource σ] {b : σ} {s rest : List UInt8}
    (hb : unread b = s ++ rest) : unread (consume s.length b) = rest := by
  rw [LawfulSource.unread_consume, hb, List.drop_left]

end Source

def Draft.seek (d : Draft) (n : Nat) : Draft := { d with cursor := n }

def Buffer.seek (b : Buffer) (n : Nat) : Buffer := { b with cursor := n }

namespace Draft

@[simp] theorem write_write (s t : List UInt8) (d : Draft) :
    (d.write s).write t = d.write (s ++ t) := by
  simp [write]

@[simp] theorem write_nil (d : Draft) : d.write [] = d := by
  simp [write]

@[simp] theorem size_write (s : List UInt8) (d : Draft) : (d.write s).size = d.size + s.length := by
  simp [write, size]

/-- With its cursor where a write began, a draft has what was written unread. -/
theorem unread_seek_write (d : Draft) (s : List UInt8) :
    Source.unread ((d.write s).seek d.size) = s := by
  simp [Source.unread, unread, seek, write, size]

/-- A cursor inside a draft stays where it is. -/
theorem freeze_seek (d : Draft) (n : Nat) (h : n ≤ d.size) :
    (d.seek n).freeze = (Buffer.ofBytes d.bytes).seek n :=
  congrArg (Buffer.seek (.ofBytes d.bytes)) (Nat.min_eq_left h)

/-- So has the buffer that is frozen from it, and its cursor stands there. -/
theorem freeze_seek_write (d : Draft) (s : List UInt8) :
    Source.unread ((d.write s).seek d.size).freeze = s ∧
      ((d.write s).seek d.size).freeze.cursor = d.size := by
  have hcursor : d.size ≤ (d.write s).size := by
    rw [size_write]
    omega
  rw [freeze_seek _ _ hcursor]
  exact ⟨d.unread_seek_write s, rfl⟩

end Draft

end Switchboard
