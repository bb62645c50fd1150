import Switchboard.Buffer.Basic

/-! # Buffers of either kind -/

namespace Switchboard

/-- A buffer that is still written to, or one that is frozen. -/
inductive AnyBuffer where
  | draft (d : Draft)
  | frozen (b : Buffer)
  deriving DecidableEq, Repr

namespace AnyBuffer

instance : Source AnyBuffer where
  unread
    | draft d => d.unread
    | frozen b => b.unread
  consume n
    | draft d => draft (Source.consume n d)
    | frozen b => frozen (Source.consume n b)
  advance n
    | draft d => (Source.advance n d).map draft
    | frozen b => (Source.advance n b).map frozen
  mark
    | draft d => draft (Source.mark d)
    | frozen b => frozen (Source.mark b)
  rollback
    | draft d => draft (Source.rollback d)
    | frozen b => frozen (Source.rollback b)

def cursor : AnyBuffer → Nat
  | draft d => d.cursor
  | frozen b => b.cursor

def size : AnyBuffer → Nat
  | draft d => d.size
  | frozen b => b.size

/-- Append octets; a frozen buffer stays as it is. -/
def write (s : List UInt8) : AnyBuffer → AnyBuffer
  | draft d => draft (d.write s)
  | frozen b => frozen b

end AnyBuffer

end Switchboard
