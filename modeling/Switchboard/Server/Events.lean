import Switchboard.Server.Lifecycle

/-!
# The event queue of a server

Events are best effort: what finds the queue full is lost, so a consumer that does not
read never stalls the server.
-/

namespace Switchboard

structure EventQueue where
  capacity : Nat := 256
  unread : List ServerEvent := []
  /-- Whether the consumer's end has been handed out. -/
  taken : Bool := false
  deriving DecidableEq, Repr

namespace EventQueue

/-- Queue an event if there is room. -/
def push (q : EventQueue) (e : ServerEvent) : EventQueue :=
  if q.unread.length < q.capacity then { q with unread := q.unread ++ [e] } else q

def pushAll (q : EventQueue) (es : List ServerEvent) : EventQueue := es.foldl push q

def drain (q : EventQueue) : List ServerEvent × EventQueue :=
  (q.unread, { q with unread := [] })

/-- Hand the consumer's end out, which works once. -/
def take (q : EventQueue) : Bool × EventQueue := (!q.taken, { q with taken := true })

end EventQueue

end Switchboard
