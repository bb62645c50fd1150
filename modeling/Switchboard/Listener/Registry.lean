import Std.Data.TreeMap
import Switchboard.Packet

/-!
# Listener registries

Listeners by the routing channel they are interested in, in the order in which they
registered. A registry may have a parent; dispatch runs a registry's own listeners and
then those of its ancestors, each registry's from a snapshot taken when its turn comes.
-/

namespace Switchboard

abbrev ListenerId := UInt64

structure Entry (L : Type) where
  id : ListenerId
  listener : L
  deriving DecidableEq, Repr

structure Registry (L : Type) where
  channels : Std.TreeMap Int32 (List (Entry L)) := {}
  /-- The id given last. -/
  lastId : ListenerId := 0

namespace Registry

variable {L : Type}

/-- The listeners of a channel, in registration order. -/
def listeners (r : Registry L) (channel : Int32) : List (Entry L) :=
  (r.channels[channel]?).getD []

def register (r : Registry L) (channel : Int32) (listener : L) : ListenerId × Registry L :=
  let id := r.lastId + 1
  (id, { lastId := id,
         channels := r.channels.alter channel fun es => some (es.getD [] ++ [{ id, listener }]) })

def unregister (r : Registry L) (channel : Int32) (id : ListenerId) : Bool × Registry L :=
  match r.channels[channel]? with
  | none => (false, r)
  | some es =>
    let rest := es.filter fun e => e.id ≠ id
    (rest.length ≠ es.length,
      { r with channels :=
          if rest.isEmpty then r.channels.erase channel else r.channels.insert channel rest })

def unregisterChannel (r : Registry L) (channel : Int32) : Nat × Registry L :=
  ((r.listeners channel).length, { r with channels := r.channels.erase channel })

/-- Whether a channel has an entry of its own. -/
def hasOwn (r : Registry L) (channel : Int32) : Bool := r.channels.contains channel

def channelList (r : Registry L) : List Int32 := r.channels.keys

end Registry

/-- Run the listeners of a chain of registries, the nearest first; how many there were.
`snapshot` gives the listeners that a registry has at that moment. -/
def dispatch {m : Type → Type} [Monad m] {K L : Type} (snapshot : K → m (List L))
    (invoke : L → m Unit) : List K → m Nat
  | [] => pure 0
  | key :: ancestors => do
    let listeners ← snapshot key
    listeners.forM invoke
    return listeners.length + (← dispatch snapshot invoke ancestors)

structure Directory (L : Type) where
  registries : List (String × Registry L × Option String) := []

namespace Directory

variable {L : Type}

/-- Add an empty registry; a former one of this name is replaced. -/
def create (d : Directory L) (name : String) (parent : Option String) : Directory L :=
  { registries := (name, {}, parent) :: d.registries.filter (·.1 ≠ name) }

def registry (d : Directory L) (name : String) : Registry L :=
  (d.registries.lookup name).elim {} (·.1)

def parent? (d : Directory L) (name : String) : Option String :=
  (d.registries.lookup name).bind (·.2)

/-- Change the registry of a name. -/
def set (d : Directory L) (name : String) (r : Registry L) : Directory L :=
  { registries := d.registries.map fun e => if e.1 = name then (name, r, e.2.2) else e }

/-- Names from `name` on through its ancestors, at most `fuel` of them. -/
def chainFrom (d : Directory L) : (fuel : Nat) → (name : String) → List String
  | 0, _ => []
  | fuel + 1, name => name :: (d.parent? name).elim [] (d.chainFrom fuel)

def chain (d : Directory L) (name : String) : List String :=
  d.chainFrom d.registries.length name

def hasListeners (d : Directory L) (name : String) (channel : Int32) : Bool :=
  (d.chain name).any fun n => (d.registry n).hasOwn channel

end Directory

end Switchboard
