import Switchboard.Settings.Basic
import Switchboard.Toml.Document
import Switchboard.Toml.Sheet

/-!
# Settings as TOML

Each section is a table of which every key may be left out except the name in the general
section; keys that are not known are ignored. A section may also be an array of its values
in order, and a date counts as a section without keys.
-/

namespace Switchboard

open Toml (Node Entries Cell Sheet)

/-- The values of a section, by name or by position. -/
inductive Fields where
  | named (entries : Entries)
  | listed (values : List Node)

namespace Fields

def ofNode? : Node → Option Fields
  | .table _ es => some (.named es)
  | .dateTime => some (.named [])
  | .array values => some (.listed values)
  | .tables earlier last => some (.listed (earlier ++ [.table .header last]))
  | _ => none

def find? (f : Fields) (position : Nat) (name : String) : Option Node :=
  match f with
  | named es => es.lookup name
  | listed values => values[position]?

def required {α : Type} (f : Fields) (position : Nat) (name : String)
    (decode : Node → Option α) : Option α :=
  (f.find? position name).bind decode

def optional {α : Type} (f : Fields) (position : Nat) (name : String)
    (decode : Node → Option α) (default : α) : Option α :=
  (f.find? position name).elim (some default) decode

/-- A value that may be absent; a list cannot leave it out. -/
def absentable {α : Type} (f : Fields) (position : Nat) (name : String)
    (decode : Node → Option α) : Option (Option α) :=
  match f.find? position name, f with
  | some n, _ => (decode n).map some
  | none, named _ => some none
  | none, listed _ => none

end Fields

namespace Settings

def text? : Node → Option String
  | .text s => some s
  | _ => none

def flag? : Node → Option Bool
  | .bool b => some b
  | _ => none

def number? (bound : Nat) : Node → Option Nat
  | .integer n => if 0 ≤ n ∧ n ≤ bound then some n.toNat else none
  | _ => none

def word16? (n : Node) : Option UInt16 := (number? (UInt16.size - 1) n).map UInt16.ofNat

def word64? (n : Node) : Option UInt64 := (number? (UInt64.size - 1) n).map UInt64.ofNat

def general? (f : Fields) : Option GeneralSettings := do
  return { name := ← f.required 0 "name" text?
           verbose := ← f.optional 1 "verbose" flag? false }

def network? (f : Fields) : Option ListenSettings := do
  let base : ListenSettings := {}
  return { port := ← f.optional 0 "port" word16? base.port
           bindAddress := ← f.absentable 1 "bind_address" text?
           connectTimeout := ← f.optional 2 "connect_timeout_ms" word64? base.connectTimeout
           maxFrameSize := ← f.optional 3 "max_frame_size" word64? base.maxFrameSize
           writeHighWater := ← f.optional 4 "write_high_water" word64? base.writeHighWater }

def query? (f : Fields) : Option QuerySettings := do
  let base : QuerySettings := {}
  return { defaultTimeout := ← f.optional 0 "default_timeout_ms" word64? base.defaultTimeout }

def rpc? (f : Fields) : Option RpcSettings := do
  let base : RpcSettings := {}
  return { callTimeout := ← f.optional 0 "call_timeout_ms" word64? base.callTimeout }

def section? {α : Type} (es : Entries) (name : String) (decode : Fields → Option α)
    (default : α) : Option α :=
  (es.lookup name).elim (some default) fun n => (Fields.ofNode? n).bind decode

/-- The settings that a document gives on a machine of some name. -/
def ofEntries? (hostName : String) (es : Entries) : Option Settings := do
  let base := Settings.default hostName
  return { general := ← section? es "general" general? base.general
           network := ← section? es "network" network? base.network
           query := ← section? es "query" query? base.query
           rpc := ← section? es "rpc" rpc? base.rpc }

def parse? (hostName text : String) : Option Settings :=
  (Toml.parse? text).bind (ofEntries? hostName)

def toSheet (s : Settings) : Sheet :=
  let number (n : UInt64) : Cell := .integer n.toNat
  [⟨"general", [("name", .text s.general.name), ("verbose", .bool s.general.verbose)]⟩,
    ⟨"network",
      [("port", .integer s.network.port.toNat)] ++
        (s.network.bindAddress.map fun a => ("bind_address", .text a)).toList ++
        [("connect_timeout_ms", number s.network.connectTimeout),
          ("max_frame_size", number s.network.maxFrameSize),
          ("write_high_water", number s.network.writeHighWater)]⟩,
    ⟨"query", [("default_timeout_ms", number s.query.defaultTimeout)]⟩,
    ⟨"rpc", [("call_timeout_ms", number s.rpc.callTimeout)]⟩]

/-- The text of a settings file; none if a number is too large for one. -/
def render (s : Settings) : Option String := s.toSheet.render

end Settings

end Switchboard
