import Switchboard.Settings.File

/-!
# What a settings file leaves out

A settings file gives any of the sections and any keys in them, and what it leaves out is to
take its default. `Given` is what a file gives, `Given.In` says that a document gives just
that, and `Given.onto` puts it over other settings. A file is read as the defaults under what
it gives, with one exception: a general section that is there and has no name is refused,
although the name of the machine stands in when the whole section is left out.
-/

namespace Switchboard

open Toml (Node Entries Origin)

def Toml.Entries.Gives {α : Type} (es : Entries) (key : String) (node : α → Node)
    (v : Option α) : Prop :=
  es.lookup key = v.map node

namespace Fields

variable {α : Type} {es : Entries} {key : String} {node : α → Node} {decode : Node → Option α}
  {v : Option α}

theorem find?_of_gives (h : es.Gives key node v) (position : Nat) :
    (named es).find? position key = v.map node := h

theorem required_of_gives (h : es.Gives key node v) (hd : ∀ a, decode (node a) = some a)
    (position : Nat) : (named es).required position key decode = v := by
  rw [required, find?_of_gives h]
  cases v with
  | none => rfl
  | some a => exact hd a

theorem optional_of_gives (h : es.Gives key node v) (hd : ∀ a, decode (node a) = some a)
    (position : Nat) (default : α) :
    (named es).optional position key decode default = some (v.getD default) := by
  rw [optional, find?_of_gives h]
  cases v with
  | none => rfl
  | some a => exact hd a

theorem absentable_of_gives (h : es.Gives key node v) (hd : ∀ a, decode (node a) = some a)
    (position : Nat) : (named es).absentable position key decode = some v := by
  unfold absentable
  rw [find?_of_gives h]
  cases v with
  | none => rfl
  | some a => simp [hd]

end Fields

theorem Content.text_encode (text : String) : Content.text (.ok (Utf8.encode text)) = .ok text := by
  unfold Content.text
  simp [bind, Except.bind]

namespace Settings

structure Given.General where
  name : Option String := none
  verbose : Option Bool := none

structure Given.Network where
  port : Option UInt16 := none
  bindAddress : Option String := none
  connectTimeout : Option UInt64 := none
  maxFrameSize : Option UInt64 := none
  writeHighWater : Option UInt64 := none

structure Given.Query where
  defaultTimeout : Option UInt64 := none

structure Given.Rpc where
  callTimeout : Option UInt64 := none

structure Given where
  general : Option Given.General := none
  network : Option Given.Network := none
  query : Option Given.Query := none
  rpc : Option Given.Rpc := none

def word16 (n : UInt16) : Node := .integer n.toNat

def word64 (n : UInt64) : Node := .integer n.toNat

theorem text?_text (s : String) : text? (.text s) = some s := rfl

theorem flag?_bool (b : Bool) : flag? (.bool b) = some b := rfl

theorem number?_integer {bound n : Nat} (h : n ≤ bound) : number? bound (.integer n) = some n := by
  simp [number?, h]

theorem word16?_word16 (n : UInt16) : word16? (word16 n) = some n := by
  rw [word16?, word16, number?_integer (Nat.le_sub_one_of_lt n.toNat_lt)]
  simp

theorem word64?_word64 (n : UInt64) : word64? (word64 n) = some n := by
  rw [word64?, word64, number?_integer (Nat.le_sub_one_of_lt n.toNat_lt)]
  simp

namespace Given.General

/-- A table of a document gives these keys of the section and no others of it. -/
structure In (g : Given.General) (es : Entries) : Prop where
  name : es.Gives "name" .text g.name
  verbose : es.Gives "verbose" .bool g.verbose

def onto (g : Given.General) (base : GeneralSettings) : GeneralSettings :=
  { name := g.name.getD base.name
    verbose := g.verbose.getD base.verbose }

end Given.General

namespace Given.Network

structure In (g : Given.Network) (es : Entries) : Prop where
  port : es.Gives "port" word16 g.port
  bindAddress : es.Gives "bind_address" .text g.bindAddress
  connectTimeout : es.Gives "connect_timeout_ms" word64 g.connectTimeout
  maxFrameSize : es.Gives "max_frame_size" word64 g.maxFrameSize
  writeHighWater : es.Gives "write_high_water" word64 g.writeHighWater

def onto (g : Given.Network) (base : ListenSettings) : ListenSettings :=
  { port := g.port.getD base.port
    bindAddress := g.bindAddress.or base.bindAddress
    connectTimeout := g.connectTimeout.getD base.connectTimeout
    maxFrameSize := g.maxFrameSize.getD base.maxFrameSize
    writeHighWater := g.writeHighWater.getD base.writeHighWater }

end Given.Network

namespace Given.Query

structure In (g : Given.Query) (es : Entries) : Prop where
  defaultTimeout : es.Gives "default_timeout_ms" word64 g.defaultTimeout

def onto (g : Given.Query) (base : QuerySettings) : QuerySettings :=
  { defaultTimeout := g.defaultTimeout.getD base.defaultTimeout }

end Given.Query

namespace Given.Rpc

structure In (g : Given.Rpc) (es : Entries) : Prop where
  callTimeout : es.Gives "call_timeout_ms" word64 g.callTimeout

def onto (g : Given.Rpc) (base : RpcSettings) : RpcSettings :=
  { callTimeout := g.callTimeout.getD base.callTimeout }

end Given.Rpc

section

variable {es : Entries}

/-- The name is the only key without which its section cannot be read. -/
theorem general?_of_in {g : Given.General} (h : g.In es) :
    general? (.named es) =
      g.name.map fun name => { name := name, verbose := g.verbose.getD false } := by
  simp only [general?, Fields.required_of_gives h.name text?_text,
    Fields.optional_of_gives h.verbose flag?_bool]
  cases g.name <;> rfl

theorem network?_of_in {g : Given.Network} (h : g.In es) :
    network? (.named es) = some (g.onto {}) := by
  simp only [network?, Fields.optional_of_gives h.port word16?_word16,
    Fields.absentable_of_gives h.bindAddress text?_text,
    Fields.optional_of_gives h.connectTimeout word64?_word64,
    Fields.optional_of_gives h.maxFrameSize word64?_word64,
    Fields.optional_of_gives h.writeHighWater word64?_word64]
  simp [Given.Network.onto]

theorem query?_of_in {g : Given.Query} (h : g.In es) : query? (.named es) = some (g.onto {}) := by
  simp only [query?, Fields.optional_of_gives h.defaultTimeout word64?_word64]
  rfl

theorem rpc?_of_in {g : Given.Rpc} (h : g.In es) : rpc? (.named es) = some (g.onto {}) := by
  simp only [rpc?, Fields.optional_of_gives h.callTimeout word64?_word64]
  rfl

end

/-- A document has a section with these keys, written in any of the ways a table may be, or
does not have it. -/
def GivesTable {γ : Type} (es : Entries) (name : String) (In : γ → Entries → Prop) :
    Option γ → Prop
  | none => es.lookup name = none
  | some g => ∃ (origin : Origin) (sub : Entries),
      es.lookup name = some (.table origin sub) ∧ In g sub

section

variable {γ α : Type} {es : Entries} {name : String} {In : γ → Entries → Prop} {g : Option γ}
  {decode : Fields → Option α}

/-- Whichever way a section is written, the decoder finds its keys. -/
theorem section?_of_givesTable {read : γ → Option α} (h : GivesTable es name In g)
    (hd : ∀ g sub, In g sub → decode (.named sub) = read g) :
    ∀ default, section? es name decode default = g.elim (some default) read := by
  intro default
  cases g with
  | none =>
    have absent : es.lookup name = none := h
    simp [section?, absent]
  | some g =>
    obtain ⟨origin, sub, present, within⟩ := h
    simp [section?, present, Fields.ofNode?, hd g sub within]

/-- A section that can be read whatever it leaves out. -/
theorem section?_eq_some {onto : γ → α} (h : GivesTable es name In g)
    (hd : ∀ g sub, In g sub → decode (.named sub) = some (onto g)) :
    ∀ default, section? es name decode default = some (g.elim default onto) := by
  intro default
  rw [section?_of_givesTable h hd]
  cases g <;> rfl

end

theorem section?_general {es : Entries} {g : Option Given.General}
    (h : GivesTable es "general" Given.General.In g) :
    ∀ hostName, section? es "general" general? { name := hostName } =
      if g.any (·.name.isNone) then none
      else some (g.elim { name := hostName } (·.onto { name := hostName })) := by
  intro hostName
  rw [section?_of_givesTable h fun _ _ => general?_of_in]
  rcases g with _ | ⟨_ | name, verbose⟩ <;> rfl

namespace Given

structure In (g : Given) (es : Entries) : Prop where
  general : GivesTable es "general" Given.General.In g.general
  network : GivesTable es "network" Given.Network.In g.network
  query : GivesTable es "query" Given.Query.In g.query
  rpc : GivesTable es "rpc" Given.Rpc.In g.rpc

def onto (g : Given) (base : Settings) : Settings :=
  { general := g.general.elim base.general (·.onto base.general)
    network := g.network.elim base.network (·.onto base.network)
    query := g.query.elim base.query (·.onto base.query)
    rpc := g.rpc.elim base.rpc (·.onto base.rpc) }

def nameless (g : Given) : Bool := g.general.any (·.name.isNone)

end Given

/-- The sections and keys that are given count, and the defaults stand for the others, unless a
general section lacks its name. -/
theorem ofEntries?_of_in {g : Given} {es : Entries} (h : g.In es) (hostName : String) :
    ofEntries? hostName es = if g.nameless then none else some (g.onto (default hostName)) := by
  have network := section?_eq_some h.network (fun _ _ => network?_of_in) {}
  have query := section?_eq_some h.query (fun _ _ => query?_of_in) {}
  have rpc := section?_eq_some h.rpc (fun _ _ => rpc?_of_in) {}
  simp only [ofEntries?, default, section?_general h.general, network, query, rpc]
  by_cases hn : g.nameless
  · have refused : g.general.any (·.name.isNone) := hn
    simp [hn, refused]
  · have named : ¬ g.general.any (·.name.isNone) := hn
    simp [hn, named, Given.onto]

/-- A file is read as the defaults with exactly the given keys replaced, whatever sections and
keys it gives and however it is written, but for a general section without a name: that one
is refused. -/
theorem omitted_keys_default {text : String} {es : Entries} {g : Given}
    (hp : Toml.parse? text = some es) (hg : g.In es) (hostName path : String) :
    load hostName path (.ok (Utf8.encode text)) =
      if g.nameless then .error .parse else .ok (g.onto (default hostName)) := by
  have hs : parse? hostName text =
      if g.nameless then none else some (g.onto (default hostName)) := by
    rw [parse?, hp, Option.bind_some, ofEntries?_of_in hg]
  rw [load, Content.text_encode]
  by_cases hn : g.nameless <;> simp [Content.exist, hs, hn]

/-- A section without keys, one with two of its keys and the general section with a name; the
query section is left out. -/
def sketch : Given :=
  { general := some { name := some "n" }
    network := some { port := some 65535, bindAddress := some "::1" }
    rpc := some {} }

def sketchText : String :=
  "rpc = \x7b\x7d\nnetwork.bind_address = '::1'\nnetwork.port = 65535\n[general]\nname = 'n'\n"

def sketchEntries : Entries :=
  [("rpc", .table .braces []),
    ("network", .table .dotted [("bind_address", .text "::1"), ("port", .integer 65535)]),
    ("general", .table .header [("name", .text "n")])]

theorem omitted_keys_default_sketch :
    Toml.parse? sketchText = some sketchEntries ∧ sketch.In sketchEntries ∧
      load "host" "node.toml" (.ok (Utf8.encode sketchText)) =
        .ok { general := { name := "n" }
              network := { port := 65535, bindAddress := some "::1" } } :=
  have hp : Toml.parse? sketchText = some sketchEntries := rfl
  have hg : sketch.In sketchEntries :=
    { general := ⟨_, _, rfl, ⟨rfl, rfl⟩⟩
      network := ⟨_, _, rfl, ⟨rfl, rfl, rfl, rfl, rfl⟩⟩
      query := rfl
      rpc := ⟨_, _, rfl, ⟨rfl⟩⟩ }
  ⟨hp, hg, omitted_keys_default hp hg "host" "node.toml"⟩

def verboseAlone : Given := { general := some { verbose := some true } }

/-- A file that gives the general section but not the name is refused, although the defaults
have a name. -/
theorem verbose_alone_refused :
    ∃ es, Toml.parse? "[general]\nverbose = true\n" = some es ∧ verboseAlone.In es ∧
      load "host" "node.toml" (.ok (Utf8.encode "[general]\nverbose = true\n")) ≠
        .ok (verboseAlone.onto (default "host")) := by
  refine ⟨[("general", .table .header [("verbose", .bool true)])], rfl, ?_, ?_⟩
  · exact ⟨⟨_, _, rfl, ⟨rfl, rfl⟩⟩, rfl, rfl, rfl⟩
  · have refused : load "host" "node.toml" (.ok (Utf8.encode "[general]\nverbose = true\n")) =
        .error .parse := rfl
    simp [refused]

end Settings

end Switchboard
