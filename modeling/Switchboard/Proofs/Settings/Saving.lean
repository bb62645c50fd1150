import Switchboard.Proofs.Settings.Defaults
import Switchboard.Proofs.Toml.Sheets

/-!
# Saved settings are loaded again

The text of a settings file gives every key of the settings, but for the address to bind to when
there is none, so it is read as the settings whatever the defaults are (`load_render`). Settings
have a text unless one of their numbers is too great for a document (`render_eq_none_iff`), and
that is found out before the files are touched (`save_of_oversized`).
-/

namespace Switchboard

namespace FileTree

/-- A written file is read. -/
theorem read_write {t t' : FileTree} {p : Path} {s : List UInt8} (h : t.write p s = .ok t') :
    t'.read p = .ok s := by
  unfold write at h
  split at h
  · cases h
  split at h
  · cases h
  split at h
  · cases h
    simp [read, file?]
  · cases h

/-- The folders on the way to a path can be made and a file can be written there. -/
def Accepts (t : FileTree) (p : Path) : Prop :=
  ∃ t₁, t.makeFolders p.dropLast = .ok t₁ ∧ ∀ s, ∃ t₂, t₁.write p s = .ok t₂

end FileTree

namespace Settings

theorem toSheet_plain (s : Settings) : s.toSheet.Plain where
  sections := by
    simp only [toSheet, List.forall_mem_cons]
    refine ⟨.of_names "general" ["name", "verbose"] rfl rfl (by decide), ?_,
      .of_names "query" ["default_timeout_ms"] rfl rfl (by decide),
      .of_names "rpc" ["call_timeout_ms"] rfl rfl (by decide), by simp⟩
    cases s.network.bindAddress with
    | none =>
      exact .of_names "network" ["port", "connect_timeout_ms", "max_frame_size", "write_high_water"]
        rfl rfl (by decide)
    | some a =>
      exact .of_names "network" ["port", "bind_address", "connect_timeout_ms", "max_frame_size",
        "write_high_water"] rfl rfl (by decide)
  nodup := by
    have hnames : s.toSheet.map Toml.SheetSection.name =
        ["general", "network", "query", "rpc"] := rfl
    rw [hnames]
    decide

/-- All that a saved file gives. -/
def given (s : Settings) : Given :=
  { general := some { name := some s.general.name, verbose := some s.general.verbose }
    network := some
      { port := some s.network.port
        bindAddress := s.network.bindAddress
        connectTimeout := some s.network.connectTimeout
        maxFrameSize := some s.network.maxFrameSize
        writeHighWater := some s.network.writeHighWater }
    query := some { defaultTimeout := some s.query.defaultTimeout }
    rpc := some { callTimeout := some s.rpc.callTimeout } }

theorem given_in_entries (s : Settings) : s.given.In s.toSheet.entries where
  general := ⟨.header, _, rfl, rfl, rfl⟩
  network := by
    refine ⟨.header, _, rfl, ?_⟩
    cases s.network.bindAddress <;> exact ⟨rfl, rfl, rfl, rfl, rfl⟩
  query := ⟨.header, _, rfl, ⟨rfl⟩⟩
  rpc := ⟨.header, _, rfl, ⟨rfl⟩⟩

/-- Nothing is left to the defaults. -/
theorem onto_given (s base : Settings) (h : base.network.bindAddress = none) :
    s.given.onto base = s := by
  simp [given, Given.onto, Given.General.onto, Given.Network.onto, Given.Query.onto,
    Given.Rpc.onto, h]

/-- What is written of the settings is read as the settings. -/
theorem load_render {s : Settings} {text : String} (h : s.render = some text)
    (hostName path : String) : load hostName path (.ok (Utf8.encode text)) = .ok s := by
  have hread : parse? hostName text = some s := by
    rw [parse?, Toml.parse?_render s.toSheet_plain h, Option.bind_some,
      ofEntries?_of_in s.given_in_entries, onto_given s _ rfl]
    rfl
  rw [load, Content.text_encode]
  simp [Content.exist, hread]

def numbers (s : Settings) : List Nat :=
  [s.network.port.toNat, s.network.connectTimeout.toNat, s.network.maxFrameSize.toNat,
    s.network.writeHighWater.toNat, s.query.defaultTimeout.toNat, s.rpc.callTimeout.toNat]

theorem integers_toSheet (s : Settings) : s.toSheet.integers = s.numbers := by
  unfold toSheet
  cases s.network.bindAddress <;> rfl

def Oversized (s : Settings) : Prop := ∃ n ∈ s.numbers, Toml.greatest < n

theorem render_eq_none_iff (s : Settings) : s.render = none ↔ s.Oversized := by
  rw [render, Toml.Sheet.render_eq_none_iff, integers_toSheet]
  rfl

theorem save_of_oversized {s : Settings} (h : s.Oversized) (t : FileTree) (p : Path) :
    s.save t p = (.error .serialize, t) := by
  rw [save, saving, s.render_eq_none_iff.2 h]
  rfl

/-- Folders come first, then the file. -/
theorem save_of_render {s : Settings} {text : String} (h : s.render = some text) (t : FileTree)
    (p : Path) : s.save t p = match t.makeFolders p.dropLast with
      | .error fault => (.error (.file fault), t)
      | .ok t => match t.write p (Utf8.encode text) with
        | .error fault => (.error (.file fault), t)
        | .ok t => (.ok (), t) := by
  simp only [save, saving, h, ExceptT.run, bind, ExceptT.bind, ExceptT.mk, ExceptT.bindCont,
    StateT.bind, change]
  cases t.makeFolders p.dropLast with
  | error fault => rfl
  | ok t =>
    simp only [change]
    cases t.write p (Utf8.encode text) <;> rfl

theorem save_of_accepts {s : Settings} {text : String} (h : s.render = some text) {t : FileTree}
    {p : Path} (ht : t.Accepts p) :
    ∃ t', s.save t p = (.ok (), t') ∧ t'.read p = .ok (Utf8.encode text) := by
  obtain ⟨t₁, hfolders, hwrite⟩ := ht
  obtain ⟨t₂, hwrite⟩ := hwrite (Utf8.encode text)
  refine ⟨t₂, ?_, FileTree.read_write hwrite⟩
  rw [save_of_render h, hfolders]
  simp only [hwrite]

/-- Numbers decide whether settings can be written, and neither the folders nor the path. -/
theorem save_eq_serialize_iff (s : Settings) (t : FileTree) (p : Path) :
    (s.save t p).1 = .error .serialize ↔ s.Oversized := by
  constructor
  · intro hsave
    rw [← s.render_eq_none_iff]
    cases h : s.render with
    | none => rfl
    | some text =>
      rw [save_of_render h] at hsave
      split at hsave
      · cases hsave
      · split at hsave <;> cases hsave
  · intro h
    rw [save_of_oversized h]

/-- A save fails for a number that no file can hold, exactly if there is one and with all files
as they were; else, if the files allow it, it leaves a file that is loaded as the same settings
on a machine of any name. -/
theorem save_then_load (s : Settings) (p : Path) :
    (∀ t, (s.save t p).1 = .error .serialize ↔ s.Oversized) ∧
      (s.Oversized → ∀ t, s.save t p = (.error .serialize, t)) ∧
      (¬ s.Oversized → ∀ t : FileTree, t.Accepts p →
        ∃ t', s.save t p = (.ok (), t') ∧
          ∀ hostName path, load hostName path (t'.read p) = .ok s) := by
  refine ⟨fun t => s.save_eq_serialize_iff t p, fun h t => save_of_oversized h t p,
    fun h t ht => ?_⟩
  rw [← s.render_eq_none_iff, ← ne_eq, Option.ne_none_iff_exists'] at h
  obtain ⟨text, htext⟩ := h
  obtain ⟨t', hsave, hread⟩ := save_of_accepts htext ht
  refine ⟨t', hsave, fun hostName path => ?_⟩
  rw [hread, load_render htext]

/-- A name that needs a quoting with lines and escapes, an empty address and the greatest
number that a file can hold. -/
def gnarled : Settings :=
  { general := { name := "\x27\x27\x27\\\"\"\"\n\x07", verbose := true }
    network := { bindAddress := some "", maxFrameSize := 0x7FFFFFFFFFFFFFFF } }

theorem save_then_load_gnarled :
    let shelf : FileTree := { files := [(["etc", "node.toml"], [0x23])] }
    let huge : Settings := { gnarled with rpc := { callTimeout := 0x8000000000000000 } }
    (∃ t', gnarled.save shelf ["etc", "node.toml"] = (.ok (), t') ∧
      load "host" "node.toml" (t'.read ["etc", "node.toml"]) = .ok gnarled) ∧
    huge.save shelf ["etc", "node.toml"] = (.error .serialize, shelf) := by
  intro shelf huge
  refine ⟨?_, (save_then_load huge _).2.1 ⟨0x8000000000000000, by decide, by decide⟩ shelf⟩
  have hfits : ¬ gnarled.Oversized := by
    unfold Oversized
    decide
  obtain ⟨t', hsave, hload⟩ := (save_then_load gnarled ["etc", "node.toml"]).2.2 hfits shelf
    ⟨_, rfl, fun s => ⟨_, rfl⟩⟩
  exact ⟨t', hsave, hload "host" "node.toml"⟩

end Settings

end Switchboard
