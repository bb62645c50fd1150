import Switchboard.FileTree
import Switchboard.Settings.Format

/-!
# Settings files

Loading and saving. A number that no file can hold stops a save before anything is
written.
-/

namespace Switchboard

inductive SettingsError where
  | file (fault : FileFault)
  | parse
  | serialize
  /-- There is nothing at the path, which is given as it was asked for. -/
  | notFound (path : String)
  deriving DecidableEq, Repr

def SettingsError.message : SettingsError → String
  | .file fault => s!"IO error: {fault.message}"
  | .parse => "Parse error: TOML parse error"
  | .serialize => "Serialize error: out-of-range value for u64 type"
  | .notFound path => s!"Config file not found: {path}"

namespace Settings

/-- The settings in a file, given what reading it gave. -/
def load (hostName path : String) (c : Content) : Except SettingsError Settings :=
  if c.exist then
    match c.text with
    | .error fault => .error (.file fault)
    | .ok text =>
      match parse? hostName text with
      | some s => .ok s
      | none => .error .parse
  else .error (.notFound path)

/-- The settings in the first file that is there, or the defaults when there is none. -/
def loadFirst (hostName : String) : List (String × Content) → Except SettingsError Settings
  | [] => .ok (default hostName)
  | (path, c) :: rest => if c.exist then load hostName path c else loadFirst hostName rest

/-- Do something with the files, which stay as they are when it fails. -/
def change (operation : FileTree → Except FileFault FileTree) :
    ExceptT SettingsError (StateM FileTree) Unit := fun t =>
  match operation t with
  | .ok t' => (.ok (), t')
  | .error fault => (.error (.file fault), t)

/-- Write the settings to a path and make the folders on the way. -/
def saving (s : Settings) (p : Path) : ExceptT SettingsError (StateM FileTree) Unit := do
  match s.render with
  | none => throw .serialize
  | some text =>
    change (·.makeFolders p.dropLast)
    change (·.write p (Utf8.encode text))

/-- How a save ends, and the files as they are then. Folders that were made stay, also when the
file cannot be written. -/
def save (s : Settings) (t : FileTree) (p : Path) : Except SettingsError Unit × FileTree :=
  (s.saving p).run t

end Settings

end Switchboard
