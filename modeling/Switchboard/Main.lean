import Switchboard.Cli.Program

/-!
# The command line

Reads the files that a plan needs, plans, and shows or writes what comes of it. Plans that
need a network are declined.
-/

namespace Switchboard

/-- What the machine has against a file. -/
def faultOf : IO.Error → FileFault
  | .noFileOrDirectory .. => .notFound
  | .inappropriateType .. => .isFolder
  | e => .refused e.toString

def readContent (path : String) : IO Content := do
  try
    return .ok (← IO.FS.readBinFile path).toList
  catch e =>
    return .error (faultOf e)

def writeContent (path text : String) : IO (Except FileFault Unit) := do
  try
    IO.FS.writeFile path text
    return .ok ()
  catch e =>
    return .error (faultOf e)

def machineName : IO String := do
  match (← readContent "/proc/sys/kernel/hostname").text with
  | .ok name => return name.trimAscii.toString
  | .error _ => return "unknown"

def settingsHome : IO String := do
  match ← IO.getEnv "XDG_CONFIG_HOME" with
  | some path => if path.startsWith "/" then return path else underHome
  | none => underHome
where
  underHome : IO String := do
    return (← IO.getEnv "HOME").getD "" ++ "/.config"

def tell (r : Report) : IO UInt32 := do
  IO.print r.stdout
  IO.eprint r.stderr
  return UInt32.ofNat r.exit

/-- Do what a plan says, as far as files and the terminal go. -/
def perform : Plan → IO UInt32
  | .show text => tell { stdout := text }
  | .fail message => tell (.failure message)
  | .write path text => do tell (Program.writeReport path (← writeContent path text))
  | .serve _ settings =>
    match Program.listen settings with
    | .ok _ => tell noNetwork
    | .error e => tell (.failure e.message)
  | .contact .. => tell noNetwork
where
  noNetwork : Report := .failure "no network is available"

end Switchboard

open Switchboard in
def main (words : List String) : IO UInt32 := do
  match CommandLine.read words with
  | .error s => tell (Program.stopReport s)
  | .ok line =>
    let home ← settingsHome
    let contents ← (Program.filesRead line home).mapM fun path => do
      return (path, ← readContent path)
    let files (path : String) : Content := (contents.lookup path).getD (.error .notFound)
    perform (Program.plan (← machineName) home files line)
