import Switchboard.Cli.Command
import Switchboard.Cli.Help
import Switchboard.Server.Basic
import Switchboard.Settings.File

/-!
# The node program

What a command line comes to: something to show, a file to write, a node to run or a node
to talk to. Planning only looks at files; `run` carries a plan out on a tree of files and
on a machine that no peer is connected to.
-/

namespace Switchboard

/-- What the program shows and its exit code. -/
structure Report where
  exit : Nat := 0
  stdout : String := ""
  stderr : String := ""
  deriving DecidableEq, Repr

def Report.failure (message : String) : Report := { exit := 1, stderr := "Error: " ++ message ++ "\n" }

/-- What is asked of another node. -/
inductive Request where
  /-- The answer to a text, within so many milliseconds. -/
  | query (channel : Int32) (message : String) (timeout : Nat)
  /-- The result of one of its methods. -/
  | call (method : String) (timeout : Nat)
  deriving DecidableEq, Repr

inductive Plan where
  | show (text : String)
  | write (path text : String)
  /-- Run a node of a name. -/
  | serve (name : String) (settings : NetworkSettings)
  /-- Ask the node at a host and a port. -/
  | contact (host : String) (port : UInt16) (settings : NetworkSettings) (request : Request)
  | fail (message : String)

namespace Program

def column (n : Int32) : String :=
  let digits := toString n.toInt
  String.ofList (List.replicate (3 - digits.length) ' ') ++ digits

def protocolText : String :=
  "NodeLink Protocol Information\n=============================\n\n" ++
  s!"Protocol Version: {protocolVersion}\nDefault Port: {defaultPort}\n" ++
  s!"Max Frame Size: {Frame.defaultLimit} bytes\n\nReserved Channels:\n" ++
  "  " ++ column Routing.response ++ "  query responses\n" ++
  "  " ++ column Routing.rpc ++ "  remote method invocations\n" ++
  "  " ++ column echoChannel ++ "  echo (nodelink node)\n"

def rule : String := "========================================\n"

def opening (name address : String) : String :=
  "\n" ++ rule ++ "  NodeLink Node Running\n" ++ rule ++ "  Name: " ++ name ++ "\n  Address: " ++
  address ++ "\n" ++ rule ++ "\nPress Ctrl+C to stop.\n"

def closing : String := "\n\nShutting down...\n"

def writtenText (path : String) : String := "Configuration written to: " ++ path ++ "\n"

/-- Where settings are looked for when no file is named. -/
def settingsPaths (configHome : String) : List String :=
  [configHome ++ "/nodelink/config.toml", "./nodelink.toml", "./config.toml"]

/-- The files that planning looks at. -/
def filesRead (line : CommandLine) (configHome : String) : List String :=
  line.settingsPath.elim (settingsPaths configHome) fun path => [path]

/-- The settings that a command line runs with. Those of a named file must load; without a name
the first file that is there counts, and the defaults if it does not load. -/
def settings (line : CommandLine) (hostName configHome : String) (files : String → Content) :
    Except SettingsError Settings :=
  match line.settingsPath with
  | some path => Settings.load hostName path (files path)
  | none =>
    let found := (settingsPaths configHome).map fun path => (path, files path)
    .ok ((Settings.loadFirst hostName found).toOption.getD (Settings.default hostName))

/-- Host and port of a node: what stands before and behind the last colon. Without a colon the
port is the usual one. -/
def target? (server : String) : Except Decimal.Fault (String × UInt16) :=
  let behind := (server.toList.reverse.takeWhile (· ≠ ':')).reverse
  match server.toList.reverse.dropWhile (· ≠ ':') with
  | [] => .ok (server, defaultPort)
  | _ :: before =>
    (Decimal.natural 65535 (String.ofList behind)).map fun n =>
      (String.ofList before.reverse, UInt16.ofNat n)

def contactPlan (s : Settings) (server : String) (request : Request) : Plan :=
  match target? server with
  | .ok (host, port) => .contact host port s.runtime request
  | .error fault => .fail fault.message

def commandPlan (s : Settings) : Command → Plan
  | .node port name =>
    .serve (name.getD s.general.name) { s.runtime with port := port.getD s.network.port }
  | .query server channel message timeout => contactPlan s server (.query channel message timeout)
  | .call server method => contactPlan s server (.call method s.rpc.callTimeout.toNat)
  | .config true (some path) => .write path (Settings.sample.render.getD "")
  | .config true none => .show (Settings.sample.render.getD "" ++ "\n")
  | .config false _ =>
    match s.render with
    | some text => .show (text ++ "\n")
    | none => .fail SettingsError.serialize.message
  | .info => .show protocolText

/-- What a command line that was read comes to. -/
def plan (hostName configHome : String) (files : String → Content) (line : CommandLine) : Plan :=
  match settings line hostName configHome files with
  | .ok s => commandPlan s line.command
  | .error e => .fail e.message

def stopReport : Stop → Report
  | .usage =>
    { exit := 2
      stderr := "error: invalid arguments\n\nUsage: " ++ CommandLine.spec.page.usage ++ "\n" }
  | .version => { stdout := CommandLine.spec.versionText }
  | .help topic => { stdout := CommandLine.spec.helpText topic }

def listen (settings : NetworkSettings) : Except ServerError Endpoint :=
  (({ settings } : Server).start {}).1

def writeReport (path : String) : Except FileFault Unit → Report
  | .ok () => { stdout := writtenText path }
  | .error fault => .failure fault.message

/-- Carry a plan out. A node runs until it is interrupted; nobody listens anywhere else. -/
def carryOut (folder : Path) (t : FileTree) : Plan → Report × FileTree
  | .show text => ({ stdout := text }, t)
  | .fail message => (.failure message, t)
  | .write path text =>
    let written := t.write (Path.resolve folder path) (Utf8.encode text)
    (writeReport path (written.map fun _ => ()), written.toOption.getD t)
  | .serve name settings =>
    match listen settings with
    | .ok e => ({ stdout := opening name e.text ++ closing }, t)
    | .error e => (.failure e.message, t)
  | .contact host port _ _ =>
    match Endpoint.resolve host port with
    | .ok _ => (.failure ClientError.refused.message, t)
    | .error fault => (.failure (ClientError.unresolved fault).message, t)

/-- Run the program in a folder. -/
def run (hostName configHome : String) (folder : Path) (t : FileTree) (words : List String) :
    Report × FileTree :=
  match CommandLine.read words with
  | .error s => (stopReport s, t)
  | .ok line =>
    carryOut folder t (plan hostName configHome (fun path => t.read (Path.resolve folder path)) line)

end Program

end Switchboard
