import Switchboard.Cli.Grammar

/-!
# The commands of the node program

What the program takes on its command line and the command that a line asks for.
-/

namespace Switchboard

/-- The channel that a node answers echo queries on. -/
def echoChannel : Int32 := 1

inductive Command where
  | node (port : Option UInt16) (name : Option String)
  | query (server : String) (channel : Int32) (message : String) (timeout : Nat)
  | call (server method : String)
  | config (generate : Bool) (output : Option String)
  | info
  deriving DecidableEq, Repr

structure CommandLine where
  /-- The settings file, if one is named. -/
  settingsPath : Option String
  verbose : Bool
  command : Command
  deriving DecidableEq, Repr

/-- An option's value as a number. -/
def Given.number? (g : Given) (name : String) : Option Int :=
  (g.option? name).bind fun t => (Decimal.integer (UInt64.size - 1) t).toOption

def Command.ofGiven (name : String) (g : Given) : Command :=
  let server := (g.option? "server").getD ""
  let operand := g.operands.headD ""
  if name = "node" then .node ((g.number? "port").map UInt16.ofInt) (g.option? "name")
  else if name = "query" then
    .query server (((g.number? "channel").map Int32.ofInt).getD echoChannel) operand
      (((g.number? "timeout-ms").map Int.toNat).getD 5000)
  else if name = "call" then .call server operand
  else if name = "config" then .config (g.has "generate") (g.option? "output")
  else .info

namespace CommandLine

def serverOption : OptionSpec :=
  { name := "server", short := some 's', value := some { placeholder := "SERVER", kind := .text },
    required := true, help := "Node address (host:port)" }

def spec : ProgramSpec :=
  { name := "nodelink"
    version := "0.1.0"
    about := "Packet transport, queries and RPC between cluster nodes"
    options :=
      [{ name := "config", short := some 'c', value := some { placeholder := "CONFIG", kind := .path },
         help := "Path to configuration file" },
        { name := "verbose", short := some 'v', help := "Enable verbose output" }]
    commands :=
      [{ name := "node"
         help := "Run a node that answers echo queries and `Node` RPC calls"
         options :=
          [{ name := "port", short := some 'p',
             value := some { placeholder := "PORT", kind := .integer 0 65535 },
             help := "Port to listen on (overrides the configuration)" },
            { name := "name", short := some 'n', value := some { placeholder := "NAME", kind := .text },
              help := "Node name to report (overrides the configuration)" }] },
        { name := "query"
          help := "Send a text query to a node and print the reply"
          options :=
            [serverOption,
              { name := "channel", short := none,
                value := some { placeholder := "CHANNEL", kind := .integer (-2147483648) 2147483647,
                                default := some (toString echoChannel.toInt) },
                help := "Routing channel" },
              { name := "timeout-ms", short := some 't',
                value := some { placeholder := "TIMEOUT_MS", kind := .natural (UInt64.size - 1),
                                default := some "5000" },
                help := "Query timeout in milliseconds" }]
          operands := [{ placeholder := "MESSAGE", help := "Text to send" }] },
        { name := "call"
          help := "Invoke a `Node` RPC method (name, uptime, channels)"
          options := [serverOption]
          operands := [{ placeholder := "METHOD", help := "Method to invoke" }] },
        { name := "config"
          help := "Show current configuration"
          options :=
            [{ name := "generate", short := none, help := "Generate sample configuration" },
              { name := "output", short := some 'o',
                value := some { placeholder := "OUTPUT", kind := .path },
                help := "Output path for generated config" }] },
        { name := "info", help := "Show protocol information" }] }

/-- Read a command line without the program's name. -/
def read (words : List String) : Except Stop CommandLine := do
  let (c, g) ← spec.read words
  return { settingsPath := g.option? "config", verbose := g.has "verbose",
           command := .ofGiven c.name g }

end CommandLine

end Switchboard
