import Switchboard.Cli.Grammar

/-!
# Help texts

A page of help on a program or on one of its commands: what it does, how it is called,
and tables of its commands, operands and options.
-/

namespace Switchboard

/-- Two columns, the second of which is aligned. -/
abbrev Rows := List (String × String)

def Rows.text (rows : Rows) : String :=
  let width := (rows.map (·.1.length)).foldl max 0
  String.join <| rows.map fun (left, right) =>
    let gap := String.ofList (List.replicate (width - left.length + 2) ' ')
    "  " ++ left ++ gap ++ right ++ "\n"

structure HelpPage where
  about : String
  usage : String
  /-- Headed tables, of which empty ones are left out. -/
  tables : List (String × Rows)

def HelpPage.text (h : HelpPage) : String :=
  let tables := (h.tables.filter fun t => !t.2.isEmpty).map fun (heading, rows) =>
    "\n" ++ heading ++ ":\n" ++ rows.text
  h.about ++ "\n\nUsage: " ++ h.usage ++ "\n" ++ String.join tables

namespace OptionSpec

def label (o : OptionSpec) : String :=
  "--" ++ o.name ++ o.value.elim "" fun v => " <" ++ v.placeholder ++ ">"

def row (o : OptionSpec) : String × String :=
  let short := o.short.elim "    " fun c => "-" ++ c.toString ++ ", "
  let default := (o.value.bind (·.default)).elim "" fun d => " [default: " ++ d ++ "]"
  (short ++ o.label, o.help ++ default)

/-- What options of one rank are ordered by: the letter, small before capital, or else the
name. -/
def sortKey (o : OptionSpec) : String :=
  o.short.elim o.name fun c => c.toLower.toString ++ if c.isLower then "0" else "1"

end OptionSpec

/-- Options of a command and of the program, each list in its order; options of one rank stand
together. -/
def mergedOptions (own shared : List OptionSpec) : List OptionSpec :=
  let ranked := own.zipIdx ++ shared.zipIdx
  let sorted := ranked.mergeSort fun (o, i) (p, j) => i < j || (i = j && o.sortKey ≤ p.sortKey)
  sorted.map (·.1)

def helpRow : String × String := ("-h, --help", "Print help")

def versionRow : String × String := ("-V, --version", "Print version")

namespace ProgramSpec

def helpCommandHelp : String := "Print this message or the help of the given subcommand(s)"

def page (p : ProgramSpec) : HelpPage :=
  { about := p.about
    usage := p.name ++ " [OPTIONS] <COMMAND>"
    tables :=
      [("Commands", p.commands.map (fun c => (c.name, c.help)) ++ [(helpCommand, helpCommandHelp)]),
        ("Options", p.options.map (·.row) ++ [helpRow, versionRow])] }

def commandPage (p : ProgramSpec) (c : CommandSpec) : HelpPage :=
  let required := c.options.filter (·.required)
  let operands := c.operands.map fun o => "<" ++ o.placeholder ++ ">"
  { about := c.help
    usage := " ".intercalate ([p.name, c.name, "[OPTIONS]"] ++ required.map (·.label) ++ operands)
    tables :=
      [("Arguments", c.operands.map fun o => ("<" ++ o.placeholder ++ ">", o.help)),
        ("Options", (mergedOptions c.options p.options).map (·.row) ++ [helpRow])] }

def helpPage (p : ProgramSpec) : HelpPage :=
  { about := helpCommandHelp
    usage := p.name ++ " help [COMMAND]..."
    tables := [("Arguments", [("[COMMAND]...", "Print help for the subcommand(s)")])] }

/-- The help on a command, or on the program. -/
def helpText (p : ProgramSpec) (topic : Option String) : String :=
  match topic.map fun name => p.commands.find? (·.name = name) with
  | none => p.page.text
  | some none => p.helpPage.text
  | some (some c) => (p.commandPage c).text

def versionText (p : ProgramSpec) : String := p.name ++ " " ++ p.version ++ "\n"

end ProgramSpec

end Switchboard
