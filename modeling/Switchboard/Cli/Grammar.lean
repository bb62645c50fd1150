import Switchboard.Decimal

/-!
# Command lines

What a program takes on its command line, and reading one: options anywhere, a command,
the options and operands of that command. The options of the program may stand before or
after the command; after it they count more.
-/

namespace Switchboard

/-- What a value on the command line must be. -/
inductive ValueKind where
  | text
  /-- A path is any text but the empty one. -/
  | path
  | natural (bound : Nat)
  | integer (lo hi : Int)
  deriving DecidableEq, Repr

def ValueKind.allows (text : String) : ValueKind → Bool
  | .text => true
  | .path => !text.isEmpty
  | .natural bound => (Decimal.natural bound text).isOk
  | .integer lo hi =>
    match Decimal.integer 0x7FFFFFFFFFFFFFFF text with
    | .ok n => lo ≤ n && n ≤ hi
    | .error _ => false

structure ValueSpec where
  placeholder : String
  kind : ValueKind
  /-- What is meant when the option is not given. -/
  default : Option String := none
  deriving DecidableEq, Repr

structure OptionSpec where
  name : String
  short : Option Char
  /-- Absent for a switch. -/
  value : Option ValueSpec := none
  required : Bool := false
  help : String
  deriving DecidableEq, Repr

structure OperandSpec where
  placeholder : String
  help : String
  deriving DecidableEq, Repr

structure CommandSpec where
  name : String
  help : String
  options : List OptionSpec := []
  /-- Each of them must be given. -/
  operands : List OperandSpec := []
  deriving DecidableEq, Repr

structure ProgramSpec where
  name : String
  version : String
  about : String
  /-- Options of the program, which every command takes too. -/
  options : List OptionSpec
  commands : List CommandSpec
  deriving DecidableEq, Repr

inductive Stop where
  | usage
  | version
  /-- Help on a command, or on the program. -/
  | help (command : Option String)
  deriving DecidableEq, Repr

/-- What was given: options with their values, the latest first, and operands. -/
structure Given where
  options : List (String × String) := []
  operands : List String := []
  deriving DecidableEq, Repr

namespace Given

def option? (g : Given) (name : String) : Option String := g.options.lookup name

def has (g : Given) (name : String) : Bool := (g.option? name).isSome

/-- Give an option a value that it allows, once. -/
def add (g : Given) (o : OptionSpec) (value : String) : Except Stop Given :=
  let allowed := o.value.all fun v => v.kind.allows value
  if allowed && !g.has o.name then .ok { g with options := (o.name, value) :: g.options }
  else .error .usage

end Given

/-- What may stand where: between the program and the command, or behind the command. -/
structure Level where
  options : List OptionSpec
  operandCount : Nat := 0
  commands : List String := []
  /-- The command that help is asked on here. -/
  topic : Option String := none
  /-- Whether the version can be asked for. -/
  versioned : Bool := false

/-- What an option's name stands for. -/
inductive Meaning where
  | option (o : OptionSpec)
  | stop (s : Stop)

namespace Level

def long? (l : Level) (name : String) : Option Meaning :=
  match l.options.find? (·.name = name) with
  | some o => some (.option o)
  | none =>
    if name = "help" then some (.stop (.help l.topic))
    else if name = "version" ∧ l.versioned then some (.stop .version) else none

def short? (l : Level) (c : Char) : Option Meaning :=
  match l.options.find? (·.short = some c) with
  | some o => some (.option o)
  | none =>
    if c = 'h' then some (.stop (.help l.topic))
    else if c = 'V' ∧ l.versioned then some (.stop .version) else none

/-- Read the letters behind a hyphen: switches, then perhaps an option, whose value is the
rest of them; the option is returned if nothing is left for it. -/
def readShorts (l : Level) : List Char → Given → Except Stop (Given × Option OptionSpec)
  | [], g => .ok (g, none)
  | c :: cs, g =>
    match l.short? c with
    | none => .error .usage
    | some (.stop s) => .error s
    | some (.option o) =>
      match o.value, cs with
      | none, _ => do l.readShorts cs (← g.add o "")
      | some _, [] => .ok (g, some o)
      | some _, '=' :: v => do return (← g.add o (String.ofList v), none)
      | some _, v => do return (← g.add o (String.ofList v), none)

/-- Read what stands behind two hyphens; the option is returned if its value is still to come. -/
def readLong (l : Level) (text : List Char) (g : Given) : Except Stop (Given × Option OptionSpec) :=
  let name := String.ofList (text.takeWhile (· ≠ '='))
  match l.long? name, text.dropWhile (· ≠ '=') with
  | none, _ => .error .usage
  | some (.stop s), [] => .error s
  | some (.stop _), _ => .error .usage
  | some (.option o), rest =>
    match o.value, rest with
    | none, [] => do return (← g.add o "", none)
    | none, _ => .error .usage
    | some _, [] => .ok (g, some o)
    | some _, _ :: v => do return (← g.add o (String.ofList v), none)

def operand (l : Level) (g : Given) (text : String) : Except Stop Given :=
  if g.operands.length < l.operandCount then .ok { g with operands := g.operands ++ [text] }
  else .error .usage

/-- Whether a word can be the value of an option before it. -/
def isValue (word : String) : Bool := !(word.startsWith "-") || word = "-"

/-- Read words up to a command, which is returned with the words behind it. After two lone
hyphens (`literal`) all words are operands. -/
def read (l : Level) (literal : Bool) :
    List String → Given → Except Stop (Given × Option (String × List String))
  | [], g => .ok (g, none)
  | word :: words, g =>
    let awaiting : Given × Option OptionSpec → Except Stop (Given × Option (String × List String))
      | (g, none) => l.read false words g
      | (g, some o) =>
        match words with
        | [] => .error .usage
        | value :: words =>
          if isValue value then
            match g.add o value with
            | .ok g => l.read false words g
            | .error s => .error s
          else .error .usage
    if literal then
      match l.operand g word with
      | .ok g => l.read true words g
      | .error s => .error s
    else if l.commands.contains word then .ok (g, some (word, words))
    else if word = "--" then l.read true words g
    else match word.toList with
      | '-' :: '-' :: text =>
        match l.readLong text g with
        | .ok r => awaiting r
        | .error s => .error s
      | '-' :: c :: cs =>
        match l.readShorts (c :: cs) g with
        | .ok r => awaiting r
        | .error s => .error s
      | _ =>
        match l.operand g word with
        | .ok g => l.read false words g
        | .error s => .error s

end Level

namespace ProgramSpec

def helpCommand : String := "help"

/-- What may stand before the command. -/
def outer (p : ProgramSpec) : Level :=
  { options := p.options, commands := p.commands.map (·.name) ++ [helpCommand], versioned := true }

/-- What may stand behind a command. -/
def inner (p : ProgramSpec) (c : CommandSpec) : Level :=
  { options := c.options ++ p.options, operandCount := c.operands.length, topic := some c.name }

def isComplete (c : CommandSpec) (g : Given) : Bool :=
  g.operands.length = c.operands.length && c.options.all fun o => !o.required || g.has o.name

def read (p : ProgramSpec) (words : List String) : Except Stop (CommandSpec × Given) := do
  match ← p.outer.read false words {} with
  | (_, none) => throw .usage
  | (before, some (name, rest)) =>
    match p.commands.find? (·.name = name) with
    | some c =>
      let (behind, _) ← (p.inner c).read false rest {}
      if isComplete c behind then
        return (c, { behind with options := behind.options ++ before.options })
      else throw .usage
    | none =>
      match rest with
      | [] => throw (.help none)
      | [topic] => throw (if p.outer.commands.contains topic then .help (some topic) else .usage)
      | _ => throw .usage

end ProgramSpec

end Switchboard
