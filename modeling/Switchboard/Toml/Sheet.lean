import Switchboard.Toml.Node
import Switchboard.Toml.Text

/-!
# Writing TOML documents

A sheet is a document of one level: sections of named values, each written as a header and
its lines, with an empty line between sections.
-/

namespace Switchboard.Toml

inductive Cell where
  | text (s : String)
  | integer (n : Nat)
  | bool (b : Bool)
  deriving DecidableEq, Repr

structure SheetSection where
  name : String
  cells : List (String × Cell)
  deriving DecidableEq, Repr

abbrev Sheet := List SheetSection

/-- A value, unless it is an integer beyond the greatest. -/
def Cell.render : Cell → Option String
  | .text s => some (String.ofList (quote s.toList))
  | .integer n => if n ≤ greatest then some (toString n) else none
  | .bool b => some (if b then "true" else "false")

def renderLine (key : String) (c : Cell) : Option String := do
  return key ++ " = " ++ (← c.render) ++ "\n"

def SheetSection.render (s : SheetSection) : Option String := do
  let lines ← s.cells.mapM fun (key, c) => renderLine key c
  return "[" ++ s.name ++ "]\n" ++ String.join lines

/-- The text of a sheet; none if an integer is too large. -/
def Sheet.render (s : Sheet) : Option String := do
  return "\n".intercalate (← s.mapM SheetSection.render)

end Switchboard.Toml
