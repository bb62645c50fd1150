import Switchboard.Octet.Utf8

/-!
# Files and folders

A tree of files as the settings of a node see it: what a path leads to, reading, writing
and making folders.
-/

namespace Switchboard

inductive FileFault where
  | notFound
  | notFolder
  | isFolder
  /-- The content is no text. -/
  | notText
  /-- Anything else that the machine has against it. -/
  | refused (reason : String)
  deriving DecidableEq, Repr

def FileFault.message : FileFault → String
  | .notFound => "No such file or directory (os error 2)"
  | .notFolder => "Not a directory (os error 20)"
  | .isFolder => "Is a directory (os error 21)"
  | .notText => "stream did not contain valid UTF-8"
  | .refused reason => reason

abbrev Content := Except FileFault (List UInt8)

namespace Content

/-- Whether there is something, be it a folder. -/
def exist : Content → Bool
  | .error .notFound | .error .notFolder => false
  | _ => true

def text (c : Content) : Except FileFault String := do
  match Utf8.decode (← c) with
  | .ok t => .ok t
  | .error _ => .error .notText

end Content

/-- The names on the way from the root. -/
abbrev Path := List String

namespace Path

/-- Follow one name from a path. -/
def follow (p : Path) (name : String) : Path :=
  if name = "" ∨ name = "." then p else if name = ".." then p.dropLast else p ++ [name]

/-- What a written path leads to from a folder. -/
def resolve (folder : Path) (text : String) : Path :=
  (text.splitOn "/").foldl follow (if text.startsWith "/" then [] else folder)

/-- The paths that lead to the folders above, the root first. -/
def ancestors (p : Path) : List Path := (List.range p.length).map p.take

end Path

/-- Files with their contents, and the folders that were made. -/
structure FileTree where
  files : List (Path × List UInt8) := []
  folders : List Path := []

namespace FileTree

/-- Whether a path leads to a folder: one that was made, or that something is in. -/
def isFolder (t : FileTree) (p : Path) : Bool :=
  p.isEmpty || t.folders.any p.isPrefixOf || t.files.any fun f => p.isPrefixOf f.1 && p ≠ f.1

def file? (t : FileTree) (p : Path) : Option (List UInt8) := t.files.lookup p

/-- Whether a file stands where a folder is needed on the way to a path. -/
def isBlocked (t : FileTree) (p : Path) : Bool := p.ancestors.any fun a => (t.file? a).isSome

def read (t : FileTree) (p : Path) : Content :=
  match t.file? p with
  | some s => .ok s
  | none =>
    if t.isBlocked p then .error .notFolder
    else if t.isFolder p then .error .isFolder
    else .error .notFound

/-- Give a file its content. The folder that it is in must be there. -/
def write (t : FileTree) (p : Path) (s : List UInt8) : Except FileFault FileTree :=
  if t.isBlocked p then .error .notFolder
  else if t.isFolder p then .error .isFolder
  else if t.isFolder p.dropLast then
    .ok { t with files := (p, s) :: t.files.filter (·.1 ≠ p) }
  else .error .notFound

def makeFolders (t : FileTree) (p : Path) : Except FileFault FileTree :=
  if t.isBlocked p || (t.file? p).isSome then .error .notFolder
  else .ok { t with folders := p :: t.folders }

end FileTree

end Switchboard
