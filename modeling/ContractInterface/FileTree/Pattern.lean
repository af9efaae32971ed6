import ContractInterface.Text.Basic

/-! # Patterns of file names

A pattern is a list of parts.  A part of two stars stands for any number of directories; in any other
part a star stands for any characters, a question mark for one character, and every other character
for itself. -/

namespace ContractInterface

open Text

/-- A part of a pattern. -/
inductive PatternPart where
  | anyDirectories
  | named (spelling : Text)
deriving DecidableEq, Repr

/-- A pattern of relative paths; `directoriesOnly` if it ends in a slash or in two stars. -/
structure Pattern where
  parts : List PatternPart
  directoriesOnly : Bool
deriving DecidableEq, Repr

namespace Pattern

/-- Whether a name fits a spelling with stars and question marks. -/
def fits : (spelling name : Text) → Bool
  | [], [] => true
  | [], _ :: _ => false
  | '*' :: spelling, [] => fits spelling []
  -- a star stands for nothing here, or for one more character
  | '*' :: spelling, c :: name => fits spelling (c :: name) || fits ('*' :: spelling) name
  | _ :: _, [] => false
  | s :: spelling, c :: name => (s == '?' || s == c) && fits spelling name
termination_by spelling name => spelling.length + name.length

/-- Whether the parts of a path fit the parts of a pattern. -/
def fitsParts : List PatternPart → List Text → Bool
  | [], [] => true
  | [], _ :: _ => false
  | .anyDirectories :: more, [] => fitsParts more []
  | .anyDirectories :: more, name :: names =>
    fitsParts more (name :: names) || fitsParts (.anyDirectories :: more) names
  | .named _ :: _, [] => false
  | .named spelling :: more, name :: names => fits spelling name && fitsParts more names
termination_by parts names => parts.length + names.length

/-- The pattern that a text writes. -/
def ofText (s : Text) : Pattern :=
  let written := (fields '/' s).filter fun part => part ≠ [] && part ≠ ['.']
  let parts := written.map fun part =>
    if part = "**".toList then .anyDirectories else .named part
  ⟨parts, endsWith ['/'] s || parts.getLast? == some .anyDirectories⟩

/-- The pattern of all source files, however deep they lie. -/
def sources : Pattern :=
  ofText "**/*.sol".toList

end Pattern

end ContractInterface
