import ContractInterface.Registry.Resolution

/-! # Substituting type names

A reference is a name with any number of qualifiers before it, each followed by a dot.  It starts
where a run of identifier characters and dots starts, so a name is never found inside another one.

`substitute` replaces in a text the references to every name of a registry by the spelling that the
type has in a signature.  The names are taken one after the other, longer names first. -/

namespace ContractInterface.Registry

open Text TypeSyntax

/-- A character of a reference. -/
def isReferenceMember (c : Char) : Bool :=
  Identifier.isMember c || c == '.'

/-- The parts of a dotted run behind the longest reference to `name` that the run starts with. -/
def partsBehind? (name : Text) : List Text → Option (List Text)
  | [] => none
  | part :: more =>
    match (if Identifier.isIdentifier part then partsBehind? name more else none) with
    -- a longer reference wins over a shorter one
    | some behind => some behind
    | none => if part = name then some more else none

/-- What a run that starts with a reference to `name` becomes when the reference is replaced. -/
def replaced? (name replacement run : Text) : Option Text :=
  (partsBehind? name (fields '.' run)).map fun behind => replacement ++ behind.flatMap ('.' :: ·)

/-- A text with every reference to `name` replaced. -/
def replaceReferences (name replacement s : Text) : Text :=
  replacing isReferenceMember (fun run _ => (replaced? name replacement run).map (·, 0)) s

/-- Whether a text refers to `name`. -/
def refersTo (name s : Text) : Bool :=
  !(locate isReferenceMember (fun run _ => (replaced? name [] run).map (·, 0)) s).isEmpty

/-- A text with the references to one name of the registry replaced.  A name that the text does not
refer to is not resolved. -/
def substituteName (r : Registry) (s name : Text) : Except ResolutionError Text :=
  if refersTo name s then do
    let replacement ← r.canonicalType name
    return replaceReferences name replacement s
  else return s

/-- A text with the references to all names of the registry replaced. -/
def substitute (r : Registry) (s : Text) : Except ResolutionError Text :=
  r.typeNames.foldlM r.substituteName s

end ContractInterface.Registry
