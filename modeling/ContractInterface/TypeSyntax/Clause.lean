import ContractInterface.TypeSyntax.Dimension
import ContractInterface.TypeSyntax.Mapping
import ContractInterface.TypeSyntax.Spelling

/-! # Parameter clauses

A clause of a parameter or return list holds a type and perhaps a name, with a storage location
anywhere between them.  A clause of no known form is taken whole as a type without a name. -/

namespace ContractInterface.TypeSyntax

open Text

/-- A parameter or return clause; the name is empty if there is none. -/
structure Clause where
  type : Text
  name : Text
deriving DecidableEq, Repr

namespace Clause

/-- A character that a type without blanks may go on with. -/
def isTypeMember (c : Char) : Bool :=
  Identifier.isMember c || c == '.' || c == '[' || c == ']'

/-- The type at the front of a text and the text behind it. -/
def leadingType? : Text → Option (Text × Text)
  | [] => none
  | c :: s =>
    if Identifier.isStart c then some (c :: s.takeWhile isTypeMember, s.dropWhile isTypeMember)
    else none

/-- A type that is the whole text, or all of it but a name set off by a blank. -/
def plain? (s : Text) : Option Clause :=
  match leadingType? s with
  | some (type, []) => some ⟨type, []⟩
  | some (type, c :: rest) =>
    if isBlank c ∧ Identifier.isIdentifier (trimStart rest) then some ⟨type, trimStart rest⟩
    else none
  | none => none

/-- The type and name of a clause. -/
def ofText (clause : Text) : Clause :=
  let text := plainAddress (trim clause)
  match Mapping.split? text with
  -- behind a mapping only the first word counts
  | some (type, rest) =>
    ⟨type, ((Identifier.leading? (withoutStorage rest)).map Prod.fst).getD []⟩
  | none =>
    let text := Dimension.tightened (withoutStorage text)
    (plain? text).getD ⟨text, []⟩

end Clause

end ContractInterface.TypeSyntax
