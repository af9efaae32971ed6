import ContractInterface.Declaration.Statement
import ContractInterface.TypeSyntax.Dimension
import ContractInterface.TypeSyntax.Mapping
import ContractInterface.TypeSyntax.Spelling

/-! # State variables

A statement declares a state variable if it reads as a type, any number of modifiers, and a name,
with an initialiser behind `=` or without one.  `StateVariable.ofStatement?` recognises these
statements; what a type is called does not matter here. -/

namespace ContractInterface

open Text TypeSyntax

/-- A declaration of a state variable, its type as the source spells it. -/
structure StateVariable where
  type : Text
  name : Text
  index : Nat
  visibility : Visibility
deriving DecidableEq, Repr

namespace StateVariable

/-- Whether an equals sign between the given neighbours starts an initialiser: it is neither part of
another operator nor the end of the text. -/
def startsInitialiser (before after : Option Char) : Bool :=
  match before, after with
  | some b, some a => !"=!<>".toList.contains b && !"=>".toList.contains a
  | _, _ => false

/-- The part of a text in front of an initialiser, when scanning stands at `depth` behind the
character `before`. -/
def declarationFrom (depth : Int) (before : Option Char) : Text → Text
  | [] => []
  | c :: s =>
    -- arrows and comparisons hold an equals sign too
    if c = '=' ∧ depth = 0 ∧ startsInitialiser before s.head? then []
    else c :: declarationFrom (depth + Delimiter.parenStep c) (some c) s

/-- A statement without its initialiser. -/
def declarationPart (s : Text) : Text :=
  declarationFrom 0 none s

/-- The number of characters that a parenthesised list takes at the front of a text, blanks before
it included.  The list ends at the first closing parenthesis. -/
def listLength? (s : Text) : Option Nat :=
  match trimStart s with
  | '(' :: inner =>
    match inner.dropWhile (· ≠ ')') with
    | _ :: behind => some (s.length - behind.length)
    | [] => none
  | _ => none

/-- A text with the list behind every `override` left out. -/
def withoutOverrideLists (s : Text) : Text :=
  replacing isWordChar
    (fun word rest =>
      if word = "override".toList then (listLength? rest).map (word, ·) else none) s

/-- A character that a simple type may go on with. -/
def isSimpleTypeMember (c : Char) : Bool :=
  Identifier.isMember c || c == '.'

/-- A simple type with its dimensions, blanks dropped, and the text behind it, which has to be set
off by a blank. -/
def simpleType? : Text → Option (Text × Text)
  | [] => none
  | c :: s =>
    if Identifier.isStart c then
      let (sizes, behind) := Dimension.splitLeading (s.dropWhile isSimpleTypeMember)
      -- without a blank the type would run into the name
      if behind.head?.any isBlank then
        some (c :: s.takeWhile isSimpleTypeMember ++ sizes.flatMap bracketed, trimStart behind)
      else none
    else none

/-- A mapping type with its dimensions, and the text behind it. -/
def mappingType? (s : Text) : Option (Text × Text) :=
  match Mapping.split? s with
  | some (type, behind) =>
    if holds Mapping.arrow type then
      let (sizes, rest) := Dimension.splitLeading behind
      some (type ++ sizes.flatMap bracketed, rest)
    else none
  | none => none

theorem mappingType?_eq_some_iff {s type behind : Text} : mappingType? s = some (type, behind) ↔
    ∃ mapping rest, Mapping.split? s = some (mapping, rest) ∧ holds Mapping.arrow mapping = true ∧
      mapping ++ (Dimension.splitLeading rest).1.flatMap bracketed = type ∧
        (Dimension.splitLeading rest).2 = behind := by
  unfold mappingType?
  split
  · rename_i mapping rest isSplit
    simp only [isSplit, Option.some.injEq, Prod.mk.injEq, Option.ite_none_right_eq_some]
    exact ⟨fun found => ⟨mapping, rest, ⟨rfl, rfl⟩, found⟩, fun ⟨_, _, ⟨rfl, rfl⟩, found⟩ => found⟩
  · rename_i none_
    simp [none_]

/-- The visibility that the modifiers of a state variable give it: the first one named, or
internal. -/
def visibilityOf (modifiers : List Text) : Visibility :=
  (modifiers.findSome? Visibility.ofWord?).getD .internally

/-- The name and visibility that the words behind a type give. -/
def nameAndVisibility? (ws : List Text) : Option (Text × Visibility) :=
  match ws.getLast? with
  | some name =>
    if Identifier.isIdentifier name && !Keyword.variableModifiers.contains name &&
        ws.dropLast.all Keyword.variableModifiers.contains then
      some (name, visibilityOf ws.dropLast)
    else none
  | none => none

/-- The type at the front of a declaration, and the text behind it. -/
def splitType? (declaration : Text) : Option (Text × Text) :=
  if isMapping declaration then mappingType? declaration else simpleType? declaration

/-- A statement that starts at `index` as the declaration of a state variable. -/
def ofStatement? (statement : Text) (index : Nat) : Option StateVariable := do
  let text := trim statement
  let (first, _) ← Identifier.leading? text
  if Keyword.otherStatements.contains first then none
  else
    let declaration := plainAddress (withoutOverrideLists (trim (declarationPart text)))
    let (type, behind) ← splitType? declaration
    let (name, visibility) ← nameAndVisibility? (words behind)
    return ⟨type, name, index, visibility⟩

/-- The state variables that a source text without comments declares. -/
def ofText (s : Text) : List StateVariable :=
  (Statement.ofText s).filterMap fun statement => ofStatement? statement.text statement.index

end StateVariable

end ContractInterface
