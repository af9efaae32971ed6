import ContractInterface.Declaration.Keyword
import ContractInterface.Delimiter
import ContractInterface.Identifier
import ContractInterface.Text.Span

/-! # Function headers

A function is found by its head, `function name(` with any blanks before the parenthesis.  Its header
runs to the first brace or semicolon outside parentheses and string literals.  Behind the parameter
list the header consists of words and of argument lists in parentheses; the list behind the first
`returns` holds the results.

Visibility and mutability are given by the first word that names one.  A function that names none is
public, respectively nonpayable. -/

namespace ContractInterface

open Text Delimiter

/-- The header of a function, its lists as the source spells them. -/
structure FunctionHeader where
  name : Text
  params : Text
  returns : Option Text
  index : Nat
  visibility : Visibility
  mutability : Mutability
deriving DecidableEq, Repr

/-- The head of a function: its name, the text from its keyword up to the parenthesis, and the text
from the parenthesis on. -/
structure FunctionHead where
  name : Text
  lead : Text
  fromParen : Text
deriving DecidableEq, Repr

/-- A part of a header behind the parameter list. -/
inductive HeaderPart where
  | word (text : Text)
  | arguments (content : Text)
deriving DecidableEq, Repr

namespace FunctionHead

/-- The head that a keyword and the text behind it make. -/
def ofWord? (word rest : Text) : Option FunctionHead :=
  if word = "function".toList then
    match Identifier.afterBlanks? rest with
    | some (name, behind) =>
      let fromParen := trimStart behind
      if startsWith ['('] fromParen then
        some ⟨name, word ++ rest.take (rest.length - fromParen.length), fromParen⟩
      else none
    | none => none
  else none

theorem ofWord?_eq_some_iff {word rest : Text} {head : FunctionHead} : ofWord? word rest = some head ↔
    word = "function".toList ∧ ∃ name behind, Identifier.afterBlanks? rest = some (name, behind) ∧
      startsWith ['('] (trimStart behind) = true ∧
        ⟨name, word ++ rest.take (rest.length - (trimStart behind).length), trimStart behind⟩ = head := by
  unfold ofWord?
  rw [Option.ite_none_right_eq_some]
  refine and_congr_right fun _ => ?_
  split
  · rename_i name behind isName
    simp only [isName, Option.some.injEq, Prod.mk.injEq, Option.ite_none_right_eq_some]
    exact ⟨fun found => ⟨name, behind, ⟨rfl, rfl⟩, found⟩, fun ⟨_, _, ⟨rfl, rfl⟩, found⟩ => found⟩
  · rename_i none_
    simp [none_]

/-- A head as a reader: it takes everything up to and with the parenthesis. -/
def read? (word rest : Text) : Option (FunctionHead × Nat) :=
  (ofWord? word rest).map fun head => (head, rest.length - head.fromParen.length + 1)

/-- The heads in a text, each with the index of its keyword. -/
def ofText (s : Text) : List (Nat × FunctionHead) :=
  locate isWordChar read? s

end FunctionHead

namespace FunctionHeader

/-- How far a header goes on when scanning stands at `depth`. -/
def lengthFrom (depth : Int) : List Mark → Nat
  | [] => 0
  | m :: more =>
    -- in an argument list a brace or semicolon ends nothing
    if ¬ m.quoted ∧ (m.char = '{' ∨ m.char = ';') ∧ depth ≤ 0 then 0
    else lengthFrom (depth + markStep isOpenParen isCloseParen m) more + 1

/-- The part of a header behind its parameter list, when `s` is all the text behind that list. -/
def behindParams (s : Text) : Text :=
  s.take (lengthFrom 0 (Literal.marks s))

/-- The words and argument lists of a header part, up to a parenthesis that nothing closes. -/
def parts (s : Text) : List HeaderPart :=
  match s with
  | [] => []
  | c :: s =>
    if c = '(' then
      match matchingParen? (c :: s) with
      | some close => .arguments (s.take (close - 1)) :: parts (s.drop close)
      -- a parenthesis that nothing closes hides the rest
      | none => []
    else if Identifier.isStart c then
      .word (c :: s.takeWhile Identifier.isMember) :: parts (s.dropWhile Identifier.isMember)
    else parts s
termination_by s.length
decreasing_by
  · simp only [List.length_drop, List.length_cons]
    omega
  · have := length_dropWhile_le Identifier.isMember s
    simp only [List.length_cons]
    omega
  · simp

/-- The words among header parts. -/
def wordsOf (ps : List HeaderPart) : List Text :=
  ps.filterMap fun
    | .word text => some text
    | .arguments _ => none

/-- The first argument list whose nearest word before it is `returns`, when `last` is the nearest
word so far. -/
def returnsAfter? (last : Text) : List HeaderPart → Option Text
  | [] => none
  | .word text :: more => returnsAfter? text more
  | .arguments content :: more =>
    if last = "returns".toList then some content else returnsAfter? last more

/-- The result list of a header. -/
def returns? (ps : List HeaderPart) : Option Text :=
  returnsAfter? [] ps

/-- The visibility that the words of a header give. -/
def visibilityOf (ws : List Text) : Visibility :=
  (ws.findSome? Visibility.ofWord?).getD .publicly

/-- The mutability that the words of a header give. -/
def mutabilityOf (ws : List Text) : Mutability :=
  (ws.findSome? Mutability.ofWord?).getD .nonpayable

/-- The header that starts with a head; none if its parameter list does not close. -/
def ofHead? (index : Nat) (head : FunctionHead) : Option FunctionHeader :=
  (parenthesised? head.fromParen).map fun (params, behind) =>
    let ps := parts (behindParams behind)
    { name := head.name
      params
      returns := returns? ps
      index
      visibility := visibilityOf (wordsOf ps)
      mutability := mutabilityOf (wordsOf ps) }

/-- The function headers of a source text without comments. -/
def ofText (s : Text) : List FunctionHeader :=
  (FunctionHead.ofText s).filterMap fun (index, head) => ofHead? index head

/-- A function as far as its parameter list, respaced; none if the list does not close. -/
def definition? (head : FunctionHead) : Option Text :=
  (matchingParen? head.fromParen).map fun close =>
    spaced (head.lead ++ head.fromParen.take (close + 1))

/-- The functions of a source text without comments, each as far as its parameter list. -/
def definitions (s : Text) : List Text :=
  (FunctionHead.ofText s).filterMap fun (_, head) => definition? head

end FunctionHeader

end ContractInterface
