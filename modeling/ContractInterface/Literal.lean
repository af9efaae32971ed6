import ContractInterface.Text.Basic

/-! # String literals

A literal starts with a single or a double quote and runs to the next such quote.  A backslash takes
the character behind it along, so an escaped quote does not close; a literal that nothing closes
runs to the end of the text.

* `lengthBehind quote s` measures a literal behind its opening quote;
* `end? s position` is the index just past the literal that opens at `position`;
* `marks s` keeps every character of `s` and tells whether it belongs to a literal, its quotes
  included.  The scanners that must not look into literals read marks instead of characters. -/

namespace ContractInterface

/-- A character of a text, with whether it belongs to a string literal. -/
structure Mark where
  char : Char
  quoted : Bool
deriving DecidableEq, Repr

namespace Literal

/-- A character that opens a string literal. -/
def isQuote (c : Char) : Bool :=
  c == '"' || c == '\''

/-- The number of characters that a literal has behind its opening quote, the closing quote
included. -/
def lengthBehind (quote : Char) : Text → Nat
  -- an escaped character never closes
  | '\\' :: _ :: s => lengthBehind quote s + 2
  | c :: s => if c = quote then 1 else lengthBehind quote s + 1
  -- an open literal reaches to the end of the text
  | [] => 0

/-- The index just past the literal whose opening quote stands at `position`; none if the text has
no such position. -/
def end? (s : Text) (position : Nat) : Option Nat :=
  match s.drop position with
  | quote :: rest => some (position + 1 + lengthBehind quote rest)
  | [] => none

/-- The marks of a text that starts inside the literal of the given quote, or outside of all. -/
def marksFrom : Option Char → Text → List Mark
  | none, c :: s =>
    if isQuote c then ⟨c, true⟩ :: marksFrom (some c) s else ⟨c, false⟩ :: marksFrom none s
  | some quote, '\\' :: d :: s => ⟨'\\', true⟩ :: ⟨d, true⟩ :: marksFrom (some quote) s
  | some quote, c :: s => ⟨c, true⟩ :: marksFrom (if c = quote then none else some quote) s
  | _, [] => []

/-- The characters of a text, those of string literals marked as such. -/
def marks (s : Text) : List Mark :=
  marksFrom none s

/-- The characters of a text with no literal recognised in it. -/
def unquotedMarks (s : Text) : List Mark :=
  s.map (⟨·, false⟩)

/-! ## Marks keep the characters -/

@[simp] theorem map_char_marksFrom (inside : Option Char) (s : Text) :
    (marksFrom inside s).map Mark.char = s := by
  fun_induction marksFrom inside s <;> simp_all

@[simp] theorem map_char_marks (s : Text) : (marks s).map Mark.char = s :=
  map_char_marksFrom none s

@[simp] theorem length_marks (s : Text) : (marks s).length = s.length := by
  rw [← List.length_map Mark.char, map_char_marks]

@[simp] theorem length_unquotedMarks (s : Text) : (unquotedMarks s).length = s.length := by
  simp [unquotedMarks]

theorem lengthBehind_le (quote : Char) (s : Text) : lengthBehind quote s ≤ s.length := by
  fun_induction lengthBehind quote s with
  | case1 _ s ih =>
    simp only [List.length_cons]
    omega
  | case2 s => simp
  | case3 c s _ _ ih =>
    simp only [List.length_cons]
    omega
  | case4 => exact Nat.le_refl _

end Literal

end ContractInterface
