/-! # Text

Source code, type spellings and everything printed are lists of characters.  An index counts
characters from the front, and the text from an index on is its `drop`.

* `after? head s` is what follows `head` at the front of `s`;
* `holds needle s` says that `needle` occurs somewhere in `s`;
* `fields c s` cuts `s` at every `c`, and `joined` puts pieces together again;
* `digits n` is the decimal spelling of a number.
-/

namespace ContractInterface

/-- A text is the list of its characters. -/
abbrev Text := List Char

namespace Text

/-- What follows `head` at the front of a text, if the text starts with `head`. -/
def after? : (head : Text) → Text → Option Text
  | [], s => some s
  | h :: head, c :: s => if h = c then after? head s else none
  | _ :: _, [] => none

/-- Whether a text starts with `head`. -/
def startsWith (head s : Text) : Bool :=
  head.isPrefixOf s

/-- Whether a text ends with `last`. -/
def endsWith (last s : Text) : Bool :=
  last.isSuffixOf s

/-- Whether `needle` occurs in a text; the empty needle occurs in every text. -/
def holds (needle : Text) : Text → Bool
  | [] => needle.isEmpty
  | c :: s => needle.isPrefixOf (c :: s) || holds needle s

/-- Puts a character in front of the first piece. -/
def onFirst (c : Char) : List Text → List Text
  | [] => [[c]]
  | piece :: more => (c :: piece) :: more

/-- The pieces of a text between the occurrences of one character, empty pieces included. -/
def fields (separator : Char) : Text → List Text
  | [] => [[]]
  | c :: s => if c = separator then [] :: fields separator s else onFirst c (fields separator s)

/-- The pieces in order with `separator` between neighbours. -/
def joined (separator : Text) (pieces : List Text) : Text :=
  separator.intercalate pieces

/-- A text as a line of its own. -/
def asLine (s : Text) : Text :=
  s ++ ['\n']

/-- The decimal spelling of a number. -/
def digits (n : Nat) : Text :=
  Nat.toDigits 10 n

/-! ## Small laws -/

theorem after?_eq_some {head s rest : Text} :
    after? head s = some rest ↔ s = head ++ rest := by
  induction head generalizing s with
  | nil => simp [after?, eq_comm]
  | cons h head ih =>
    cases s with
    | nil => simp [after?]
    | cons c s =>
      by_cases hc : h = c
      · simp [after?, hc, ih]
      · simp [after?, hc, Ne.symm hc]

theorem onFirst_ne_nil (c : Char) (pieces : List Text) : onFirst c pieces ≠ [] := by
  cases pieces <;> simp [onFirst]

theorem fields_ne_nil (separator : Char) (s : Text) : fields separator s ≠ [] := by
  cases s with
  | nil => simp [fields]
  | cons c s =>
    simp only [fields]
    split
    · simp
    · exact onFirst_ne_nil _ _

end Text

end ContractInterface
