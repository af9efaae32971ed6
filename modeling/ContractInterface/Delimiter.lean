import ContractInterface.Literal
import ContractInterface.Text.Blank

/-! # Delimiters

Balanced scanning counts opened and closed delimiters.  The depth of a position is the number of
delimiters opened before it less the number closed; it is an integer, because a text may close more
than it opened.

* `closeFrom?` finds where the depth comes back to zero; it reads marks, so the delimiters inside
  string literals do not count;
* `balanced?` takes the content between an opening delimiter and its match;
* `findAtDepth?` finds a needle at a given depth of parentheses;
* `splitTopLevel` cuts a text at the separators outside all parentheses. -/

namespace ContractInterface.Delimiter

open Text Literal

/-- How a character changes the depth. -/
def step (isOpen isClose : Char → Bool) (c : Char) : Int :=
  if isOpen c then 1 else if isClose c then -1 else 0

/-- How a marked character changes the depth; inside a literal it does not. -/
def markStep (isOpen isClose : Char → Bool) (m : Mark) : Int :=
  if m.quoted then 0 else step isOpen isClose m.char

/-- How far the first closing delimiter is that brings the depth to zero, when scanning starts at
`depth`. -/
def closeFrom? (isOpen isClose : Char → Bool) (depth : Int) : List Mark → Option Nat
  | [] => none
  | m :: more =>
    let change := markStep isOpen isClose m
    if change = -1 ∧ depth + change = 0 then some 0
    else (closeFrom? isOpen isClose (depth + change) more).map (· + 1)

/-- The opening parenthesis. -/
def isOpenParen (c : Char) : Bool := c == '('

/-- The closing parenthesis. -/
def isCloseParen (c : Char) : Bool := c == ')'

/-- How a character changes the depth of parentheses. -/
def parenStep (c : Char) : Int :=
  step isOpenParen isCloseParen c

/-- The index, in a text that should start with a parenthesis, of the one that matches it.  String
literals do not count. -/
def matchingParen? (s : Text) : Option Nat :=
  closeFrom? isOpenParen isCloseParen 0 (marks s)

/-- The index of the matching parenthesis when the parentheses in string literals count too. -/
def matchingPlainParen? (s : Text) : Option Nat :=
  closeFrom? isOpenParen isCloseParen 0 (unquotedMarks s)

/-- The content of the parentheses that a text starts with, and the text behind them. -/
def parenthesised? (s : Text) : Option (Text × Text) :=
  (matchingParen? s).map fun close => ((s.take close).drop 1, s.drop (close + 1))

/-- The content of the balanced delimiters that a text starts with, and the index of the closing
one.  Delimiters are given as texts, and one that is not a single character never matches.  String
literals do not count between parentheses; between other delimiters everything counts. -/
def balanced? (opening closing : Text) (s : Text) : Option (Text × Nat) :=
  match s with
  | [] => none
  | c :: _ =>
    if [c] = opening then
      let found :=
        if opening = ['('] ∧ closing = [')'] then matchingParen? s
        else closeFrom? ([·] == opening) ([·] == closing) 0 (unquotedMarks s)
      found.map fun close => ((s.take close).drop 1, close)
    else none

/-- How far the first occurrence of `needle` at depth `target` is, when scanning starts at `depth`.
The depth at a parenthesis is the one behind it.  Scanning gives up where more was closed than
opened. -/
def findAtDepth? (needle : Text) (target depth : Int) : Text → Option Nat
  | [] => none
  | c :: s =>
    let inner := depth + parenStep c
    -- what is left lies outside of the text that was asked about
    if inner < 0 then none
    else if inner = target ∧ startsWith needle (c :: s) then some 0
    else (findAtDepth? needle target inner s).map (· + 1)

/-- The segments of a text between the separators at depth zero.  A parenthesis separates nothing. -/
def segments (isSeparator : Char → Bool) (depth : Int) : Text → List Text
  -- also the empty text has one segment
  | [] => [[]]
  | c :: s =>
    if parenStep c = 0 ∧ isSeparator c ∧ depth = 0 then [] :: segments isSeparator depth s
    else onFirst c (segments isSeparator (depth + parenStep c) s)

/-- The trimmed segments between the separators outside all parentheses, the blank ones left out. -/
def splitTopLevel (isSeparator : Char → Bool) (s : Text) : List Text :=
  ((segments isSeparator 0 s).map trim).filter (· != [])

/-- The members of a list that commas separate, such as parameters. -/
def splitCommas (s : Text) : List Text :=
  splitTopLevel (· == ',') s

/-! ## Lengths -/

theorem closeFrom?_lt {isOpen isClose : Char → Bool} {depth : Int} {ms : List Mark} {k : Nat}
    (h : closeFrom? isOpen isClose depth ms = some k) : k < ms.length := by
  induction ms generalizing depth k with
  | nil => simp [closeFrom?] at h
  | cons m more ih =>
    simp only [closeFrom?] at h
    split at h
    · simp only [Option.some.injEq] at h
      simp [← h]
    · obtain ⟨j, hj, rfl⟩ := Option.map_eq_some_iff.1 h
      have := ih hj
      simp only [List.length_cons]
      omega

theorem matchingParen?_lt {s : Text} {k : Nat} (h : matchingParen? s = some k) : k < s.length := by
  simpa using closeFrom?_lt h

theorem matchingPlainParen?_lt {s : Text} {k : Nat} (h : matchingPlainParen? s = some k) :
    k < s.length := by
  simpa using closeFrom?_lt h

/-- A segment is no longer than the text it is cut from. -/
theorem length_le_of_mem_segments {isSeparator : Char → Bool} {depth : Int} {s part : Text}
    (h : part ∈ segments isSeparator depth s) : part.length ≤ s.length := by
  induction s generalizing depth part with
  | nil => simp_all [segments]
  | cons c s ih =>
    simp only [segments] at h
    split at h
    · rcases List.mem_cons.1 h with rfl | h
      · simp
      · have := ih h
        simp only [List.length_cons]
        omega
    · generalize hp : segments isSeparator (depth + parenStep c) s = pieces at h
      match pieces with
      | [] => simp only [onFirst, List.mem_singleton] at h; simp [h]
      | first :: more =>
        simp only [onFirst, List.mem_cons] at h
        rcases h with rfl | h
        · have := ih (hp ▸ List.mem_cons_self)
          simp only [List.length_cons]
          omega
        · have := ih (hp ▸ List.mem_cons_of_mem _ h)
          simp only [List.length_cons]
          omega

theorem length_le_of_mem_splitTopLevel {isSeparator : Char → Bool} {s part : Text}
    (h : part ∈ splitTopLevel isSeparator s) : part.length ≤ s.length := by
  obtain ⟨h, _⟩ := List.mem_filter.1 h
  obtain ⟨raw, hraw, rfl⟩ := List.mem_map.1 h
  exact Nat.le_trans (length_trim_le raw) (length_le_of_mem_segments hraw)

end ContractInterface.Delimiter
