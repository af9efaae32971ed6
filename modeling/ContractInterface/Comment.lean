import ContractInterface.Literal

/-! # Comments

Source code consists of code, string literals and comments.  A line comment runs up to the next line
break, a block comment to the next `*/`, and either is one only where it does not start inside a
literal or another comment.

* `regions` tells of every character which of the three it belongs to;
* `strip` leaves the comments out but keeps the line breaks of block comments, so that a character
  of the stripped text stands in the line in which it was written;
* `lineAt` is the line of an index. -/

namespace ContractInterface.Comment

open Literal

/-- What a character of source code belongs to. -/
inductive Region where
  | code
  | literal
  | comment
deriving DecidableEq, Repr

/-- Where reading stands between two characters. -/
inductive State where
  | code
  | literal (quote : Char)
  | lineComment
  | blockComment
deriving DecidableEq, Repr

/-- Every character of a text with its region, when reading starts in the given state. -/
def regionsFrom : State → Text → List (Char × Region)
  | .code, '/' :: '/' :: s => ('/', .comment) :: ('/', .comment) :: regionsFrom .lineComment s
  | .code, '/' :: '*' :: s => ('/', .comment) :: ('*', .comment) :: regionsFrom .blockComment s
  | .code, c :: s =>
    if isQuote c then (c, .literal) :: regionsFrom (.literal c) s
    else (c, .code) :: regionsFrom .code s
  -- a backslash takes the next character along, whatever it is
  | .literal quote, '\\' :: d :: s =>
    ('\\', .literal) :: (d, .literal) :: regionsFrom (.literal quote) s
  | .literal quote, c :: s =>
    (c, .literal) :: regionsFrom (if c = quote then .code else .literal quote) s
  | .lineComment, c :: s =>
    -- the line feed ends the comment and is no part of it
    if c = '\n' then (c, .code) :: regionsFrom .code s
    else (c, .comment) :: regionsFrom .lineComment s
  | .blockComment, '*' :: '/' :: s => ('*', .comment) :: ('/', .comment) :: regionsFrom .code s
  | .blockComment, c :: s => (c, .comment) :: regionsFrom .blockComment s
  | _, [] => []

/-- Every character of a source text with its region. -/
def regions (source : Text) : List (Char × Region) :=
  regionsFrom .code source

/-- Whether a character stays when comments are left out: all but the comments stay, and of the
comments their line breaks. -/
def stays : Char × Region → Bool
  | (c, region) => region != .comment || c == '\n'

/-- A source text without its comments. -/
def strip (source : Text) : Text :=
  ((regions source).filter stays).map Prod.fst

/-- The number of the line, counted from one, in which the character at an index stands. -/
def lineAt (s : Text) (index : Nat) : Nat :=
  (s.take index).count '\n' + 1

/-! ## Small laws -/

@[simp] theorem map_fst_regionsFrom (state : State) (s : Text) :
    (regionsFrom state s).map Prod.fst = s := by
  fun_induction regionsFrom state s <;> simp_all

@[simp] theorem map_fst_regions (s : Text) : (regions s).map Prod.fst = s :=
  map_fst_regionsFrom .code s

/-- Stripping leaves out characters and changes none. -/
theorem strip_sublist (s : Text) : (strip s).Sublist s := by
  have h : (strip s).Sublist ((regions s).map Prod.fst) := List.filter_sublist.map _
  rwa [map_fst_regions] at h

end ContractInterface.Comment
