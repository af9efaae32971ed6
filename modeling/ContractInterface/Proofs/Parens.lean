import ContractInterface.Delimiter

/-! # Counting parentheses

The depth behind a text is the number of parentheses it opens less the number it closes.  Scanning for
a matching delimiter reads the marks only up to the match (`closeFrom?_append`), and the match is a
closing delimiter outside of literals (`exists_of_closeFrom?`).
-/

namespace ContractInterface.Delimiter

open Text Literal

/-- The number of parentheses that a text opens, less the number that it closes. -/
def depthOf : Text → Int
  | [] => 0
  | c :: s => parenStep c + depthOf s

@[simp] theorem depthOf_nil : depthOf [] = 0 := rfl

@[simp] theorem depthOf_cons (c : Char) (s : Text) :
    depthOf (c :: s) = parenStep c + depthOf s := rfl

@[simp] theorem depthOf_append (s t : Text) : depthOf (s ++ t) = depthOf s + depthOf t := by
  induction s with
  | nil => simp
  | cons c s ih => simp [ih, Int.add_assoc]

section Matching

variable {isOpen isClose : Char → Bool}

theorem closeFrom?_append {depth : Int} {ms : List Mark} {k : Nat}
    (found : closeFrom? isOpen isClose depth ms = some k) (ns : List Mark) :
    closeFrom? isOpen isClose depth (ms ++ ns) = some k := by
  induction ms generalizing depth k with
  | nil => cases found
  | cons m more ih =>
    simp only [closeFrom?, List.cons_append] at found ⊢
    split at found
    · rename_i matches_
      rw [if_pos matches_]
      exact found
    · rename_i matches_
      obtain ⟨j, foundInner, rfl⟩ := Option.map_eq_some_iff.1 found
      rw [if_neg matches_, ih foundInner]
      rfl

theorem isClose_of_markStep {m : Mark} (closes : markStep isOpen isClose m = -1) :
    m.quoted = false ∧ isClose m.char = true := by
  unfold markStep at closes
  split at closes
  · cases closes
  · rename_i unquoted
    unfold step at closes
    split at closes
    · cases closes
    · split at closes
      · rename_i isCloser
        exact ⟨by simpa using unquoted, isCloser⟩
      · cases closes

/-- The match is a closing delimiter. -/
theorem exists_of_closeFrom? {depth : Int} {ms : List Mark} {k : Nat}
    (found : closeFrom? isOpen isClose depth ms = some k) :
    ∃ m, ms[k]? = some m ∧ m.quoted = false ∧ isClose m.char = true := by
  induction ms generalizing depth k with
  | nil => cases found
  | cons m more ih =>
    simp only [closeFrom?] at found
    split at found
    · rename_i matches_
      cases found
      exact ⟨m, rfl, isClose_of_markStep matches_.1⟩
    · obtain ⟨j, foundInner, rfl⟩ := Option.map_eq_some_iff.1 found
      simpa using ih foundInner

end Matching

end ContractInterface.Delimiter
