import ContractInterface.Text.Blank
import ContractInterface.Text.Word

/-! # Identifiers

An identifier starts with an ASCII letter, a low line or a dollar sign and goes on with word
characters of any script and dollar signs.  It is read greedily, so an identifier found in a text is
never followed by a character that could go on with it. -/

namespace ContractInterface.Identifier

open Text

/-- A character that an identifier may start with. -/
def isStart (c : Char) : Bool :=
  c.isAlpha || c == '_' || c == '$'

/-- A character that an identifier may go on with. -/
def isMember (c : Char) : Bool :=
  isWordChar c || c == '$'

/-- Whether a whole text is an identifier. -/
def isIdentifier : Text → Bool
  | [] => false
  | c :: s => isStart c && s.all isMember

/-- The identifier at the front of a text, and the text behind it. -/
def leading? : Text → Option (Text × Text)
  | [] => none
  | c :: s => if isStart c then some (c :: s.takeWhile isMember, s.dropWhile isMember) else none

/-- The identifiers of a text, from left to right.  One may start inside a run of member characters
whose front cannot start an identifier. -/
def identifiers (s : Text) : List Text :=
  match s with
  | [] => []
  | c :: s =>
    if isStart c then (c :: s.takeWhile isMember) :: identifiers (s.dropWhile isMember)
    else identifiers s
termination_by s.length
decreasing_by
  · have := length_dropWhile_le isMember s
    simp only [List.length_cons]
    omega
  · simp

/-- The identifier at the front of a text, with at least one blank before it, and the text behind. -/
def afterBlanks? (s : Text) : Option (Text × Text) :=
  match s with
  | c :: rest => if isBlank c then leading? (trimStart rest) else none
  | [] => none

/-! ## Small laws -/

/-- Letters are ASCII characters. -/
theorem isAscii_of_isAlpha {c : Char} (h : c.isAlpha = true) : isAscii c = true := by
  refine decide_eq_true ?_
  have bound : c.val.toNat ≤ 122 := by
    rcases Bool.or_eq_true_iff.1 h with h | h
    · obtain ⟨_, h⟩ := of_decide_eq_true h
      exact Nat.le_trans (UInt32.le_iff_toNat_le.1 h) (by decide)
    · obtain ⟨_, h⟩ := Bool.and_eq_true_iff.1 h
      exact UInt32.le_iff_toNat_le.1 (of_decide_eq_true h)
  exact Nat.lt_of_le_of_lt bound (by decide)

theorem isStart_isMember {c : Char} (h : isStart c = true) : isMember c = true := by
  simp only [isStart, isMember, isWordChar, Bool.or_eq_true] at h ⊢
  rcases h with (h | h) | h
  · refine .inl (.inl ?_)
    rw [isAlphanumeric_of_isAscii (isAscii_of_isAlpha h)]
    exact Bool.or_eq_true_iff.2 (.inl h)
  · exact .inl (.inr h)
  · exact .inr h

theorem leading?_eq_some {s name rest : Text} (h : leading? s = some (name, rest)) :
    s = name ++ rest ∧ isIdentifier name = true := by
  cases s with
  | nil => simp [leading?] at h
  | cons c s =>
    by_cases hc : isStart c = true
    · simp only [leading?, hc, if_true, Option.some.injEq, Prod.mk.injEq] at h
      obtain ⟨rfl, rfl⟩ := h
      refine ⟨by simp, ?_⟩
      simp only [isIdentifier, hc, Bool.true_and, List.all_eq_true]
      exact List.all_eq_true.1 List.all_takeWhile
    · simp [leading?, hc] at h

end ContractInterface.Identifier
