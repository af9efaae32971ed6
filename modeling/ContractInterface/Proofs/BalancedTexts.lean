import ContractInterface.Proofs.ParameterTypes
import ContractInterface.Proofs.Reading
import Mathlib.Algebra.Ring.Int.Defs

/-! # Balanced texts

How far a marked text changes the depth is the sum over its marks (`depthAlong`), and a scan depends on
the depths that it meets: it passes over a text along which the depth stays positive
(`closeFrom?_append_of_inside`), and it cuts a text only at separators that it meets at depth zero
(`IsUncut`).

A text is nested if its parentheses close what they open and no more (`IsNested`).  Between parentheses
such a text is found whole (`parenthesised?_of_isNested`), and no comma in it separates parameters
(`isOpaque_parens_of_isNested`).
-/

namespace ContractInterface

open Text Literal

namespace Delimiter

/-! ## Depths -/

section Depths

variable {isOpen isClose : Char → Bool}

/-- How far a marked text changes the depth. -/
def depthAlong (isOpen isClose : Char → Bool) (ms : List Mark) : Int :=
  (ms.map (markStep isOpen isClose)).sum

@[simp] theorem depthAlong_nil : depthAlong isOpen isClose [] = 0 := rfl

@[simp] theorem depthAlong_cons (m : Mark) (ms : List Mark) : depthAlong isOpen isClose (m :: ms) =
    markStep isOpen isClose m + depthAlong isOpen isClose ms := by
  simp [depthAlong]

@[simp] theorem depthAlong_append (ms ns : List Mark) : depthAlong isOpen isClose (ms ++ ns) =
    depthAlong isOpen isClose ms + depthAlong isOpen isClose ns := by
  simp [depthAlong]

theorem depthAlong_eq_zero {ms : List Mark} (flat : ∀ m ∈ ms, markStep isOpen isClose m = 0) :
    depthAlong isOpen isClose ms = 0 := by
  induction ms with
  | nil => rfl
  | cons m ms ih =>
    rw [depthAlong_cons, flat m List.mem_cons_self, ih fun n member => flat n (List.mem_cons_of_mem m member)]
    rfl

theorem depthAlong_unquotedMarks (t : Text) :
    depthAlong isOpenParen isCloseParen (unquotedMarks t) = depthOf t := by
  induction t with
  | nil => rfl
  | cons c t ih =>
    rw [unquotedMarks, List.map_cons, depthAlong_cons, depthOf_cons]
    exact congrArg (parenStep c + ·) ih

theorem depthOf_eq_zero {t : Text} (flat : ∀ c ∈ t, parenStep c = 0) : depthOf t = 0 := by
  rw [← depthAlong_unquotedMarks]
  refine depthAlong_eq_zero fun m member => ?_
  obtain ⟨c, inText, rfl⟩ := List.mem_map.1 member
  exact flat c inText

theorem depthOf_blanks {b : Text} (blanks : Blanks b) : depthOf b = 0 :=
  depthOf_eq_zero fun c member => parenStep_of_isBlank (blanks c member)

/-- A scan passes over marks along which it stays inside. -/
theorem closeFrom?_append_of_inside {depth : Int} {ms : List Mark}
    (inside : ∀ front, front <+: ms → 0 < depth + depthAlong isOpen isClose front) (ns : List Mark) :
    closeFrom? isOpen isClose depth (ms ++ ns) =
      (closeFrom? isOpen isClose (depth + depthAlong isOpen isClose ms) ns).map (· + ms.length) := by
  induction ms generalizing depth with
  | nil => simp
  | cons m ms ih =>
    have here := inside [m] (List.prefix_append [m] ms)
    simp only [depthAlong_cons, depthAlong_nil, Int.add_zero] at here
    have later : ∀ front, front <+: ms →
        0 < depth + markStep isOpen isClose m + depthAlong isOpen isClose front := by
      intro front isFront
      have whole := inside (m :: front) (List.cons_prefix_cons.2 ⟨rfl, isFront⟩)
      rwa [depthAlong_cons, ← Int.add_assoc] at whole
    have goesOn : ¬(markStep isOpen isClose m = -1 ∧ depth + markStep isOpen isClose m = 0) := by
      rintro ⟨-, closes⟩
      omega
    rw [List.cons_append, closeFrom?, depthAlong_cons, ← Int.add_assoc]
    simp only [if_neg goesOn, ih later, Option.map_map]
    rfl

end Depths

/-! ## Nested texts -/

/-- Marks whose parentheses close what they open, and no more. -/
structure IsNested (ms : List Mark) : Prop where
  above : ∀ front, front <+: ms → 0 ≤ depthAlong isOpenParen isCloseParen front
  level : depthAlong isOpenParen isCloseParen ms = 0

instance (ms : List Mark) : Decidable (IsNested ms) :=
  decidable_of_iff ((∀ n ≤ ms.length, 0 ≤ depthAlong isOpenParen isCloseParen (ms.take n)) ∧
      depthAlong isOpenParen isCloseParen ms = 0)
    ⟨fun ⟨above, level⟩ => ⟨fun _ isFront =>
        List.prefix_iff_eq_take.1 isFront ▸ above _ isFront.length_le, level⟩,
      fun nested => ⟨fun n _ => nested.above _ (List.take_prefix n ms), nested.level⟩⟩

namespace IsNested

variable {ms : List Mark}

theorem closeFrom?_append (nested : IsNested ms) {depth : Int} (inside : 0 < depth) (ns : List Mark) :
    closeFrom? isOpenParen isCloseParen depth (ms ++ ns) =
      (closeFrom? isOpenParen isCloseParen depth ns).map (· + ms.length) := by
  rw [closeFrom?_append_of_inside (fun front isFront => Int.add_pos_of_pos_of_nonneg inside
    (nested.above front isFront)), nested.level, Int.add_zero]

/-- A parenthesis is matched behind what is nested. -/
theorem closeFrom?_parens (nested : IsNested ms) (ns : List Mark) :
    closeFrom? isOpenParen isCloseParen 0 (⟨'(', false⟩ :: (ms ++ ⟨')', false⟩ :: ns)) =
      some (ms.length + 1) := by
  rw [closeFrom?_open, nested.closeFrom?_append (by decide)]
  have one : (0 : Int) + 1 = 1 := by decide
  rw [one, closeFrom?_close_one]
  simp

end IsNested

section Texts

variable {t : Text}

theorem isNested_of_flat (flat : ∀ c ∈ t, parenStep c = 0) : IsNested (unquotedMarks t) := by
  have level : ∀ m ∈ unquotedMarks t, markStep isOpenParen isCloseParen m = 0 := by
    intro m member
    obtain ⟨c, inText, rfl⟩ := List.mem_map.1 member
    exact flat c inText
  refine ⟨fun front isFront => Int.le_of_eq ?_, depthAlong_eq_zero level⟩
  exact (depthAlong_eq_zero fun m member => level m (isFront.subset member)).symm

theorem isBalanced_of_isNested (nested : IsNested (unquotedMarks t)) : IsBalanced t := by
  intro depth inside ms
  rw [nested.closeFrom?_append inside, length_unquotedMarks]

theorem matchingParen?_of_isNested (closed : IsTerminated t) (nested : IsNested (marks t)) (s : Text) :
    matchingParen? ('(' :: (t ++ ')' :: s)) = some (t.length + 1) := by
  have opened : marks ('(' :: (t ++ ')' :: s)) = ⟨'(', false⟩ :: marks (t ++ ')' :: s) :=
    marks_append_of_noQuote (s := ['(']) (by simp; decide) _
  have ended : marks (')' :: s) = ⟨')', false⟩ :: marks s :=
    marks_append_of_noQuote (s := [')']) (by simp; decide) s
  unfold matchingParen?
  rw [opened, marks_append closed, ended, nested.closeFrom?_parens, length_marks]

/-- What stands between the parentheses at the front of a text, and what stands behind them. -/
theorem parenthesised?_of_isNested (closed : IsTerminated t) (nested : IsNested (marks t)) (s : Text) :
    parenthesised? ('(' :: (t ++ ')' :: s)) = some (t, s) := by
  unfold parenthesised?
  rw [matchingParen?_of_isNested closed nested, Option.map_some]
  simp

theorem depthOf_prefix_nonneg (nested : IsNested (unquotedMarks t)) {front : Text} (isFront : front <+: t) :
    0 ≤ depthOf front := by
  rw [← depthAlong_unquotedMarks]
  exact nested.above _ (isFront.map _)

theorem depthOf_of_isNested (nested : IsNested (unquotedMarks t)) : depthOf t = 0 := by
  rw [← depthAlong_unquotedMarks, nested.level]

end Texts

/-! ## Texts that are not cut -/

section Cuts

variable {isSeparator : Char → Bool} {depth : Int} {s t : Text}

/-- No separator stands at depth zero in a text that starts at `depth`. -/
def IsUncut (isSeparator : Char → Bool) (depth : Int) : Text → Prop
  | [] => True
  | c :: t => (isSeparator c = true → depth ≠ 0) ∧ IsUncut isSeparator (depth + parenStep c) t

theorem isUncut_of_absent (absent : ∀ c ∈ t, isSeparator c = false) : IsUncut isSeparator depth t := by
  induction t generalizing depth with
  | nil => trivial
  | cons c t ih =>
    refine ⟨fun separates => ?_, ih fun d member => absent d (List.mem_cons_of_mem c member)⟩
    rw [absent c List.mem_cons_self] at separates
    cases separates

theorem isUncut_of_inside (inside : ∀ front, front <+: t → depth + depthOf front ≠ 0) :
    IsUncut isSeparator depth t := by
  induction t generalizing depth with
  | nil => trivial
  | cons c t ih =>
    refine ⟨fun _ => by simpa using inside [] List.nil_prefix, ih fun front isFront => ?_⟩
    have whole := inside (c :: front) (List.cons_prefix_cons.2 ⟨rfl, isFront⟩)
    rwa [depthOf_cons, ← Int.add_assoc] at whole

theorem isUncut_append : IsUncut isSeparator depth (s ++ t) ↔
    IsUncut isSeparator depth s ∧ IsUncut isSeparator (depth + depthOf s) t := by
  induction s generalizing depth with
  | nil => simp [IsUncut]
  | cons c s ih => rw [List.cons_append, IsUncut, IsUncut, ih, depthOf_cons, Int.add_assoc, and_assoc]

theorem IsUncut.append (left : IsUncut isSeparator depth s) (right : IsUncut isSeparator (depth + depthOf s) t) :
    IsUncut isSeparator depth (s ++ t) :=
  isUncut_append.2 ⟨left, right⟩

/-- What is not cut stands in one segment. -/
theorem IsUncut.segments_append (uncut : IsUncut isSeparator depth t) (s : Text) :
    segments isSeparator depth (t ++ s) = onFront t (segments isSeparator (depth + depthOf t) s) := by
  induction t generalizing depth with
  | nil => simp [onFront_nil (segments_ne_nil _ _ _)]
  | cons c t ih =>
    have here : ¬(parenStep c = 0 ∧ isSeparator c = true ∧ depth = 0) := fun cut => uncut.1 cut.2.1 cut.2.2
    rw [List.cons_append, segments, if_neg here, ih uncut.2, onFirst_eq_onFront, onFront_onFront, depthOf_cons,
      Int.add_assoc]
    rfl

theorem IsUncut.segments_eq (uncut : IsUncut isSeparator depth t) : segments isSeparator depth t = [t] := by
  have whole := uncut.segments_append []
  simpa [segments, onFront] using whole

/-- A text that changes no depth, and in which separators stand only inside of parentheses. -/
structure IsShut (isSeparator : Char → Bool) (t : Text) : Prop where
  uncut : ∀ depth, 0 ≤ depth → IsUncut isSeparator depth t
  level : depthOf t = 0

theorem isShut_of_absent (level : depthOf t = 0) (absent : ∀ c ∈ t, isSeparator c = false) :
    IsShut isSeparator t :=
  ⟨fun _ _ => isUncut_of_absent absent, level⟩

theorem IsShut.append (left : IsShut isSeparator s) (right : IsShut isSeparator t) :
    IsShut isSeparator (s ++ t) where
  uncut depth inside := (left.uncut depth inside).append (by
    rw [left.level, Int.add_zero]
    exact right.uncut depth inside)
  level := by rw [depthOf_append, left.level, right.level, Int.add_zero]

/-- What is nested is shut between parentheses. -/
theorem isShut_parens (notOpen : isSeparator '(' = false) (notClose : isSeparator ')' = false)
    (nested : IsNested (unquotedMarks t)) : IsShut isSeparator ('(' :: (t ++ [')'])) where
  uncut depth inside := by
    have opens : parenStep '(' = 1 := by decide
    have first : IsUncut isSeparator depth ['('] := isUncut_of_absent (by simpa using notOpen)
    have last : ∀ depth, IsUncut isSeparator depth [')'] := fun _ => isUncut_of_absent (by simpa using notClose)
    refine IsUncut.append (s := ['(']) first (IsUncut.append (isUncut_of_inside fun front isFront => ?_) (last _))
    have above := depthOf_prefix_nonneg nested isFront
    rw [depthOf_cons, depthOf_nil, opens]
    omega
  level := by
    have opens : parenStep '(' = 1 := by decide
    have closes : parenStep ')' = -1 := by decide
    rw [depthOf_cons, depthOf_append, depthOf_of_isNested nested, depthOf_cons, opens, closes]
    rfl

/-- A piece that is shut is cut off at the separator behind it. -/
theorem IsShut.segments_append_cons (shut : IsShut isSeparator t) {c : Char} (flat : parenStep c = 0)
    (separates : isSeparator c = true) (s : Text) :
    segments isSeparator 0 (t ++ c :: s) = t :: segments isSeparator 0 s := by
  rw [(shut.uncut 0 (Int.le_refl 0)).segments_append, shut.level, Int.add_zero, segments,
    if_pos ⟨flat, separates, rfl⟩]
  simp [onFront]

end Cuts

end Delimiter

open Delimiter

/-- Between parentheses no comma separates parameters. -/
theorem isOpaque_parens_of_isNested {t : Text} (nested : IsNested (unquotedMarks t)) :
    IsOpaque ('(' :: (t ++ [')'])) := by
  intro depth inside s
  have shut : IsShut (· == ',') ('(' :: (t ++ [')'])) := isShut_parens (by decide) (by decide) nested
  rw [(shut.uncut depth inside).segments_append, shut.level, Int.add_zero]

end ContractInterface
