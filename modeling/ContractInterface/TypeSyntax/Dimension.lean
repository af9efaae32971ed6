import ContractInterface.Text.Blank
import ContractInterface.Text.Word

/-! # Array dimensions

A dimension is a pair of square brackets with a size between them.  The size is a run of word
characters, possibly empty, and blanks may stand around it.

* `leading?` and `splitLeading` read dimensions at the front of a text;
* `trailing?` and `splitTrailing` read them at its end;
* `tightened` drops the blanks before and inside every dimension of a text. -/

namespace ContractInterface.TypeSyntax

open Text

/-- A dimension as it is written without blanks. -/
def bracketed (size : Text) : Text :=
  '[' :: size ++ [']']

namespace Dimension

/-- The size of the dimension that a text starts with, and the text behind it. -/
def leading? : Text → Option (Text × Text)
  | '[' :: s =>
    match trimStart ((trimStart s).dropWhile isWordChar) with
    | ']' :: rest => some ((trimStart s).takeWhile isWordChar, rest)
    | _ => none
  | _ => none

/-- The text in front of the dimension that a text ends with, its trailing blanks dropped, and the
size. -/
def trailing? (s : Text) : Option (Text × Text) :=
  match s.reverse with
  | ']' :: r =>
    match trimStart ((trimStart r).dropWhile isWordChar) with
    | '[' :: front =>
      some ((trimStart front).reverse, ((trimStart r).takeWhile isWordChar).reverse)
    | _ => none
  | _ => none

theorem length_leading? {s size rest : Text} (h : leading? s = some (size, rest)) :
    rest.length < s.length := by
  unfold leading? at h
  split at h
  · rename_i s
    split at h
    · rename_i rest' heq
      simp only [Option.some.injEq, Prod.mk.injEq] at h
      have h1 := length_trimStart_le ((trimStart s).dropWhile isWordChar)
      have h2 := length_dropWhile_le isWordChar (trimStart s)
      have h3 := length_trimStart_le s
      rw [heq] at h1
      simp only [← h.2, List.length_cons] at h1 ⊢
      omega
    · simp at h
  · simp at h

theorem length_trailing? {s front size : Text} (h : trailing? s = some (front, size)) :
    front.length < s.length := by
  unfold trailing? at h
  split at h
  · rename_i r hr
    split at h
    · rename_i front' heq
      simp only [Option.some.injEq, Prod.mk.injEq] at h
      have h1 := length_trimStart_le ((trimStart r).dropWhile isWordChar)
      have h2 := length_dropWhile_le isWordChar (trimStart r)
      have h3 := length_trimStart_le r
      have h4 := length_trimStart_le front'
      have h5 : s.length = r.length + 1 := by
        rw [← List.length_reverse, hr, List.length_cons]
      rw [heq] at h1
      simp only [← h.1, List.length_cons, List.length_reverse] at h1 ⊢
      omega
    · simp at h
  · simp at h

/-- The sizes of the dimensions at the front of a text, blanks before each allowed, and the text
behind the last one. -/
def splitLeading (s : Text) : List Text × Text :=
  match _h : leading? (trimStart s) with
  | some (size, rest) =>
    (size :: (splitLeading rest).1, (splitLeading rest).2)
  | none => ([], s)
termination_by s.length
decreasing_by
  have := length_leading? _h
  have := length_trimStart_le s
  omega

/-- The text in front of the dimensions that a trimmed text ends with, and their sizes from left to
right. -/
def peel (s : Text) : Text × List Text :=
  match _h : trailing? s with
  | some (front, size) =>
    ((peel front).1, (peel front).2 ++ [size])
  | none => (s, [])
termination_by s.length
decreasing_by exact length_trailing? _h

/-- The base of an array type and the sizes of its dimensions from left to right.  A type without a
base is no array. -/
def splitTrailing (s : Text) : Text × List Text :=
  let (base, sizes) := peel (trimEnd s)
  if trim base = [] then (trim s, []) else (trim base, sizes)

/-- A text whose dimensions hold no blanks and have none in front of them. -/
def tightened (s : Text) : Text :=
  match s with
  | [] => []
  | c :: s =>
    match _h : leading? (trimStart (c :: s)) with
    | some (size, rest) => bracketed size ++ tightened rest
    | none => c :: tightened s
termination_by s.length
decreasing_by
  · have := length_leading? _h
    have := length_trimStart_le (c :: s)
    omega
  · simp

/-! ## Lengths -/

theorem length_peel_le (s : Text) : (peel s).1.length ≤ s.length := by
  fun_induction peel s with
  | case1 s front size h ih =>
    have := length_trailing? h
    simp only
    omega
  | case2 s h => exact Nat.le_refl _

theorem peel_of_none {s : Text} (h : trailing? s = none) : peel s = (s, []) := by
  rw [peel.eq_def]
  split
  · rename_i heq
    simp [h] at heq
  · rfl

theorem peel_of_some {s front size : Text} (h : trailing? s = some (front, size)) :
    peel s = ((peel front).1, (peel front).2 ++ [size]) := by
  rw [peel.eq_def]
  split
  · rename_i front' size' heq
    simp only [h, Option.some.injEq, Prod.mk.injEq] at heq
    rw [heq.1, heq.2]
  · rename_i heq
    simp [h] at heq

theorem length_peel_lt {s : Text} (h : (peel s).2 ≠ []) : (peel s).1.length < s.length := by
  match hs : trailing? s with
  | none => simp [peel_of_none hs] at h
  | some (front, size) =>
    rw [peel_of_some hs]
    have := length_trailing? hs
    have := length_peel_le front
    simp only
    omega

theorem length_splitTrailing_lt {s : Text} (h : (splitTrailing s).2 ≠ []) :
    (splitTrailing s).1.length < s.length := by
  unfold splitTrailing at h ⊢
  simp only at h ⊢
  split at h
  · simp at h
  · rename_i hb
    simp only [hb, if_false]
    have h1 := length_peel_lt h
    have h2 := length_trimEnd_le s
    have h3 := length_trim_le (peel (trimEnd s)).1
    omega

end Dimension

end ContractInterface.TypeSyntax
