import ContractInterface.Identifier
import ContractInterface.Text.Span

/-! # How a type is spelled

Source code spells a type with decorations that do not change what it denotes: a storage location
anywhere in it, `payable` behind `address`, and layout.

* `withoutStorage` drops the storage locations and respaces the text;
* `plainAddress` writes every `address payable` as `address`;
* `normalized` does both, in this order;
* `withoutTrailingStorage` drops a storage location that stands at the end only;
* `unqualified` is the last part of a dotted name. -/

namespace ContractInterface.TypeSyntax

open Text

/-- The words that name a storage location. -/
def storageLocations : List Text :=
  ["memory".toList, "storage".toList, "calldata".toList]

/-- A text with each storage location replaced by a space. -/
def blankStorage (s : Text) : Text :=
  replacing isWordChar
    (fun word _ => if storageLocations.contains word then some ([' '], 0) else none) s

/-- A text without its storage locations, respaced. -/
def withoutStorage (s : Text) : Text :=
  spaced (blankStorage s)

/-- The number of characters that blanks and a following word `payable` take at the front of a
text. -/
def payableLength? (s : Text) : Option Nat :=
  let rest := trimStart s
  if rest.length < s.length ∧ rest.takeWhile isWordChar = "payable".toList then
    some (s.length - rest.length + "payable".toList.length)
  else none

/-- A text with every `address payable` written as `address`. -/
def plainAddress (s : Text) : Text :=
  replacing isWordChar
    (fun word rest =>
      if word = "address".toList then (payableLength? rest).map ("address".toList, ·) else none) s

/-- The spelling of a type without storage locations, layout and `payable`. -/
def normalized (s : Text) : Text :=
  plainAddress (withoutStorage s)

/-- A trimmed type without the storage location that stands last in it, if a blank sets it off. -/
def withoutTrailingStorage (s : Text) : Text :=
  let body := trimEnd s
  let last := (body.reverse.takeWhile (!isBlank ·)).reverse
  if storageLocations.contains last ∧ last.length < body.length then
    trim (body.take (body.length - last.length))
  else trim s

/-- The last part of a dotted name. -/
def unqualified (name : Text) : Text :=
  ((fields '.' (trim name)).getLast?).getD []

/-! ## Lengths -/

theorem length_blankStorage_le (s : Text) : (blankStorage s).length ≤ s.length := by
  refine length_replacing_le ?_ s
  intro run rest replacement taken h
  split at h
  · rename_i hrun
    simp only [Option.some.injEq, Prod.mk.injEq] at h
    have : run ≠ [] := by
      rintro rfl
      simp [storageLocations] at hrun
    have := List.length_pos_iff.2 this
    simp only [← h.1, List.length_cons, List.length_nil]
    omega
  · simp at h

theorem length_plainAddress_le (s : Text) : (plainAddress s).length ≤ s.length := by
  refine length_replacing_le ?_ s
  intro run rest replacement taken h
  split at h
  · rename_i hrun
    obtain ⟨n, _, hn⟩ := Option.map_eq_some_iff.1 h
    simp only [Prod.mk.injEq] at hn
    rw [← hn.1, hrun]
    omega
  · simp at h

theorem length_normalized_le (s : Text) : (normalized s).length ≤ s.length :=
  Nat.le_trans (length_plainAddress_le _)
    (Nat.le_trans (length_spaced_le _) (length_blankStorage_le s))

end ContractInterface.TypeSyntax
