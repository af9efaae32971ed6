import ContractInterface.Text.Basic

/-! # Fields

A separator cuts a text into fields that do not hold it, and joining such fields with the separator is
undone by cutting.
-/

namespace ContractInterface.Text

theorem fields_of_not_mem {c : Char} {s : Text} (absent : c ∉ s) : fields c s = [s] := by
  induction s with
  | nil => rfl
  | cons d s ih =>
    have other : d ≠ c := fun same => absent (same ▸ List.mem_cons_self)
    rw [fields, if_neg other, ih fun member => absent (List.mem_cons_of_mem d member)]
    rfl

theorem fields_append_cons {c : Char} {s : Text} (absent : c ∉ s) (t : Text) :
    fields c (s ++ c :: t) = s :: fields c t := by
  induction s with
  | nil => rw [List.nil_append, fields, if_pos rfl]
  | cons d s ih =>
    have other : d ≠ c := fun same => absent (same ▸ List.mem_cons_self)
    rw [List.cons_append, fields, if_neg other,
      ih fun member => absent (List.mem_cons_of_mem d member)]
    rfl

theorem joined_cons_cons (separator piece next : Text) (pieces : List Text) :
    joined separator (piece :: next :: pieces) =
      piece ++ (separator ++ joined separator (next :: pieces)) := by
  simp [joined, List.intercalate_cons_cons]

/-- The first piece stands in front of the text that joins pieces. -/
theorem exists_joined_cons (separator piece : Text) (pieces : List Text) :
    ∃ rest, joined separator (piece :: pieces) = piece ++ rest := by
  cases pieces with
  | nil => exact ⟨[], by simp [joined]⟩
  | cons next pieces => exact ⟨_, joined_cons_cons separator piece next pieces⟩

/-- Pieces without the separator are read back from the text that joins them. -/
theorem fields_joined {c : Char} {pieces : List Text} (nonempty : pieces ≠ [])
    (absent : ∀ piece ∈ pieces, c ∉ piece) : fields c (joined [c] pieces) = pieces := by
  induction pieces with
  | nil => exact absurd rfl nonempty
  | cons piece more ih =>
    rw [List.forall_mem_cons] at absent
    cases more with
    | nil => simpa [joined] using fields_of_not_mem absent.1
    | cons next more =>
      rw [joined_cons_cons, List.singleton_append, fields_append_cons absent.1,
        ih (List.cons_ne_nil _ _) absent.2]

theorem not_mem_of_mem_fields {c : Char} {s piece : Text} (member : piece ∈ fields c s) : c ∉ piece := by
  induction s generalizing piece with
  | nil => simp_all [fields]
  | cons d s ih =>
    unfold fields at member
    split at member
    case isTrue =>
      rcases List.mem_cons.1 member with rfl | member
      · exact List.not_mem_nil
      · exact ih member
    case isFalse other =>
      cases pieces : fields c s with
      | nil => exact absurd pieces (fields_ne_nil c s)
      | cons first more =>
        rw [pieces] at member ih
        rcases List.mem_cons.1 member with rfl | member
        · have absent := ih List.mem_cons_self
          simp [Ne.symm other, absent]
        · exact ih (List.mem_cons_of_mem first member)

end ContractInterface.Text
