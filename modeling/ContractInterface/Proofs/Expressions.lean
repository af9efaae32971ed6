import ContractInterface.Proofs.Layout
import ContractInterface.TypeSyntax.Expr

/-! # Reading expressions

What `Expr.ofText` makes of a spelling in each of its cases: a spelling is blank, an array, a mapping without a key,
a mapping with one, or a name.
-/

namespace ContractInterface

open Text

namespace TypeSyntax

/-- The final value of a mapping is the mapping itself or shorter. -/
theorem Mapping.finalValue_eq_or_lt (s : Text) :
    finalValue s = s ∨ (finalValue s).length < s.length := by
  have trimmed : trim s = s ∨ (trim s).length < s.length := by
    rcases Nat.lt_or_ge (trim s).length s.length with shorter | same
    · exact .inr shorter
    · obtain ⟨behind, -, whole⟩ := exists_blanks_trim s
      have part : (trim s).Sublist s := by
        have infix_ : trim s <:+: s := ⟨_, _, whole⟩
        exact infix_.sublist
      exact .inl (part.eq_of_length_le same)
  rw [finalValue]
  split
  · split
    · rename_i shorter
      refine .inr (Nat.lt_of_le_of_lt (length_finalValue_le _) (Nat.lt_of_lt_of_le shorter (length_trim_le s)))
    · exact trimmed
  · exact trimmed

namespace Expr

variable {spelling : Text}

theorem ofText_blank (blank : normalized spelling = []) : ofText spelling = .unknown (trim spelling) := by
  rw [ofText]
  simp only [blank, if_true]

theorem ofText_array (sized : (Dimension.splitTrailing (normalized spelling)).2 ≠ []) :
    ofText spelling = .array (ofText (Dimension.splitTrailing (normalized spelling)).1)
      (Dimension.splitTrailing (normalized spelling)).2 := by
  have nonempty : normalized spelling ≠ [] := by
    intro blank
    rw [blank] at sized
    exact sized (by decide +kernel)
  rw [ofText]
  simp only [nonempty, if_false, sized, ne_eq, not_false_eq_true, dite_true]

section Plain

variable (unsized : (Dimension.splitTrailing (normalized spelling)).2 = [])

include unsized

theorem ofText_keyless (isMapping : isMapping (normalized spelling) = true)
    (keyless : Mapping.keys (normalized spelling) = []) :
    ofText spelling = .unknown (normalized spelling) := by
  have nonempty := List.length_pos_iff.1 (Mapping.length_pos_of_isMapping isMapping)
  rw [ofText]
  simp only [nonempty, if_false, unsized, ne_eq, not_true_eq_false, dite_false, isMapping, if_true,
    keyless]

/-- A mapping with a key is read key by key, and ends in its final value. -/
theorem ofText_mapping (isMapping : isMapping (normalized spelling) = true)
    (keyed : Mapping.keys (normalized spelling) ≠ []) :
    ofText spelling = (Mapping.keys (normalized spelling)).foldr (fun key value => .mapping (ofText key) value)
      (if (Mapping.finalValue (normalized spelling)).length < (normalized spelling).length then
        ofText (Mapping.finalValue (normalized spelling)) else .endless (normalized spelling)) := by
  have nonempty := List.length_pos_iff.1 (Mapping.length_pos_of_isMapping isMapping)
  rw [ofText]
  simp only [nonempty, if_false, unsized, ne_eq, not_true_eq_false, isMapping, if_true, keyed, dite_eq_ite]
  exact List.foldr_attach (f := fun key value => Expr.mapping (ofText key) value)

theorem ofText_name (nonempty : normalized spelling ≠ [])
    (noMapping : isMapping (normalized spelling) = false) :
    ofText spelling = .name (normalized spelling) := by
  rw [ofText]
  simp only [nonempty, if_false, unsized, ne_eq, not_true_eq_false, dite_false, noMapping,
    Bool.false_eq_true]

end Plain

end Expr

end TypeSyntax

end ContractInterface
