import ContractInterface.TypeSyntax.Dimension
import ContractInterface.TypeSyntax.Length
import ContractInterface.TypeSyntax.Mapping

/-! # Getters

A public state variable has a getter.  It takes a key for every mapping and an index for every array
dimension that a value is reached through, from the outside in, and returns what is found there. -/

namespace ContractInterface

open Text TypeSyntax

/-- The parameters of a getter, and the type of its result. -/
structure Getter where
  keys : List Text
  value : Text
deriving DecidableEq, Repr

namespace Getter

/-- The type of an array index. -/
def indexType : Text := "uint256".toList

/-- A getter with more parameters in front. -/
def after (keys : List Text) (getter : Getter) : Getter :=
  { getter with keys := keys ++ getter.keys }

/-- The getter of a trimmed type.  An irreducible mapping has none. -/
def ofTrimmed (type : Text) : Except ResolutionError Getter :=
  if isMapping type = true ∧ endsWith [']'] type = false then
    -- the keys of nested mappings are taken together
    if _h : (Mapping.finalValue type).length < type.length then
      return (← ofTrimmed (Mapping.finalValue type)).after (Mapping.keys type)
    else throw (.endlessMapping type)
  else
    match _h : Dimension.trailing? type with
    | some (front, _) =>
      -- brackets with nothing in front are no array
      if front = [] then return ⟨[], type⟩
      else return (← ofTrimmed (trim front)).after [indexType]
    | none => return ⟨[], type⟩
termination_by type.length
decreasing_by
  · exact _h
  · have := Dimension.length_trailing? _h
    have := length_trim_le front
    omega

/-- A mapping that is no array is read level by level at once. -/
theorem ofTrimmed_of_mapping {type : Text}
    (mapping : isMapping type = true ∧ endsWith [']'] type = false) : ofTrimmed type =
      if (Mapping.finalValue type).length < type.length then do
        return (← ofTrimmed (Mapping.finalValue type)).after (Mapping.keys type)
      else .error (.endlessMapping type) := by
  rw [ofTrimmed.eq_def, if_pos mapping]
  split <;> rfl

/-- Any other type is read without its last dimension, if it has one and something in front of it. -/
theorem ofTrimmed_of_other {type : Text}
    (other : ¬(isMapping type = true ∧ endsWith [']'] type = false)) : ofTrimmed type =
      match Dimension.trailing? type with
      | some (front, _) =>
        if front = [] then .ok ⟨[], type⟩ else do return (← ofTrimmed (trim front)).after [indexType]
      | none => .ok ⟨[], type⟩ := by
  rw [ofTrimmed.eq_def, if_neg other]
  split <;> rename_i found <;> rw [found] <;> rfl

/-- The getter of a state variable type. -/
def ofType (type : Text) : Except ResolutionError Getter :=
  ofTrimmed (trim type)

end Getter

end ContractInterface
