import ContractInterface.TypeSyntax.Dimension
import ContractInterface.TypeSyntax.Mapping
import ContractInterface.TypeSyntax.Spelling

/-! # Type expressions

The structure of a type spelling, before any name in it is looked up.  `Expr.ofText` reads it off:
dimensions bind loosest, then mappings, and all else is a name.

Reading ends because every part of a spelling is shorter than the spelling.  The one exception is an
irreducible mapping, whose value is the mapping itself; it is read as `endless`. -/

namespace ContractInterface.TypeSyntax

open Text

/-- A type expression. -/
inductive Expr where
  /-- A name, dotted or not, or any other text without structure. -/
  | name (text : Text)
  /-- An array with the sizes of its dimensions, the innermost first. -/
  | array (element : Expr) (sizes : List Text)
  /-- A mapping with one key. -/
  | mapping (key value : Expr)
  /-- A text that denotes no type: a blank one, or a mapping without a key. -/
  | unknown (text : Text)
  /-- An irreducible mapping in the place of its own value. -/
  | endless (text : Text)
deriving DecidableEq, Repr

namespace Expr

/-- The expression that a type spelling stands for. -/
def ofText (spelling : Text) : Expr :=
  let text := normalized spelling
  if text = [] then .unknown (trim spelling)
  else if _hd : (Dimension.splitTrailing text).2 ≠ [] then
    .array (ofText (Dimension.splitTrailing text).1) (Dimension.splitTrailing text).2
  else if isMapping text = true then
    if Mapping.keys text = [] then .unknown text
    else
      -- all keys share the one value, so nested mappings are read in one step
      let value :=
        if _hv : (Mapping.finalValue text).length < text.length then
          ofText (Mapping.finalValue text)
        else .endless text
      (Mapping.keys text).attach.foldr (fun key value => .mapping (ofText key.1) value) value
  else .name text
termination_by spelling.length
decreasing_by
  · have h : _ < (normalized spelling).length := Dimension.length_splitTrailing_lt _hd
    exact Nat.lt_of_lt_of_le h (length_normalized_le spelling)
  · have h : _ < (normalized spelling).length := _hv
    exact Nat.lt_of_lt_of_le h (length_normalized_le spelling)
  · have h : _ < (normalized spelling).length := Mapping.length_lt_of_mem_keys key.2
    exact Nat.lt_of_lt_of_le h (length_normalized_le spelling)

end Expr

end ContractInterface.TypeSyntax
