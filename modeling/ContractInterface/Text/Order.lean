import ContractInterface.Text.Basic

/-! # The order of texts

Texts are ordered like the entries of a dictionary whose alphabet is the code points: the first
character in which two texts differ decides, and a text comes before its continuations.  Lists of
texts are ordered in the same way, a text at a time. -/

namespace ContractInterface.Text

/-- Whether one list comes before another one or is the same, when `inOrder` tells this of entries
that differ. -/
def listsInOrder {α : Type} [DecidableEq α] (inOrder : α → α → Bool) : List α → List α → Bool
  | [], _ => true
  | _ :: _, [] => false
  | a :: s, b :: t => if a = b then listsInOrder inOrder s t else inOrder a b

/-- Whether one text comes before another one or is the same. -/
def inOrder (s t : Text) : Bool :=
  listsInOrder (fun a b => a.toNat < b.toNat) s t

end ContractInterface.Text
