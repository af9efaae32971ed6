import ContractInterface.Text.Basic

/-! # Keywords of declarations

The words of Solidity that decide whether a declaration belongs to the queryable interface of a
contract: its visibility, its state mutability, and the words that tell a state variable from
everything else. -/

namespace ContractInterface

/-- Who can see a declaration. -/
inductive Visibility where
  | publicly
  | privately
  | internally
  | externally
deriving DecidableEq, Repr

/-- What a function may do with the state of its contract. -/
inductive Mutability where
  | view
  | pure
  | payable
  | nonpayable
deriving DecidableEq, Repr

namespace Visibility

/-- The keyword of a visibility. -/
def keyword : Visibility → Text
  | .publicly => "public".toList
  | .privately => "private".toList
  | .internally => "internal".toList
  | .externally => "external".toList

/-- The visibility that a word names. -/
def ofWord? (word : Text) : Option Visibility :=
  [.publicly, .privately, .internally, .externally].find? (keyword · = word)

/-- Whether a declaration is hidden from callers of the contract. -/
def isHidden : Visibility → Bool
  | .privately => true
  | .internally => true
  | _ => false

end Visibility

namespace Mutability

/-- The keyword of a mutability. -/
def keyword : Mutability → Text
  | .view => "view".toList
  | .pure => "pure".toList
  | .payable => "payable".toList
  | .nonpayable => "nonpayable".toList

/-- The mutability that a word names. -/
def ofWord? (word : Text) : Option Mutability :=
  [.view, .pure, .payable, .nonpayable].find? (keyword · = word)

/-- Whether a function of this mutability can be called without a transaction. -/
def isQueryable : Mutability → Bool
  | .view => true
  | .pure => true
  | _ => false

end Mutability

namespace Keyword

/-- The words that may stand between the type and the name of a state variable. -/
def variableModifiers : List Text :=
  ["public".toList, "private".toList, "internal".toList, "constant".toList, "immutable".toList,
   "override".toList, "virtual".toList, "transient".toList]

/-- The words that make the braces behind them opaque: what they enclose is no place for state
variables. -/
def opaqueBlocks : List Text :=
  ["function".toList, "modifier".toList, "constructor".toList, "fallback".toList, "receive".toList,
   "struct".toList, "enum".toList]

/-- The words that no state variable declaration starts with. -/
def otherStatements : List Text :=
  ["function".toList, "event".toList, "error".toList, "modifier".toList, "struct".toList,
   "enum".toList, "using".toList, "import".toList, "pragma".toList, "type".toList,
   "constructor".toList, "receive".toList, "fallback".toList, "return".toList, "emit".toList,
   "delete".toList, "revert".toList, "require".toList, "assert".toList]

end Keyword

end ContractInterface
