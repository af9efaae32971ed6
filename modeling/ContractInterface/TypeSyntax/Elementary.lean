import ContractInterface.Text.Digit
import ContractInterface.Text.UpperCase
import ContractInterface.TypeSyntax.Spelling

/-! # Elementary types

The elementary types of Solidity and the spelling that each has in an interface description.

* `isElementary` recognises a spelling of an elementary type;
* `canonicalName` writes a shorthand out in full (`uint` as `uint256`) and leaves every other name as
  it is, respaced;
* `isCustom` tells the names of user-defined types by their looks. -/

namespace ContractInterface.TypeSyntax

open Text

/-- The shorthands and what they stand for. -/
def shorthands : List (Text × Text) :=
  [("uint".toList, "uint256".toList),
   ("int".toList, "int256".toList),
   ("byte".toList, "bytes1".toList),
   ("fixed".toList, "fixed128x18".toList),
   ("ufixed".toList, "ufixed128x18".toList),
   ("address payable".toList, "address".toList)]

/-- The widths of integers, in bits. -/
def integerWidths : List Text :=
  (List.range 32).map fun k => digits (8 * (k + 1))

/-- The lengths of fixed byte strings. -/
def byteLengths : List Text :=
  (List.range 32).map fun k => digits (k + 1)

/-- The elementary types without a size. -/
def sizelessTypes : List Text :=
  ["address".toList, "bool".toList, "string".toList, "byte".toList, "function".toList]

/-- What may follow `fixed`: nothing, or two numbers with an `x` between them. -/
def isFixedPointSize (s : Text) : Bool :=
  match s with
  | [] => true
  | _ =>
    let behind := s.dropWhile isDecimal
    match behind with
    -- both numbers need a digit, and any number of digits will do
    | 'x' :: scale => behind.length < s.length && scale != [] && scale.all isDecimal
    | _ => false

/-- Whether a text is `head` with one of the sizes behind it or with none. -/
def isSized (head : Text) (sizes : List Text) (s : Text) : Bool :=
  match after? head s with
  | some size => size == [] || sizes.contains size
  | none => false

/-- Whether a respaced text names an elementary type. -/
def isElementaryName (name : Text) : Bool :=
  isSized "uint".toList integerWidths name || isSized "int".toList integerWidths name ||
    isSized "bytes".toList byteLengths name ||
    ((after? "fixed".toList name).elim false isFixedPointSize) ||
    ((after? "ufixed".toList name).elim false isFixedPointSize) ||
    sizelessTypes.contains name || name == "address payable".toList

/-- Whether a type is elementary. -/
def isElementary (type : Text) : Bool :=
  isElementaryName (spaced type)

/-- The spelling of an elementary type in an interface description; any other type is only
respaced. -/
def canonicalName (type : Text) : Text :=
  let name := spaced type
  (shorthands.lookup name).getD name

/-- The names that the families of built-in types start with. -/
def builtinFamilies : List Text :=
  ["uint".toList, "int".toList, "bytes".toList, "address".toList, "bool".toList, "string".toList,
   "mapping".toList]

/-- Whether a type is user-defined by the looks of its name: dotted, or starting with a character
that has no other capital and belonging to no built-in family. -/
def isCustom (type : Text) : Bool :=
  let name := withoutTrailingStorage type
  match name with
  | [] => false
  | c :: _ =>
    name.contains '.' || (isOwnUpperCase c && !builtinFamilies.any (startsWith · name))

end ContractInterface.TypeSyntax
