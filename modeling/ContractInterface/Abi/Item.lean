import ContractInterface.Abi.Parameter
import ContractInterface.Json

/-! # Items of an interface description

An interface description is a list of items, one for each function that can be called, written as
JSON. -/

namespace ContractInterface.Abi

/-- A function of an interface description. -/
structure Item where
  name : Text
  inputs : List Parameter
  outputs : List Parameter
  mutability : Text
deriving Repr

/-- The kind of every item. -/
def itemType : Text := "function".toList

mutual

/-- A parameter as a JSON object: name, type, and the components if there are any. -/
def Parameter.toJson : Parameter → Json
  | .plain name type => .object [("name".toList, .text name), ("type".toList, .text type)]
  | .composite name type components =>
    .object [("name".toList, .text name), ("type".toList, .text type),
      ("components".toList, .list (Parameter.listToJson components))]

/-- Parameters as JSON objects. -/
def Parameter.listToJson : List Parameter → List Json
  | [] => []
  | parameter :: more => parameter.toJson :: Parameter.listToJson more

end

/-- An item as a JSON object. -/
def Item.toJson (item : Item) : Json :=
  .object [("type".toList, .text itemType), ("name".toList, .text item.name),
    ("inputs".toList, .list (Parameter.listToJson item.inputs)),
    ("outputs".toList, .list (Parameter.listToJson item.outputs)),
    ("stateMutability".toList, .text item.mutability)]

/-- The JSON text of an interface description. -/
def render (indent : Nat) (items : List Item) : Text :=
  (Json.list (items.map Item.toJson)).render indent

end ContractInterface.Abi
