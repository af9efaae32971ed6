import ContractInterface.Text.Basic

/-! # Parameters of an interface description

A parameter has a name and a type.  The type of a struct is spelled `tuple`, with array suffixes
behind it, and the parameter then lists the members of the struct as its components.

* `retyped` changes the type of a parameter and nothing else;
* `signatureType` recovers from a parameter the spelling that its type has in a signature, where a
  struct is written as the list of its members. -/

namespace ContractInterface.Abi

open Text

/-- A parameter of an interface description. -/
inductive Parameter where
  | plain (name type : Text)
  | composite (name type : Text) (components : List Parameter)
deriving Repr

/-- The spelling of a struct type. -/
def tupleType : Text := "tuple".toList

namespace Parameter

def name : Parameter → Text
  | .plain name _ => name
  | .composite name _ _ => name

def type : Parameter → Text
  | .plain _ type => type
  | .composite _ type _ => type

/-- The components of a struct, or nothing for any other type. -/
def components? : Parameter → Option (List Parameter)
  | .plain _ _ => none
  | .composite _ _ components => some components

/-- A parameter with another type and the same name and components. -/
def retyped (type : Text) : Parameter → Parameter
  | .plain name _ => .plain name type
  | .composite name _ components => .composite name type components

mutual

/-- The spelling of a parameter's type in a signature: a struct is written as its members in
parentheses, with the suffixes that follow `tuple`. -/
def signatureType : Parameter → Text
  | .plain _ type => type
  | .composite _ type components =>
    '(' :: joined [','] (signatureTypes components) ++ [')'] ++ type.drop tupleType.length

/-- The spellings of several parameters' types. -/
def signatureTypes : List Parameter → List Text
  | [] => []
  | parameter :: more => signatureType parameter :: signatureTypes more

end

theorem signatureTypes_eq_map (parameters : List Parameter) :
    signatureTypes parameters = parameters.map signatureType := by
  induction parameters with
  | nil => rfl
  | cons parameter more ih => simp [signatureTypes, ih]

@[simp] theorem name_retyped (type : Text) (parameter : Parameter) :
    (parameter.retyped type).name = parameter.name := by
  cases parameter <;> rfl

@[simp] theorem type_retyped (type : Text) (parameter : Parameter) :
    (parameter.retyped type).type = type := by
  cases parameter <;> rfl

@[simp] theorem components?_retyped (type : Text) (parameter : Parameter) :
    (parameter.retyped type).components? = parameter.components? := by
  cases parameter <;> rfl

end Parameter

end ContractInterface.Abi
