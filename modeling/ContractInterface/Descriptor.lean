import ContractInterface.Abi.Parameter

/-! # Type descriptors

A descriptor is what a type expression means: every name in it is resolved, and structs are expanded
to their members.  A name that could not be resolved stays in place as `unresolved`.

A descriptor has three readings.

* `abiType` is its spelling in an interface description, where a struct is just `tuple`;
* `canonical` is its spelling in a signature, where a struct is the list of its members;
* `toParameter` is the parameter of an interface description that has this type.

`unresolvedNames` lists the names left open, in reading order. -/

namespace ContractInterface

open Text Abi

/-- The meaning of a type. -/
inductive Descriptor where
  /-- An elementary type. -/
  | primitive (name : Text)
  /-- A name with no known meaning. -/
  | unresolved (rawName : Text)
  /-- An array, dynamic if it has no length. -/
  | array (element : Descriptor) (length : Option Nat)
  /-- A mapping with one key; several keys make a mapping to mappings. -/
  | mapping (key value : Descriptor)
  /-- A struct with its members in order. -/
  | tuple (structName : Text) (members : List (Text × Descriptor))
  /-- A type of which nothing is known, not even a spelling. -/
  | unspecified
deriving Repr

/-- Why a descriptor cannot be built or shown. -/
inductive DescriptorError where
  /-- A mapping needs a key. -/
  | keylessMapping
  /-- An unspecified type cannot be spelled. -/
  | unspecifiedType
deriving DecidableEq, Repr

/-- The wording of an error. -/
def DescriptorError.message : DescriptorError → Text
  | .keylessMapping => "a mapping needs at least one key type".toList
  | .unspecifiedType => []

namespace Descriptor

/-- The brackets of one array dimension. -/
def dimension : Option Nat → Text
  | some length => '[' :: digits length ++ [']']
  | none => "[]".toList

/-- The spelling of a mapping. -/
def mappingSpelling (key value : Text) : Text :=
  "mapping(".toList ++ key ++ " => ".toList ++ value ++ [')']

/-- The spelling of a type in an interface description. -/
def abiType : Descriptor → Text
  | .primitive name => name
  | .unresolved rawName => rawName
  | .array element length => element.abiType ++ dimension length
  | .mapping key value => mappingSpelling key.abiType value.abiType
  | .tuple _ _ => tupleType
  | .unspecified => []

mutual

/-- The spelling of a type in a signature. -/
def canonical : Descriptor → Text
  | .primitive name => name
  | .unresolved rawName => rawName
  | .array element length => element.canonical ++ dimension length
  | .mapping key value => mappingSpelling key.abiType value.abiType
  | .tuple _ members => '(' :: joined [','] (canonicals members) ++ [')']
  | .unspecified => []

/-- The spellings of struct members in a signature. -/
def canonicals : List (Text × Descriptor) → List Text
  | [] => []
  | (_, type) :: more => canonical type :: canonicals more

end

mutual

/-- The parameter of an interface description with the given name and this type. -/
def toParameter (name : Text) : Descriptor → Parameter
  | .array element length =>
    (toParameter name element).retyped (element.abiType ++ dimension length)
  | .tuple _ members => .composite name tupleType (toParameters members)
  | .primitive spelling => .plain name spelling
  | .unresolved rawName => .plain name rawName
  | .mapping key value => .plain name (mappingSpelling key.abiType value.abiType)
  | .unspecified => .plain name []

/-- The components that struct members make. -/
def toParameters : List (Text × Descriptor) → List Parameter
  | [] => []
  | (name, type) :: more => toParameter name type :: toParameters more

end

mutual

/-- The names without a meaning that occur in a type, in reading order. -/
def unresolvedNames : Descriptor → List Text
  | .primitive _ => []
  | .unresolved rawName => [rawName]
  | .array element _ => element.unresolvedNames
  | .mapping key value => key.unresolvedNames ++ value.unresolvedNames
  | .tuple _ members => unresolvedAmong members
  | .unspecified => []

/-- The names without a meaning that occur in struct members. -/
def unresolvedAmong : List (Text × Descriptor) → List Text
  | [] => []
  | (_, type) :: more => unresolvedNames type ++ unresolvedAmong more

end

/-- Whether every name in a type has a meaning. -/
def isResolved (d : Descriptor) : Bool :=
  d.unresolvedNames.isEmpty

/-- Whether a type as a whole has no meaning. -/
def isUnresolved : Descriptor → Bool
  | .unresolved _ => true
  | _ => false

/-! ## Keys -/

/-- A mapping from the given keys, the outermost first, to a value. -/
def ofKeys? : List Descriptor → Descriptor → Except DescriptorError Descriptor
  | [], _ => .error .keylessMapping
  | key :: more, value => .ok (.mapping key (more.foldr .mapping value))

/-- The keys of nested mappings, the outermost first. -/
def keys : Descriptor → List Descriptor
  | .mapping key value => key :: value.keys
  | _ => []

/-- The value that nested mappings end in. -/
def finalValue : Descriptor → Descriptor
  | .mapping _ value => value.finalValue
  | d => d

/-! ## Types that can be shown -/

/-- Whether a type has a spelling in an interface description.  The members of a struct are not part
of that spelling. -/
def hasAbiType : Descriptor → Bool
  | .unspecified => false
  | .array element _ => element.hasAbiType
  | .mapping key value => key.hasAbiType && value.hasAbiType
  | _ => true

mutual

/-- Whether a type has a spelling in a signature. -/
def isSpelled : Descriptor → Bool
  | .unspecified => false
  | .array element _ => element.isSpelled
  | .mapping key value => key.hasAbiType && value.hasAbiType
  | .tuple _ members => areSpelled members
  | .primitive _ => true
  | .unresolved _ => true

/-- Whether all members of a struct have a spelling. -/
def areSpelled : List (Text × Descriptor) → Bool
  | [] => true
  | (_, type) :: more => isSpelled type && areSpelled more

end

/-- A type that can be shown, or the reason why it cannot. -/
def checked (d : Descriptor) : Except DescriptorError Descriptor :=
  if d.isSpelled then .ok d else .error .unspecifiedType

/-! ## Members one by one -/

theorem canonicals_eq_map (members : List (Text × Descriptor)) :
    canonicals members = members.map fun m => m.2.canonical := by
  induction members with
  | nil => rfl
  | cons m more ih => simp [canonicals, ih]

theorem toParameters_eq_map (members : List (Text × Descriptor)) :
    toParameters members = members.map fun m => m.2.toParameter m.1 := by
  induction members with
  | nil => rfl
  | cons m more ih => simp [toParameters, ih]

theorem unresolvedAmong_eq_flatMap (members : List (Text × Descriptor)) :
    unresolvedAmong members = members.flatMap fun m => m.2.unresolvedNames := by
  induction members with
  | nil => rfl
  | cons m more ih => simp [unresolvedAmong, ih]

theorem areSpelled_eq_all (members : List (Text × Descriptor)) :
    areSpelled members = members.all fun m => m.2.isSpelled := by
  induction members with
  | nil => rfl
  | cons m more ih => simp [areSpelled, ih]

end Descriptor

end ContractInterface
