import ContractInterface.Declaration.Extraction

/-! # Items carry their signatures

The parameter that a type makes spells a struct as `tuple`, with the dimensions of an array of structs
behind it, and lists the members apart.  Put together again these give the spelling that the type has
in a signature, whatever arrays, structs and mappings it is made of.  So the signature of a declaration
can be read off its item (`signatures_of_items`).
-/

namespace ContractInterface

open Text Abi

namespace Descriptor

@[simp] theorem name_toParameter (name : Text) (d : Descriptor) : (d.toParameter name).name = name := by
  induction d using Descriptor.abiType.induct with
  | case3 element length ih => simp only [toParameter, Parameter.name_retyped, ih]
  | _ => rfl

@[simp] theorem type_toParameter (name : Text) (d : Descriptor) :
    (d.toParameter name).type = d.abiType := by
  cases d with
  | array element length => exact Parameter.type_retyped _ _
  | _ => rfl

/-- A parameter with components is a struct or an array of structs, and so is its type. -/
theorem tupleType_prefix_abiType {name : Text} {d : Descriptor} {components : List Parameter}
    (composite : (d.toParameter name).components? = some components) : tupleType <+: d.abiType := by
  induction d using Descriptor.abiType.induct with
  | case3 element length ih =>
    rw [toParameter, Parameter.components?_retyped] at composite
    exact (ih composite).trans (List.prefix_append _ _)
  | case5 structName members => exact List.prefix_refl _
  | _ => cases composite

end Descriptor

/-- Dimensions behind the type of a parameter stand behind its type in a signature too. -/
theorem Abi.Parameter.signatureType_retyped_append {p : Parameter} (suffix : Text)
    (tuple : ∀ components, p.components? = some components → tupleType <+: p.type) :
    (p.retyped (p.type ++ suffix)).signatureType = p.signatureType ++ suffix := by
  cases p with
  | plain name type => rfl
  | composite name type components =>
    have long : tupleType.length ≤ type.length := (tuple components rfl).length_le
    simp only [retyped, Parameter.type, signatureType, List.drop_append_of_le_length long,
      List.append_assoc]

namespace Descriptor

mutual

/-- What a parameter shows of its type is enough for a signature. -/
theorem signatureType_toParameter (name : Text) :
    ∀ d : Descriptor, (d.toParameter name).signatureType = d.canonical
  | .primitive _ => rfl
  | .unresolved _ => rfl
  | .array element length => by
    have dimensions := Parameter.signatureType_retyped_append (p := element.toParameter name)
      (dimension length) fun components composite => by
        rw [type_toParameter]
        exact tupleType_prefix_abiType composite
    rw [type_toParameter, signatureType_toParameter name element] at dimensions
    rw [toParameter, dimensions, canonical]
  | .mapping _ _ => rfl
  | .tuple _ members => by
    have noSuffix : tupleType.drop tupleType.length = [] := List.drop_length
    rw [toParameter, Parameter.signatureType, signatureTypes_toParameters members, noSuffix,
      List.append_nil, canonical]
  | .unspecified => rfl

theorem signatureTypes_toParameters :
    ∀ members : List (Text × Descriptor),
      Parameter.signatureTypes (toParameters members) = canonicals members
  | [] => rfl
  | (name, type) :: more => by
    rw [toParameters, Parameter.signatureTypes, signatureType_toParameter name type,
      signatureTypes_toParameters more, canonicals]

end

end Descriptor

/-- The signature of the function that an item describes. -/
def Abi.Item.signature (item : Item) : Text :=
  Signature.spell item.name (item.inputs.map Parameter.signatureType)

/-- The signature of a declaration is that of its item. -/
theorem Declaration.signature_toItem (d : Declaration) : d.toItem.signature = d.signature := by
  unfold Item.signature signature toItem
  rw [List.map_map]
  congr 1
  exact List.map_congr_left fun p _ => Descriptor.signatureType_toParameter p.name p.descriptor

/-- Every parameter carries the spelling that its type has in a signature, and every item of an
extraction the signature of its declaration. -/
theorem signatures_of_items :
    (∀ (d : Descriptor) (name : Text), (d.toParameter name).signatureType = d.canonical) ∧
      ∀ e : Extraction, e.items.map Item.signature = e.declarations.map Declaration.signature := by
  refine ⟨fun d name => Descriptor.signatureType_toParameter name d, fun e => ?_⟩
  unfold Extraction.items
  rw [List.map_map]
  exact List.map_congr_left fun d _ => Declaration.signature_toItem d

end ContractInterface
