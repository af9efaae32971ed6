import ContractInterface.Proofs.Success
import Mathlib.Logic.Relation

/-! # The graph of type definitions

A name refers to the names in its definition: in the types of a struct's members, through arrays,
mapping keys and mapping values, and in what an alias stands for.  Names are nodes by their last part.
What a type leads to are the names in it and all that these refer to, one after the other.

What is asked of every type that another type leads to can be asked of it and of its names
(`everywhere_iff`), and of a name it can be asked of the types in its definition (`everywhereBelow_iff`).
-/

namespace ContractInterface

open Text TypeSyntax Relation

/-! ## Resolved descriptors -/

namespace Descriptor

@[simp] theorem isResolved_primitive (name : Text) : (primitive name).isResolved = true := rfl

@[simp] theorem isResolved_unresolved (rawName : Text) : (unresolved rawName).isResolved = false := rfl

theorem isResolved_foldl_array (d : Descriptor) (lengths : List (Option Nat)) :
    (lengths.foldl .array d).isResolved = d.isResolved := by
  induction lengths generalizing d with
  | nil => rfl
  | cons length lengths ih => exact ih _

theorem isResolved_mapping (key value : Descriptor) :
    (mapping key value).isResolved = (key.isResolved && value.isResolved) := by
  unfold isResolved
  rw [unresolvedNames]
  cases key.unresolvedNames <;> simp

theorem isResolved_tuple (structName : Text) (members : List (Text × Descriptor)) :
    (tuple structName members).isResolved = members.all fun m => m.2.isResolved := by
  unfold isResolved
  rw [unresolvedNames, unresolvedAmong_eq_flatMap]
  induction members with
  | nil => rfl
  | cons m more ih =>
    rw [List.flatMap_cons, List.all_cons, ← ih]
    cases m.2.unresolvedNames <;> simp

theorem isResolved_of_isUnresolved {d : Descriptor} (isUnresolved : d.isUnresolved = true) :
    d.isResolved = false := by
  cases d with
  | unresolved _ => rfl
  | _ => cases isUnresolved

end Descriptor

/-! ## Parts of expressions -/

namespace TypeSyntax.Expr

/-- An expression and all expressions in it. -/
def parts : Expr → List Expr
  | .name text => [.name text]
  | .array element sizes => .array element sizes :: element.parts
  | .mapping key value => .mapping key value :: (key.parts ++ value.parts)
  | .unknown text => [.unknown text]
  | .endless text => [.endless text]

/-- Whether an expression is no mapping that is its own value. -/
def isReducible : Expr → Bool
  | .endless _ => false
  | _ => true

/-- Whether an expression can be read as far as its names do not matter: the sizes of an array are
lengths or leave it dynamic, and no mapping is its own value. -/
def isReadable : Expr → Bool
  | .array _ sizes => sizes.all fun size => (arrayLength size).toBool
  | .endless _ => false
  | _ => true

section ResolveWith

variable {resolve : Text → Except ResolutionError Descriptor}

theorem resolveWith_array_eq_ok_iff {element : Expr} {sizes : List Text} {d : Descriptor} :
    (Expr.array element sizes).resolveWith resolve = .ok d ↔
      ∃ lengths type, sizes.mapM arrayLength = .ok lengths ∧ element.resolveWith resolve = .ok type ∧
        lengths.foldl .array type = d := by
  constructor
  · intro resolves
    obtain ⟨lengths, reads, rest⟩ := bind_eq_ok_iff.1 resolves
    obtain ⟨type, resolvesElement, whole⟩ := bind_eq_ok_iff.1 rest
    exact ⟨lengths, type, reads, resolvesElement, pure_eq_ok_iff.1 whole⟩
  · rintro ⟨lengths, type, reads, resolvesElement, rfl⟩
    exact bind_eq_ok_iff.2 ⟨lengths, reads, bind_eq_ok_iff.2 ⟨type, resolvesElement, rfl⟩⟩

theorem resolveWith_mapping_eq_ok_iff {key value : Expr} {d : Descriptor} :
    (Expr.mapping key value).resolveWith resolve = .ok d ↔
      ∃ keyType valueType, key.resolveWith resolve = .ok keyType ∧
        value.resolveWith resolve = .ok valueType ∧ .mapping keyType valueType = d := by
  constructor
  · intro resolves
    obtain ⟨keyType, resolvesKey, rest⟩ := bind_eq_ok_iff.1 resolves
    obtain ⟨valueType, resolvesValue, whole⟩ := bind_eq_ok_iff.1 rest
    exact ⟨keyType, valueType, resolvesKey, resolvesValue, pure_eq_ok_iff.1 whole⟩
  · rintro ⟨keyType, valueType, resolvesKey, resolvesValue, rfl⟩
    exact bind_eq_ok_iff.2 ⟨keyType, resolvesKey, bind_eq_ok_iff.2 ⟨valueType, resolvesValue, rfl⟩⟩

theorem resolveMembers_cons_eq_ok_iff {m : Member} {more : List Member} {ms : List (Text × Descriptor)} :
    Registry.resolveMembers resolve (m :: more) = .ok ms ↔
      ∃ type others, (ofText m.type).resolveWith resolve = .ok type ∧
        Registry.resolveMembers resolve more = .ok others ∧ (m.name, type) :: others = ms := by
  constructor
  · intro resolves
    obtain ⟨type, first, rest⟩ := bind_eq_ok_iff.1 resolves
    obtain ⟨others, resolvesOthers, whole⟩ := bind_eq_ok_iff.1 rest
    exact ⟨type, others, first, resolvesOthers, pure_eq_ok_iff.1 whole⟩
  · rintro ⟨type, others, first, resolvesOthers, rfl⟩
    exact bind_eq_ok_iff.2 ⟨type, first, bind_eq_ok_iff.2 ⟨others, resolvesOthers, rfl⟩⟩

/-- An expression has a descriptor if it can be read and its names have descriptors. -/
theorem exists_resolveWith_iff {e : Expr} :
    (∃ d, e.resolveWith resolve = .ok d) ↔
      (∀ p ∈ e.parts, p.isReadable = true) ∧
        ∀ x, .name x ∈ e.parts → ∃ d, resolve x = .ok d := by
  induction e with
  | name text => simp [parts, resolveWith, isReadable]
  | array element sizes ih =>
    -- the sizes and the element are independent of each other
    have whole : (∃ d, (Expr.array element sizes).resolveWith resolve = .ok d) ↔
        (∃ lengths, sizes.mapM arrayLength = .ok lengths) ∧
          ∃ d, element.resolveWith resolve = .ok d := by
      simp only [resolveWith_array_eq_ok_iff]
      exact ⟨fun ⟨_, lengths, type, reads, resolves, _⟩ => ⟨⟨lengths, reads⟩, type, resolves⟩,
        fun ⟨⟨lengths, reads⟩, type, resolves⟩ => ⟨_, lengths, type, reads, resolves, rfl⟩⟩
    have lengths : (∃ lengths, sizes.mapM arrayLength = .ok lengths) ↔
        (Expr.array element sizes).isReadable = true := by
      simp only [exists_mapM_iff, isReadable, List.all_eq_true, toBool_iff]
    rw [whole, lengths, ih]
    simp [parts, and_assoc]
  | mapping key value ihKey ihValue =>
    have whole : (∃ d, (Expr.mapping key value).resolveWith resolve = .ok d) ↔
        (∃ d, key.resolveWith resolve = .ok d) ∧ ∃ d, value.resolveWith resolve = .ok d := by
      simp only [resolveWith_mapping_eq_ok_iff]
      exact ⟨fun ⟨_, type, type', key, value, _⟩ => ⟨⟨type, key⟩, type', value⟩,
        fun ⟨⟨type, key⟩, type', value⟩ => ⟨_, type, type', key, value, rfl⟩⟩
    have readable : (Expr.mapping key value).isReadable = true := rfl
    rw [whole, ihKey, ihValue]
    simp only [parts, List.mem_cons, List.mem_append, reduceCtorEq, false_or, forall_eq, or_imp,
      forall_and, readable, true_and]
    exact and_and_and_comm
  | unknown text =>
    refine ⟨fun _ => ⟨fun p member => ?_, fun x member => ?_⟩, fun _ => ⟨_, rfl⟩⟩
    · cases List.mem_singleton.1 member
      rfl
    · cases List.mem_singleton.1 member
  | endless text =>
    constructor
    · rintro ⟨_, resolves⟩
      cases resolves
    · rintro ⟨readable, _⟩
      cases readable (.endless text) List.mem_cons_self

/-- Whether the descriptor of an expression is resolved depends on its names, and on whether all of it
denotes a type. -/
theorem isResolved_resolveWith_iff {e : Expr} {d : Descriptor}
    (resolves : e.resolveWith resolve = .ok d) :
    d.isResolved = true ↔ (∀ text, .unknown text ∉ e.parts) ∧
      ∀ x, .name x ∈ e.parts → ∀ d', resolve x = .ok d' → d'.isResolved = true := by
  induction e generalizing d with
  | name text =>
    have same : resolve text = .ok d := resolves
    simp [parts, same]
  | array element sizes ih =>
    obtain ⟨lengths, type, _, resolvesElement, rfl⟩ := resolveWith_array_eq_ok_iff.1 resolves
    rw [Descriptor.isResolved_foldl_array, ih resolvesElement]
    simp [parts]
  | mapping key value ihKey ihValue =>
    obtain ⟨keyType, valueType, resolvesKey, resolvesValue, rfl⟩ :=
      resolveWith_mapping_eq_ok_iff.1 resolves
    rw [Descriptor.isResolved_mapping, Bool.and_eq_true, ihKey resolvesKey, ihValue resolvesValue]
    simp only [parts, List.mem_cons, List.mem_append, reduceCtorEq, false_or, not_or, or_imp,
      forall_and]
    exact and_and_and_comm
  | unknown text =>
    cases resolves
    simp [parts, Descriptor.isResolved, Descriptor.unresolvedNames]
  | endless text => cases resolves

theorem resolveWith_congr {resolve' : Text → Except ResolutionError Descriptor} {e : Expr}
    (same : ∀ x, .name x ∈ e.parts → resolve x = resolve' x) :
    e.resolveWith resolve = e.resolveWith resolve' := by
  induction e with
  | name text => exact same text List.mem_cons_self
  | array element sizes ih =>
    simp only [resolveWith, ih fun x member => same x (List.mem_cons_of_mem _ member)]
  | mapping key value ihKey ihValue =>
    simp only [resolveWith,
      ihKey fun x member => same x (List.mem_cons_of_mem _ (List.mem_append_left _ member)),
      ihValue fun x member => same x (List.mem_cons_of_mem _ (List.mem_append_right _ member))]
  | unknown text => rfl
  | endless text => rfl

end ResolveWith

end TypeSyntax.Expr

/-! ## References -/

/-- A type mentions a name, spelled as it is in the type. -/
def Mentions (type x : Text) : Prop :=
  .name x ∈ (Expr.ofText type).parts

/-- The names that a type mentions. -/
def namesIn (type : Text) : List Text :=
  (Expr.ofText type).parts.filterMap fun
    | .name x => some x
    | _ => none

theorem mem_namesIn_of_mentions {type x : Text} (mentions : Mentions type x) : x ∈ namesIn type :=
  List.mem_filterMap.2 ⟨.name x, mentions, rfl⟩

/-- The types in a definition. -/
def Registry.Definition.types : Registry.Definition → List Text
  | .enumeration => []
  | .struct members => members.map Member.type
  | .alias underlying => [underlying]
  | .contract => []

/-- Whether a definition is made of other types. -/
def Registry.Definition.isComposed : Registry.Definition → Bool
  | .struct _ => true
  | .alias _ => true
  | _ => false

namespace Registry

/-- The types in the definition of a name. -/
def typesOf (r : Registry) (name : Text) : List Text :=
  (r.definition? name).elim [] Definition.types

/-- Whether a name is defined by other types. -/
def isComposed (r : Registry) (name : Text) : Bool :=
  (r.definition? name).any Definition.isComposed

/-- A name refers to another one in its definition. -/
def Refers (r : Registry) (a b : Text) : Prop :=
  ∃ type ∈ r.typesOf a, ∃ x, Mentions type x ∧ unqualified x = b

/-- A type leads to a name: it mentions the name or one that refers to it, at once or through
others. -/
def Leads (r : Registry) (type b : Text) : Prop :=
  ∃ x, Mentions type x ∧ ReflTransGen r.Refers (unqualified x) b

/-- The types that a type is made of: itself, and those in the definitions of the names it leads
to. -/
def IsMadeOf (r : Registry) (type type' : Text) : Prop :=
  type' = type ∨ ∃ b, r.Leads type b ∧ type' ∈ r.typesOf b

/-- All that a type is made of has a property, part by part. -/
def Everywhere (r : Registry) (holds : Expr → Bool) (type : Text) : Prop :=
  ∀ type', r.IsMadeOf type type' → ∀ p ∈ (Expr.ofText type').parts, holds p = true

/-- The types in the definition of a name have a property, part by part. -/
def EverywhereIn (r : Registry) (holds : Expr → Bool) (a : Text) : Prop :=
  ∀ type ∈ r.typesOf a, ∀ p ∈ (Expr.ofText type).parts, holds p = true

/-- All that the definition of a name is made of has a property, part by part. -/
def EverywhereBelow (r : Registry) (holds : Expr → Bool) (a : Text) : Prop :=
  ∀ b, ReflTransGen r.Refers a b → r.EverywhereIn holds b

variable {r : Registry}

theorem refers_of_mentions {a type x : Text} (isType : type ∈ r.typesOf a) (mentions : Mentions type x) :
    r.Refers a (unqualified x) :=
  ⟨type, isType, x, mentions, rfl⟩

theorem transGen_of_leads {a type b : Text} (isType : type ∈ r.typesOf a) (leads : r.Leads type b) :
    TransGen r.Refers a b := by
  obtain ⟨x, mentions, below⟩ := leads
  exact TransGen.head' (refers_of_mentions isType mentions) below

theorem exists_leads_of_transGen {a b : Text} (below : TransGen r.Refers a b) :
    ∃ type ∈ r.typesOf a, r.Leads type b := by
  obtain ⟨_, ⟨type, isType, x, mentions, rfl⟩, rest⟩ := TransGen.head'_iff.1 below
  exact ⟨type, isType, x, mentions, rest⟩

theorem everywhere_iff {holds : Expr → Bool} {type : Text} :
    r.Everywhere holds type ↔ (∀ p ∈ (Expr.ofText type).parts, holds p = true) ∧
      ∀ x, Mentions type x → r.EverywhereBelow holds (unqualified x) := by
  constructor
  · intro everywhere
    exact ⟨everywhere type (.inl rfl), fun x mentions b below type' isType =>
      everywhere type' (.inr ⟨b, ⟨x, mentions, below⟩, isType⟩)⟩
  · rintro ⟨here, below⟩ type' (rfl | ⟨b, ⟨x, mentions, leads⟩, isType⟩)
    · exact here
    · exact below x mentions b leads type' isType

theorem everywhereBelow_iff {holds : Expr → Bool} {a : Text} :
    r.EverywhereBelow holds a ↔ ∀ type ∈ r.typesOf a, r.Everywhere holds type := by
  constructor
  · rintro below type isType type' (rfl | ⟨b, leads, isType'⟩)
    · exact below a .refl type' isType
    · exact below b (transGen_of_leads isType leads).to_reflTransGen type' isType'
  · intro everywhere b leads type' isType'
    rcases reflTransGen_iff_eq_or_transGen.1 leads with rfl | leads
    · exact everywhere type' isType' type' (.inl rfl)
    · obtain ⟨type, isType, leads⟩ := exists_leads_of_transGen leads
      exact everywhere type isType type' (.inr ⟨b, leads, isType'⟩)

/-- Whether a property is found to hold of all that a type is made of, when definitions are followed to
some depth only. -/
def holdsUpTo (r : Registry) (holds : Expr → Bool) : Nat → Text → Bool
  | 0, _ => false
  | depth + 1, type =>
    (Expr.ofText type).parts.all holds &&
      (namesIn type).all fun x => (r.typesOf (unqualified x)).all (r.holdsUpTo holds depth)

theorem everywhere_of_holdsUpTo {holds : Expr → Bool} {depth : Nat} {type : Text}
    (found : r.holdsUpTo holds depth type = true) : r.Everywhere holds type := by
  induction depth generalizing type with
  | zero => cases found
  | succ depth ih =>
    simp only [holdsUpTo, Bool.and_eq_true, List.all_eq_true] at found
    obtain ⟨here, below⟩ := found
    exact everywhere_iff.2 ⟨here, fun x mentions => everywhereBelow_iff.2 fun type' isType =>
      ih (below x (mem_namesIn_of_mentions mentions) type' isType)⟩

theorem typesOf_eq {a : Text} {definition : Definition} (isDefined : r.definition? a = some definition) :
    r.typesOf a = definition.types := by
  rw [typesOf, isDefined]
  rfl

theorem isComposed_eq {a : Text} {definition : Definition}
    (isDefined : r.definition? a = some definition) : r.isComposed a = definition.isComposed := by
  rw [isComposed, isDefined]
  rfl

theorem typesOf_eq_nil {a : Text} (simple : r.isComposed a = false) : r.typesOf a = [] := by
  unfold isComposed typesOf at *
  cases isDefined : r.definition? a with
  | none => rfl
  | some definition =>
    rw [isDefined] at simple
    cases definition with
    | struct _ => cases simple
    | «alias» _ => cases simple
    | _ => rfl

end Registry

end ContractInterface
