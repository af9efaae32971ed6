import ContractInterface.Proofs.TypeGraph

/-! # The ends of a type

A descriptor ends in what is no array, mapping or struct.  Each of these leaves comes from a part of a
type: of the type that is described, or of one in a definition that it leads to
(`exists_part_of_mem_leaves`).  So what is asked of all leaves can be asked of all parts.

The spellings of a descriptor are put together from those of its leaves (`canonical_of_leaves`).
-/

namespace ContractInterface

open Text TypeSyntax Relation

/-! ## Leaves of descriptors -/

namespace Descriptor

mutual

/-- The types that a type ends in, in reading order. -/
def leaves : Descriptor → List Descriptor
  | .primitive name => [.primitive name]
  | .unresolved rawName => [.unresolved rawName]
  | .array element _ => element.leaves
  | .mapping key value => key.leaves ++ value.leaves
  | .tuple _ members => leavesAmong members
  | .unspecified => [.unspecified]

/-- The types that the members of a struct end in. -/
def leavesAmong : List (Text × Descriptor) → List Descriptor
  | [] => []
  | (_, type) :: more => leaves type ++ leavesAmong more

end

mutual

/-- The open names of a type are those of its leaves. -/
theorem mem_unresolvedNames_iff {x : Text} :
    ∀ {d : Descriptor}, x ∈ d.unresolvedNames ↔ .unresolved x ∈ d.leaves
  | .primitive _ => by simp [unresolvedNames, leaves]
  | .unresolved _ => by simp [unresolvedNames, leaves]
  | .array element _ => mem_unresolvedNames_iff (d := element)
  | .mapping key value => by
    rw [unresolvedNames, leaves, List.mem_append, List.mem_append,
      mem_unresolvedNames_iff (d := key), mem_unresolvedNames_iff (d := value)]
  | .tuple _ _ => mem_unresolvedAmong_iff
  | .unspecified => by simp [unresolvedNames, leaves]

theorem mem_unresolvedAmong_iff {x : Text} : ∀ {members : List (Text × Descriptor)},
    x ∈ unresolvedAmong members ↔ .unresolved x ∈ leavesAmong members
  | [] => by simp [unresolvedAmong, leavesAmong]
  | (_, type) :: more => by
    rw [unresolvedAmong, leavesAmong, List.mem_append, List.mem_append,
      mem_unresolvedNames_iff (d := type), @mem_unresolvedAmong_iff _ more]

end

/-- A property of texts that a spelling has if its parts have it. -/
structure IsComposed (P : Text → Prop) : Prop where
  array : ∀ t length, P t → P (t ++ dimension length)
  mapping : ∀ key value, P key → P value → P (mappingSpelling key value)
  tuple : ∀ types, (∀ t ∈ types, P t) → P ('(' :: joined [','] types ++ [')'])
  tupleWord : P Abi.tupleType

section IsComposed

variable {P : Text → Prop}

/-- What holds of the spellings of all leaves holds of the spelling in an interface description. -/
theorem abiType_of_leaves (composed : IsComposed P) : ∀ {d : Descriptor},
    (∀ leaf ∈ d.leaves, P leaf.canonical) → P d.abiType
  | .primitive _, each => each _ List.mem_cons_self
  | .unresolved _, each => each _ List.mem_cons_self
  | .array element _, each => composed.array _ _ (abiType_of_leaves composed (d := element) each)
  | .mapping _ _, each =>
    composed.mapping _ _
      (abiType_of_leaves composed fun leaf isLeaf => each leaf (List.mem_append_left _ isLeaf))
      (abiType_of_leaves composed fun leaf isLeaf => each leaf (List.mem_append_right _ isLeaf))
  | .tuple _ _, _ => composed.tupleWord
  | .unspecified, each => each _ List.mem_cons_self

mutual

/-- What holds of the spellings of all leaves holds of the spelling in a signature. -/
theorem canonical_of_leaves (composed : IsComposed P) : ∀ {d : Descriptor},
    (∀ leaf ∈ d.leaves, P leaf.canonical) → P d.canonical
  | .primitive _, each => each _ List.mem_cons_self
  | .unresolved _, each => each _ List.mem_cons_self
  | .array element _, each => composed.array _ _ (canonical_of_leaves composed (d := element) each)
  | .mapping _ _, each =>
    -- keys and values are spelled as in a description
    composed.mapping _ _
      (abiType_of_leaves composed fun leaf isLeaf => each leaf (List.mem_append_left _ isLeaf))
      (abiType_of_leaves composed fun leaf isLeaf => each leaf (List.mem_append_right _ isLeaf))
  | .tuple _ members, each => composed.tuple _ (canonicals_of_leaves composed members each)
  | .unspecified, each => each _ List.mem_cons_self

theorem canonicals_of_leaves (composed : IsComposed P) : ∀ members : List (Text × Descriptor),
    (∀ leaf ∈ leavesAmong members, P leaf.canonical) → ∀ t ∈ canonicals members, P t
  | [], _ => fun _ member => nomatch member
  | (_, type) :: more, each => by
    rw [canonicals, List.forall_mem_cons]
    exact ⟨canonical_of_leaves composed (d := type) fun leaf isLeaf =>
        each leaf (List.mem_append_left _ isLeaf),
      canonicals_of_leaves composed more fun leaf isLeaf => each leaf (List.mem_append_right _ isLeaf)⟩

end

end IsComposed

theorem leaves_foldl_array (d : Descriptor) (lengths : List (Option Nat)) :
    (lengths.foldl .array d).leaves = d.leaves := by
  induction lengths generalizing d with
  | nil => rfl
  | cons length lengths ih => exact ih _

end Descriptor

/-! ## Leaves of expressions -/

section ResolveWith

variable {resolve : Text → Except ResolutionError Descriptor} {leaf : Descriptor}

/-- An expression ends in what its names end in, and in the texts in it that denote nothing. -/
theorem TypeSyntax.Expr.mem_leaves_resolveWith_iff {e : Expr} {d : Descriptor}
    (resolves : e.resolveWith resolve = .ok d) :
    leaf ∈ d.leaves ↔ (∃ text, .unknown text ∈ e.parts ∧ leaf = .unresolved text) ∨
      ∃ x, .name x ∈ e.parts ∧ ∃ d', resolve x = .ok d' ∧ leaf ∈ d'.leaves := by
  induction e generalizing d with
  | name text =>
    have same : resolve text = .ok d := resolves
    simp [parts, same]
  | array element sizes ih =>
    obtain ⟨lengths, type, _, resolvesElement, rfl⟩ := resolveWith_array_eq_ok_iff.1 resolves
    rw [Descriptor.leaves_foldl_array, ih resolvesElement]
    simp [parts]
  | mapping key value ihKey ihValue =>
    obtain ⟨keyType, valueType, resolvesKey, resolvesValue, rfl⟩ :=
      resolveWith_mapping_eq_ok_iff.1 resolves
    rw [Descriptor.leaves, List.mem_append, ihKey resolvesKey, ihValue resolvesValue]
    simp only [parts, List.mem_cons, List.mem_append, reduceCtorEq, false_or, or_and_right,
      exists_or]
    exact or_or_or_comm
  | unknown text =>
    cases resolves
    simp [parts, Descriptor.leaves]
  | endless text => cases resolves

theorem Registry.mem_leavesAmong_iff {members : List Member} {ms : List (Text × Descriptor)}
    (resolves : resolveMembers resolve members = .ok ms) :
    leaf ∈ Descriptor.leavesAmong ms ↔ ∃ type ∈ members.map Member.type,
      ∃ d, (Expr.ofText type).resolveWith resolve = .ok d ∧ leaf ∈ d.leaves := by
  induction members generalizing ms with
  | nil =>
    cases resolves
    simp [Descriptor.leavesAmong]
  | cons m more ih =>
    obtain ⟨d, others, first, resolvesOthers, rfl⟩ := Expr.resolveMembers_cons_eq_ok_iff.1 resolves
    rw [Descriptor.leavesAmong, List.mem_append, ih resolvesOthers, List.map_cons]
    simp only [List.mem_cons, or_and_right, exists_or, exists_eq_left, first, Except.ok.injEq,
      exists_eq_left']

end ResolveWith

/-! ## Leaves of names -/

namespace Registry

/-- A part of a type can end a descriptor on its own. -/
inductive Yields (r : Registry) : Expr → Descriptor → Prop where
  | blank (text : Text) : Yields r (.unknown text) (.unresolved text)
  /-- A name that is left open. -/
  | open (x : Text) : Yields r (.name x) (.unresolved x)
  | enumeration {x : Text} (isDefined : r.definition? (unqualified x) = some .enumeration) :
    Yields r (.name x) (.primitive "uint8".toList)
  | contract {x : Text} (isDefined : r.definition? (unqualified x) = some .contract) :
    Yields r (.name x) (.primitive "address".toList)
  /-- A name that is taken at its word. -/
  | word {x : Text} (isUndefined : r.definition? (unqualified x) = none) (plain : isCustom x = false) :
    Yields r (.name x) (.primitive (canonicalName x))

variable {r : Registry} {visiting : List Text} {x : Text} {d leaf : Descriptor}

/-- A name that is defined by other types can be expanded. -/
theorem mem_referringNames_of_mem_typesOf {a type : Text} (isType : type ∈ r.typesOf a) :
    a ∈ r.referringNames := by
  cases isDefined : r.definition? a with
  | none => simp [typesOf, isDefined] at isType
  | some definition =>
    rw [typesOf_eq isDefined] at isType
    cases definition with
    | enumeration => cases isType
    | struct members => exact mem_referringNames_of_struct isDefined
    | «alias» underlying => exact mem_referringNames_of_alias isDefined
    | contract => cases isType

/-- A type in the definition of a name resolves to a descriptor that ends in a leaf, while the names in
`visiting` and the name itself are being expanded. -/
def EndsBelow (r : Registry) (visiting : List Text) (a : Text) (leaf : Descriptor) : Prop :=
  ∃ type ∈ r.typesOf a, ∃ d,
    (Expr.ofText type).resolveWith (r.resolveName (a :: visiting)) = .ok d ∧ leaf ∈ d.leaves

/-- One step of an expansion: a name ends in itself, or in what the types in its definition end in. -/
theorem yields_or_endsBelow (r : Registry) (visiting : List Text) (x : Text) :
    ∀ d, r.resolveName visiting x = .ok d → ∀ leaf ∈ d.leaves, r.Yields (.name x) leaf ∨
      unqualified x ∉ visiting ∧ r.EndsBelow visiting (unqualified x) leaf := by
  -- only a definition that is opened (cases 3 and 5) leads below the name; any other name is its own leaf
  fun_cases resolveName r visiting x with
  | case1 isDefined =>
    rintro _ ⟨⟩ leaf isLeaf
    cases List.mem_singleton.1 isLeaf
    exact .inl (.enumeration isDefined)
  | case2 members isDefined isVisited =>
    rintro _ ⟨⟩ leaf isLeaf
    cases List.mem_singleton.1 isLeaf
    exact .inl (.open x)
  | case3 members isDefined fresh =>
    intro d resolves leaf isLeaf
    obtain ⟨ms, resolvesMembers, whole⟩ := bind_eq_ok_iff.1 resolves
    cases pure_eq_ok_iff.1 whole
    refine .inr ⟨fresh, ?_⟩
    rw [EndsBelow, typesOf_eq isDefined]
    exact (mem_leavesAmong_iff resolvesMembers).1 isLeaf
  | case4 underlying isDefined isVisited =>
    rintro _ ⟨⟩ leaf isLeaf
    cases List.mem_singleton.1 isLeaf
    exact .inl (.open x)
  | case5 underlying isDefined fresh =>
    intro d resolves leaf isLeaf
    obtain ⟨type, resolvesType, whole⟩ := bind_eq_ok_iff.1 resolves
    cases pure_eq_ok_iff.1 whole
    split at isLeaf
    · cases List.mem_singleton.1 isLeaf
      exact .inl (.open x)
    · refine .inr ⟨fresh, underlying, ?_, type, resolvesType, isLeaf⟩
      rw [typesOf_eq isDefined]
      exact List.mem_cons_self
  | case6 isDefined =>
    rintro _ ⟨⟩ leaf isLeaf
    cases List.mem_singleton.1 isLeaf
    exact .inl (.contract isDefined)
  | case7 isUndefined =>
    rintro _ ⟨⟩ leaf isLeaf
    cases looks : isCustom x with
    | true =>
      rw [looks] at isLeaf
      cases List.mem_singleton.1 isLeaf
      exact .inl (.open x)
    | false =>
      rw [looks] at isLeaf
      cases List.mem_singleton.1 isLeaf
      exact .inl (.word isUndefined looks)

/-- Conversely a name ends in every elementary type that the types in its definition end in. -/
theorem mem_leaves_of_endsBelow (r : Registry) (visiting : List Text) (x : Text) :
    ∀ d, r.resolveName visiting x = .ok d → unqualified x ∉ visiting →
      ∀ name, r.EndsBelow visiting (unqualified x) (.primitive name) → .primitive name ∈ d.leaves := by
  fun_cases resolveName r visiting x with
  | case3 members isDefined fresh =>
    intro d resolves _ name below
    obtain ⟨ms, resolvesMembers, whole⟩ := bind_eq_ok_iff.1 resolves
    cases pure_eq_ok_iff.1 whole
    rw [EndsBelow, typesOf_eq isDefined] at below
    exact (mem_leavesAmong_iff resolvesMembers).2 below
  | case5 underlying isDefined fresh =>
    intro d resolves _ name below
    obtain ⟨type, resolvesType, whole⟩ := bind_eq_ok_iff.1 resolves
    cases pure_eq_ok_iff.1 whole
    rw [EndsBelow, typesOf_eq isDefined] at below
    obtain ⟨_, isType, d, resolves', isLeaf⟩ := below
    cases List.mem_singleton.1 isType
    cases resolvesType.symm.trans resolves'
    -- an open type has no elementary leaf, so the alias is not left open
    split
    · rename_i isUnresolved
      cases type with
      | unresolved _ => cases List.mem_singleton.1 isLeaf
      | _ => cases isUnresolved
    · exact isLeaf
  | case2 members isDefined isVisited | case4 underlying isDefined isVisited =>
    exact fun _ _ fresh => absurd isVisited fresh
  | case1 isDefined | case6 isDefined =>
    rintro _ _ _ name ⟨type, isType, _⟩
    rw [typesOf_eq isDefined] at isType
    cases isType
  | case7 isUndefined =>
    rintro _ _ _ name ⟨type, isType, _⟩
    simp [typesOf, isUndefined] at isType

/-- A leaf of a name comes from the name itself, or from a part of a type in a definition that the name
leads to. -/
theorem yields_or_exists_part (r : Registry) (visiting : List Text) (x : Text) (d : Descriptor)
    (resolves : r.resolveName visiting x = .ok d) (leaf : Descriptor) (isLeaf : leaf ∈ d.leaves) :
    r.Yields (.name x) leaf ∨ ∃ b, ReflTransGen r.Refers (unqualified x) b ∧
      ∃ type ∈ r.typesOf b, ∃ p ∈ (Expr.ofText type).parts, r.Yields p leaf := by
  rcases r.yields_or_endsBelow visiting x d resolves leaf isLeaf with yields | ⟨fresh, below⟩
  · exact .inl yields
  obtain ⟨type, isType, t, resolvesType, isLeaf⟩ := below
  rcases (Expr.mem_leaves_resolveWith_iff resolvesType).1 isLeaf with
    ⟨text, isPart, rfl⟩ | ⟨y, mentions, d', resolvesName, isLeaf⟩
  · exact .inr ⟨_, .refl, type, isType, _, isPart, .blank text⟩
  · rcases yields_or_exists_part r (unqualified x :: visiting) y d' resolvesName leaf isLeaf with
      yields | ⟨b, reaches, found⟩
    · exact .inr ⟨_, .refl, type, isType, _, mentions, yields⟩
    · exact .inr ⟨b, .head (refers_of_mentions isType mentions) reaches, found⟩
termination_by (r.unvisited visiting).length
decreasing_by exact length_unvisited_lt (mem_referringNames_of_mem_typesOf isType) fresh

/-- A leaf of a type comes from a part of the type, or of one that it is made of. -/
theorem exists_part_of_mem_leaves {type : Text} (describes : r.describe type = .ok d)
    (isLeaf : leaf ∈ d.leaves) :
    ∃ type', r.IsMadeOf type type' ∧ ∃ p ∈ (Expr.ofText type').parts, r.Yields p leaf := by
  rcases (Expr.mem_leaves_resolveWith_iff describes).1 isLeaf with
    ⟨text, isPart, rfl⟩ | ⟨x, mentions, d', resolves, isLeaf⟩
  · exact ⟨type, .inl rfl, _, isPart, .blank text⟩
  · rcases r.yields_or_exists_part [] x d' resolves leaf isLeaf with
      yields | ⟨b, reaches, type', isType, found⟩
    · exact ⟨type, .inl rfl, _, mentions, yields⟩
    · exact ⟨type', .inr ⟨b, ⟨x, mentions, reaches⟩, isType⟩, found⟩

end Registry

end ContractInterface
