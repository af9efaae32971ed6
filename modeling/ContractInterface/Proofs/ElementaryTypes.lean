import ContractInterface.Proofs.Merging
import ContractInterface.Proofs.ParameterTypes
import ContractInterface.Proofs.SubstitutedClauses

/-! # Types of elementary parts

A type that resolves to elementary types without mappings has a canonical text for its spelling
(`Registry.isCanonical_of_means`).  So a clause with such a type means the same read as a descriptor and
read from text (`Registry.readsAs_substituted`).
-/

namespace ContractInterface

open Text TypeSyntax Signature

/-! ## Leaves -/

namespace Descriptor

mutual

/-- Whether a type has no mapping in it and only elementary types for its leaves. -/
def hasElementaryLeaves : Descriptor → Bool
  | .primitive name => isElementary name
  | .unresolved rawName => isElementary rawName
  | .array element _ => element.hasElementaryLeaves
  | .mapping _ _ => false
  | .tuple _ members => haveElementaryLeaves members
  | .unspecified => false

/-- Whether all members of a struct have elementary types for their leaves. -/
def haveElementaryLeaves : List (Text × Descriptor) → Bool
  | [] => true
  | (_, type) :: more => hasElementaryLeaves type && haveElementaryLeaves more

end

theorem haveElementaryLeaves_eq_all (members : List (Text × Descriptor)) :
    haveElementaryLeaves members = members.all fun m => m.2.hasElementaryLeaves := by
  induction members with
  | nil => rfl
  | cons m more ih => simp [haveElementaryLeaves, ih]

theorem hasElementaryLeaves_foldl_array (d : Descriptor) (lengths : List (Option Nat)) :
    (lengths.foldl .array d).hasElementaryLeaves = d.hasElementaryLeaves := by
  induction lengths generalizing d with
  | nil => rfl
  | cons length lengths ih => exact ih _

theorem canonical_foldl_array (d : Descriptor) (lengths : List (Option Nat)) :
    (lengths.foldl .array d).canonical = d.canonical ++ brackets lengths := by
  induction lengths generalizing d with
  | nil => exact (List.append_nil _).symm
  | cons length lengths ih =>
    rw [List.foldl_cons, ih, canonical, List.append_assoc]
    rfl

end Descriptor

/-! ## Names of elementary types in full -/

theorem shorthands_spec : ∀ p ∈ shorthands,
    isElementaryName p.1 = true ∧ isElementary p.2 = true ∧ spaced p.2 = p.2 ∧
      canonicalName p.2 = p.2 := by
  decide

/-- What a name is written out as: the full name of a shorthand, or the name respaced. -/
theorem canonicalName_cases (type : Text) : (∃ full, (spaced type, full) ∈ shorthands ∧
    canonicalName type = full) ∨ (shorthands.lookup (spaced type) = none ∧ canonicalName type = spaced type) := by
  have equation : canonicalName type = (shorthands.lookup (spaced type)).getD (spaced type) := rfl
  rw [equation]
  cases found : shorthands.lookup (spaced type) with
  | none => exact .inr ⟨rfl, rfl⟩
  | some full =>
    obtain ⟨front, behind, split, _⟩ := List.lookup_eq_some_iff.1 found
    refine .inl ⟨full, ?_, rfl⟩
    rw [split]
    exact List.mem_append_right _ List.mem_cons_self

theorem spaced_canonicalName (type : Text) : spaced (canonicalName type) = canonicalName type := by
  rcases canonicalName_cases type with ⟨full, isShorthand, isFull⟩ | ⟨_, isSpaced⟩
  · rw [isFull]
    exact (shorthands_spec _ isShorthand).2.2.1
  · rw [isSpaced, spaced_spaced]

/-- A name is written out once. -/
theorem canonicalName_canonicalName (type : Text) :
    canonicalName (canonicalName type) = canonicalName type := by
  rcases canonicalName_cases type with ⟨full, isShorthand, isFull⟩ | ⟨noShorthand, isSpaced⟩
  · rw [isFull]
    exact (shorthands_spec _ isShorthand).2.2.2
  · rw [isSpaced]
    unfold canonicalName
    simp only [spaced_spaced, noShorthand, Option.getD_none]

/-- A name written out is elementary if the name is, and only then. -/
theorem isElementary_canonicalName (type : Text) :
    isElementary (canonicalName type) = isElementary type := by
  rcases canonicalName_cases type with ⟨full, isShorthand, isFull⟩ | ⟨_, isSpaced⟩
  · rw [isFull, (shorthands_spec _ isShorthand).2.1]
    exact (shorthands_spec _ isShorthand).1.symm
  · rw [isSpaced, isElementary, spaced_spaced]
    rfl

theorem isElementaryName_of_canonicalName {name : Text} (solid : IsSolid name)
    (elementary : isElementary (canonicalName name) = true) : isElementaryName name = true := by
  rwa [isElementary_canonicalName, isElementary, spaced_solid solid] at elementary

/-! ## Descriptors -/

/-- An expression resolves to a canonical spelling if its names do. -/
theorem TypeSyntax.Expr.isCanonical_of_resolveWith {resolve : Text → Except ResolutionError Descriptor}
    {e : Expr} (names : ∀ x, .name x ∈ e.parts → ∀ d, resolve x = .ok d → d.isResolved = true →
      d.hasElementaryLeaves = true → IsCanonical d.canonical)
    {d : Descriptor} (resolves : e.resolveWith resolve = .ok d) (resolved : d.isResolved = true)
    (leaves : d.hasElementaryLeaves = true) : IsCanonical d.canonical := by
  induction e generalizing d with
  | name text => exact names text List.mem_cons_self d resolves resolved leaves
  | array element sizes ih =>
    obtain ⟨lengths, type, _, resolvesElement, rfl⟩ := resolveWith_array_eq_ok_iff.1 resolves
    rw [Descriptor.isResolved_foldl_array] at resolved
    rw [Descriptor.hasElementaryLeaves_foldl_array] at leaves
    rw [Descriptor.canonical_foldl_array]
    exact (ih (fun x member => names x (List.mem_cons_of_mem _ member)) resolvesElement resolved
      leaves).append lengths
  | mapping key value _ _ =>
    obtain ⟨keyType, valueType, _, _, rfl⟩ := resolveWith_mapping_eq_ok_iff.1 resolves
    cases leaves
  | unknown text =>
    cases resolves
    cases resolved
  | endless text => cases resolves

namespace Registry

theorem exists_type_of_mem_resolveMembers {resolve : Text → Except ResolutionError Descriptor}
    {members : List Member} {ms : List (Text × Descriptor)}
    (resolves : resolveMembers resolve members = .ok ms) : ∀ m ∈ ms,
      ∃ type ∈ members.map Member.type, (Expr.ofText type).resolveWith resolve = .ok m.2 := by
  induction members generalizing ms with
  | nil =>
    cases resolves
    exact fun _ member => nomatch member
  | cons m more ih =>
    obtain ⟨d, others, first, resolvesOthers, rfl⟩ := Expr.resolveMembers_cons_eq_ok_iff.1 resolves
    rw [List.forall_mem_cons]
    refine ⟨⟨m.type, List.mem_cons_self, first⟩, fun m' member => ?_⟩
    obtain ⟨type, isType, resolves'⟩ := ih resolvesOthers m' member
    exact ⟨type, List.mem_cons_of_mem _ isType, resolves'⟩

variable {r : Registry}

/-- A name that means a type of elementary parts is spelled canonically. -/
theorem isCanonical_of_means {x : Text} {d : Descriptor} (means : r.Means x d)
    (leaves : d.hasElementaryLeaves = true) : IsCanonical d.canonical := by
  refine r.induction_of_expands (P := fun x => ∀ d, r.Means x d → d.hasElementaryLeaves = true →
    IsCanonical d.canonical) ?_ [] x (expands_of_means means) d means leaves
  intro x below d means leaves
  have gives := gives_of_means means
  -- the names in the definition of `x` are spelled canonically
  have inner : ∀ type ∈ r.typesOf (unqualified x), ∀ d', r.describe type = .ok d' →
      d'.isResolved = true → d'.hasElementaryLeaves = true → IsCanonical d'.canonical :=
    fun type isType d' describes resolved =>
      Expr.isCanonical_of_resolveWith (fun y mentions d'' isMeaning resolved' =>
        below type isType y mentions d'' ⟨isMeaning, resolved'⟩) describes resolved
  cases isDefined : r.definition? (unqualified x) with
  | none =>
    rw [isDefined] at gives
    obtain ⟨_, rfl⟩ := gives
    have isName : isElementaryName (canonicalName x) = true := by
      have elementary : isElementary (canonicalName x) = true := leaves
      unfold isElementary at elementary
      rwa [spaced_canonicalName] at elementary
    have canonical := IsCanonical.elementary isName (canonicalName_canonicalName x) []
    rwa [brackets_nil, List.append_nil] at canonical
  | some definition =>
    rw [isDefined] at gives
    rw [typesOf_eq isDefined] at inner
    -- by what the name is defined as; structs and aliases pass it on from their types
    cases definition with
    | enumeration =>
      cases gives
      have canonical : IsCanonical ("uint8".toList ++ brackets []) := .elementary (by decide) (by decide) []
      exact canonical
    | struct members =>
      obtain ⟨ms, resolves, resolved, rfl⟩ := gives
      have leaves' : (ms.all fun m => m.2.hasElementaryLeaves) = true := by
        rw [← Descriptor.haveElementaryLeaves_eq_all]
        exact leaves
      have canonical : ∀ t ∈ ms.map fun m => m.2.canonical, IsCanonical t := by
        intro t member
        obtain ⟨m, isMember, rfl⟩ := List.mem_map.1 member
        obtain ⟨type, isType, describes⟩ := exists_type_of_mem_resolveMembers resolves m isMember
        exact inner type isType m.2 describes (List.all_eq_true.1 resolved m isMember)
          (List.all_eq_true.1 leaves' m isMember)
      have whole := IsCanonical.tuple canonical []
      rw [Descriptor.canonical, Descriptor.canonicals_eq_map]
      simpa using whole
    | «alias» underlying => exact inner underlying List.mem_cons_self d gives.1 gives.2 leaves
    | contract =>
      cases gives
      have canonical : IsCanonical ("address".toList ++ brackets []) := .elementary (by decide) (by decide) []
      exact canonical

/-! ## Written types -/

theorem mem_typeNames_iff {name : Text} : name ∈ r.typeNames ↔ r.definition? name ≠ none := by
  unfold typeNames definition?
  rw [List.mem_mergeSort, List.mem_eraseDups]
  simp only [List.mem_append, List.contains_iff_mem, Bool.or_eq_true, Table.mem_names_iff]
  cases r.enums.get? name <;> cases r.structs.get? name <;> cases r.aliases.get? name <;>
    cases r.contracts.get? name <;> cases r.interfaces.get? name <;> simp

theorem unqualified_dotted {qualifiers : List Text} {name : Text}
    (plain : ∀ part ∈ qualifiers ++ [name], IsPlainWord part) :
    unqualified (dotted (qualifiers ++ [name])) = name := by
  unfold unqualified
  rw [(isSolid_dotted plain).isTrimmed.trim_eq,
    fields_dotted (by simp) fun part member => (plain part member).identifier]
  simp

theorem dot_mem_dotted (q : Text) (more : List Text) (name : Text) :
    '.' ∈ dotted (q :: more ++ [name]) := by
  rw [List.cons_append, dotted_cons]
  refine List.mem_append_right _ (List.mem_flatMap.2 ⟨name, by simp, List.mem_cons_self⟩)

/-- One word has no storage location set off from it. -/
theorem withoutTrailingStorage_solid {s : Text} (solid : IsSolid s) : withoutTrailingStorage s = s := by
  have body : trimEnd s = s := trimEnd_of_last solid.isTrimmed.last
  have last : s.reverse.takeWhile (!isBlank ·) = s.reverse :=
    List.takeWhile_eq_self_iff.2 fun c member => by simp [solid.reverse c member]
  unfold withoutTrailingStorage
  simp only [body, last, List.reverse_reverse, Nat.lt_irrefl, and_false, if_false,
    solid.isTrimmed.trim_eq]

theorem isCustom_of_mem_dot {s : Text} (solid : IsSolid s) (dot : '.' ∈ s) : isCustom s = true := by
  obtain ⟨c, t, rfl⟩ := List.exists_cons_of_ne_nil (List.ne_nil_of_mem dot)
  unfold isCustom
  simp only [withoutTrailingStorage_solid solid, List.contains_iff_mem.2 dot, Bool.true_or]

/-- The name of an elementary type does not look user-defined. -/
theorem isCustom_of_isElementaryName {name : Text} (isName : isElementaryName name = true)
    (other : name ≠ "address payable".toList) : isCustom name = false := by
  have letters := isWordChar_of_isElementaryName isName other
  have noDot : name.contains '.' = false := by
    rw [List.contains_eq_mem, decide_eq_false_iff_not]
    exact fun member => absurd (letters '.' member) (by decide)
  have small : elementaryHeads.all (·.head?.any (!isOwnUpperCase ·)) = true := by decide
  obtain ⟨head, isHead, size, rfl, _⟩ := exists_head_of_isElementaryName isName other
  have first := List.all_eq_true.1 small head isHead
  cases head with
  | nil => cases first
  | cons c head =>
    have isSmall : isOwnUpperCase c = false := by simpa using first
    unfold isCustom
    rw [withoutTrailingStorage_solid fun d member => isBlank_of_isWordChar (letters d member)]
    simp only [List.cons_append] at noDot ⊢
    rw [noDot, isSmall]
    rfl

theorem eq_of_mapM_arrayLength {lengths lengths' : List (Option Nat)}
    (reads : (lengths.map sizeText).mapM arrayLength = .ok lengths') : lengths' = lengths := by
  have same := mapM_eq_ok_iff.1 reads
  clear reads
  induction lengths generalizing lengths' with
  | nil =>
    cases lengths' with
    | nil => rfl
    | cons _ _ => cases same
  | cons length lengths ih =>
    cases lengths' with
    | nil => cases same
    | cons length' lengths' =>
      obtain ⟨first, others⟩ := List.cons.inj same
      rw [eq_of_arrayLength_sizeText first, ih others]

/-- What a written type resolves to: what its name means, with its dimensions. -/
theorem exists_of_describe_typeText {qualifiers : List Text} {name : Text} {lengths : List (Option Nat)}
    (plain : ∀ part ∈ qualifiers ++ [name], IsPlainWord part) {d : Descriptor}
    (describes : r.describe (typeText (qualifiers ++ [name]) lengths) = .ok d) :
    ∃ d', r.meaning (dotted (qualifiers ++ [name])) = .ok d' ∧ lengths.foldl .array d' = d := by
  have nonempty : qualifiers ++ [name] ≠ [] := by simp
  unfold describe at describes
  rw [ofText_typeText nonempty plain] at describes
  by_cases none_ : lengths = []
  · rw [if_pos none_] at describes
    subst none_
    exact ⟨d, describes, rfl⟩
  · rw [if_neg none_] at describes
    obtain ⟨lengths', d', reads, isMeaning, isArray⟩ := Expr.resolveWith_array_eq_ok_iff.1 describes
    rw [eq_of_mapM_arrayLength reads] at isArray
    exact ⟨d', isMeaning, isArray⟩

/-- A defined name is spelled like its meaning, which it shares with the names that it qualifies. -/
theorem spelling_of_gives {qualifiers : List Text} {name : Text} (plain : IsPlainWord name)
    (isDefined : r.definition? name ≠ none) {d : Descriptor}
    (gives : r.Gives (dotted (qualifiers ++ [name])) d (r.definition? name))
    (unqualified_ : unqualified (dotted (qualifiers ++ [name])) = name) :
    r.spelling name = d.canonical := by
  have alone : ∀ part ∈ [name], IsPlainWord part := by simpa using plain
  -- a name without qualifiers is its own last part
  have self : unqualified name = name := by
    have whole : unqualified (dotted ([] ++ [name])) = name := unqualified_dotted alone
    rwa [List.nil_append, dotted_singleton] at whole
  have gives' : r.Gives name d (r.definition? (unqualified name)) := by
    rw [self]
    cases isDefinition : r.definition? name with
    | none => exact absurd isDefinition isDefined
    | some definition =>
      rw [isDefinition] at gives
      cases definition with
      | enumeration => exact gives
      | struct members =>
        obtain ⟨ms, resolves, resolved, isTuple⟩ := gives
        rw [unqualified_] at isTuple
        exact ⟨ms, resolves, resolved, by rw [self]; exact isTuple⟩
      | «alias» underlying => exact gives
      | contract => exact gives
  have isName : Expr.ofText name = .name name := by
    have whole := ofText_typeText (List.cons_ne_nil name []) alone []
    unfold typeText at whole
    rwa [brackets_nil, List.append_nil, dotted_singleton, if_pos rfl] at whole
  have describes : r.describe name = .ok d := by
    unfold describe
    rw [isName]
    exact (means_of_gives gives').1
  unfold spelling canonicalType
  rw [describes]
  rfl

/-- The names of a registry can be told from other words, and each of them has a descriptor. -/
structure IsTellable (r : Registry) : Prop where
  distinct : AreDistinct r.typeNames
  described : ∀ name ∈ r.typeNames, ∃ d, r.describe name = .ok d

/-- It is enough to check a list that holds all names. -/
theorem isTellable_of_names {names : List Text} (covers : r.typeNames ⊆ names)
    (checked : ∀ name ∈ names, Identifier.isIdentifier name = true ∧ isElementaryName name = false ∧
      name ∉ reservedWords ∧ (r.describe name).toBool = true) : r.IsTellable where
  distinct :=
    { identifiers := fun name member => (checked name (covers member)).1
      userDefined := fun name member => (checked name (covers member)).2.1
      free := fun name member => (checked name (covers member)).2.2.1 }
  described := fun name member => toBool_iff.1 (checked name (covers member)).2.2.2

/-- After substitution a written type is read as a parameter with the spelling of its descriptor. -/
theorem readsAs_substituted (tellable : r.IsTellable) {qualifiers : List Text} {name : Text}
    {lengths : List (Option Nat)} (plain : ∀ part ∈ qualifiers ++ [name], IsPlainWord part)
    (unobtrusive : ∀ q ∈ qualifiers, IsUnobtrusive r.spelling r.typeNames q) {d : Descriptor}
    (describes : r.describe (typeText (qualifiers ++ [name]) lengths) = .ok d)
    (resolved : d.isResolved = true) (leaves : d.hasElementaryLeaves = true) :
    ReadsAs (substituted r.spelling r.typeNames (typeText (qualifiers ++ [name]) lengths)) d.canonical := by
  obtain ⟨d', isMeaning, rfl⟩ := exists_of_describe_typeText plain describes
  rw [Descriptor.isResolved_foldl_array] at resolved
  rw [Descriptor.hasElementaryLeaves_foldl_array] at leaves
  rw [Descriptor.canonical_foldl_array]
  have means : r.Means (dotted (qualifiers ++ [name])) d' := ⟨isMeaning, resolved⟩
  have gives := gives_of_means means
  rw [unqualified_dotted plain] at gives
  by_cases isDefined : r.definition? name = none
  · -- a name without a definition is elementary, so nothing qualifies it
    rw [isDefined] at gives
    obtain ⟨looks, rfl⟩ := gives
    obtain rfl : qualifiers = [] := by
      cases qualifiers with
      | nil => rfl
      | cons q more =>
        rw [isCustom_of_mem_dot (isSolid_dotted plain) (dot_mem_dotted q more name)] at looks
        cases looks
    have isWord : IsPlainWord name := plain name (by simp)
    have isName : isElementaryName name = true := by
      rw [List.nil_append, dotted_singleton] at leaves
      exact isElementaryName_of_canonicalName isWord.solid leaves
    have absent : name ∉ r.typeNames := fun member => mem_typeNames_iff.1 member isDefined
    have other : name ≠ "address payable".toList := by
      rintro rfl
      exact absurd (isWord.solid ' ' (by decide)) (by decide)
    rw [List.nil_append, substituted_typeText_of_not_mem tellable.distinct absent isWord, dotted_singleton]
    exact readsAs_of_isElementaryName isName other lengths
  · -- a defined name is replaced by the spelling of what it means
    have member : name ∈ r.typeNames := mem_typeNames_iff.2 isDefined
    have spelled : r.spelling name = d'.canonical := spelling_of_gives (plain name (by simp)) isDefined gives
      (unqualified_dotted plain)
    have canonical := isCanonical_of_means means leaves
    rw [substituted_typeText tellable.distinct member plain unobtrusive (spelled ▸ canonical), spelled]
    exact (canonical.append lengths).readsAs

end Registry

end ContractInterface
