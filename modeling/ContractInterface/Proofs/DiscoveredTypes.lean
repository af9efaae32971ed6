import ContractInterface.Proofs.Definitions
import ContractInterface.Proofs.OneLine

/-! # Discovered types

Whatever a source holds, the types that are discovered in it are named by identifiers, and the types that
their definitions mention are spelled on one line: members are respaced before they are read, and an alias
stands for a dotted name.  Registries keep this when they are merged (`Registry.IsDiscovered.merge`), so it
holds of every registry of sources (`Registry.isDiscovered_ofSources`).

Substituting the names of such a registry therefore brings no line feed into a text
(`Registry.IsDiscovered.isOneLine_of_substitute`).
-/

namespace ContractInterface

open Text TypeSyntax

namespace Registry

/-! ## Definitions -/

theorem isIdentifier_of_bracedHead? {keyword word rest name body : Text}
    (found : bracedHead? keyword word rest = some (name, body)) : Identifier.isIdentifier name = true := by
  obtain ⟨_, _, isName, _⟩ := bracedHead?_eq_some_iff.1 found
  obtain ⟨_, _, _, _, identifier⟩ := exists_blanks_of_afterBlanks? isName
  exact identifier

theorem isIdentifier_of_mem_bracedHeads {keyword s : Text} {found : Nat × Text × Text}
    (member : found ∈ locate isWordChar (readBracedHead? keyword) s) :
    Identifier.isIdentifier found.2.1 = true := by
  obtain ⟨_, _, _, _, _, _, isRead⟩ := exists_read_of_mem_locate member
  obtain ⟨head, isHead, same⟩ := Option.map_eq_some_iff.1 isRead
  rw [← (Prod.mk.inj same).1]
  exact isIdentifier_of_bracedHead? isHead

/-- The types of struct members are respaced. -/
theorem isOneLine_of_mem_membersOf {body : Text} {m : Member} (member : m ∈ membersOf body) :
    IsOneLine m.type := by
  obtain ⟨piece, _, isMember⟩ := List.mem_filterMap.1 member
  unfold member? at isMember
  simp only at isMember
  split at isMember
  · cases isMember
    exact (isOneLine_spaced piece).of_subset (splitLastWord_fst_subset _)
  · cases isMember

theorem structDefinitions_spec {s : Text} : ∀ d ∈ structDefinitions s,
    Identifier.isIdentifier d.1 = true ∧ ∀ m ∈ d.2, IsOneLine m.type := by
  intro d member
  obtain ⟨⟨_, name, fromBrace⟩, isFound, isDefinition⟩ := List.mem_filterMap.1 member
  simp only at isDefinition
  split at isDefinition
  · split at isDefinition
    · cases isDefinition
    · cases isDefinition
      exact ⟨isIdentifier_of_mem_bracedHeads isFound, fun m => isOneLine_of_mem_membersOf⟩
  · cases isDefinition

theorem isUnderlyingMember_of_dottedName? {s name rest : Text} (found : dottedName? s = some (name, rest)) :
    ∀ c ∈ name, isUnderlyingMember c = true := by
  cases s with
  | nil => cases found
  | cons c s =>
    rw [dottedName?] at found
    split at found
    · rename_i starts
      cases found
      refine List.forall_mem_cons.2 ⟨?_, List.all_eq_true.1 List.all_takeWhile⟩
      simp [isUnderlyingMember, Identifier.isStart_isMember starts]
    · cases found

/-- An alias is written as an identifier that stands for a dotted name. -/
theorem aliasHead?_spec {word rest name underlying behind : Text}
    (found : aliasHead? word rest = some (name, underlying, behind)) :
    Identifier.isIdentifier name = true ∧ ∀ c ∈ underlying, isUnderlyingMember c = true := by
  obtain ⟨_, _, _, _, _, _, isName, _, _, _, isUnderlying, _⟩ := aliasHead?_eq_some_iff.1 found
  obtain ⟨_, _, _, _, identifier⟩ := exists_blanks_of_afterBlanks? isName
  exact ⟨identifier, isUnderlyingMember_of_dottedName? isUnderlying⟩

theorem aliasDefinitions_spec {s : Text} : ∀ d ∈ aliasDefinitions s,
    Identifier.isIdentifier d.1 = true ∧ ∀ c ∈ d.2, isUnderlyingMember c = true := by
  intro d member
  obtain ⟨found, isFound, rfl⟩ := List.mem_map.1 member
  obtain ⟨_, _, _, _, _, _, isRead⟩ := exists_read_of_mem_locate isFound
  obtain ⟨head, isHead, same⟩ := Option.map_eq_some_iff.1 isRead
  rw [← (Prod.mk.inj same).1]
  exact aliasHead?_spec isHead

theorem isIdentifier_of_mem_enumNames {s name : Text} (member : name ∈ enumNames s) :
    Identifier.isIdentifier name = true := by
  obtain ⟨found, isFound, rfl⟩ := List.mem_map.1 member
  exact isIdentifier_of_mem_bracedHeads isFound

theorem isIdentifier_of_mem_namesOfKind {kind : ContractKind} {s : Text} : ∀ d ∈ namesOfKind kind s,
    Identifier.isIdentifier d.1 = true := by
  intro d member
  obtain ⟨⟨kind', name⟩, isDefinition, same⟩ := List.mem_filterMap.1 member
  obtain ⟨found, isFound, isPair⟩ := List.mem_map.1 isDefinition
  obtain ⟨_, _, _, _, _, _, isRead⟩ := exists_read_of_mem_locate isFound
  unfold readContractHead? at isRead
  obtain ⟨_, _, isRead⟩ := Option.bind_eq_some_iff.1 isRead
  obtain ⟨⟨name', _⟩, isName, isRead⟩ := Option.bind_eq_some_iff.1 isRead
  obtain ⟨_, _, _, _, identifier⟩ := exists_blanks_of_afterBlanks? isName
  rw [isPair] at isRead
  cases isRead
  simp only at same
  split at same
  · cases same
    exact identifier
  · cases same

/-! ## Registries -/

theorem Table.mem_of_mem_insertAll {α : Type} {t : Table α} {definitions : List (Text × α)} {d : Text × α}
    (member : d ∈ (t.insertAll definitions).entries) : d ∈ t.entries ∨ d ∈ definitions := by
  induction definitions generalizing t with
  | nil => exact .inl member
  | cons first definitions ih =>
    have step : t.insertAll (first :: definitions) =
        (t.insert first.1 first.2).insertAll definitions := rfl
    rw [step] at member
    rcases ih member with inserted | isLater
    · rw [entries_insert] at inserted
      split at inserted
      · exact .inl inserted
      · rcases List.mem_append.1 inserted with isOld | isFirst
        · exact .inl isOld
        · exact .inr (List.mem_singleton.1 isFirst ▸ List.mem_cons_self)
    · exact .inr (List.mem_cons_of_mem first isLater)

/-- A registry whose definitions look as if they were read from sources. -/
structure IsDiscovered (r : Registry) : Prop where
  structs : ∀ d ∈ r.structs.entries, Identifier.isIdentifier d.1 = true ∧ ∀ m ∈ d.2, IsOneLine m.type
  enums : ∀ d ∈ r.enums.entries, Identifier.isIdentifier d.1 = true
  aliases : ∀ d ∈ r.aliases.entries, Identifier.isIdentifier d.1 = true ∧ IsOneLine d.2
  contracts : ∀ d ∈ r.contracts.entries, Identifier.isIdentifier d.1 = true
  interfaces : ∀ d ∈ r.interfaces.entries, Identifier.isIdentifier d.1 = true

theorem isDiscovered_empty : empty.IsDiscovered :=
  ⟨nofun, nofun, nofun, nofun, nofun⟩

variable {r other : Registry}

/-- Discovering more types keeps a registry as it should be, whatever the source. -/
theorem IsDiscovered.discover (known : r.IsDiscovered) (source : Text) :
    (r.discover source).IsDiscovered where
  structs d member := (Table.mem_of_mem_insertAll member).elim (known.structs d) (structDefinitions_spec d)
  enums d member := by
    rcases Table.mem_of_mem_insertAll member with isKnown | isNew
    · exact known.enums d isKnown
    · obtain ⟨name, isName, rfl⟩ := List.mem_map.1 isNew
      exact isIdentifier_of_mem_enumNames isName
  aliases d member := (Table.mem_of_mem_insertAll member).elim (known.aliases d) fun isNew =>
    (aliasDefinitions_spec d isNew).imp id (isOneLine_of_chars (by decide))
  contracts d member :=
    (Table.mem_of_mem_insertAll member).elim (known.contracts d) (isIdentifier_of_mem_namesOfKind d)
  interfaces d member :=
    (Table.mem_of_mem_insertAll member).elim (known.interfaces d) (isIdentifier_of_mem_namesOfKind d)

theorem isDiscovered_ofSource (source : Text) : (ofSource source).IsDiscovered :=
  isDiscovered_empty.discover source

theorem isDiscovered_ofSources (sources : List Text) : (ofSources sources).IsDiscovered := by
  have general : ∀ r : Registry, r.IsDiscovered → (sources.foldl Registry.discover r).IsDiscovered := by
    induction sources with
    | nil => exact fun _ known => known
    | cons source sources ih => exact fun r known => ih _ (known.discover source)
  exact general empty isDiscovered_empty

theorem IsDiscovered.merge (known : r.IsDiscovered) (known' : other.IsDiscovered) :
    (r.merge other).IsDiscovered where
  structs d member := (Table.mem_of_mem_insertAll member).elim (known.structs d) (known'.structs d)
  enums d member := (Table.mem_of_mem_insertAll member).elim (known.enums d) (known'.enums d)
  aliases d member := (Table.mem_of_mem_insertAll member).elim (known.aliases d) (known'.aliases d)
  contracts d member := (Table.mem_of_mem_insertAll member).elim (known.contracts d) (known'.contracts d)
  interfaces d member := (Table.mem_of_mem_insertAll member).elim (known.interfaces d) (known'.interfaces d)

/-- Every name of such a registry is an identifier. -/
theorem IsDiscovered.isIdentifier (known : r.IsDiscovered) :
    ∀ name ∈ r.typeNames, Identifier.isIdentifier name = true := by
  intro name member
  unfold typeNames at member
  rw [List.mem_mergeSort, List.mem_eraseDups] at member
  simp only [List.mem_append] at member
  rcases member with (((isStruct | isEnum) | isAlias) | isContract) | isInterface
  · obtain ⟨d, isDefinition, rfl⟩ := List.mem_map.1 isStruct
    exact (known.structs d isDefinition).1
  · obtain ⟨d, isDefinition, rfl⟩ := List.mem_map.1 isEnum
    exact known.enums d isDefinition
  · obtain ⟨d, isDefinition, rfl⟩ := List.mem_map.1 isAlias
    exact (known.aliases d isDefinition).1
  · obtain ⟨d, isDefinition, rfl⟩ := List.mem_map.1 isContract
    exact known.contracts d isDefinition
  · obtain ⟨d, isDefinition, rfl⟩ := List.mem_map.1 isInterface
    exact known.interfaces d isDefinition

theorem Table.mem_entries_of_get? {α : Type} {t : Table α} {name : Text} {a : α}
    (found : t.get? name = some a) : (name, a) ∈ t.entries := by
  obtain ⟨front, behind, split, _⟩ := List.lookup_eq_some_iff.1 found
  rw [split]
  exact List.mem_append_right front List.mem_cons_self

/-- The types that a definition mentions are spelled on one line. -/
theorem IsDiscovered.isOneLine_of_mem_typesOf (known : r.IsDiscovered) {name type : Text}
    (isType : type ∈ r.typesOf name) : IsOneLine type := by
  unfold typesOf at isType
  cases isDefined : r.definition? name with
  | none =>
    rw [isDefined] at isType
    cases isType
  | some d =>
    rw [isDefined] at isType
    cases d with
    | struct members =>
      obtain ⟨m, isMember, rfl⟩ := List.mem_map.1 isType
      exact (known.structs _ (Table.mem_entries_of_get? (get?_structs isDefined))).2 m isMember
    | «alias» underlying =>
      rw [List.mem_singleton.1 isType]
      exact (known.aliases _ (Table.mem_entries_of_get? (get?_aliases isDefined))).2
    | enumeration | contract => cases isType

end Registry

/-! ## Spellings -/

/-- The names in an expression, and the texts in it that denote nothing, are on one line. -/
def TypeSyntax.Expr.IsOneLine (e : Expr) : Prop :=
  ∀ x : Text, .name x ∈ e.parts ∨ .unknown x ∈ e.parts → Text.IsOneLine x

namespace TypeSyntax.Expr

theorem IsOneLine.array {element : Expr} (oneLine : element.IsOneLine) (sizes : List Text) :
    (Expr.array element sizes).IsOneLine := by
  intro x isPart
  exact oneLine x (by simpa [parts] using isPart)

/-- A value behind some keys is on one line if all of them are. -/
theorem isOneLine_foldr {α : Type} {keys : List α} {ofKey : α → Expr} {value : Expr}
    (each : ∀ key ∈ keys, (ofKey key).IsOneLine) (final : value.IsOneLine) :
    (keys.foldr (fun key value => .mapping (ofKey key) value) value).IsOneLine := by
  induction keys with
  | nil => exact final
  | cons key keys ih =>
    rw [List.forall_mem_cons] at each
    have inner := ih each.2
    intro x isPart
    rw [List.foldr_cons] at isPart
    simp only [parts, List.mem_cons, List.mem_append, reduceCtorEq, false_or] at isPart
    rcases isPart with (inKey | inValue) | (inKey | inValue)
    · exact each.1 x (.inl inKey)
    · exact inner x (.inl inValue)
    · exact each.1 x (.inr inKey)
    · exact inner x (.inr inValue)

/-- Reading a type respaces it, so at most a type of blanks has another line in it. -/
theorem isOneLine_ofText {type : Text} (oneLine : Text.IsOneLine type) : (ofText type).IsOneLine := by
  -- all parts but those of blanks are taken from the respaced type, which has no line feed
  fun_induction ofText type with
  | case1 type text empty =>
    intro x isPart
    simp only [parts, List.mem_singleton, reduceCtorEq, false_or, Expr.unknown.injEq] at isPart
    rw [isPart]
    exact oneLine.of_subset (trim_subset type)
  | case2 type text nonempty hasSizes ih =>
    exact (ih ((isOneLine_normalized type).of_subset (Dimension.splitTrailing_fst_subset _))).array _
  | case3 type text nonempty noSizes isMapping keyless =>
    intro x isPart
    simp only [parts, List.mem_singleton, reduceCtorEq, false_or, Expr.unknown.injEq] at isPart
    rw [isPart]
    exact isOneLine_normalized type
  | case4 type text nonempty noSizes isMapping hasKeys value ihValue ihKeys =>
    refine isOneLine_foldr (fun key _ => ?_) ?_
    · exact ihKeys key ((isOneLine_normalized type).of_subset (Mapping.mem_keys_subset key.2))
    · by_cases reducible : (Mapping.finalValue text).length < text.length
      · simp only [value, dif_pos reducible]
        exact ihValue reducible ((isOneLine_normalized type).of_subset (Mapping.finalValue_subset text))
      · simp only [value, dif_neg reducible]
        intro x isPart
        simp [parts] at isPart
  | case5 type text nonempty noSizes noMapping =>
    intro x isPart
    simp only [parts, List.mem_singleton, reduceCtorEq, or_false, Expr.name.injEq] at isPart
    rw [isPart]
    exact isOneLine_normalized type

end TypeSyntax.Expr

theorem Descriptor.isComposed_isOneLine : IsComposed IsOneLine where
  array t length oneLine := by
    refine oneLine.append ?_
    cases length with
    | none => decide
    | some n =>
      have inner : Text.IsOneLine (digits n) :=
        isOneLine_of_chars (by decide) fun _ => isWordChar_of_mem_digits
      exact (inner.append (by decide)).cons (by decide)
  mapping key value ofKey ofValue := by
    have start : Text.IsOneLine "mapping(".toList := by decide
    have arrow : Text.IsOneLine " => ".toList := by decide
    exact (((start.append ofKey).append arrow).append ofValue).append (by decide)
  tuple types each :=
    ((isOneLine_joined (by decide) each).append (by decide)).cons
      (by decide)
  tupleWord := by decide

namespace Registry

variable {r : Registry}

/-- A type on one line has a spelling on one line, as all types have that it leads to. -/
theorem IsDiscovered.isOneLine_canonical (known : r.IsDiscovered) {type : Text} (oneLine : IsOneLine type)
    {d : Descriptor} (describes : r.describe type = .ok d) : IsOneLine d.canonical := by
  refine Descriptor.canonical_of_leaves Descriptor.isComposed_isOneLine fun leaf isLeaf => ?_
  obtain ⟨type', isMadeOf, p, isPart, yields⟩ := exists_part_of_mem_leaves describes isLeaf
  have oneLine' : IsOneLine type' := by
    rcases isMadeOf with rfl | ⟨b, _, isType⟩
    · exact oneLine
    · exact known.isOneLine_of_mem_typesOf isType
  have inner := Expr.isOneLine_ofText oneLine'
  cases yields with
  | blank text => exact inner text (.inr isPart)
  | «open» x => exact inner x (.inl isPart)
  | enumeration => decide
  | contract => decide
  | word =>
    change IsOneLine (canonicalName _)
    rw [← spaced_canonicalName]
    exact isOneLine_spaced _

/-! ## Substitution -/

theorem isOneLine_mapRuns {f : Text → Text} {s : Text} (oneLine : IsOneLine s)
    (each : ∀ run, run ⊆ s → IsOneLine (f run)) : IsOneLine (mapRuns f s) := by
  fun_induction mapRuns f s with
  | case1 => exact isOneLine_nil
  | case2 c s _ ih =>
    have rest : s.dropWhile isReferenceMember ⊆ c :: s :=
      List.subset_cons_of_subset c (List.dropWhile_subset _)
    have run : c :: s.takeWhile isReferenceMember ⊆ c :: s :=
      List.cons_subset_cons c (List.takeWhile_subset _)
    exact (each _ run).append
      (ih (oneLine.of_subset rest) fun other within => each other (List.Subset.trans within rest))
  | case3 c s _ ih =>
    have rest := List.subset_cons_self c s
    exact (ih (oneLine.of_subset rest) fun other within => each other (List.Subset.trans within rest)).cons
      fun same => oneLine (same ▸ List.mem_cons_self)

theorem partsBehind?_subset {name : Text} {parts behind : List Text}
    (found : partsBehind? name parts = some behind) : behind ⊆ parts := by
  induction parts with
  | nil => cases found
  | cons part more ih =>
    rw [partsBehind?] at found
    split at found
    · rename_i longer
      split at longer
      · cases found
        exact List.subset_cons_of_subset part (ih longer)
      · cases longer
    · split at found
      · cases found
        exact List.subset_cons_self part _
      · cases found

theorem isOneLine_replacedRun {name replacement run : Text} (oneLine : IsOneLine run)
    (spelled : IsOneLine replacement) : IsOneLine (replacedRun name replacement run) := by
  unfold replacedRun replaced?
  cases found : partsBehind? name (fields '.' run) with
  | none => exact oneLine
  | some behind =>
    refine spelled.append fun member => ?_
    obtain ⟨part, isBehind, inPart⟩ := List.mem_flatMap.1 member
    rcases List.mem_cons.1 inPart with isDot | inPart
    · exact absurd isDot (by decide)
    · exact oneLine (mem_fields_subset (partsBehind?_subset found isBehind) inPart)

/-- Substitution brings no line feed into a text. -/
theorem IsDiscovered.isOneLine_of_substitute (known : r.IsDiscovered) {s t : Text} (oneLine : IsOneLine s)
    (substitutes : r.substitute s = .ok t) : IsOneLine t := by
  have names := known.isIdentifier
  unfold substitute at substitutes
  generalize r.typeNames = left at names substitutes
  -- by induction on the names that are left to replace, with the text as it is by then
  induction left generalizing s with
  | nil =>
    cases substitutes
    exact oneLine
  | cons name left ih =>
    rw [List.foldlM_cons] at substitutes
    obtain ⟨u, first, rest⟩ := bind_eq_ok_iff.1 substitutes
    refine ih ?_ (fun n member => names n (List.mem_cons_of_mem name member)) rest
    unfold substituteName at first
    split at first
    · obtain ⟨replacement, canonical, whole⟩ := bind_eq_ok_iff.1 first
      cases pure_eq_ok_iff.1 whole
      obtain ⟨d, describes, isCanonical⟩ := bind_eq_ok_iff.1 canonical
      cases pure_eq_ok_iff.1 isCanonical
      have plain : IsOneLine name :=
        isOneLine_of_chars (by decide) (isMember_of_isIdentifier (names name List.mem_cons_self))
      rw [replaceReferences_eq_mapRuns]
      exact isOneLine_mapRuns oneLine fun run within =>
        isOneLine_replacedRun (oneLine.of_subset within) (known.isOneLine_canonical plain describes)
    · cases pure_eq_ok_iff.1 first
      exact oneLine

end Registry

end ContractInterface
