import ContractInterface.Proofs.DiscoveredTypes

/-! # Simultaneous substitution

Substitution takes the names of a registry one after the other, each over the text that the names
before it have left.  Still a text of separators, words and references comes out as if all references
in it were replaced at once (`Registry.substitute_eq_of_spells`).

Three facts carry this.  Texts on the two sides of a separator are substituted on their own
(`foldlM_substituteName_append`).  The canonical text of a type with elementary leaves refers to no name,
so what is put in is not substituted again (`refersTo_canonical_of_describe`).  And while a reference waits
for its last part, it only loses qualifiers or has one of them spelled out as `address`
(`foldlM_substituteName_dotted`).
-/

namespace ContractInterface

open Text TypeSyntax

/-! ## Canonical texts refer to no name -/

/-- Whether a type is a single elementary type. -/
def Descriptor.isElementary : Descriptor → Bool
  | .primitive name => TypeSyntax.isElementary name
  | _ => false

/-- Names that occur in no type with elementary leaves, however it is spelled.  Discovered names are
identifiers in any case (`Registry.IsDiscovered.isIdentifier`). -/
structure AreUserDefined (names : List Text) : Prop where
  identifiers : ∀ name ∈ names, Identifier.isIdentifier name = true
  userDefined : ∀ name ∈ names, isElementary name = false
  notMapping : "mapping".toList ∉ names
  notTuple : "tuple".toList ∉ names

open Registry

section Free

variable {name : Text}

theorem refersTo_append_dimension (identifier : Identifier.isIdentifier name = true) (s : Text)
    (length : Option Nat) : refersTo name (s ++ Descriptor.dimension length) = refersTo name s := by
  have open_ : isReferenceMember '[' = false := by decide
  have close : isReferenceMember ']' = false := by decide
  cases length with
  | none =>
    change refersTo name (s ++ '[' :: ']' :: []) = _
    rw [refersTo_append_cons open_, refersTo_cons close, refersTo_nil, Bool.or_false]
  | some n =>
    have letters : ∀ c ∈ digits n, Identifier.isMember c = true := fun c member =>
      isMember_of_isWordChar (isWordChar_of_mem_digits member)
    have other : digits n ≠ name := by
      rintro rfl
      obtain ⟨c, t, split⟩ := List.exists_cons_of_ne_nil (ne_nil_of_isIdentifier identifier)
      have digit := isDigit_of_mem_digits (n := n) (split ▸ List.mem_cons_self)
      rw [split, Identifier.isIdentifier, isStart_of_isDigit digit] at identifier
      cases identifier
    rw [Descriptor.dimension, List.cons_append, refersTo_append_cons open_, refersTo_append_cons close,
      refersTo_of_ne letters other, refersTo_nil, Bool.or_false, Bool.or_false]

theorem refersTo_mappingSpelling (other : "mapping".toList ≠ name) {key value : Text}
    (freeKey : refersTo name key = false) (freeValue : refersTo name value = false) :
    refersTo name (Descriptor.mappingSpelling key value) = false := by
  have whole : Descriptor.mappingSpelling key value =
      "mapping".toList ++ '(' :: (key ++ ' ' :: '=' :: '>' :: ' ' :: (value ++ ')' :: [])) := by
    have start : "mapping(".toList = "mapping".toList ++ ['('] := by decide
    have arrow : " => ".toList = [' ', '=', '>', ' '] := by decide
    unfold Descriptor.mappingSpelling
    rw [start, arrow]
    simp only [List.append_assoc, List.cons_append, List.nil_append]
  have letters : ∀ c ∈ "mapping".toList, Identifier.isMember c = true := List.all_eq_true.1 (by decide)
  rw [whole, refersTo_append_cons (by decide), refersTo_of_ne letters other,
    refersTo_append_cons (by decide), freeKey, refersTo_cons (by decide), refersTo_cons (by decide),
    refersTo_cons (by decide), refersTo_append_cons (by decide), freeValue, refersTo_nil]
  rfl

theorem refersTo_joined {types : List Text} (free : ∀ t ∈ types, refersTo name t = false) :
    refersTo name (joined [','] types) = false := by
  induction types with
  | nil => exact refersTo_nil
  | cons t types ih =>
    have first := free t List.mem_cons_self
    cases types with
    | nil => simpa [joined] using first
    | cons next more =>
      have others := ih fun u member => free u (List.mem_cons_of_mem t member)
      rw [joined_cons_cons, List.singleton_append, refersTo_append_cons (by decide), first, others,
        Bool.or_false]

/-- A type refers to a name through its leaves only. -/
theorem isComposed_refersTo (identifier : Identifier.isIdentifier name = true)
    (notMapping : "mapping".toList ≠ name) (notTuple : "tuple".toList ≠ name) :
    Descriptor.IsComposed fun t => refersTo name t = false where
  array t length free := by rwa [refersTo_append_dimension identifier]
  mapping key value := refersTo_mappingSpelling notMapping
  tuple types free := by
    rw [List.cons_append, refersTo_cons (by decide), refersTo_append_cons (by decide),
      refersTo_joined free, refersTo_nil]
    rfl
  tupleWord :=
    have letters : ∀ c ∈ Abi.tupleType, Identifier.isMember c = true := List.all_eq_true.1 (by decide)
    refersTo_of_ne letters notTuple

end Free

namespace Registry

variable {r : Registry} {names : List Text}

/-- The elementary types that a description ends in are written out in full. -/
theorem canonicalName_of_mem_leaves {type p : Text} {d : Descriptor}
    (describes : r.describe type = .ok d) (isLeaf : .primitive p ∈ d.leaves) : canonicalName p = p := by
  obtain ⟨_, _, _, _, yields⟩ := exists_part_of_mem_leaves describes isLeaf
  cases yields with
  | enumeration => decide
  | contract => decide
  | word => exact canonicalName_canonicalName _

/-- A type that resolves to elementary types is spelled without a user-defined name. -/
theorem refersTo_canonical_of_describe (userDefined : AreUserDefined names) {type : Text} {d : Descriptor}
    (describes : r.describe type = .ok d)
    (elementary : ∀ leaf ∈ d.leaves, leaf.isElementary = true) :
    ∀ name ∈ names, refersTo name d.canonical = false := by
  intro name isName
  have composed := isComposed_refersTo (userDefined.identifiers name isName)
    (fun same => userDefined.notMapping (same ▸ isName)) (fun same => userDefined.notTuple (same ▸ isName))
  refine Descriptor.canonical_of_leaves composed fun leaf isLeaf => ?_
  obtain ⟨p, rfl, isType⟩ : ∃ p, leaf = .primitive p ∧ isElementary p = true := by
    have isType := elementary leaf isLeaf
    cases leaf with
    | primitive p => exact ⟨p, rfl, isType⟩
    | _ => cases isType
  have full := canonicalName_of_mem_leaves describes isLeaf
  have isTypeName : isElementaryName p = true := by
    rwa [isElementary, ← full, spaced_canonicalName, full] at isType
  have letters := isWordChar_of_isElementaryName isTypeName (ne_addressPayable full)
  refine refersTo_of_ne (fun c member => isMember_of_isWordChar (letters c member)) ?_
  -- an elementary name is no name that a user defines
  rintro rfl
  rw [userDefined.userDefined p isName] at isType
  cases isType

/-! ## One name after the other -/

theorem substituteName_eq_ok_iff {s t name : Text} : r.substituteName s name = .ok t ↔
    (refersTo name s = true → ∃ u, r.canonicalType name = .ok u) ∧
      mapRuns (replacedRun name (r.spelling name)) s = t := by
  unfold substituteName
  cases refers : refersTo name s with
  | false =>
    rw [mapRuns_of_not_refersTo refers]
    simp [pure, Except.pure]
  | true =>
    cases canonical : r.canonicalType name with
    | error cause => simp [bind, Except.bind]
    | ok u =>
      have isSpelling : r.spelling name = u := by
        rw [spelling, canonical]
        rfl
      simp [bind, Except.bind, pure, Except.pure, isSpelling, replaceReferences_eq_mapRuns]

theorem substituteName_of_not_refersTo {s name : Text} (other : refersTo name s = false) :
    r.substituteName s name = .ok s :=
  substituteName_eq_ok_iff.2 ⟨fun refers => absurd refers (by simp [other]), mapRuns_of_not_refersTo other _⟩

/-- A text that refers to none of the names stays. -/
theorem foldlM_substituteName_self {s : Text} (free : ∀ name ∈ names, refersTo name s = false) :
    names.foldlM r.substituteName s = .ok s := by
  induction names with
  | nil => rfl
  | cons name names ih =>
    rw [List.foldlM_cons, substituteName_of_not_refersTo (free name List.mem_cons_self)]
    exact ih fun n member => free n (List.mem_cons_of_mem name member)

/-- Two texts that a separator keeps apart are substituted on their own. -/
theorem foldlM_substituteName_append {s s' t t' : Text}
    (edge : ∀ c ∈ t.head?, isReferenceMember c = false)
    (left : names.foldlM r.substituteName s = .ok s')
    (right : names.foldlM r.substituteName t = .ok t') :
    names.foldlM r.substituteName (s ++ t) = .ok (s' ++ t') := by
  induction names generalizing s t with
  | nil =>
    cases left
    cases right
    rfl
  | cons name names ih =>
    obtain ⟨s₁, first, left⟩ := bind_eq_ok_iff.1 left
    obtain ⟨t₁, first', right⟩ := bind_eq_ok_iff.1 right
    obtain ⟨resolves, rfl⟩ := substituteName_eq_ok_iff.1 first
    obtain ⟨resolves', rfl⟩ := substituteName_eq_ok_iff.1 first'
    -- the name has to resolve if either text refers to it, and no reference crosses the separator
    have both : r.substituteName (s ++ t) name =
        .ok (mapRuns (replacedRun name (r.spelling name)) s ++
          mapRuns (replacedRun name (r.spelling name)) t) := by
      refine substituteName_eq_ok_iff.2 ⟨fun refers => ?_, mapRuns_append _ edge⟩
      rw [refersTo_append edge, Bool.or_eq_true] at refers
      exact refers.elim resolves resolves'
    rw [List.foldlM_cons, both]
    exact ih (head?_mapRuns _ edge) left right

theorem foldlM_substituteName_cons {c : Char} (separates : isReferenceMember c = false) {t t' : Text}
    (behind : names.foldlM r.substituteName t = .ok t') :
    names.foldlM r.substituteName (c :: t) = .ok (c :: t') := by
  induction names generalizing t with
  | nil =>
    cases behind
    rfl
  | cons name names ih =>
    obtain ⟨t₁, first, rest⟩ := bind_eq_ok_iff.1 behind
    obtain ⟨resolves, rfl⟩ := substituteName_eq_ok_iff.1 first
    have step : r.substituteName (c :: t) name =
        .ok (c :: mapRuns (replacedRun name (r.spelling name)) t) := by
      refine substituteName_eq_ok_iff.2 ⟨fun refers => resolves ?_, mapRuns_cons _ separates t⟩
      rwa [refersTo_cons separates] at refers
    rw [List.foldlM_cons, step]
    exact ih rest

/-! ## References -/

/-- A word that qualifies a reference without getting in its way: it is spelled `address` if it is a type
at all. -/
def IsQualifier (r : Registry) (word : Text) : Prop :=
  Identifier.isIdentifier word = true ∧
    (word ∈ r.typeNames → r.describe word = .ok (.primitive "address".toList))

/-- A reference becomes the spelling of its last part, in whatever order the names are taken. -/
theorem foldlM_substituteName_dotted (userDefined : AreUserDefined r.typeNames)
    (within : names ⊆ r.typeNames) {name : Text} (isName : name ∈ names) {type : Descriptor}
    (describes : r.describe name = .ok type)
    (free : ∀ n ∈ names, refersTo n type.canonical = false) {qualifiers : List Text}
    (qualified : ∀ q ∈ qualifiers, r.IsQualifier q) :
    names.foldlM r.substituteName (dotted (qualifiers ++ [name])) = .ok type.canonical := by
  have isSpelling : ∀ {n : Text} {d : Descriptor}, r.describe n = .ok d →
      r.canonicalType n = .ok d.canonical := fun describes => by rw [canonicalType, describes]; rfl
  have identifier := userDefined.identifiers name (within isName)
  -- the names that are left still hold the last part
  induction names generalizing qualifiers with
  | nil => cases isName
  | cons n names ih =>
    have identifiers : ∀ part ∈ qualifiers ++ [name], Identifier.isIdentifier part = true := by
      intro part isPart
      rcases List.mem_append.1 isPart with isQualifier | isLast
      · exact (qualified part isQualifier).1
      · rwa [List.mem_singleton.1 isLast]
    have isType : n ∈ r.typeNames := within List.mem_cons_self
    have free' : ∀ m ∈ names, refersTo m type.canonical = false := fun m member =>
      free m (List.mem_cons_of_mem n member)
    have resolves : refersTo n (dotted (qualifiers ++ [name])) = true →
        ∃ u, r.canonicalType n = .ok u := by
      intro refers
      rcases List.mem_append.1 (refersTo_dotted (by simp) identifiers refers) with isQualifier | isLast
      · exact ⟨_, isSpelling ((qualified n isQualifier).2 isType)⟩
      · rw [List.mem_singleton.1 isLast]
        exact ⟨_, isSpelling describes⟩
    have step := substituteName_eq_ok_iff.2 ⟨resolves, rfl⟩
    rw [List.foldlM_cons, step]
    by_cases isLast : n = name
    · subst isLast
      have spelled : r.spelling n = type.canonical := by
        rw [spelling, isSpelling describes]
        rfl
      rw [mapRuns_dotted_self identifiers, spelled]
      exact foldlM_substituteName_self free'
    · obtain ⟨left, becomes, origin⟩ := exists_qualifiers_of_ne isLast identifiers
      rw [becomes]
      refine ih (fun m member => within (List.mem_cons_of_mem n member))
        ((List.mem_cons.1 isName).resolve_left (Ne.symm isLast)) free' fun q isLeft => ?_
      rcases origin q isLeft with stayed | ⟨replaced, rfl⟩
      · exact qualified q stayed
      · have spelled : r.spelling n = "address".toList := by
          rw [spelling, isSpelling ((qualified n replaced).2 isType)]
          rfl
        rw [spelled]
        -- the spelling of a qualifier is no name itself
        refine ⟨by decide, fun isType' => ?_⟩
        have other := userDefined.userDefined _ isType'
        exact absurd other (by decide)

/-! ## Whole texts -/

/-- A text of separators, words and references, and the text with all its references spelled out.
References and words are kept apart by separators.  A word is no type; a reference is a name with
qualifiers before it, and the name has a type of elementary leaves. -/
inductive Spells (r : Registry) : Text → Text → Prop where
  | nothing : Spells r [] []
  | separator {c : Char} {s t : Text} (separates : isReferenceMember c = false) (behind : Spells r s t) :
    Spells r (c :: s) (c :: t)
  | word {letters s t : Text} (isWord : ∀ c ∈ letters, Identifier.isMember c = true)
    (unknown : letters ∉ r.typeNames) (edge : ∀ c ∈ s.head?, isReferenceMember c = false)
    (behind : Spells r s t) : Spells r (letters ++ s) (letters ++ t)
  | reference {qualifiers : List Text} {name s t : Text} {type : Descriptor}
    (isName : name ∈ r.typeNames) (describes : r.describe name = .ok type)
    (elementary : ∀ leaf ∈ type.leaves, leaf.isElementary = true)
    (qualified : ∀ q ∈ qualifiers, r.IsQualifier q)
    (edge : ∀ c ∈ s.head?, isReferenceMember c = false) (behind : Spells r s t) :
    Spells r (dotted (qualifiers ++ [name]) ++ s) (type.canonical ++ t)

/-- Substitution replaces the references of a text as a whole and leaves everything else as it is, whatever
the names are and however long. -/
theorem substitute_eq_of_spells (userDefined : AreUserDefined r.typeNames) {s t : Text}
    (spells : r.Spells s t) : r.substitute s = .ok t := by
  unfold substitute
  induction spells with
  | nothing => exact foldlM_substituteName_self fun _ _ => refersTo_nil
  | separator separates behind ih => exact foldlM_substituteName_cons separates ih
  | word isWord unknown edge behind ih =>
    refine foldlM_substituteName_append edge (foldlM_substituteName_self fun name isName => ?_) ih
    exact refersTo_of_ne isWord fun same => unknown (same ▸ isName)
  | reference isName describes elementary qualified edge behind ih =>
    have free := refersTo_canonical_of_describe userDefined describes elementary
    exact foldlM_substituteName_append edge (foldlM_substituteName_dotted userDefined (fun _ => id)
      isName describes free qualified) ih

/-- One name is the start of another, and a qualifier is a type itself. -/
theorem substitute_qualified_prefix :
    let r := ofSource "interface I\x7bstruct P0\x7buint8 x;\x7d\x7dstruct P\x7bI.P0 a;\x7d".toList
    let text := "P[] a, I.P0".toList
    let replaced := "((uint8))[] a, (uint8)".toList
    AreUserDefined r.typeNames ∧ r.Spells text replaced ∧ r.substitute text = .ok replaced := by
  intro r text replaced
  have userDefined : AreUserDefined r.typeNames := by
    have others : ∀ name ∈ r.typeNames,
        isElementary name = false ∧ "mapping".toList ≠ name ∧ "tuple".toList ≠ name := by
      intro name member
      rw [typeNames, List.mem_mergeSort] at member
      revert name
      decide +kernel
    exact ⟨(isDiscovered_ofSource _).isIdentifier, fun name isName => (others name isName).1,
      fun isName => (others _ isName).2.1 rfl, fun isName => (others _ isName).2.2 rfl⟩
  let inner : Descriptor := .tuple "P0".toList [("x".toList, .primitive "uint8".toList)]
  let outer : Descriptor := .tuple "P".toList [("a".toList, inner)]
  have describesInner : r.describe "P0".toList = .ok inner := by decide +kernel
  have describesOuter : r.describe "P".toList = .ok outer := by decide +kernel
  have isName : ∀ name ∈ ["P0".toList, "P".toList], name ∈ r.typeNames := by
    intro name member
    rw [mem_typeNames_iff]
    revert name
    decide +kernel
  have isWord : "a".toList ∉ r.typeNames := by
    rw [mem_typeNames_iff]
    decide +kernel
  have elementary : ∀ d ∈ [inner, outer], ∀ leaf ∈ d.leaves, leaf.isElementary = true := by
    decide +kernel
  have qualified : ∀ q ∈ ["I".toList], r.IsQualifier q := by
    rw [List.forall_mem_singleton]
    exact ⟨by decide, fun _ => by decide +kernel⟩
  have spells : r.Spells
      (dotted ([] ++ ["P".toList]) ++ '[' :: ']' :: ' ' :: ("a".toList ++ ',' :: ' ' ::
        (dotted (["I".toList] ++ ["P0".toList]) ++ [])))
      (outer.canonical ++ '[' :: ']' :: ' ' :: ("a".toList ++ ',' :: ' ' :: (inner.canonical ++ []))) := by
    have edge : ∀ {c : Char} {s : Text}, isReferenceMember c = false →
        ∀ d ∈ (c :: s).head?, isReferenceMember d = false := fun other d first => by
      cases first
      exact other
    refine .reference (isName _ (by decide)) describesOuter (elementary _ (by simp))
      (fun _ isQualifier => nomatch isQualifier) (edge (by decide)) ?_
    refine .separator (by decide) (.separator (by decide) (.separator (by decide) ?_))
    refine .word (List.all_eq_true.1 (by decide)) isWord (edge (by decide))
      (.separator (by decide) (.separator (by decide) ?_))
    exact .reference (isName _ (by decide)) describesInner (elementary _ (by simp)) qualified
      (fun _ first => nomatch first) .nothing
  have isText : text = dotted ([] ++ ["P".toList]) ++ '[' :: ']' :: ' ' :: ("a".toList ++ ',' :: ' ' ::
      (dotted (["I".toList] ++ ["P0".toList]) ++ [])) := by decide +kernel
  have isReplaced : replaced = outer.canonical ++ '[' :: ']' :: ' ' :: ("a".toList ++ ',' :: ' ' ::
      (inner.canonical ++ [])) := by decide +kernel
  rw [isText, isReplaced]
  exact ⟨userDefined, spells, substitute_eq_of_spells userDefined spells⟩

end Registry

end ContractInterface
