import ContractInterface.Proofs.ElementaryTypes
import ContractInterface.Proofs.FlattenedTypes
import ContractInterface.Proofs.GetterShapes
import ContractInterface.Proofs.SimultaneousSubstitution
import ContractInterface.Proofs.UndefinedNames

/-! # Reading the spelling of a descriptor again

A descriptor of arrays, mappings and elementary types is spelled in a description as source code would spell it.
Reading that spelling takes it apart where it was put together: an array in front of its dimensions
(`IsReadable.ofText_array`), a mapping at its arrow and at those of the mappings in its value
(`IsReadable.ofText_mapping`).  So resolving it gives the descriptor back (`describe_abiType`).

The descriptor has to be flattened for this, as what resolution gives is: in the spelling of a mapping to an array of
mappings the dimensions of that array would be lost.
-/

namespace ContractInterface

open Text TypeSyntax Delimiter

/-! ## Texts that stay as they are -/

/-- A text in which there is nothing to normalize, but perhaps for blanks at its ends. -/
structure IsSettled (s : Text) : Prop where
  unlocated : blankStorage s = s
  unpaid : plainAddress s = s
  collapsed : collapsed s = s

namespace IsSettled

variable {s t : Text}

theorem nil : IsSettled [] :=
  ⟨blankStorage_nil, plainAddress_nil, rfl⟩

theorem append_cons {c : Char} (visible : isBlank c = false) (plain : isWordChar c = false) (left : IsSettled s)
    (right : IsSettled t) : IsSettled (s ++ c :: t) where
  unlocated := by rw [blankStorage_append_cons plain, left.unlocated, right.unlocated]
  unpaid := by rw [plainAddress_append_cons visible plain, left.unpaid, right.unpaid]
  collapsed := by rw [collapsed_append_cons visible, left.collapsed, right.collapsed]

theorem cons {c : Char} (visible : isBlank c = false) (plain : isWordChar c = false) (settled : IsSettled t) :
    IsSettled (c :: t) :=
  nil.append_cons visible plain settled

theorem append_space (settled : IsSettled s) (last : ∀ c ∈ s.getLast?, isBlank c = false) :
    IsSettled (s ++ [' ']) where
  unlocated := by rw [blankStorage_append_cons (by decide), settled.unlocated, blankStorage_nil]
  unpaid := by
    have space : plainAddress [' '] = [' '] := by rw [plainAddress_cons (by decide), plainAddress_nil]
    rw [plainAddress_append (startsNoWord_of_blanks blanks_space).isUnpaid, settled.unpaid, space]
  collapsed := by
    rw [collapsed_append_of_last last, settled.collapsed]
    rfl

theorem space_cons (settled : IsSettled s) (first : ∀ c ∈ s.head?, isBlank c = false) : IsSettled (' ' :: s) where
  unlocated := by rw [blankStorage_cons (by decide), settled.unlocated]
  unpaid := by rw [plainAddress_cons (by decide), settled.unpaid]
  collapsed := by rw [collapsed_of_isBlank (by decide), trimStart_of_first first, settled.collapsed]

theorem of_isPlainWord {word : Text} (plain : IsPlainWord word) : IsSettled word where
  unlocated := plain.blankStorage_eq
  unpaid := plain.plainAddress_eq
  collapsed := collapsed_solid fun _ member => noBlank_isWordChar.visible (plain.letters _ member)

theorem sizeText (length : Option Nat) : IsSettled (sizeText length) where
  unlocated := blankStorage_sizeText length
  unpaid := plainAddress_sizeText length
  collapsed := collapsed_solid (isSolid_sizeText length)

theorem append_dimension (settled : IsSettled s) (length : Option Nat) :
    IsSettled (s ++ Descriptor.dimension length) := by
  rw [dimension_eq_bracketed, bracketed, List.cons_append]
  exact settled.append_cons (by decide) (by decide) ((sizeText length).append_cons (by decide) (by decide) nil)

theorem normalized_eq (settled : IsSettled s) (trimmed : IsTrimmed s) : normalized s = s := by
  rw [normalized_of_unlocated trimmed settled.unlocated, settled.collapsed, settled.unpaid]

end IsSettled

/-! ## Spellings of mappings -/

theorem mappingSpelling_eq (key value : Text) :
    Descriptor.mappingSpelling key value = Mapping.written [] (key ++ [' ']) (' ' :: value) := by
  have start : "mapping(".toList = "mapping".toList ++ ['('] := rfl
  have arrow : " => ".toList = [' '] ++ (Mapping.arrow ++ [' ']) := rfl
  unfold Descriptor.mappingSpelling Mapping.written Mapping.head
  rw [start, arrow]
  generalize "mapping".toList = word
  simp only [List.append_assoc, List.cons_append, List.nil_append]

namespace IsSettled

/-- A mapping is settled if its key and its value are. -/
theorem mappingSpelling {key value : Text} (left : IsSettled key) (right : IsSettled value)
    (last : ∀ c ∈ key.getLast?, isBlank c = false) (first : ∀ c ∈ value.head?, isBlank c = false) :
    IsSettled (Descriptor.mappingSpelling key value) := by
  have whole : Descriptor.mappingSpelling key value =
      "mapping".toList ++ '(' :: ((key ++ [' ']) ++ '=' :: '>' :: ((' ' :: value) ++ ')' :: [])) := by
    have arrow : Mapping.arrow = ['=', '>'] := rfl
    rw [mappingSpelling_eq, Mapping.written, arrow]
    unfold Mapping.head
    generalize "mapping".toList = word
    simp only [List.append_assoc, List.cons_append, List.nil_append, List.append_nil]
  have behind := (right.space_cons first).append_cons (c := ')') (by decide) (by decide) nil
  have inner := (left.append_space last).append_cons (c := '=') (by decide) (by decide)
    (behind.cons (c := '>') (by decide) (by decide))
  rw [whole]
  exact (of_isPlainWord (by decide +kernel)).append_cons (by decide) (by decide) inner

end IsSettled

namespace TypeSyntax.Mapping

namespace IsPassed

theorem append {s t : Text} (left : IsPassed s) (right : IsPassed t) : IsPassed (s ++ t) where
  balanced := left.balanced.append right.balanced
  noArrow depth inside u := by
    rw [List.append_assoc, left.noArrow depth inside, right.noArrow depth inside, Option.map_map, List.length_append]
    congr 1
    funext place
    exact (Nat.add_assoc _ _ _).symm

/-- A scan inside a mapping passes over another mapping. -/
theorem written {gap left right : Text} (blanks : Blanks gap) (passedLeft : IsPassed left)
    (passedRight : IsPassed right) : IsPassed (written gap left right) where
  balanced := IsWritten.isBalanced_written ⟨blanks, passedLeft, passedRight.balanced⟩
  noArrow depth inside t := by
    have isArrow : arrow = ['=', '>'] := rfl
    have step : ∀ (c : Char) (depth : Int) (s : Text), c ≠ '=' → 0 ≤ depth + parenStep c →
        findAtDepth? arrow 1 depth (c :: s) = (findAtDepth? arrow 1 (depth + parenStep c) s).map (· + 1) := by
      intro c depth s other goesOn
      have absent : ¬ (depth + parenStep c = 1 ∧ startsWith arrow (c :: s) = true) := fun here => by
        have starts := startsWith_arrow_cons c s
        rw [here.2] at starts
        simp [Ne.symm other] at starts
      rw [findAtDepth?, if_neg (Int.not_lt.2 goesOn), if_neg absent]
    have opens : parenStep '(' = 1 := by decide
    have closes : parenStep ')' = -1 := by decide
    have deeper : 0 < depth + 1 := by omega
    -- inside the parentheses the arrow is at another depth
    have overArrow : ∀ s, findAtDepth? arrow 1 (depth + 1) (arrow ++ s) =
        (findAtDepth? arrow 1 (depth + 1) s).map (arrow.length + ·) := by
      intro s
      rw [isArrow]
      have steps : ∀ c ∈ ['=', '>'], parenStep c = 0 :=
        List.forall_mem_cons.2 ⟨by decide, List.forall_mem_singleton.2 (by decide)⟩
      exact findAtDepth?_append_of_flat (Int.le_of_lt deeper) steps (fun same => by omega) s
    rw [written_append, (isFlat_head blanks).isPassed.noArrow depth inside, step '(' _ _ (by decide) (by omega), opens,
      List.append_assoc, List.append_assoc, passedLeft.noArrow _ deeper, overArrow,
      passedRight.noArrow _ deeper, step ')' _ _ (by decide) (by omega), closes, Int.add_neg_cancel_right]
    simp only [Option.map_map, length_written, isArrow, List.length_cons, List.length_nil]
    congr 1
    funext place
    simp only [Function.comp_apply]
    omega

end IsPassed

theorem isPassed_space : IsPassed [' '] :=
  (isFlat_of_blanks blanks_space).isPassed

end TypeSyntax.Mapping

/-! ## Descriptors that can be read again -/

namespace Descriptor

/-- A descriptor of arrays, mappings and the full names of elementary types, with mappings as flat as reading makes
them. -/
inductive IsReadable : Descriptor → Prop
  | primitive {name : Text} (isName : isElementaryName name = true) (isFull : canonicalName name = name) :
      IsReadable (.primitive name)
  | array {element : Descriptor} {length : Option Nat} (readable : IsReadable element)
      (reads : arrayLength (sizeText length) = .ok length) : IsReadable (.array element length)
  | mapping {key value : Descriptor} (readableKey : IsReadable key) (readableValue : IsReadable value)
      (flattened : value.isMapping = true ∨ value.base.isMapping = false) : IsReadable (.mapping key value)

/-- The lengths of an array, the innermost first. -/
def outerLengths : Descriptor → List (Option Nat)
  | .array element length => element.outerLengths ++ [length]
  | _ => []

theorem foldl_array_base : ∀ d : Descriptor, d.outerLengths.foldl .array d.base = d
  | .array element length => by
    rw [outerLengths, base, List.foldl_append, foldl_array_base element]
    rfl
  | .primitive _ => rfl
  | .unresolved _ => rfl
  | .mapping _ _ => rfl
  | .tuple _ _ => rfl
  | .unspecified => rfl

theorem abiType_foldl_array (d : Descriptor) (lengths : List (Option Nat)) :
    (lengths.foldl .array d).abiType = d.abiType ++ brackets lengths := by
  induction lengths generalizing d with
  | nil => exact (List.append_nil _).symm
  | cons length lengths ih =>
    rw [List.foldl_cons, ih, abiType, List.append_assoc]
    rfl

theorem abiType_eq_append (d : Descriptor) : d.abiType = d.base.abiType ++ brackets d.outerLengths := by
  rw [← abiType_foldl_array, foldl_array_base]

/-- A dimension is spelled as it may stand behind any type. -/
theorem isDimension_dimension (length : Option Nat) : Getter.IsDimension (sizeText length) (dimension length) := by
  have members : ∀ c ∈ sizeText length, Identifier.isMember c = true := fun c member =>
    isMember_of_isWordChar (isWordChar_of_mem_sizeText member)
  have whole := Getter.IsDimension.intro blanks_nil blanks_nil members blanks_nil
  simpa only [dimension_eq_bracketed, bracketed, List.nil_append, List.append_nil, List.cons_append] using whole

theorem isSolid_dimension (length : Option Nat) : IsSolid (dimension length) := by
  have solid := isSolid_brackets [length]
  rwa [brackets, List.flatMap_singleton] at solid

namespace IsReadable

variable {d : Descriptor}

theorem isTrimmed (readable : d.IsReadable) : IsTrimmed d.abiType ∧ d.abiType ≠ [] := by
  induction readable with
  | primitive isName isFull =>
    have plain := isPlainWord_of_isElementaryName isName (ne_addressPayable isFull)
    have solid : IsSolid _ := fun c member => noBlank_isWordChar.visible (plain.letters c member)
    exact ⟨solid.isTrimmed, plain.nonempty⟩
  | @array element length _ _ ih =>
    refine ⟨⟨ih.1.first_append ih.2 _, fun c last => ?_⟩, List.append_ne_nil_of_left_ne_nil ih.2 _⟩
    rw [abiType, dimension_eq_bracketed, bracketed, ← List.append_assoc, List.getLast?_concat] at last
    cases last
    decide
  | mapping =>
    rw [abiType, mappingSpelling_eq]
    exact ⟨Mapping.isTrimmed_written .., by simp [Mapping.written]⟩

theorem isSettled (readable : d.IsReadable) : IsSettled d.abiType := by
  induction readable with
  | primitive isName isFull =>
    exact .of_isPlainWord (isPlainWord_of_isElementaryName isName (ne_addressPayable isFull))
  | array _ _ ih => exact ih.append_dimension _
  | mapping readableKey readableValue _ ihKey ihValue =>
    exact ihKey.mappingSpelling ihValue readableKey.isTrimmed.1.last readableValue.isTrimmed.1.first

theorem normalized_eq (readable : d.IsReadable) : normalized d.abiType = d.abiType :=
  readable.isSettled.normalized_eq readable.isTrimmed.1

theorem isPassed (readable : d.IsReadable) : Mapping.IsPassed d.abiType := by
  induction readable with
  | primitive isName isFull =>
    have plain := isPlainWord_of_isElementaryName isName (ne_addressPayable isFull)
    exact (Mapping.isFlat_of_isIdentifier plain.identifier).isPassed
  | @array _ length _ _ ih => exact ih.append (isDimension_dimension length).isFlat.isPassed
  | mapping _ _ _ ihKey ihValue =>
    rw [abiType, mappingSpelling_eq]
    exact Mapping.IsPassed.written blanks_nil (ihKey.append Mapping.isPassed_space)
      (Mapping.isPassed_space.append ihValue)

theorem isWritten {key value : Descriptor} (readableKey : key.IsReadable) (readableValue : value.IsReadable) :
    Mapping.IsWritten [] (key.abiType ++ [' ']) (' ' :: value.abiType) := by
  exact ⟨blanks_nil, readableKey.isPassed.append Mapping.isPassed_space,
    (Mapping.isPassed_space.append readableValue.isPassed).balanced⟩

/-- Without a mapping a type is spelled without blanks and parentheses. -/
theorem isPlain (readable : d.IsReadable) (noMapping : d.base.isMapping = false) : Mapping.IsPlain d.abiType := by
  induction readable with
  | primitive isName isFull =>
    have plain := isPlainWord_of_isElementaryName isName (ne_addressPayable isFull)
    exact ⟨plain.nonempty, fun c member => noBlank_isWordChar.visible (plain.letters c member),
      Mapping.isFlat_of_isIdentifier plain.identifier⟩
  | @array element length _ _ ih =>
    obtain ⟨nonempty, solid, flat⟩ := ih noMapping
    refine ⟨List.append_ne_nil_of_left_ne_nil nonempty _, fun c member => ?_,
      flat.append (isDimension_dimension length).isFlat⟩
    exact (List.mem_append.1 member).elim (solid c) (isSolid_dimension length c)
  | mapping => cases noMapping

theorem isMapping_append (readable : d.IsReadable) (mapping : d.base.isMapping = true) (t : Text) :
    TypeSyntax.isMapping (d.abiType ++ t) = true := by
  induction readable generalizing t with
  | primitive => cases mapping
  | array _ _ ih =>
    rw [abiType, List.append_assoc]
    exact ih mapping _
  | mapping =>
    rw [abiType, mappingSpelling_eq]
    exact Mapping.isMapping_written_append blanks_nil ..

/-- A type is no name of a key or value. -/
theorem withoutName_eq (readable : d.IsReadable) {s : Text} (same : trim s = d.abiType) :
    Mapping.withoutName s = d.abiType := by
  have trimmed := readable.isTrimmed.1.trim_eq
  rw [Mapping.withoutName_of_trim_eq (same.trans trimmed.symm)]
  cases mapping : d.base.isMapping with
  | false =>
    exact Mapping.withoutName_of_solid (readable.isPlain mapping).solid (readable.isPlain mapping).flat.noOpen
  | true =>
    have isMapping_ := readable.isMapping_append mapping []
    rw [List.append_nil] at isMapping_
    unfold Mapping.withoutName
    simp only [trimmed, isMapping_, if_true]

/-- Around a type without mappings nothing is taken for one. -/
theorem noOpen_around (readable : d.IsReadable) (noMapping : d.base.isMapping = false) {before behind : Text}
    (before_blanks : Blanks before) (noOpen : '(' ∉ behind) : '(' ∉ before ++ d.abiType ++ behind := by
  simp only [List.mem_append, not_or]
  exact ⟨⟨(Mapping.isFlat_of_blanks before_blanks).noOpen, (readable.isPlain noMapping).flat.noOpen⟩, noOpen⟩

/-! ### Mappings -/

/-- The keys of a mapping and of the mappings in its value are found, whatever stands between and behind them. -/
theorem keys_around (readable : d.IsReadable) (flattened : d.isMapping = true ∨ d.base.isMapping = false)
    {before behind : Text} (before_blanks : Blanks before) (noOpen : '(' ∉ behind) :
    Mapping.keys (before ++ d.abiType ++ behind) = d.keys.map abiType := by
  induction readable generalizing before behind with
  | primitive isName isFull =>
    exact Mapping.keys_of_noOpen ((IsReadable.primitive isName isFull).noOpen_around rfl before_blanks noOpen)
  | array readable reads _ =>
    have noMapping := flattened.resolve_left Bool.false_ne_true
    exact Mapping.keys_of_noOpen ((readable.array reads).noOpen_around noMapping before_blanks noOpen)
  | @mapping key value readableKey readableValue flattenedValue _ ihValue =>
    have isKey : trim (key.abiType ++ [' ']) = key.abiType := by
      rw [trim_append_blanks blanks_space, readableKey.isTrimmed.1.trim_eq]
    have noOpen' : '(' ∉ ')' :: trimEnd behind := fun member =>
      noOpen (trimEnd_subset behind ((List.mem_cons.1 member).resolve_left (by decide)))
    have others := ihValue flattenedValue blanks_space noOpen'
    rw [abiType, mappingSpelling_eq, List.append_assoc, Mapping.keys_of_trim_eq (trim_blanks_append before_blanks _),
      (readableKey.isWritten readableValue).keys_append, readableKey.withoutName_eq isKey]
    exact congrArg (key.abiType :: ·) others

theorem finalValue_abiType (readable : d.IsReadable) (flattened : d.isMapping = true ∨ d.base.isMapping = false) :
    Mapping.finalValue d.abiType = d.finalValue.abiType := by
  have plain {d : Descriptor} (readable : d.IsReadable) (noMapping : d.base.isMapping = false) :
      Mapping.finalValue d.abiType = d.abiType := by
    rw [Mapping.finalValue_of_noOpen (readable.isPlain noMapping).flat.noOpen, readable.isTrimmed.1.trim_eq]
  induction readable with
  | primitive isName isFull => exact plain (.primitive isName isFull) rfl
  | array readable reads _ => exact plain (readable.array reads) (flattened.resolve_left Bool.false_ne_true)
  | @mapping key value readableKey readableValue flattenedValue _ ihValue =>
    have isValue : trim (' ' :: value.abiType) = value.abiType := by
      rw [← List.singleton_append, trim_blanks_append blanks_space,
        readableValue.isTrimmed.1.trim_eq]
    have whole := (readableKey.isWritten readableValue).finalValue_append (List.cons_ne_nil _ _) []
    rw [List.append_nil, readableValue.withoutName_eq isValue] at whole
    rw [abiType, mappingSpelling_eq, whole, ihValue flattenedValue]
    rfl

/-! ### Arrays -/

theorem base (readable : d.IsReadable) : d.base.IsReadable := by
  induction readable with
  | primitive isName isFull => exact .primitive isName isFull
  | array _ _ ih => exact ih
  | mapping readableKey readableValue flattened _ _ => exact .mapping readableKey readableValue flattened

theorem arrayLength_of_mem_outerLengths (readable : d.IsReadable) :
    ∀ length ∈ d.outerLengths, arrayLength (sizeText length) = .ok length := by
  induction readable with
  | primitive => exact fun _ member => nomatch member
  | array _ reads ih => exact List.forall_mem_append.2 ⟨ih, List.forall_mem_singleton.2 reads⟩
  | mapping => exact fun _ member => nomatch member

theorem last_base (readable : d.IsReadable) : ∀ c ∈ d.base.abiType.getLast?, c ≠ ']' := by
  induction readable with
  | primitive isName isFull =>
    rintro c last rfl
    have letters := isWordChar_of_isElementaryName isName (ne_addressPayable isFull)
    exact absurd (letters ']' (List.mem_of_mem_getLast? last)) (by decide)
  | array _ _ ih => exact ih
  | @mapping key value =>
    intro c last
    change c ∈ (Descriptor.mapping key value).abiType.getLast? at last
    rw [abiType, mappingSpelling_eq, Mapping.getLast?_written] at last
    cases last
    decide

/-- An array is split at its last mapping or name. -/
theorem splitTrailing_abiType (readable : d.IsReadable) :
    Dimension.splitTrailing d.abiType = (d.base.abiType, d.outerLengths.map sizeText) := by
  rw [abiType_eq_append]
  obtain ⟨starts, ends⟩ := readable.base.isTrimmed
  exact splitTrailing_append_brackets ends starts readable.last_base d.outerLengths

theorem ofText_array (readable : d.IsReadable) (sized : d.outerLengths ≠ []) :
    Expr.ofText d.abiType = .array (Expr.ofText d.base.abiType) (d.outerLengths.map sizeText) := by
  have split := readable.splitTrailing_abiType
  have sized' : (Dimension.splitTrailing (normalized d.abiType)).2 ≠ [] := by
    rw [readable.normalized_eq, split]
    simpa using sized
  rw [Expr.ofText_array sized', readable.normalized_eq, split]

/-- A mapping is read key by key, through the mappings in its value. -/
theorem ofText_eq_foldr (readable : d.IsReadable) (flattened : d.isMapping = true ∨ d.base.isMapping = false) :
    Expr.ofText d.abiType = (d.keys.map abiType).foldr (fun key value => .mapping (Expr.ofText key) value)
      (Expr.ofText d.finalValue.abiType) := by
  cases readable with
  | primitive => rfl
  | array => rfl
  | @mapping key value readableKey readableValue flattenedValue =>
    have whole : (Descriptor.mapping key value).IsReadable := .mapping readableKey readableValue flattenedValue
    have same := whole.normalized_eq
    have keys := whole.keys_around flattened blanks_nil List.not_mem_nil
    have final := whole.finalValue_abiType flattened
    have isMapping_ := whole.isMapping_append rfl []
    have shorter := (readableKey.isWritten readableValue).length_finalValue_lt (List.cons_ne_nil _ _)
    rw [← mappingSpelling_eq, ← abiType, final] at shorter
    rw [List.nil_append, List.append_nil] at keys
    rw [List.append_nil] at isMapping_
    have unsized : (Dimension.splitTrailing (normalized (Descriptor.mapping key value).abiType)).2 = [] := by
      rw [same, whole.splitTrailing_abiType]
      rfl
    rw [Expr.ofText_mapping unsized (by rwa [same]) (by rw [same, keys]; exact List.cons_ne_nil _ _), same, keys,
      final, if_pos shorter]

theorem ofText_mapping {key value : Descriptor} (readableKey : key.IsReadable) (readableValue : value.IsReadable)
    (flattened : value.isMapping = true ∨ value.base.isMapping = false) :
    Expr.ofText (Descriptor.mapping key value).abiType =
      .mapping (Expr.ofText key.abiType) (Expr.ofText value.abiType) := by
  rw [ofText_eq_foldr (.mapping readableKey readableValue flattened) (.inl rfl),
    ofText_eq_foldr readableValue flattened]
  rfl

/-! ### Resolving -/

section Resolving

variable {resolve : Text → Except ResolutionError Descriptor}

theorem resolveWith_of_base (readable : d.IsReadable)
    (resolves : (Expr.ofText d.base.abiType).resolveWith resolve = .ok d.base) :
    (Expr.ofText d.abiType).resolveWith resolve = .ok d := by
  by_cases sized : d.outerLengths = []
  · have same := d.foldl_array_base
    rw [sized, List.foldl_nil] at same
    rwa [same] at resolves
  · have reads : (d.outerLengths.map sizeText).mapM arrayLength = .ok d.outerLengths := by
      rw [mapM_eq_ok_iff, List.map_map]
      exact List.map_congr_left readable.arrayLength_of_mem_outerLengths
    rw [readable.ofText_array sized]
    exact Expr.resolveWith_array_eq_ok_iff.2 ⟨d.outerLengths, d.base, reads, resolves, d.foldl_array_base⟩

/-- Where the names of elementary types stand for themselves, the spelling of a type is resolved to the type. -/
theorem resolveWith_abiType (readable : d.IsReadable)
    (names : ∀ name, isElementaryName name = true → canonicalName name = name →
      resolve name = .ok (.primitive name)) :
    (Expr.ofText d.abiType).resolveWith resolve = .ok d := by
  refine readable.resolveWith_of_base ?_
  induction readable with
  | @primitive name isName isFull =>
    have plain : ∀ part ∈ [name], IsPlainWord part :=
      List.forall_mem_singleton.2 (isPlainWord_of_isElementaryName isName (ne_addressPayable isFull))
    have isText := ofText_typeText (List.cons_ne_nil name []) plain []
    unfold typeText at isText
    rw [brackets_nil, List.append_nil, Registry.dotted_singleton, if_pos rfl] at isText
    change (Expr.ofText name).resolveWith resolve = .ok (.primitive name)
    rw [isText]
    exact names name isName isFull
  | array _ _ ih => exact ih
  | @mapping key value readableKey readableValue flattened ihKey ihValue =>
    change (Expr.ofText (Descriptor.mapping key value).abiType).resolveWith resolve = .ok (.mapping key value)
    rw [ofText_mapping readableKey readableValue flattened]
    exact Expr.resolveWith_mapping_eq_ok_iff.2
      ⟨_, _, readableKey.resolveWith_of_base ihKey, readableValue.resolveWith_of_base ihValue, rfl⟩

end Resolving

end IsReadable

/-- Whether there is no struct in a type. -/
def isTupleFree : Descriptor → Bool
  | .array element _ => element.isTupleFree
  | .mapping key value => key.isTupleFree && value.isTupleFree
  | .tuple _ _ => false
  | _ => true

/-- A flattened type without structs can be read again if it ends in elementary types. -/
theorem isReadable_of_leaves : ∀ {d : Descriptor}, d.IsFlattened → d.isTupleFree = true →
    (∀ leaf ∈ d.leaves, ∃ name, leaf = .primitive name ∧ isElementaryName name = true ∧ canonicalName name = name) →
      d.IsReadable
  | .primitive _, _, _, leaves => by
    obtain ⟨_, ⟨⟩, isName, isFull⟩ := leaves _ List.mem_cons_self
    exact .primitive isName isFull
  | .array _ _, flattened, tupleFree, leaves =>
    .array (isReadable_of_leaves flattened.1 tupleFree leaves) flattened.2
  | .mapping _ _, flattened, tupleFree, leaves =>
    have both := Bool.and_eq_true_iff.1 tupleFree
    .mapping
      (isReadable_of_leaves flattened.1 both.1 fun leaf isLeaf => leaves leaf (List.mem_append_left _ isLeaf))
      (isReadable_of_leaves flattened.2.1 both.2 fun leaf isLeaf => leaves leaf (List.mem_append_right _ isLeaf))
      flattened.2.2
  | .unresolved _, _, _, leaves => nomatch leaves _ List.mem_cons_self
  | .tuple _ _, _, tupleFree, _ => nomatch tupleFree
  | .unspecified, _, _, leaves => nomatch leaves _ List.mem_cons_self

end Descriptor

/-! ## Descriptions -/

namespace Registry

variable {r : Registry}

/-- The full name of an elementary type stands for itself, unless something else is called so. -/
theorem resolveName_of_isElementaryName {name : Text} (isName : isElementaryName name = true)
    (isFull : canonicalName name = name) (free : name ∉ r.typeNames) (visiting : List Text) :
    r.resolveName visiting name = .ok (.primitive name) := by
  have other := ne_addressPayable isFull
  have plain : ∀ part ∈ [] ++ [name], IsPlainWord part :=
    List.forall_mem_singleton.2 (isPlainWord_of_isElementaryName isName other)
  have self := unqualified_dotted plain
  rw [List.nil_append, dotted_singleton] at self
  have isUndefined : r.definition? (unqualified name) = none := by
    rw [self]
    exact not_not.1 fun isDefined => free (mem_typeNames_iff.2 isDefined)
  rw [resolveName_of_undefined isUndefined (isCustom_of_isElementaryName isName other), isFull]

/-- What a type resolves to can be read again, if it has no struct in it and ends in elementary types. -/
theorem IsBuilt.isReadable_of_describe (built : r.IsBuilt) {type : Text} {d : Descriptor}
    (describes : r.describe type = .ok d) (resolved : d.isResolved = true) (tupleFree : d.isTupleFree = true)
    (elementary : ∀ name, .primitive name ∈ d.leaves → isElementary name = true) : d.IsReadable := by
  refine Descriptor.isReadable_of_leaves (built.isFlattened_of_describe describes) tupleFree fun leaf isLeaf => ?_
  obtain ⟨name, rfl⟩ : ∃ name, leaf = .primitive name := by
    obtain ⟨_, _, _, _, yields⟩ := exists_part_of_mem_leaves describes isLeaf
    have noneOpen (x : Text) : .unresolved x ∉ d.leaves := fun isOpen => by
      rw [← Descriptor.mem_unresolvedNames_iff, List.isEmpty_iff.1 resolved] at isOpen
      cases isOpen
    cases yields with
    | blank text => exact absurd isLeaf (noneOpen text)
    | «open» x => exact absurd isLeaf (noneOpen x)
    | _ => exact ⟨_, rfl⟩
  have isFull := canonicalName_of_mem_leaves describes isLeaf
  have isName := elementary name isLeaf
  rw [isElementary, ← isFull, spaced_canonicalName, isFull] at isName
  exact ⟨name, rfl, isName, isFull⟩

/-- Where no name of an elementary type is taken, describing the spelling of a type again gives the same type, however
arrays and mappings are nested in it. -/
theorem describe_abiType (built : r.IsBuilt) (apart : ∀ name ∈ r.typeNames, isElementary name = false) {type : Text}
    {d : Descriptor} (describes : r.describe type = .ok d) (resolved : d.isResolved = true)
    (tupleFree : d.isTupleFree = true) (elementary : ∀ name, .primitive name ∈ d.leaves → isElementary name = true) :
    r.describe d.abiType = .ok d := by
  have readable := built.isReadable_of_describe describes resolved tupleFree elementary
  refine readable.resolveWith_abiType fun name isName isFull => ?_
  refine resolveName_of_isElementaryName isName isFull (fun taken => ?_) []
  have solid := (isPlainWord_of_isElementaryName isName (ne_addressPayable isFull)).solid
  have notElementary := apart name taken
  rw [isElementary, spaced_solid solid, isName] at notElementary
  cases notElementary

/-- Mappings as keys, arrays as keys and as values, and names that stand for elementary types. -/
theorem describe_abiType_nested :
    let r := ofSource "enum Kind \x7b A, B \x7d type Price is uint128; contract Token \x7b \x7d".toList
    let type := "mapping(mapping(Token => uint) m => mapping(Kind[3] => Price[2][]))[7] storage".toList
    ∃ d, r.IsBuilt ∧ (∀ name ∈ r.typeNames, isElementary name = false) ∧ r.describe type = .ok d ∧
      d.isResolved = true ∧ d.isTupleFree = true ∧ (∀ name, .primitive name ∈ d.leaves → isElementary name = true) ∧
      d.abiType = "mapping(mapping(address => uint256) => mapping(uint8[3] => uint128[2][]))[7]".toList ∧
      r.describe d.abiType = .ok d := by
  intro r type
  let d : Descriptor := .array (.mapping (.mapping (.primitive "address".toList) (.primitive "uint256".toList))
    (.mapping (.array (.primitive "uint8".toList) (some 3))
      (.array (.array (.primitive "uint128".toList) (some 2)) none))) (some 7)
  have built : r.IsBuilt := .ofSource _
  have apart : ∀ name ∈ r.typeNames, isElementary name = false := by
    intro name member
    rw [typeNames, List.mem_mergeSort] at member
    revert name
    decide +kernel
  have describes : r.describe type = .ok d := by decide +kernel
  have elementary : ∀ leaf ∈ d.leaves, leaf.isElementary = true := by decide +kernel
  have elementary' : ∀ name, .primitive name ∈ d.leaves → isElementary name = true := fun name isLeaf =>
    elementary (.primitive name) isLeaf
  exact ⟨d, built, apart, describes, rfl, rfl, elementary', by decide +kernel,
    describe_abiType built apart describes rfl rfl elementary'⟩

end Registry

end ContractInterface
