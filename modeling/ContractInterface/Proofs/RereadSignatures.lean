import ContractInterface.Proofs.Blocks
import ContractInterface.Proofs.CanonicalSignatures
import ContractInterface.Proofs.Fields
import ContractInterface.Proofs.NormalizedTypes
import ContractInterface.Proofs.Segments

/-! # Reading signatures again

Whatever clause a type of a signature is read from, the type itself is a clause that is read as it stands: its names
are written out, its tuples are matched, and the sizes in it are words that are no storage locations
(`isSignatureType_of_canonicalParam`).  So a signature that was read is its own signature, and as the one line of a
text it gives an entry with the same selector (`reads_printed`).
-/

namespace ContractInterface

open Text TypeSyntax Delimiter

/-! ## Sizes in clauses -/

namespace TypeSyntax

/-- The sizes in a text without storage locations are none either. -/
theorem isPlainSize_of_mem_splitTrailing {s : Text} (unlocated : blankStorage s = s) :
    ∀ size ∈ (Dimension.splitTrailing s).2, IsPlainSize size := by
  intro size member
  have letters := Dimension.isWordChar_of_mem_splitTrailing member
  have stays := (IsPart.of_mem_splitTrailing member).blankStorage_eq unlocated
  refine ⟨letters, fun isPlace => ?_⟩
  have nonempty : size ≠ [] := (isWordChar_of_storageLocations size isPlace).1
  rw [blankStorage_word nonempty letters, if_pos isPlace] at stays
  have space := letters ' ' (stays ▸ List.mem_cons_self)
  exact absurd space (by decide)

theorem isPart_of_leadingType? {s type rest : Text} (found : Clause.leadingType? s = some (type, rest)) :
    IsPart type s := by
  cases s with
  | nil => cases found
  | cons c s =>
    rw [Clause.leadingType?] at found
    split at found
    · cases found
      refine ⟨[], s.dropWhile Clause.isTypeMember, by simp, by simp, fun d first => ?_⟩
      have stops := head?_dropWhile s d first
      refine Bool.eq_false_iff.2 fun word => ?_
      have isMember : Clause.isTypeMember d = true := by
        simp [Clause.isTypeMember, isMember_of_isWordChar word]
      rw [isMember] at stops
      cases stops
    · cases found

theorem isPart_of_plain? {s : Text} {clause : Clause} (found : Clause.plain? s = some clause) :
    IsPart clause.type s := by
  unfold Clause.plain? at found
  split at found
  · rename_i type isLeading
    cases found
    exact isPart_of_leadingType? isLeading
  · rename_i type c rest isLeading
    split at found
    · cases found
      exact isPart_of_leadingType? isLeading
    · cases found
  · cases found

/-- What is read for the type of a clause without mappings names no storage location. -/
theorem blankStorage_type {clause : Text} (trimmed : IsTrimmed clause) (noMapping : isMapping clause = false) :
    blankStorage (Clause.ofText clause).type = (Clause.ofText clause).type := by
  have noSplit : Mapping.split? (plainAddress clause) = none := by
    apply Mapping.split?_of_not_isMapping
    rw [(isTrimmed_plainAddress trimmed).trim_eq, isMapping_plainAddress, noMapping]
  have unlocated := Dimension.blankStorage_tightened (withoutStorage (plainAddress clause))
    (blankStorage_spaced (blankStorage_blankStorage _))
  unfold Clause.ofText
  simp only [trimmed.trim_eq, noSplit]
  generalize Dimension.tightened (withoutStorage (plainAddress clause)) = text at unlocated ⊢
  cases found : Clause.plain? text with
  | none => exact unlocated
  | some clause => exact (isPart_of_plain? found).blankStorage_eq unlocated

end TypeSyntax

/-! ## Types -/

namespace Signature

/-- What is neither a tuple nor a mapping is read as it is respaced. -/
theorem eq_of_clauseShape_plain {clause text : Text} (shape : clauseShape clause = .ok (.plain text)) :
    text = normalized clause ∧ isMapping text = false := by
  obtain ⟨noTuple, noMapping, rfl⟩ := clauseShape_eq_plain_iff.1 shape
  refine ⟨?_, noMapping⟩
  -- the word `tuple` is dropped in front of a parenthesis only
  unfold withoutTupleWord at noTuple ⊢
  split
  · rename_i rest isRest
    simp only [isRest] at noTuple
    split at noTuple
    · rename_i opens
      rw [opens] at noTuple
      cases noTuple
    · rename_i other
      rw [if_neg other]
  · rfl

theorem isSignatureType_of_canonicalPlain {clause text t : Text} (shape : clauseShape clause = .ok (.plain text))
    (reads : canonicalPlain text = .ok t) : IsSignatureType IsPlainSize IsDecimalWord t := by
  obtain ⟨isText, noMapping⟩ := eq_of_clauseShape_plain shape
  have trimmed : IsTrimmed text := isText ▸ isTrimmed_normalized clause
  unfold canonicalPlain at reads
  simp only at reads
  split at reads
  · rename_i elementary
    cases reads
    rw [← isElementary_canonicalName, isElementary, spaced_canonicalName] at elementary
    exact .elementary elementary (canonicalName_canonicalName _)
      (isPlainSize_of_mem_splitTrailing (blankStorage_type trimmed noMapping))
  · cases reads

/-- Whatever is read off a clause is the type of a signature. -/
theorem isSignatureType_of_canonicalParam (clause : Text) :
    ∀ t, canonicalParam clause = .ok t → IsSignatureType IsPlainSize IsDecimalWord t := by
  fun_induction canonicalParam clause with
  | case1 clause cause shape =>
    intro t reads
    cases reads
  | case2 clause text shape => exact fun t reads => isSignatureType_of_canonicalPlain shape reads
  | case3 clause parts suffix shape ih =>
    intro t reads
    obtain ⟨types, inner, whole⟩ := bind_eq_ok_iff.1 reads
    cases pure_eq_ok_iff.1 whole
    obtain ⟨sizes, rfl, decimal⟩ := exists_sizes_of_clauseShape shape
    refine .tuple (fun t member => ?_) decimal
    obtain ⟨part, _, readsPart⟩ := exists_of_mem_mapM inner member
    exact ih part t readsPart

theorem canonicalParam_eq_self {t : Text} (isType : IsSignatureType IsPlainSize IsDecimalWord t) :
    canonicalParam t = .ok t := by
  have reads := isType.canonicalParam_eq .nothing
  rwa [List.append_nil] at reads

/-! ## Signatures -/

section Spelled

variable {name : Text} (isName : Identifier.isIdentifier name = true) {types : List Text}
  (areTypes : ∀ t ∈ types, IsSignatureType IsPlainSize IsDecimalWord t)

theorem spell_eq_concat (name : Text) (types : List Text) :
    spell name types = (name ++ '(' :: joined [','] types) ++ [')'] := rfl

include isName areTypes

/-- A signature consists of members, brackets, parentheses and commas. -/
theorem chars_spell : ∀ c ∈ spell name types, Identifier.isMember c = true ∨ c ∈ "[](),".toList := by
  intro c member
  rw [spell_eq_concat] at member
  simp only [List.mem_append, List.mem_cons, List.not_mem_nil, or_false] at member
  rcases member with (inName | rfl | inTypes) | rfl
  · exact .inl (isMember_of_isIdentifier isName c inName)
  · exact .inr (by decide)
  · rcases mem_of_mem_joined inTypes with rfl | ⟨t, isType, inType⟩
    · exact .inr (by decide)
    · exact (areTypes t isType).isPlain.chars c inType
  · exact .inr (by decide)

/-- What holds of no member and of none of the marks holds of no character of a signature. -/
theorem forall_mem_spell {p : Char → Bool} (members : ∀ c, Identifier.isMember c = true → p c = false)
    (marks : ("[](),".toList.all fun c => !p c) = true) : ∀ c ∈ spell name types, p c = false := by
  intro c member
  rcases chars_spell isName areTypes c member with isMember | isMark
  · exact members c isMember
  · exact eq_false_of_all marks c isMark

theorem isSolid_spell : IsSolid (spell name types) :=
  forall_mem_spell isName areTypes (fun _ => isBlank_of_isMember) (by decide)

/-- A signature is its own statement. -/
theorem statementText_spell : statementText (spell name types) = spell name types := by
  have solid := isSolid_spell isName areTypes
  have kept : ((spell name types).reverse.dropWhile (· == ';')).reverse = spell name types := by
    conv_rhs => rw [← (spell name types).reverse_reverse]
    rw [spell_eq_concat, List.reverse_concat, List.dropWhile_cons_of_neg (by decide)]
  unfold statementText
  rw [spaced_solid solid, kept, solid.isTrimmed.trim_eq]

/-- A name and its parenthesis are read back, even if the name is the keyword. -/
theorem head?_spell : head? (spell name types) = some (name, '(' :: (joined [','] types ++ [')'])) := by
  have solid := isSolid_spell isName areTypes
  -- no blank follows, so `function` at the start is no keyword but the beginning of a name
  have noBlank {rest : Text} (isRest : after? "function".toList (spell name types) = some rest) :
      rest.head?.any isBlank = false := by
    cases rest with
    | nil => rfl
    | cons c rest =>
      have whole := after?_eq_some.1 isRest
      exact solid c (whole ▸ List.mem_append_right _ List.mem_cons_self)
  have edge : ∀ c ∈ ('(' :: (joined [','] types ++ [')'])).head?, Identifier.isMember c = false := by
    intro c first
    cases first
    decide
  have whole : spell name types = name ++ '(' :: (joined [','] types ++ [')']) := by
    simp [spell]
  have paren : trimStart ('(' :: (joined [','] types ++ [')'])) = '(' :: (joined [','] types ++ [')']) :=
    trimStart_of_first (by simp; decide)
  have opens : startsWith ['('] ('(' :: (joined [','] types ++ [')'])) = true := rfl
  have found : nameAndParen? (spell name types) = some (name, '(' :: (joined [','] types ++ [')'])) := by
    unfold nameAndParen?
    simp only [whole, leading?_identifier_append isName edge, paren, opens, if_true]
  unfold head?
  rw [found]
  split
  · rename_i rest isRest
    simp only [noBlank isRest, Bool.false_eq_true, if_false, Option.none_or]
  · rfl

/-- A signature in which no names are substituted is its own signature. -/
theorem ofDefinition_spell {registry : Option Registry}
    (same : substituteWith registry (joined [','] types) = .ok (joined [','] types)) :
    ofDefinition (spell name types) registry = .ok (spell name types) := by
  have plain : ∀ t ∈ types, IsSignatureType IsPlainSize IsPlainSize t := fun t member => (areTypes t member).isPlain
  have isList := parenthesised?_of_isBalanced (isBalanced_signatureTypes plain) (noQuote_joined plain)
  have isHead : head? (statementText (spell name types)) = some (name, '(' :: (joined [','] types ++ [')'])) := by
    rw [statementText_spell isName areTypes, head?_spell isName areTypes]
  have reads : (splitCommas (joined [','] types)).mapM canonicalParam = .ok types := by
    rw [splitCommas_signatureTypes plain, mapM_eq_ok_iff]
    exact List.map_congr_left fun t member => canonicalParam_eq_self (areTypes t member)
  exact ofDefinition_eq_ok_iff.2 ⟨name, _, _, _, _, types, isHead, isList, same, reads, rfl⟩

end Spelled

/-- A definition is read as a name with types in parentheses. -/
theorem exists_types_of_ofDefinition {definition s : Text} {registry : Option Registry}
    (renders : ofDefinition definition registry = .ok s) : ∃ name types, Identifier.isIdentifier name = true ∧
      (∀ t ∈ types, IsSignatureType IsPlainSize IsDecimalWord t) ∧ spell name types = s := by
  obtain ⟨name, _, _, _, _, types, isHead, _, _, reads, same⟩ := ofDefinition_eq_ok_iff.1 renders
  refine ⟨name, types, (head?_spec isHead).1, fun t member => ?_, same⟩
  obtain ⟨clause, _, readsClause⟩ := exists_of_mem_mapM reads member
  exact isSignatureType_of_canonicalParam clause t readsClause

end Signature

/-! ## Texts without blanks -/

section Solid

variable {s : Text} (solid : IsSolid s)

include solid

theorem afterBlanks?_solid : Identifier.afterBlanks? s = none := by
  cases s with
  | nil => rfl
  | cons c s =>
    unfold Identifier.afterBlanks?
    simp only [solid c List.mem_cons_self, Bool.false_eq_true, if_false]

/-- A reader that needs a blank behind its keyword finds nothing. -/
theorem locate_solid {α : Type} {isMember : Char → Bool} {read? : Text → Text → Option (α × Nat)}
    (needsBlank : ∀ word rest, IsSolid rest → read? word rest = none) : locate isMember read? s = [] := by
  refine List.eq_nil_iff_forall_not_mem.2 fun found member => ?_
  obtain ⟨front, run, rest, taken, rfl, _, isRead⟩ := exists_read_of_mem_locate member
  have solidRest : IsSolid rest := fun c inRest => solid c (List.mem_append_right _ (List.mem_append_right _ inRest))
  rw [needsBlank run rest solidRest] at isRead
  cases isRead

theorem functionHeads_solid : FunctionHead.ofText s = [] := by
  refine locate_solid solid fun word rest solidRest => ?_
  unfold FunctionHead.read? FunctionHead.ofWord?
  rw [afterBlanks?_solid solidRest]
  split <;> rfl

/-- A text without blanks defines no types. -/
theorem ofSource_solid : Registry.ofSource s = .empty := by
  have stripped : IsSolid (Comment.strip s) := fun c member => solid c ((Comment.strip_sublist s).subset member)
  have braced (keyword : Text) : locate isWordChar (Registry.readBracedHead? keyword) (Comment.strip s) = [] := by
    refine locate_solid stripped fun word rest solidRest => ?_
    unfold Registry.readBracedHead? Registry.bracedHead?
    rw [afterBlanks?_solid solidRest]
    split <;> rfl
  have aliases : locate isWordChar Registry.readAliasHead? (Comment.strip s) = [] := by
    refine locate_solid stripped fun word rest solidRest => ?_
    unfold Registry.readAliasHead? Registry.aliasHead?
    rw [afterBlanks?_solid solidRest]
    split <;> rfl
  have contracts : locate isWordChar Registry.readContractHead? (Comment.strip s) = [] := by
    refine locate_solid stripped fun word rest solidRest => ?_
    unfold Registry.readContractHead?
    rw [afterBlanks?_solid solidRest]
    cases Registry.contractKind? word <;> rfl
  unfold Registry.ofSource Registry.discover Registry.structDefinitions Registry.enumNames Registry.aliasDefinitions
    Registry.namesOfKind Registry.contractDefinitions
  simp only [braced, aliases, contracts]
  rfl

end Solid

/-- A text without slashes and quotes has no comments. -/
theorem strip_eq_self {s : Text} (plain : ∀ c ∈ s, c ≠ '/' ∧ Literal.isQuote c = false) : Comment.strip s = s := by
  induction s with
  | nil => rfl
  | cons c s ih =>
    obtain ⟨first, others⟩ := List.forall_mem_cons.1 plain
    have goesOn := Comment.stripFrom_code (Comment.startsComment_eq_false first.1 s) (by simp [first.2])
    rw [Comment.strip_eq_stripFrom, goesOn, ← Comment.strip_eq_stripFrom, ih others]

namespace Signature

/-! ## Lists of signatures -/

section Printed

variable {name : Text} (isName : Identifier.isIdentifier name = true) {types : List Text}
  (areTypes : ∀ t ∈ types, IsSignatureType IsPlainSize IsDecimalWord t)

include isName areTypes

/-- A signature holds nothing that starts a literal or a comment or that ends a statement or a line. -/
theorem plain_spell : ∀ c ∈ spell name types,
    Literal.isQuote c = false ∧ c ≠ '/' ∧ c ≠ '{' ∧ c ≠ '}' ∧ c ≠ ';' ∧ c ≠ '\n' := by
  intro c member
  rcases chars_spell isName areTypes c member with isMember | isMark
  · refine ⟨isQuote_of_isMember isMember, ?_, ?_, ?_, ?_, ?_⟩ <;>
      rintro rfl <;> exact absurd isMember (by decide)
  · have marks : c = '[' ∨ c = ']' ∨ c = '(' ∨ c = ')' ∨ c = ',' := by simpa using isMark
    rcases marks with rfl | rfl | rfl | rfl | rfl <;> decide

theorem statements_spell : Statement.ofText (spell name types) = [] := by
  have noSegments : Segment.ofText (spell name types) = [] := by
    refine Segment.ofText_eq_nil_iff.2 (Segment.unbroken_of_plain fun c member => ?_)
    obtain ⟨noQuote, _, noOpening, noClosing, noSemicolon, _⟩ := plain_spell isName areTypes c member
    exact ⟨noQuote, noOpening, noClosing, noSemicolon⟩
  rw [Statement.ofText, noSegments]
  rfl

/-- A signature that is a text of its own gives one entry. -/
theorem entries_spell : entries (spell name types) none =
    .ok [⟨spell name types, spell name types, selector (spell name types), none⟩] := by
  have solid := isSolid_spell isName areTypes
  have plain := plain_spell isName areTypes
  have stripped : Comment.strip (spell name types) = spell name types :=
    strip_eq_self fun c member => ⟨(plain c member).2.1, (plain c member).1⟩
  -- a text without blanks declares nothing, so its one line is taken as a definition
  have noFunctions (r : Registry) : functionEntries (spell name types) r = .ok [] := by
    rw [functionEntries, FunctionHeader.definitions, functionHeads_solid solid]
    rfl
  have noGetters (r : Registry) : getterEntries (spell name types) r = .ok [] := by
    rw [getterEntries, statements_spell isName areTypes]
    rfl
  have oneLine : ((fields '\n' (spell name types)).map trim).filter (·.contains '(') = [spell name types] := by
    have noBreak : '\n' ∉ spell name types := by
      intro member
      obtain ⟨_, _, _, _, _, noBreak⟩ := plain '\n' member
      exact noBreak rfl
    have opens : '(' ∈ spell name types := by simp [spell_eq_concat]
    rw [fields_of_not_mem noBreak, List.map_singleton, solid.isTrimmed.trim_eq]
    simp [opens]
  have reads : ofDefinition (spell name types) (some .empty) = .ok (spell name types) := by
    refine ofDefinition_spell isName areTypes ?_
    have noNames : Registry.empty.typeNames = [] := List.mergeSort_nil
    rw [substituteWith, Registry.substitute, noNames]
    rfl
  have given : entry (spell name types) (ofDefinition (spell name types) (some .empty)) =
      .ok ⟨spell name types, spell name types, selector (spell name types), none⟩ := by
    rw [reads]
    rfl
  unfold entries lineEntries
  simp only [stripped, ofSource_solid solid, noFunctions, noGetters, oneLine, Option.elim_none]
  exact mapM_eq_ok_iff.2 (by rw [List.map_singleton, List.map_singleton, given])

end Printed

/-- What was read off a clause or a definition is read as it stands: a type is its own canonical type, and a signature
is its own signature and, as the one line of a text, has the selector that it has. -/
theorem reads_printed :
    (∀ clause t, canonicalParam clause = .ok t → canonicalParam t = .ok t) ∧
      ∀ definition registry s, ofDefinition definition registry = .ok s →
        ofDefinition s none = .ok s ∧ entries s none = .ok [⟨s, s, selector s, none⟩] := by
  refine ⟨fun clause t reads => canonicalParam_eq_self (isSignatureType_of_canonicalParam clause t reads), ?_⟩
  intro definition registry s renders
  obtain ⟨name, types, isName, areTypes, rfl⟩ := exists_types_of_ofDefinition renders
  exact ⟨ofDefinition_spell isName areTypes rfl, entries_spell isName areTypes⟩

/-- Tuples in tuples, sizes that are names, and a function whose name is the keyword. -/
theorem reads_printed_nested :
    let clause := "tuple(uint a, (bool, address payable [ N ] to)[] b)[2] memory t".toList
    let definition := "function function(tuple(uint, (bool, int)[] b)[2] t, fixed x) external;".toList
    let type := "(uint256,(bool,address[N])[])[2]".toList
    let signature := "function((uint256,(bool,int256)[])[2],fixed128x18)".toList
    canonicalParam clause = .ok type ∧ canonicalParam type = .ok type ∧
      ofDefinition definition none = .ok signature ∧ ofDefinition signature none = .ok signature ∧
      entries signature none = .ok [⟨signature, signature, selector signature, none⟩] := by
  intro clause definition type signature
  have reads : canonicalParam clause = .ok type := by decide +kernel
  have renders : ofDefinition definition none = .ok signature := by decide +kernel
  exact ⟨reads, reads_printed.1 clause type reads, renders, reads_printed.2 definition none signature renders⟩

end Signature

end ContractInterface
