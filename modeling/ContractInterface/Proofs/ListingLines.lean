import ContractInterface.Proofs.CanonicalSignatures
import ContractInterface.Proofs.DiscoveredTypes

/-! # One line for each entry

A listing shows one entry to a line as long as no entry holds a line feed.  Definitions, signatures and
selectors never do, and neither do errors that quote a type or a whole definition.  What is left are errors
that quote a clause as it stands: a clause of a definition stands on one line, but the key of a state
variable is taken from the source as it is.

So the lines of a listing are as many as its entries exactly if no error quotes several lines, and an error
does that only when a public state variable has a key in parentheses that is spread over several lines and
cannot be read (`Signature.length_lines_listing_iff`, `Signature.length_lines_scattered_key`).
-/

namespace ContractInterface

open Text TypeSyntax Delimiter

namespace Signature

/-! ## Signatures and selectors -/

theorem isOneLine_selector (signature : Text) : IsOneLine (selector signature) := by
  have bytes : ∀ n ∈ List.range 256, IsOneLine (hexadecimal 2 n) := by decide +kernel
  have start : IsOneLine "0x".toList := by decide
  refine start.append fun member => ?_
  obtain ⟨byte, _, inByte⟩ := List.mem_flatMap.1 member
  exact bytes byte.toNat (List.mem_range.2 byte.toNat_lt) inByte

theorem isOneLine_of_isCanonicalType {isSize : Text → Prop} (sizes : ∀ size, isSize size → IsOneLine size)
    {t : Text} (canonical : IsCanonicalType isSize t) : IsOneLine t := by
  have close : IsOneLine [']'] := by decide
  have dimensions : ∀ {ds : List Text}, (∀ d ∈ ds, isSize d) → IsOneLine (ds.flatMap bracketed) := by
    intro ds areSizes member
    obtain ⟨d, isSize, inDimension⟩ := List.mem_flatMap.1 member
    have whole : IsOneLine (bracketed d) := ((sizes d (areSizes d isSize)).append close).cons (by decide)
    exact whole inDimension
  induction canonical with
  | @elementary name ds isName isFull areSizes =>
    refine IsOneLine.append ?_ (dimensions areSizes)
    rw [← isFull, ← spaced_canonicalName]
    exact isOneLine_spaced _
  | tuple _ areSizes ih =>
    have comma : IsOneLine [','] := by decide
    exact ((isOneLine_joined comma ih).append ((dimensions areSizes).cons (by decide))).cons (by decide)

theorem isOneLine_of_mapM {clauses types : List Text} (reads : clauses.mapM canonicalParam = .ok types) :
    ∀ t ∈ types, IsOneLine t := by
  intro t member
  obtain ⟨clause, _, isType⟩ := exists_of_mem_mapM reads member
  have readOff := isReadOff_of_canonicalParam clause t isType
  exact isOneLine_of_isCanonicalType
    (fun size isSize => isOneLine_of_chars (by decide) (readOff.words size isSize)) readOff.canonical

theorem isOneLine_spell {name : Text} (identifier : Identifier.isIdentifier name = true) {types : List Text}
    (each : ∀ t ∈ types, IsOneLine t) : IsOneLine (spell name types) := by
  have comma : IsOneLine [','] := by decide
  have close : IsOneLine [')'] := by decide
  have word : IsOneLine name := isOneLine_of_chars (by decide) (isMember_of_isIdentifier identifier)
  have list : IsOneLine ('(' :: joined [','] types) := (isOneLine_joined comma each).cons (by decide)
  exact (word.append list).append close

end Signature

/-! ## Errors -/

/-- The text that an error quotes. -/
def SignatureError.quoted : SignatureError → Text
  | .unbalancedClause clause => clause
  | .unreadableClause clause => clause
  | .mappingParameter => []
  | .unknownType type => type
  | .notASignature text => text
  | .unbalancedSignature text => text

theorem SignatureError.isOneLine_message_iff (cause : SignatureError) :
    IsOneLine cause.message ↔ IsOneLine cause.quoted := by
  have quoting : ∀ {start : Text}, IsOneLine start → ∀ text,
      (IsOneLine (start ++ inDoubleQuotes text) ↔ IsOneLine text) := by
    intro start plain text
    simp [IsOneLine, inDoubleQuotes, show '\n' ∉ start from plain]
  cases cause with
  | mappingParameter => exact iff_of_true (by decide) isOneLine_nil
  | _ => exact quoting (by decide) _

namespace Signature

theorem withoutTupleWord_subset (s : Text) : withoutTupleWord s ⊆ s := by
  unfold withoutTupleWord
  split
  · rename_i rest isRest
    split
    · rw [after?_eq_some.1 isRest]
      exact List.subset_append_of_subset_right _ (trimStart_subset rest)
    · exact List.Subset.refl s
  · exact List.Subset.refl s

theorem mem_splitCommas_subset {s clause : Text} (member : clause ∈ splitCommas s) : clause ⊆ s := by
  obtain ⟨piece, isPiece, rfl⟩ := List.mem_map.1 (List.mem_filter.1 member).1
  have within : piece ⊆ joined [','] (segments (· == ',') 0 s) := mem_joined_subset isPiece
  rw [joined_segments] at within
  exact List.Subset.trans (trim_subset piece) within

/-- A clause in parentheses that cannot be read, and that is spread over several lines. -/
structure IsScattered (clause : Text) : Prop where
  lines : ¬ IsOneLine (trim clause)
  refused : clauseShape clause = .error (.unbalancedClause (trim clause)) ∨
    clauseShape clause = .error (.unreadableClause (trim clause))

theorem cases_of_clauseShape_error {clause : Text} {cause : SignatureError}
    (refuses : clauseShape clause = .error cause) : cause = .mappingParameter ∨
      cause = .unbalancedClause (trim clause) ∨ cause = .unreadableClause (trim clause) := by
  unfold clauseShape at refuses
  simp only at refuses
  split at refuses
  · unfold tupleShape at refuses
    split at refuses
    · cases refuses
      exact .inr (.inl rfl)
    · split at refuses
      · cases refuses
        exact .inr (.inr rfl)
      · cases refuses
  · split at refuses
    · cases refuses
      exact .inl rfl
    · cases refuses

/-- What is read of a clause is respaced first. -/
theorem isOneLine_of_clauseShape {clause : Text} {shape : ClauseShape} (reads : clauseShape clause = .ok shape) :
    match shape with
    | .tuple parts _ => ∀ part ∈ parts, IsOneLine part
    | .plain text => IsOneLine text := by
  have respaced : IsOneLine (withoutTupleWord (normalized clause)) :=
    (isOneLine_normalized clause).of_subset (withoutTupleWord_subset _)
  cases shape with
  | tuple parts suffix =>
    obtain ⟨_, close, _, _, rfl⟩ := clauseShape_eq_tuple_iff.1 reads
    intro part isPart
    exact respaced.of_subset (List.Subset.trans (mem_splitCommas_subset isPart)
      (List.Subset.trans (List.drop_subset _ _) (List.take_subset _ _)))
  | plain text =>
    obtain ⟨_, _, rfl⟩ := clauseShape_eq_plain_iff.1 reads
    exact respaced

theorem isOneLine_of_canonicalPlain {text : Text} (oneLine : IsOneLine text) {cause : SignatureError}
    (refuses : canonicalPlain text = .error cause) : IsOneLine cause.quoted := by
  unfold canonicalPlain at refuses
  simp only at refuses
  split at refuses
  · cases refuses
  · cases refuses
    exact (Clause.isOneLine_ofText oneLine).of_subset (Dimension.splitTrailing_fst_subset _)

/-- An error over a clause quotes several lines exactly if the clause itself is refused: the clauses inside
of it stand on one line. -/
theorem isOneLine_quoted_iff (clause : Text) : ∀ cause, canonicalParam clause = .error cause →
    (IsOneLine cause.quoted ↔ ¬ IsScattered clause) := by
  fun_induction canonicalParam clause with
  | case1 clause cause' shape =>
    rintro cause ⟨⟩
    rcases cases_of_clauseShape_error shape with rfl | rfl | rfl
    · refine iff_of_true isOneLine_nil fun scattered => ?_
      rcases scattered.refused with other | other <;> cases shape.symm.trans other
    · exact ⟨fun oneLine scattered => scattered.lines oneLine, fun whole =>
        by_contra fun lines => whole ⟨lines, .inl shape⟩⟩
    · exact ⟨fun oneLine scattered => scattered.lines oneLine, fun whole =>
        by_contra fun lines => whole ⟨lines, .inr shape⟩⟩
  | case2 clause text shape =>
    intro cause refuses
    refine iff_of_true (isOneLine_of_canonicalPlain (isOneLine_of_clauseShape shape) refuses) fun scattered => ?_
    rcases scattered.refused with other | other <;> cases shape.symm.trans other
  | case3 clause parts suffix shape ih =>
    intro cause refuses
    obtain ⟨part, stops⟩ : ∃ part : {part // part ∈ parts}, canonicalParam part.1 = .error cause := by
      rcases bind_eq_error_iff.1 refuses with inner | ⟨_, _, absurd_⟩
      · obtain ⟨_, part, _, _, _, stops⟩ := mapM_eq_error_iff.1 inner
        exact ⟨part, stops⟩
      · cases absurd_
    have oneLine : IsOneLine part.1 := isOneLine_of_clauseShape shape part.1 part.2
    refine iff_of_true ((ih part cause stops).2 fun scattered => ?_) fun scattered => ?_
    · exact scattered.lines (oneLine.of_subset (trim_subset part.1))
    · rcases scattered.refused with other | other <;> cases shape.symm.trans other

theorem IsScattered.exists_error {clause : Text} (scattered : IsScattered clause) :
    ∃ cause, canonicalParam clause = .error cause ∧ ¬ IsOneLine cause.quoted := by
  rcases scattered.refused with shape | shape
  · exact ⟨_, canonicalParam_of_error shape, scattered.lines⟩
  · exact ⟨_, canonicalParam_of_error shape, scattered.lines⟩

/-! ## Definitions -/

variable {r : Registry}

/-- Clauses that cannot all be read: the first that is refused is refused for its own parentheses, and is
spread over several lines. -/
def AreScattered (clauses : List Text) : Prop :=
  ∃ front clause behind, clauses = front ++ clause :: behind ∧
    (∀ c ∈ front, ∃ t, canonicalParam c = .ok t) ∧ IsScattered clause

theorem isOneLine_quoted_iff_of_mapM {clauses : List Text} {cause : SignatureError}
    (refuses : clauses.mapM canonicalParam = .error cause) :
    IsOneLine cause.quoted ↔ ¬ AreScattered clauses := by
  constructor
  · rintro oneLine ⟨front, clause, behind, split, before, scattered⟩
    obtain ⟨cause', stops, lines⟩ := scattered.exists_error
    -- the traversal stops at the first clause that is refused, so there is no other error
    cases refuses.symm.trans (mapM_eq_error_iff.2 ⟨front, clause, behind, split, before, stops⟩)
    exact lines oneLine
  · intro together
    obtain ⟨front, clause, behind, split, before, stops⟩ := mapM_eq_error_iff.1 refuses
    exact (isOneLine_quoted_iff clause cause stops).2 fun scattered =>
      together ⟨front, clause, behind, split, before, scattered⟩

theorem isOneLine_statementText (definition : Text) : IsOneLine (statementText definition) := by
  refine (isOneLine_spaced definition).of_subset ?_
  intro c member
  exact List.mem_reverse.1 (List.dropWhile_subset _ (List.mem_reverse.1 (trim_subset _ member)))

/-- Clauses that are read off a substituted text are refused once it is substituted. -/
theorem readClauses_eq_error_iff {α : Type} {x : Except ResolutionError α} {f : α → List Text} {name : Text}
    {cause : SignatureError} :
    (do
      let substituted ← x.mapError SignatureFailure.resolution
      let types ← ((f substituted).mapM canonicalParam).mapError SignatureFailure.definition
      return spell name types) = .error (.definition cause) ↔
      ∃ substituted, x = .ok substituted ∧ (f substituted).mapM canonicalParam = .error cause := by
  constructor
  · intro refuses
    rcases bind_eq_error_iff.1 refuses with unresolved | ⟨substituted, substitutes, rest⟩
    · obtain ⟨_, _, absurd_⟩ := mapError_eq_error_iff.1 unresolved
      cases absurd_
    · rcases bind_eq_error_iff.1 rest with refused | ⟨_, _, absurd_⟩
      · obtain ⟨_, reads, same⟩ := mapError_eq_error_iff.1 refused
        cases same
        exact ⟨substituted, mapError_eq_ok_iff.1 substitutes, reads⟩
      · cases absurd_
  · rintro ⟨substituted, substitutes, reads⟩
    refine bind_eq_error_iff.2 (.inr ⟨substituted, mapError_eq_ok_iff.2 substitutes, ?_⟩)
    exact bind_eq_error_iff.2 (.inl (mapError_eq_error_iff.2 ⟨cause, reads, rfl⟩))

/-- A definition that is refused as a whole is quoted respaced; else one of its clauses is refused. -/
theorem cases_of_ofDefinition_error {definition : Text} {cause : SignatureError}
    (refuses : ofDefinition definition (some r) = .error (.definition cause)) :
    IsOneLine cause.quoted ∨ ∃ name clauses, clausesOf? r definition = some (name, clauses) ∧
      clauses.mapM canonicalParam = .error cause := by
  have text := isOneLine_statementText definition
  unfold ofDefinition at refuses
  simp only at refuses
  split at refuses
  · cases refuses
    exact .inl text
  · rename_i name fromParen isHead
    split at refuses
    · cases refuses
      exact .inl text
    · rename_i params behind isList
      obtain ⟨substituted, substitutes, reads⟩ := readClauses_eq_error_iff.1 refuses
      refine .inr ⟨name, _, ?_, reads⟩
      simp [clausesOf?, isHead, isList, substitutes, Except.toOption]

/-- The clauses of a definition stand on one line, as the definition does and what is substituted in it. -/
theorem isOneLine_of_clausesOf? (known : r.IsDiscovered) {definition name : Text} {clauses : List Text}
    (reads : clausesOf? r definition = some (name, clauses)) : ∀ clause ∈ clauses, IsOneLine clause := by
  obtain ⟨⟨name', fromParen⟩, isHead, reads⟩ := Option.bind_eq_some_iff.1 reads
  obtain ⟨⟨params, behind⟩, isList, reads⟩ := Option.bind_eq_some_iff.1 reads
  obtain ⟨substituted, substitutes, same⟩ := Option.map_eq_some_iff.1 reads
  cases same
  have whole : IsOneLine params := by
    obtain ⟨close, _, same⟩ := Option.map_eq_some_iff.1 isList
    rw [← (Prod.mk.inj same).1]
    exact (isOneLine_statementText definition).of_subset (List.Subset.trans (List.drop_subset _ _)
      (List.Subset.trans (List.take_subset _ _) ((head?_spec isHead).2)))
  have substitutes' : r.substitute params = .ok substituted := by
    cases result : r.substitute params with
    | error cause => simp [result, Except.toOption] at substitutes
    | ok t => simpa [result, Except.toOption] using substitutes
  exact fun clause member =>
    (known.isOneLine_of_substitute whole substitutes').of_subset (mem_splitCommas_subset member)

/-! ## Entries -/

/-- An entry whose error quotes a text of several lines. -/
def Entry.QuotesLines (e : Entry) : Prop :=
  ∃ cause, e.error = some cause ∧ ¬ IsOneLine cause.quoted

/-- A line shows an entry: by its selector and its signature with a space between them, or as a note if
there is an error. -/
def Entry.IsShownBy (e : Entry) (line : Text) : Prop :=
  match e.error with
  | none => line = e.selector ++ ' ' :: e.signature
  | some _ => startsWith "# ".toList line = true

theorem Entry.isShownBy_line (e : Entry) : e.IsShownBy e.line := by
  unfold Entry.IsShownBy Entry.line
  cases e.error with
  | none => rfl
  | some cause => simp [startsWith]

theorem definition_of_entry {definition : Text} {signature : Except SignatureFailure Text} {e : Entry}
    (gives : entry definition signature = .ok e) : e.definition = definition := by
  unfold entry at gives
  split at gives
  · cases gives
    rfl
  · cases gives
    rfl
  · cases gives

theorem isOneLine_of_mem_definitions {cleaned definition : Text}
    (member : definition ∈ FunctionHeader.definitions cleaned ∨ definition ∈ signatureLines cleaned) :
    IsOneLine definition := by
  rcases member with isFunction | isLine
  · obtain ⟨_, _, isDefinition⟩ := List.mem_filterMap.1 isFunction
    obtain ⟨_, _, rfl⟩ := Option.map_eq_some_iff.1 isDefinition
    exact isOneLine_spaced _
  · obtain ⟨line, isField, rfl⟩ := List.mem_map.1 (List.mem_filter.1 isLine).1
    have oneLine : IsOneLine line := not_mem_of_mem_fields isField
    exact oneLine.of_subset (trim_subset line)

section Entries

variable {source : Text} {shared : Option Registry} {es : List Entry}
  (succeeds : entries source shared = .ok es)

include succeeds

theorem isOneLine_definition {e : Entry} (member : e ∈ es) : IsOneLine e.definition := by
  rcases cases_of_mem_entries succeeds member with
    ⟨definition, isDefinition, gives⟩ | ⟨statement, _, gives⟩
  · rw [definition_of_entry gives]
    exact isOneLine_of_mem_definitions isDefinition
  · obtain ⟨_, _, _, _, _, isEntry⟩ := entryOfStatement?_eq_some_iff.1 gives
    rw [definition_of_entry isEntry]
    exact isOneLine_spaced _

/-- The line of an entry is one line unless the error quotes several. -/
theorem isOneLine_line_iff {e : Entry} (member : e ∈ es) : IsOneLine e.line ↔ ¬ e.QuotesLines := by
  have shown := isOneLine_definition succeeds member
  -- an entry without an error prints what was read, which is one line; the rest is up to the message
  cases error : e.error with
  | none =>
    obtain ⟨name, clauses, types, rendered⟩ := exists_isRendered succeeds member error
    have signature : IsOneLine e.signature := by
      rw [rendered.signature]
      exact isOneLine_spell rendered.identifier (isOneLine_of_mapM rendered.reads)
    have selector : IsOneLine e.selector := by
      rw [rendered.selector]
      exact isOneLine_selector _
    refine iff_of_true ?_ fun ⟨cause, isCause, _⟩ => nomatch error.symm.trans isCause
    unfold Entry.line
    rw [error]
    exact selector.append (signature.cons (by decide))
  | some cause =>
    have quotes : e.QuotesLines ↔ ¬ IsOneLine cause.quoted := by
      simp [Entry.QuotesLines, error]
    have start : IsOneLine "# ".toList := by decide
    have colon : IsOneLine ": ".toList := by decide
    unfold Entry.line
    rw [quotes, not_not, ← cause.isOneLine_message_iff, error]
    exact ⟨fun whole => whole.of_subset (List.subset_append_right _ _),
      fun message => ((start.append shown).append colon).append message⟩

end Entries

/-! ## Keys -/

/-- A public state variable with a key in parentheses that is spread over several lines and cannot be
read, as the first of its keys that cannot. -/
def HasScatteredKey (r : Registry) (v : StateVariable) : Prop :=
  ∃ clauses, keyClausesOf? r v = some (v.name, clauses) ∧ AreScattered clauses

theorem ofGetter_eq_error_iff {name : Text} {keys : List Text} {cause : SignatureError} :
    ofGetter name keys (some r) = .error (.definition cause) ↔
      ∃ clauses, keys.mapM r.substitute = .ok clauses ∧ clauses.mapM canonicalParam = .error cause := by
  unfold ofGetter
  rw [mapM_substituteWith]
  exact readClauses_eq_error_iff

theorem error_of_entry {definition : Text} {signature : Except SignatureFailure Text} {e : Entry}
    (gives : entry definition signature = .ok e) {cause : SignatureError} (isCause : e.error = some cause) :
    signature = .error (.definition cause) := by
  unfold entry at gives
  split at gives
  · cases gives
    cases isCause
  · cases gives
    cases isCause
    rfl
  · cases gives

/-- The entry of a definition quotes no clause over several lines. -/
theorem isOneLine_quoted_of_definition (known : r.IsDiscovered) {definition : Text} {cause : SignatureError}
    (refuses : ofDefinition definition (some r) = .error (.definition cause)) : IsOneLine cause.quoted := by
  rcases cases_of_ofDefinition_error refuses with whole | ⟨name, clauses, isClauses, stops⟩
  · exact whole
  · refine (isOneLine_quoted_iff_of_mapM stops).2 ?_
    rintro ⟨front, clause, behind, rfl, _, scattered⟩
    have oneLine := isOneLine_of_clausesOf? known isClauses clause (by simp)
    exact scattered.lines (oneLine.of_subset (trim_subset clause))

/-- The entry of a public state variable quotes several lines exactly if the variable has a scattered key. -/
theorem quotesLines_iff_of_statement {statement : Statement} {v : StateVariable}
    (declares : StateVariable.ofStatement? statement.text statement.index = some v) {e : Entry}
    (gives : entryOfStatement? r statement = .ok (some e)) : e.QuotesLines ↔ HasScatteredKey r v := by
  obtain ⟨v', getter, isVariable, _, isGetter, isEntry⟩ := entryOfStatement?_eq_some_iff.1 gives
  obtain rfl : v = v' := Option.some.inj (declares.symm.trans isVariable)
  have keys : ∀ clauses, keyClausesOf? r v = some (v.name, clauses) ↔
      getter.keys.mapM r.substitute = .ok clauses := by
    intro clauses
    rw [keyClausesOf?, StateVariable.getter?_eq_some_iff.2 isGetter, Option.bind_some]
    cases getter.keys.mapM r.substitute <;> simp [Except.toOption]
  constructor
  · rintro ⟨cause, isCause, lines⟩
    obtain ⟨clauses, substitutes, stops⟩ := ofGetter_eq_error_iff.1 (error_of_entry isEntry isCause)
    exact ⟨clauses, (keys clauses).2 substitutes,
      not_not.1 fun together => lines ((isOneLine_quoted_iff_of_mapM stops).2 together)⟩
  · rintro ⟨clauses, isClauses, front, clause, behind, split, before, scattered⟩
    obtain ⟨cause, stops, lines⟩ := scattered.exists_error
    have refuses := mapM_eq_error_iff.2 ⟨front, clause, behind, split, before, stops⟩
    rw [ofGetter_eq_error_iff.2 ⟨clauses, (keys clauses).1 isClauses, refuses⟩] at isEntry
    cases isEntry
    exact ⟨cause, rfl, lines⟩

theorem exists_quotesLines_iff {source : Text} {shared : Option Registry} {es : List Entry}
    (succeeds : entries source shared = .ok es)
    (known : (registryOf (Comment.strip source) shared).IsDiscovered) :
    (∃ e ∈ es, e.QuotesLines) ↔ ∃ v ∈ publicVariables (Comment.strip source),
      HasScatteredKey (registryOf (Comment.strip source) shared) v := by
  constructor
  · rintro ⟨e, member, cause, isCause, lines⟩
    rcases cases_of_mem_entries succeeds member with
      ⟨definition, _, gives⟩ | ⟨statement, isStatement, gives⟩
    · exact absurd (isOneLine_quoted_of_definition known (error_of_entry gives isCause)) lines
    · obtain ⟨v, _, declares, isPublic, _⟩ := entryOfStatement?_eq_some_iff.1 gives
      refine ⟨v, List.mem_filter.2 ⟨List.mem_filterMap.2 ⟨statement, isStatement, declares⟩,
        decide_eq_true isPublic⟩, ?_⟩
      exact (quotesLines_iff_of_statement declares gives).1 ⟨cause, isCause, lines⟩
  -- a public variable has an entry, and with a getter found the lines of the source are not read
  · rintro ⟨v, isVariable, scattered⟩
    obtain ⟨functions, isFunctions, rest⟩ := bind_eq_ok_iff.1 succeeds
    obtain ⟨getters, isGetters, rest⟩ := bind_eq_ok_iff.1 rest
    obtain ⟨found, isFound, whole⟩ := bind_eq_ok_iff.1 isGetters
    cases pure_eq_ok_iff.1 whole
    obtain ⟨declared, isPublic⟩ := List.mem_filter.1 isVariable
    obtain ⟨statement, isStatement, declares⟩ := List.mem_filterMap.1 declared
    obtain ⟨e?, gives⟩ := exists_mapM_iff.1 ⟨found, isFound⟩ statement isStatement
    cases e? with
    | none =>
      have hidden := (eq_none_iff_of_entryOfStatement? gives).1 rfl v declares
      exact absurd (of_decide_eq_true isPublic) hidden
    | some e =>
      have member : e ∈ found.filterMap id :=
        List.mem_filterMap.2 ⟨some e, mem_of_mapM isFound isStatement gives, rfl⟩
      rw [if_neg (List.append_ne_nil_of_right_ne_nil _ (List.ne_nil_of_mem member))] at rest
      cases pure_eq_ok_iff.1 rest
      exact ⟨e, List.mem_append_right _ member,
        (quotesLines_iff_of_statement declares gives).2 scattered⟩

/-! ## Listings -/

/-- A listing has as many lines as entries exactly if no error quotes several lines, and then each line
shows its entry.  With discovered types this is a matter of the public state variables only: the listing is
longer exactly if one of them has a key in parentheses that is spread over several lines and cannot be
read. -/
theorem length_lines_listing_iff {source : Text} {shared : Option Registry} {es : List Entry}
    (succeeds : entries source shared = .ok es) (nonempty : es ≠ []) :
    ((fields '\n' (listing es)).length = es.length ↔ ∀ e ∈ es, ¬ e.QuotesLines) ∧
      ((fields '\n' (listing es)).length = es.length →
        List.Forall₂ Entry.IsShownBy es (fields '\n' (listing es))) ∧
      ((∀ registry, shared = some registry → registry.IsDiscovered) →
        ((fields '\n' (listing es)).length = es.length ↔
          ∀ v ∈ publicVariables (Comment.strip source),
            ¬ HasScatteredKey (registryOf (Comment.strip source) shared) v)) := by
  have lines : (fields '\n' (listing es)).length = es.length ↔ ∀ e ∈ es, IsOneLine e.line := by
    have lines_ne_nil : es.map Entry.line ≠ [] := by simpa using nonempty
    have counts : (fields '\n' (listing es)).length = (es.map Entry.line).length ↔
        ∀ line ∈ es.map Entry.line, '\n' ∉ line := length_fields_joined_iff lines_ne_nil
    rw [List.length_map, List.forall_mem_map] at counts
    exact counts
  have quotes : (fields '\n' (listing es)).length = es.length ↔ ∀ e ∈ es, ¬ e.QuotesLines :=
    lines.trans (forall₂_congr fun e member => isOneLine_line_iff succeeds member)
  refine ⟨quotes, fun same => ?_, fun known => ?_⟩
  · have isListed : fields '\n' (listing es) = es.map Entry.line :=
      fields_joined (by simpa using nonempty) (List.forall_mem_map.2 (lines.1 same))
    rw [isListed, List.forall₂_map_right_iff]
    exact List.forall₂_same.2 fun e _ => e.isShownBy_line
  · have known' : (registryOf (Comment.strip source) shared).IsDiscovered := by
      cases shared with
      | none => exact Registry.isDiscovered_ofSource _
      | some registry => exact (Registry.isDiscovered_ofSource _).merge (known registry rfl)
    have scattered := exists_quotesLines_iff succeeds known'
    rw [quotes]
    constructor
    · exact fun together v isVariable hasKey =>
        (scattered.2 ⟨v, isVariable, hasKey⟩).elim fun e found => together e found.1 found.2
    · exact fun together e member quotesLines =>
        (scattered.1 ⟨e, member, quotesLines⟩).elim fun v found => together v found.1 found.2

/-- A type that is not defined is quoted in a note of one line. -/
theorem length_lines_contract :
    let source := ("contract C \x7b function g(T t) public view returns (bool) \x7b\x7d " ++
      "mapping(uint => bool) public m; \x7d").toList
    ∃ es, entries source none = .ok es ∧ es ≠ [] ∧
      ((fields '\n' (listing es)).length = es.length ↔ ∀ e ∈ es, ¬ e.QuotesLines) ∧
      ((fields '\n' (listing es)).length = es.length →
        List.Forall₂ Entry.IsShownBy es (fields '\n' (listing es))) ∧
      ((∀ registry : Registry, none = some registry → registry.IsDiscovered) →
        ((fields '\n' (listing es)).length = es.length ↔
          ∀ v ∈ publicVariables (Comment.strip source),
            ¬ HasScatteredKey (registryOf (Comment.strip source) none) v)) := by
  intro source
  have sorted : (registryOf (Comment.strip source) none).typeNames = ["C".toList] := by
    unfold Registry.typeNames
    rw [List.mergeSort_of_pairwise (by decide +kernel)]
    decide +kernel
  have functions : (functionEntries (Comment.strip source) (registryOf (Comment.strip source) none)).toOption.map
      List.length = some 1 := by
    unfold functionEntries ofDefinition substituteWith Registry.substitute
    simp only [sorted]
    decide +kernel
  have getters : (getterEntries (Comment.strip source) (registryOf (Comment.strip source) none)).toOption.map
      List.length = some 1 := by
    unfold getterEntries entryOfStatement? ofGetter substituteWith Registry.substitute
    simp only [sorted]
    decide +kernel
  obtain ⟨fs, isFunctions, one⟩ := exists_of_toOption_map functions
  obtain ⟨gs, isGetters, _⟩ := exists_of_toOption_map getters
  have nonempty : fs ++ gs ≠ [] := fun empty => by simp [(List.append_eq_nil_iff.1 empty).1] at one
  have succeeds : entries source none = .ok (fs ++ gs) :=
    bind_eq_ok_iff.2 ⟨fs, isFunctions, bind_eq_ok_iff.2 ⟨gs, isGetters, if_neg nonempty⟩⟩
  exact ⟨_, succeeds, nonempty, length_lines_listing_iff succeeds nonempty⟩

/-- A key in parentheses over two lines, with a size that is no number, is quoted over two lines. -/
theorem length_lines_scattered_key :
    let source := "contract C \x7b mapping((uint256,\n address)[N] => uint256) public x; \x7d".toList
    ∃ es, entries source none = .ok es ∧ es ≠ [] ∧ (fields '\n' (listing es)).length ≠ es.length := by
  intro source
  have sorted : (registryOf (Comment.strip source) none).typeNames = ["C".toList] := by
    unfold Registry.typeNames
    rw [List.mergeSort_of_pairwise (by decide +kernel)]
    decide +kernel
  have functions : functionEntries (Comment.strip source) (registryOf (Comment.strip source) none) = .ok [] := by
    decide +kernel
  have getters : getterEntries (Comment.strip source) (registryOf (Comment.strip source) none) =
      .ok [⟨"mapping((uint256, address)[N] => uint256) public x".toList, [], [],
        some (.unreadableClause "(uint256,\n address)[N]".toList)⟩] := by
    unfold getterEntries entryOfStatement? ofGetter substituteWith Registry.substitute
    simp only [sorted]
    decide +kernel
  exact ⟨_, bind_eq_ok_iff.2 ⟨_, functions, bind_eq_ok_iff.2 ⟨_, getters, rfl⟩⟩, by decide,
    by decide +kernel⟩

end Signature

end ContractInterface
