import ContractInterface.Proofs.Grounding
import ContractInterface.Proofs.Outcomes

/-! # When there are results

Extraction looks up the types of its candidates, and the signatures of a source look up the names that are
met in their texts.  What is no declaration is passed over, and a definition without a signature has an
entry that says why; so either of the two has its result exactly if every getter that is asked for is found
and all that is looked up can be read (`exists_extract_iff`, `exists_entries_iff`).

Getters are missing where a mapping cannot be reduced.  Apart from that, only the sizes of arrays matter: a
size of digits that is no length ends both, whatever else stands in the source (`exists_results_iff`).
-/

namespace ContractInterface

open Text TypeSyntax Delimiter

/-! ## Readable types -/

/-- Whether an expression is no array, or one whose sizes are lengths or leave it dynamic. -/
def TypeSyntax.Expr.hasLengths : Expr → Bool
  | .array _ sizes => sizes.all fun size => (arrayLength size).toBool
  | _ => true

theorem TypeSyntax.Expr.isReadable_iff {e : Expr} :
    e.isReadable = true ↔ e.isReducible = true ∧ e.hasLengths = true := by
  cases e <;> simp [isReadable, isReducible, hasLengths]

theorem Registry.everywhere_isReadable_iff {r : Registry} {type : Text} :
    r.Everywhere Expr.isReadable type ↔
      r.Everywhere Expr.isReducible type ∧ r.Everywhere Expr.hasLengths type := by
  simp only [Everywhere, Expr.isReadable_iff, forall_and]

/-! ## Candidates -/

/-- The getter of a state variable, if there is one. -/
def StateVariable.getter? (v : StateVariable) : Option Getter :=
  (Getter.ofType v.type).toOption

theorem StateVariable.getter?_eq_some_iff {v : StateVariable} {getter : Getter} :
    v.getter? = some getter ↔ Getter.ofType v.type = .ok getter := by
  unfold getter?
  cases Getter.ofType v.type <;> simp [Except.toOption]

namespace Candidate

/-- Whether a candidate is no state variable, or one whose getter is found. -/
def hasGetter : Candidate → Bool
  | .variable v => v.getter?.isSome
  | .function _ => true

theorem resolves_iff {r : Registry} {c : Candidate} :
    c.resolves r = true ↔ c.hasGetter = true ∧ ∀ type ∈ c.types, r.Everywhere Expr.isReadable type := by
  simp only [← Registry.exists_describe_iff, ← toBool_iff]
  rcases c with v | f
  · cases isGetter : Getter.ofType v.type <;>
      simp [resolves, hasGetter, types, StateVariable.getter?, isGetter, Except.toOption, or_imp, forall_and,
        and_comm]
  · simp [resolves, hasGetter, types, or_iff_not_imp_left]

end Candidate

/-- The candidates that an extraction takes, of each name the first. -/
def Candidate.taken (options : Options) (cleaned : Text) : List Candidate :=
  firstOfEachName [] (all options cleaned)

/-- Extraction has a result if the getters of its candidates are found and their types can be read. -/
theorem exists_extract_iff (options : Options) (shared : Option Registry) (source : Text) :
    (∃ e, extract options shared source = .ok e) ↔
      ∀ c ∈ Candidate.taken options (Comment.strip source), c.hasGetter = true ∧
        ∀ type ∈ c.types, (registryOf (Comment.strip source) shared).Everywhere Expr.isReadable type := by
  simp only [← Candidate.resolves_iff, ← exists_outcome_iff_resolves options _ (Comment.strip source)]
  rw [extract, exists_bind_pure_iff, exists_mapM_iff]
  rfl

/-! ## Names that are met -/

namespace Registry

variable {r : Registry}

/-- Those of some names that a text is found to refer to while they are substituted in it, one after the
other. -/
def namesMet (r : Registry) : List Text → Text → List Text
  | [], _ => []
  | name :: more, s =>
    if refersTo name s then
      match r.canonicalType name with
      | .ok replacement => name :: r.namesMet more (replaceReferences name replacement s)
      | .error _ => [name]
    else r.namesMet more s

theorem exists_canonicalType_iff {type : Text} :
    (∃ t, r.canonicalType type = .ok t) ↔ r.Everywhere Expr.isReadable type := by
  rw [canonicalType, exists_bind_pure_iff, exists_describe_iff]

theorem exists_foldlM_iff (names : List Text) (s : Text) :
    (∃ t, names.foldlM r.substituteName s = .ok t) ↔
      ∀ name ∈ r.namesMet names s, r.Everywhere Expr.isReadable name := by
  induction names generalizing s with
  | nil => exact ⟨fun _ _ member => (nomatch member), fun _ => ⟨s, rfl⟩⟩
  | cons name more ih =>
    rw [List.foldlM_cons, exists_bind_iff, namesMet, substituteName]
    by_cases refers : refersTo name s = true
    · simp only [refers, if_true]
      cases isText : r.canonicalType name with
      | error cause =>
        -- the name that is met first cannot be read
        have unread : ¬ r.Everywhere Expr.isReadable name := by
          rw [← exists_canonicalType_iff, isText]
          exact fun ⟨_, found⟩ => nomatch found
        exact iff_of_false (fun ⟨_, found, _⟩ => nomatch found) fun all => unread (all name List.mem_cons_self)
      | ok replacement =>
        have readable := exists_canonicalType_iff.1 ⟨replacement, isText⟩
        rw [List.forall_mem_cons, and_iff_right readable, ← ih]
        exact ⟨fun ⟨_, found, rest⟩ => by cases found; exact rest, fun rest => ⟨_, rfl, rest⟩⟩
    · simp only [refers, if_false, Bool.false_eq_true]
      rw [← ih]
      exact ⟨fun ⟨_, found, rest⟩ => by cases found; exact rest, fun rest => ⟨_, rfl, rest⟩⟩

theorem exists_substitute_iff {s : Text} :
    (∃ t, r.substitute s = .ok t) ↔
      ∀ name ∈ r.namesMet r.typeNames s, r.Everywhere Expr.isReadable name :=
  exists_foldlM_iff r.typeNames s

end Registry

/-! ## Signatures -/

namespace Signature

variable {r : Registry}

theorem exists_entry_iff {definition : Text} {signature : Except SignatureFailure Text} :
    (∃ e, entry definition signature = .ok e) ↔ ∀ cause, signature ≠ .error (.resolution cause) := by
  unfold entry
  split <;> simp

/-- Types that are read from text fail for what is written there, not for what it resolves to. -/
theorem spell_ne_resolution (name : Text) (types : Except SignatureError (List Text))
    (cause : ResolutionError) :
    (types.mapError .definition >>= fun types => pure (spell name types)) ≠
      .error (SignatureFailure.resolution cause) := by
  cases types <;> exact fun fails => nomatch fails

/-- A substitution ends what comes behind it only where a name cannot be looked up. -/
theorem forall_ne_resolution_iff {α β : Type} {x : Except ResolutionError α}
    {f : α → Except SignatureFailure β} (passes : ∀ a cause, f a ≠ .error (.resolution cause)) :
    (∀ cause, (x.mapError .resolution >>= f) ≠ .error (.resolution cause)) ↔ ∃ a, x = .ok a := by
  cases x with
  | error cause => simp [Except.mapError, Bind.bind, Except.bind]
  | ok a => exact iff_of_true (fun cause => passes a cause) ⟨a, rfl⟩

theorem mapM_substituteWith (keys : List Text) :
    keys.mapM (substituteWith (some r)) = (keys.mapM r.substitute).mapError .resolution := by
  induction keys with
  | nil => rfl
  | cons key more ih =>
    rw [List.mapM_cons, List.mapM_cons, ih, substituteWith]
    cases r.substitute key with
    | error cause => rfl
    | ok t => cases more.mapM r.substitute <;> rfl

/-- The parameter list of a definition. -/
def paramsOf? (definition : Text) : Option Text :=
  (head? (statementText definition)).bind fun found => (parenthesised? found.2).map Prod.fst

theorem ofDefinition_ne_iff {definition : Text} :
    (∀ cause, ofDefinition definition (some r) ≠ .error (.resolution cause)) ↔
      ∀ params ∈ paramsOf? definition, ∃ t, r.substitute params = .ok t := by
  unfold ofDefinition paramsOf?
  simp only
  cases head? (statementText definition) with
  | none => exact iff_of_true (fun _ fails => nomatch fails) fun _ isParams => nomatch isParams
  | some found =>
    simp only [Option.bind_some]
    cases parenthesised? found.2 with
    | none => exact iff_of_true (fun _ fails => nomatch fails) fun _ isParams => nomatch isParams
    | some list =>
      simp only [Option.map_some, Option.mem_some_iff, forall_eq']
      exact forall_ne_resolution_iff fun _ cause => spell_ne_resolution _ _ cause

theorem ofGetter_ne_iff {name : Text} {keys : List Text} :
    (∀ cause, ofGetter name keys (some r) ≠ .error (.resolution cause)) ↔
      ∀ key ∈ keys, ∃ t, r.substitute key = .ok t := by
  unfold ofGetter
  rw [mapM_substituteWith, forall_ne_resolution_iff fun _ cause => spell_ne_resolution _ _ cause,
    exists_mapM_iff]

/-- The state variables that entries are made of. -/
def publicVariables (cleaned : Text) : List StateVariable :=
  (StateVariable.ofText cleaned).filter (·.visibility = .publicly)

/-- The lines that entries are made of. -/
def signatureLines (cleaned : Text) : List Text :=
  ((fields '\n' cleaned).map trim).filter (·.contains '(')

/-- The texts in which names are substituted: parameter lists of functions and keys of public getters, or
the parameter lists in the lines of a text with neither. -/
def substitutedTexts (cleaned : Text) : List Text :=
  let definitions := FunctionHeader.definitions cleaned
  let declared := publicVariables cleaned
  definitions.filterMap paramsOf? ++ declared.flatMap (fun v => v.getter?.elim [] Getter.keys) ++
    if definitions = [] ∧ declared = [] then (signatureLines cleaned).filterMap paramsOf? else []

/-- The names that are looked up for the signatures of a text without comments. -/
def namesMet (r : Registry) (cleaned : Text) : List Text :=
  (substitutedTexts cleaned).flatMap (r.namesMet r.typeNames)

theorem exists_definitionEntries_iff {definitions : List Text} {shown : Text → Text} :
    (∃ es, (definitions.mapM fun definition => entry (shown definition) (ofDefinition definition (some r))) =
        .ok es) ↔
      ∀ params ∈ definitions.filterMap paramsOf?, ∃ t, r.substitute params = .ok t := by
  rw [exists_mapM_iff]
  simp only [exists_entry_iff, ofDefinition_ne_iff, List.mem_filterMap]
  exact ⟨fun each params ⟨definition, member, isParams⟩ => each definition member params isParams,
    fun each definition member params isParams => each params ⟨definition, member, isParams⟩⟩

/-- A statement has the entry of a getter if it declares a public state variable, and no other. -/
theorem entryOfStatement?_eq_some_iff {statement : Statement} {e : Entry} :
    entryOfStatement? r statement = .ok (some e) ↔
      ∃ v getter, StateVariable.ofStatement? statement.text statement.index = some v ∧
        v.visibility = .publicly ∧ Getter.ofType v.type = .ok getter ∧
          entry (spaced statement.text) (ofGetter v.name getter.keys (some r)) = .ok e := by
  constructor
  · intro gives
    unfold entryOfStatement? at gives
    split at gives
    · rename_i v isVariable
      split at gives
      · rename_i isPublic
        obtain ⟨getter, isGetter, rest⟩ := bind_eq_ok_iff.1 gives
        obtain ⟨e', isEntry, whole⟩ := bind_eq_ok_iff.1 rest
        cases pure_eq_ok_iff.1 whole
        exact ⟨v, getter, isVariable, isPublic, isGetter, isEntry⟩
      · cases gives
    · cases gives
  · rintro ⟨v, getter, isVariable, isPublic, isGetter, isEntry⟩
    simp only [entryOfStatement?, isVariable, isPublic, if_true]
    exact bind_eq_ok_iff.2 ⟨getter, isGetter, bind_eq_ok_iff.2 ⟨e, isEntry, rfl⟩⟩

theorem exists_entryOfStatement?_iff {statement : Statement} :
    (∃ e?, entryOfStatement? r statement = .ok e?) ↔
      ∀ v, StateVariable.ofStatement? statement.text statement.index = some v → v.visibility = .publicly →
        v.getter?.isSome = true ∧
          ∀ key ∈ v.getter?.elim [] Getter.keys, ∃ t, r.substitute key = .ok t := by
  unfold entryOfStatement?
  cases isVariable : StateVariable.ofStatement? statement.text statement.index with
  | none => exact iff_of_true ⟨none, rfl⟩ fun _ found => nomatch found
  | some v =>
    simp only [Option.some.injEq, forall_eq']
    by_cases isPublic : v.visibility = .publicly
    · simp only [isPublic, if_true, forall_const, exists_bind_iff, pure_eq_ok_iff, exists_eq', and_true]
      cases isGetter : Getter.ofType v.type <;>
        simp [StateVariable.getter?, isGetter, Except.toOption, exists_entry_iff, ofGetter_ne_iff]
    · simp only [isPublic, if_false, false_implies, iff_true]
      exact ⟨none, rfl⟩

theorem exists_functionEntries_iff {cleaned : Text} :
    (∃ es, functionEntries cleaned r = .ok es) ↔
      ∀ params ∈ (FunctionHeader.definitions cleaned).filterMap paramsOf?, ∃ t, r.substitute params = .ok t :=
  exists_definitionEntries_iff

theorem exists_getterEntries_iff {cleaned : Text} :
    (∃ es, getterEntries cleaned r = .ok es) ↔
      (∀ v ∈ publicVariables cleaned, v.getter?.isSome = true) ∧
        ∀ key ∈ (publicVariables cleaned).flatMap fun v => v.getter?.elim [] Getter.keys,
          ∃ t, r.substitute key = .ok t := by
  rw [getterEntries, exists_bind_pure_iff, exists_mapM_iff]
  simp only [exists_entryOfStatement?_iff, publicVariables, StateVariable.ofText, List.mem_filter,
    List.mem_filterMap, List.mem_flatMap, decide_eq_true_eq]
  constructor
  · intro each
    refine ⟨fun v ⟨⟨statement, member, declares⟩, isPublic⟩ => (each statement member v declares isPublic).1, ?_⟩
    rintro key ⟨v, ⟨⟨statement, member, declares⟩, isPublic⟩, isKey⟩
    exact (each statement member v declares isPublic).2 key isKey
  · rintro ⟨found, keys⟩ statement member v declares isPublic
    exact ⟨found v ⟨⟨statement, member, declares⟩, isPublic⟩,
      fun key isKey => keys key ⟨v, ⟨⟨statement, member, declares⟩, isPublic⟩, isKey⟩⟩

/-- There are no entries of functions if there are no functions, and only then. -/
theorem eq_nil_iff_of_functionEntries {cleaned : Text} {es : List Entry}
    (succeeds : functionEntries cleaned r = .ok es) : es = [] ↔ FunctionHeader.definitions cleaned = [] := by
  have sizes := congrArg List.length (mapM_eq_ok_iff.1 succeeds)
  rw [List.length_map, List.length_map] at sizes
  rw [← List.length_eq_zero_iff, ← List.length_eq_zero_iff, sizes]

theorem eq_none_iff_of_entryOfStatement? {statement : Statement} {e? : Option Entry}
    (succeeds : entryOfStatement? r statement = .ok e?) :
    e? = none ↔ ∀ v, StateVariable.ofStatement? statement.text statement.index = some v →
      v.visibility ≠ .publicly := by
  cases e? with
  | some e =>
    obtain ⟨v, _, isVariable, isPublic, _⟩ := entryOfStatement?_eq_some_iff.1 succeeds
    exact iff_of_false (fun absent => nomatch absent) fun hidden => hidden v isVariable isPublic
  | none =>
    refine iff_of_true rfl fun v isVariable isPublic => ?_
    simp only [entryOfStatement?, isVariable, isPublic, if_true] at succeeds
    obtain ⟨_, _, rest⟩ := bind_eq_ok_iff.1 succeeds
    obtain ⟨_, _, whole⟩ := bind_eq_ok_iff.1 rest
    cases pure_eq_ok_iff.1 whole

theorem eq_nil_iff_of_getterEntries {cleaned : Text} {es : List Entry}
    (succeeds : getterEntries cleaned r = .ok es) : es = [] ↔ publicVariables cleaned = [] := by
  obtain ⟨found, gives, whole⟩ := bind_eq_ok_iff.1 succeeds
  cases pure_eq_ok_iff.1 whole
  simp only [publicVariables, StateVariable.ofText, List.filterMap_eq_nil_iff, List.filter_eq_nil_iff, id_eq,
    List.mem_filterMap, decide_eq_true_eq]
  constructor
  · rintro nothing v ⟨statement, member, declares⟩
    obtain ⟨e?, isEntry⟩ := exists_mapM_iff.1 ⟨found, gives⟩ statement member
    exact (eq_none_iff_of_entryOfStatement? isEntry).1 (nothing e? (mem_of_mapM gives member isEntry)) v declares
  · intro hidden e? member
    obtain ⟨statement, isStatement, isEntry⟩ := exists_of_mem_mapM gives member
    exact (eq_none_iff_of_entryOfStatement? isEntry).2 fun v declares => hidden v ⟨statement, isStatement, declares⟩

/-- All texts can be substituted in if all names that are met in them can be read. -/
theorem forall_substitute_iff {texts : List Text} :
    (∀ text ∈ texts, ∃ t, r.substitute text = .ok t) ↔
      ∀ name ∈ texts.flatMap (r.namesMet r.typeNames), r.Everywhere Expr.isReadable name := by
  simp only [Registry.exists_substitute_iff, List.mem_flatMap]
  exact ⟨fun each name ⟨text, member, isMet⟩ => each text member name isMet,
    fun each text member name isMet => each name ⟨text, member, isMet⟩⟩

theorem append_eq_nil_iff_of_entries {cleaned : Text} {functions getters : List Entry}
    (isFunctions : functionEntries cleaned r = .ok functions) (isGetters : getterEntries cleaned r = .ok getters) :
    functions ++ getters = [] ↔ FunctionHeader.definitions cleaned = [] ∧ publicVariables cleaned = [] := by
  rw [List.append_eq_nil_iff, eq_nil_iff_of_functionEntries isFunctions, eq_nil_iff_of_getterEntries isGetters]

/-- Signatures are listed if those of functions and those of getters are, and if there are none of either, those
that are read line by line. -/
theorem exists_entries_iff_steps (source : Text) (shared : Option Registry) :
    (∃ es, entries source shared = .ok es) ↔
      ∃ functions, functionEntries (Comment.strip source) (registryOf (Comment.strip source) shared) = .ok functions ∧
        ∃ getters, getterEntries (Comment.strip source) (registryOf (Comment.strip source) shared) = .ok getters ∧
          (functions ++ getters = [] →
            ∃ es, lineEntries (Comment.strip source) (registryOf (Comment.strip source) shared) = .ok es) := by
  unfold entries
  simp only [exists_bind_iff]
  refine exists_congr fun functions => and_congr_right fun _ => exists_congr fun getters =>
    and_congr_right fun _ => ?_
  split
  · rename_i nothing
    exact ⟨fun listed _ => listed, fun listed => listed nothing⟩
  · rename_i something
    exact iff_of_true ⟨_, rfl⟩ fun nothing => absurd nothing something

/-- Signatures are listed if the getters of all public state variables are found and all names that are
met can be read. -/
theorem exists_entries_iff (source : Text) (shared : Option Registry) :
    (∃ es, entries source shared = .ok es) ↔
      (∀ v ∈ publicVariables (Comment.strip source), v.getter?.isSome = true) ∧
        ∀ name ∈ namesMet (registryOf (Comment.strip source) shared) (Comment.strip source),
          (registryOf (Comment.strip source) shared).Everywhere Expr.isReadable name := by
  rw [exists_entries_iff_steps, namesMet, ← forall_substitute_iff, substitutedTexts]
  generalize Comment.strip source = cleaned
  generalize registryOf cleaned shared = r
  -- the lines of the source are met only where it has neither functions nor getters
  constructor
  · rintro ⟨functions, isFunctions, getters, isGetters, isLines⟩
    obtain ⟨found, keys⟩ := exists_getterEntries_iff.1 ⟨getters, isGetters⟩
    refine ⟨found, fun text member => ?_⟩
    rcases List.mem_append.1 member with member | ofLine
    · rcases List.mem_append.1 member with ofFunction | ofGetter
      · exact exists_functionEntries_iff.1 ⟨functions, isFunctions⟩ text ofFunction
      · exact keys text ofGetter
    · split at ofLine
      · rename_i neither
        have nothing := (append_eq_nil_iff_of_entries isFunctions isGetters).2 neither
        exact exists_definitionEntries_iff.1 (isLines nothing) text ofLine
      · cases ofLine
  · rintro ⟨found, substitutes⟩
    obtain ⟨functions, isFunctions⟩ := exists_functionEntries_iff.2 fun params member =>
      substitutes params (List.mem_append_left _ (List.mem_append_left _ member))
    obtain ⟨getters, isGetters⟩ := exists_getterEntries_iff.2 ⟨found, fun key member =>
      substitutes key (List.mem_append_left _ (List.mem_append_right _ member))⟩
    refine ⟨functions, isFunctions, getters, isGetters, fun nothing => exists_definitionEntries_iff.2 ?_⟩
    have neither := (append_eq_nil_iff_of_entries isFunctions isGetters).1 nothing
    intro params member
    refine substitutes params (List.mem_append_right _ ?_)
    rwa [if_pos neither]

end Signature

/-! ## Results -/

/-- All that a source text has to be looked up for ends: every getter that is asked for is found, and no
mapping that is reached is irreducible. -/
structure Terminates (options : Options) (shared : Option Registry) (source : Text) : Prop where
  candidates : ∀ c ∈ Candidate.taken options (Comment.strip source), c.hasGetter = true
  publicVariables : ∀ v ∈ Signature.publicVariables (Comment.strip source), v.getter?.isSome = true
  types : ∀ c ∈ Candidate.taken options (Comment.strip source), ∀ type ∈ c.types,
    (registryOf (Comment.strip source) shared).Everywhere Expr.isReducible type
  names : ∀ name ∈ Signature.namesMet (registryOf (Comment.strip source) shared) (Comment.strip source),
    (registryOf (Comment.strip source) shared).Everywhere Expr.isReducible name

/-- Where looking up ends, there is an interface exactly if every array that is reached from the types of its
candidates has sizes that are lengths or leave it dynamic, and a list of signatures exactly if every array has
that is reached from the names met in it. -/
theorem exists_results_iff {options : Options} {shared : Option Registry} {source : Text}
    (terminates : Terminates options shared source) :
    ((∃ e, extract options shared source = .ok e) ↔
      ∀ c ∈ Candidate.taken options (Comment.strip source), ∀ type ∈ c.types,
        (registryOf (Comment.strip source) shared).Everywhere Expr.hasLengths type) ∧
    ((∃ es, Signature.entries source shared = .ok es) ↔
      ∀ name ∈ Signature.namesMet (registryOf (Comment.strip source) shared) (Comment.strip source),
        (registryOf (Comment.strip source) shared).Everywhere Expr.hasLengths name) := by
  rw [exists_extract_iff, Signature.exists_entries_iff, and_iff_right terminates.publicVariables]
  simp only [Registry.everywhere_isReadable_iff]
  refine ⟨forall₂_congr fun c taken => ?_, forall₂_congr fun name isMet => ?_⟩
  · rw [and_iff_right (terminates.candidates c taken)]
    exact forall₂_congr fun type isType => and_iff_right (terminates.types c taken type isType)
  · exact and_iff_right (terminates.names name isMet)

/-- A getter, a struct and an enumeration are looked up to the end, and the only array is dynamic. -/
theorem exists_results_contract :
    let source := ("contract C \x7b struct A \x7b uint256[] xs; B b; \x7d enum B \x7b X \x7d " ++
      "mapping(address => A) public m; function f(A memory a) public view returns (B) \x7b\x7d \x7d").toList
    Terminates .default none source ∧ (∃ e, extract .default none source = .ok e) ∧
      ∃ es, Signature.entries source none = .ok es := by
  intro source
  -- what has a descriptor can be read
  have readable {type : Text} (described : ((registryOf (Comment.strip source) none).describe type).toBool = true) :
      (registryOf (Comment.strip source) none).Everywhere Expr.isReducible type ∧
        (registryOf (Comment.strip source) none).Everywhere Expr.hasLengths type :=
    Registry.everywhere_isReadable_iff.1 (Registry.exists_describe_iff.1 (toBool_iff.1 described))
  have types : ∀ c ∈ Candidate.taken .default (Comment.strip source), ∀ type ∈ c.types,
      ((registryOf (Comment.strip source) none).describe type).toBool = true := by decide +kernel
  have names : ∀ name ∈ Signature.namesMet (registryOf (Comment.strip source) none) (Comment.strip source),
      ((registryOf (Comment.strip source) none).describe name).toBool = true := by
    unfold Signature.namesMet Registry.typeNames
    -- the names come in order, so nothing has to be sorted
    rw [List.mergeSort_of_pairwise (by decide +kernel)]
    decide +kernel
  have terminates : Terminates .default none source :=
    { candidates := by decide +kernel
      publicVariables := by decide +kernel
      types := fun c taken type isType => (readable (types c taken type isType)).1
      names := fun name isMet => (readable (names name isMet)).1 }
  obtain ⟨interface, signatures⟩ := exists_results_iff terminates
  exact ⟨terminates, interface.2 fun c taken type isType => (readable (types c taken type isType)).2,
    signatures.2 fun name isMet => (readable (names name isMet)).2⟩

/-- A size of superscript digits in a struct ends extraction and the list of signatures, though there is
neither a getter nor a mapping in the source. -/
theorem no_results_superscript :
    let source := ("contract T \x7b struct S \x7b uint256[²] a; \x7d " ++
      "function f(S memory s) public view returns (uint256) \x7b\x7d \x7d").toList
    Terminates .default none source ∧
      extract .default none source = .error (.lengthNotDecimal "²".toList) ∧
      Signature.entries source none = .error (.lengthNotDecimal "²".toList) := by
  intro source
  -- the names come in order, so nothing has to be sorted
  have sorted : (registryOf (Comment.strip source) none).typeNames = ["S".toList, "T".toList] := by
    unfold Registry.typeNames
    rw [List.mergeSort_of_pairwise (by decide +kernel)]
    decide +kernel
  -- definitions are followed from the struct to its member
  have types : ∀ c ∈ Candidate.taken .default (Comment.strip source), ∀ type ∈ c.types,
      (registryOf (Comment.strip source) none).holdsUpTo Expr.isReducible 2 type = true := by decide +kernel
  have names : ∀ name ∈ Signature.namesMet (registryOf (Comment.strip source) none) (Comment.strip source),
      (registryOf (Comment.strip source) none).holdsUpTo Expr.isReducible 2 name = true := by
    unfold Signature.namesMet
    rw [sorted]
    decide +kernel
  have terminates : Terminates .default none source :=
    { candidates := by decide +kernel
      publicVariables := by decide +kernel
      types := fun c taken type isType => Registry.everywhere_of_holdsUpTo (types c taken type isType)
      names := fun name isMet => Registry.everywhere_of_holdsUpTo (names name isMet) }
  have fails : (extract .default none source).map Extraction.warnings =
      .error (.lengthNotDecimal "²".toList) := by decide +kernel
  have functions : Signature.functionEntries (Comment.strip source) (registryOf (Comment.strip source) none) =
      .error (.lengthNotDecimal "²".toList) := by
    unfold Signature.functionEntries Signature.ofDefinition Signature.substituteWith Registry.substitute
    simp only [sorted]
    decide +kernel
  refine ⟨terminates, eq_error_of_map fails, ?_⟩
  unfold Signature.entries
  exact congrArg (· >>= _) functions

end ContractInterface
