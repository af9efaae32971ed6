import ContractInterface.Proofs.Definitions
import ContractInterface.Proofs.Results
import Mathlib.Data.List.Basic

/-! # Signatures of declarations and of definitions

The signature of a declaration is spelled by the descriptors of its parameters; the entry of its
definition is read from text.  If names of types can be told from other words, and the parameters are
written with a type and perhaps a name, both are the same (`exists_entry_of_declared`).  A parameter that
is named like a struct breaks this (`entries_of_parameter_named_like_struct`).
-/

namespace ContractInterface

open Text TypeSyntax

/-! ## Parameters without open names -/

namespace Descriptor

mutual

theorem isElementary_of_mem_unresolvedNames {x : Text} : ∀ {d : Descriptor},
    d.hasElementaryLeaves = true → x ∈ d.unresolvedNames → isElementary x = true
  | .primitive _, _, isOpen => nomatch isOpen
  | .unresolved _, leaves, isOpen => by
    rw [unresolvedNames, List.mem_singleton] at isOpen
    exact isOpen ▸ leaves
  | .array element _, leaves, isOpen => isElementary_of_mem_unresolvedNames (d := element) leaves isOpen
  | .mapping _ _, leaves, _ => nomatch leaves
  | .tuple _ _, leaves, isOpen => isElementary_of_mem_unresolvedAmong leaves isOpen
  | .unspecified, leaves, _ => nomatch leaves

theorem isElementary_of_mem_unresolvedAmong {x : Text} : ∀ {members : List (Text × Descriptor)},
    haveElementaryLeaves members = true → x ∈ unresolvedAmong members → isElementary x = true
  | [], _, isOpen => nomatch isOpen
  | (_, type) :: more, leaves, isOpen => by
    obtain ⟨first, others⟩ := Bool.and_eq_true_iff.1 leaves
    rcases List.mem_append.1 isOpen with inFirst | inOthers
    · exact isElementary_of_mem_unresolvedNames first inFirst
    · exact isElementary_of_mem_unresolvedAmong others inOthers

end

end Descriptor

/-- An open name that is elementary is not empty, so it is always reported. -/
theorem isResolved_of_firstUnresolved? {params : List Param}
    (elementary : ∀ p ∈ params, p.descriptor.hasElementaryLeaves = true)
    (nothing : firstUnresolved? params = none) : ∀ p ∈ params, p.descriptor.isResolved = true := by
  have closed : params.flatMap (fun p => p.descriptor.unresolvedNames) = [] := by
    cases names : params.flatMap fun p => p.descriptor.unresolvedNames with
    | nil => rfl
    | cons x more =>
      obtain ⟨p, member, isOpen⟩ := List.mem_flatMap.1 (names ▸ List.mem_cons_self (a := x))
      have isName := Descriptor.isElementary_of_mem_unresolvedNames (elementary p member) isOpen
      have nonempty : x ≠ [] := by
        rintro rfl
        exact absurd isName (by decide)
      unfold firstUnresolved? at nothing
      simp [names, nonempty] at nothing
  intro p member
  exact List.isEmpty_iff.2 (List.flatMap_eq_nil_iff.1 closed p member)

theorem firstUnresolved?_of_declared {line : Nat} {checks : List (List Param × (Text → Finding))}
    {result : Outcome} {d : Declaration}
    (declares : checkedOutcome .default line checks result = .declared d) {params : List Param}
    {finding : Text → Finding} (isCheck : (params, finding) ∈ checks) : firstUnresolved? params = none := by
  rcases checkedOutcome_cases .default line checks result with ⟨_, nothing⟩ | ⟨_, _, _, _, drops⟩
  · exact nothing rfl _ isCheck
  · cases drops.symm.trans declares

/-! ## Entries -/

namespace Registry

open Signature

variable {r : Registry}

theorem IsTellable.mapM_substituteWith (tellable : r.IsTellable) (keys : List Text) :
    keys.mapM (substituteWith (some r)) = .ok (keys.map (substituted r.spelling r.typeNames)) := by
  rw [mapM_eq_ok_iff, List.map_map]
  refine List.map_congr_left fun key _ => ?_
  rw [substituteWith, tellable.substitute_eq]
  rfl

theorem IsTellable.ofGetter_eq (tellable : r.IsTellable) (name : Text) (keys : List Text) :
    ofGetter name keys (some r) =
      (((keys.map (substituted r.spelling r.typeNames)).mapM canonicalParam).mapError .definition >>=
        fun types => pure (spell name types)) := by
  unfold ofGetter
  rw [tellable.mapM_substituteWith]
  rfl

theorem IsTellable.exists_functionEntries (tellable : r.IsTellable) (cleaned : Text) :
    ∃ es, functionEntries cleaned r = .ok es :=
  exists_functionEntries_iff.2 fun params _ => ⟨_, tellable.substitute_eq params⟩

theorem IsTellable.exists_getterEntries (tellable : r.IsTellable) {cleaned : Text}
    (getters : ∀ v ∈ StateVariable.ofText cleaned, v.visibility = .publicly →
      ∃ getter, Getter.ofType v.type = .ok getter) : ∃ es, getterEntries cleaned r = .ok es := by
  refine exists_getterEntries_iff.2 ⟨fun v isPublic => ?_, fun key _ => ⟨_, tellable.substitute_eq key⟩⟩
  obtain ⟨declares, visible⟩ := List.mem_filter.1 isPublic
  obtain ⟨getter, isGetter⟩ := getters v declares (of_decide_eq_true visible)
  exact Option.isSome_iff_exists.2 ⟨getter, StateVariable.getter?_eq_some_iff.2 isGetter⟩

end Registry

/-! ## Functions -/

theorem exists_head_of_mem {cleaned : Text} {f : FunctionHeader} (member : f ∈ FunctionHeader.ofText cleaned) :
    ∃ head, (∃ index, (index, head) ∈ FunctionHead.ofText cleaned) ∧ head.name = f.name ∧
      ∃ behind, Delimiter.parenthesised? head.fromParen = some (f.params, behind) := by
  obtain ⟨⟨index, head⟩, isHead, isHeader⟩ := List.mem_filterMap.1 member
  obtain ⟨⟨params, behind⟩, closes, same⟩ := Option.map_eq_some_iff.1 isHeader
  cases same
  exact ⟨head, ⟨index, isHead⟩, rfl, behind, closes⟩

/-- A function whose parameters are written clauses has an entry with the signature of its declaration. -/
theorem mem_functionEntries {r : Registry} (tellable : r.IsTellable) {cleaned : Text} {f : FunctionHeader}
    (isHeader : f ∈ FunctionHeader.ofText cleaned)
    (written : ∀ clause ∈ Delimiter.splitCommas f.params, r.IsWrittenClause clause) {d : Declaration}
    (declared : IsDeclared r f d) (elementary : ∀ p ∈ d.inputs,
      p.descriptor.isResolved = true ∧ p.descriptor.hasElementaryLeaves = true)
    {es : List Signature.Entry} (succeeds : Signature.functionEntries cleaned r = .ok es) :
    ∃ definition, (⟨definition, d.signature, d.selector, none⟩ : Signature.Entry) ∈ es := by
  obtain ⟨head, ⟨index, isHead⟩, isName, behind, closes⟩ := exists_head_of_mem isHeader
  obtain ⟨front, back, head_⟩ := FunctionHead.exists_isWritten_of_mem isHead
  have isDefinition : definitionText head.name back (collapsed f.params) ∈
      FunctionHeader.definitions cleaned :=
    List.mem_filterMap.2 ⟨(index, head), isHead, head_.definition?_eq closes⟩
  have signature := Registry.ofDefinition_definition tellable head_ written declared.inputs elementary
  have isSignature : Signature.spell head.name (d.inputs.map fun p => p.descriptor.canonical) = d.signature := by
    rw [isName, ← declared.name]
    rfl
  rw [isSignature] at signature
  refine ⟨definitionText head.name back (collapsed f.params), mem_of_mapM succeeds isDefinition ?_⟩
  rw [signature]
  rfl

/-! ## State variables -/

/-- The types that are read from written keys are those of the parameters that they make. -/
theorem mapM_keys {r : Registry} (tellable : r.IsTellable) {keys : List Text} {inputs : List Param}
    {number : Nat} (resolves : getterInputs r number keys = .ok inputs)
    (written : ∀ key ∈ keys, r.IsWrittenType key) (elementary : ∀ p ∈ inputs,
      p.descriptor.isResolved = true ∧ p.descriptor.hasElementaryLeaves = true) :
    (keys.map (Registry.substituted r.spelling r.typeNames)).mapM Signature.canonicalParam =
      .ok (inputs.map fun p => p.descriptor.canonical) := by
  rw [mapM_eq_ok_iff]
  have describes := forall₂_getterInputs resolves
  clear resolves
  induction describes with
  | nil => rfl
  | cons first _ ih =>
    rw [List.forall_mem_cons] at written elementary
    have reads := (written.1.readsAs tellable first.2 elementary.1.1 elementary.1.2).reads .nothing
    rw [List.append_nil] at reads
    simp only [List.map_cons, reads, ih written.2 elementary.2]

/-- A public state variable whose keys are written types has an entry with the signature of its
declaration. -/
theorem mem_getterEntries {r : Registry} (tellable : r.IsTellable) {cleaned : Text} {v : StateVariable}
    (isVariable : v ∈ StateVariable.ofText cleaned) (isPublic : v.visibility = .publicly) {getter : Getter}
    {d : Declaration} (declared : IsGetterDeclared r v getter d)
    (written : ∀ key ∈ getter.keys, r.IsWrittenType key) (elementary : ∀ p ∈ d.inputs,
      p.descriptor.isResolved = true ∧ p.descriptor.hasElementaryLeaves = true)
    {es : List Signature.Entry} (succeeds : Signature.getterEntries cleaned r = .ok es) :
    ∃ definition, (⟨definition, d.signature, d.selector, none⟩ : Signature.Entry) ∈ es := by
  obtain ⟨statement, isStatement, declares⟩ := List.mem_filterMap.1 isVariable
  have types := mapM_keys tellable declared.inputs written elementary
  have signature : Signature.ofGetter v.name getter.keys (some r) = .ok d.signature := by
    rw [tellable.ofGetter_eq, types, ← declared.name]
    rfl
  have isEntry : Signature.entryOfStatement? r statement =
      .ok (some ⟨spaced statement.text, d.signature, d.selector, none⟩) := by
    refine Signature.entryOfStatement?_eq_some_iff.2 ⟨v, getter, declares, isPublic, declared.isGetter, ?_⟩
    rw [signature]
    rfl
  obtain ⟨found, inOrder, whole⟩ := bind_eq_ok_iff.1 succeeds
  cases pure_eq_ok_iff.1 whole
  exact ⟨_, List.mem_filterMap.2 ⟨_, mem_of_mapM inOrder isStatement isEntry, rfl⟩⟩

/-! ## Declarations -/

/-- Whether the parameters of a candidate are written as types, those of a function perhaps with a
name. -/
def Candidate.IsWritten (r : Registry) : Candidate → Prop
  | .variable v => ∀ getter, Getter.ofType v.type = .ok getter → ∀ key ∈ getter.keys, r.IsWrittenType key
  | .function f => ∀ clause ∈ Delimiter.splitCommas f.params, r.IsWrittenClause clause

/-- The inputs of a declaration that validation lets pass are resolved if their leaves are elementary. -/
theorem isResolved_of_outcome {r : Registry} {cleaned : Text} {c : Candidate} {d : Declaration}
    (declares : c.outcome .default r cleaned = .ok (.declared d))
    (elementary : ∀ p ∈ d.inputs, p.descriptor.hasElementaryLeaves = true) :
    ∀ p ∈ d.inputs, p.descriptor.isResolved = true := by
  refine isResolved_of_firstUnresolved? elementary ?_
  rcases c with v | f
  · obtain ⟨getter, _, rest⟩ := bind_eq_ok_iff.1 declares
    obtain ⟨inputs, isInputs, rest'⟩ := bind_eq_ok_iff.1 rest
    obtain ⟨value, _, whole⟩ := bind_eq_ok_iff.1 rest'
    have checked := pure_eq_ok_iff.1 whole
    cases declared_of_checkedOutcome checked
    exact firstUnresolved?_of_declared checked (List.mem_cons_of_mem _ List.mem_cons_self)
  · have declared := isDeclared_of_functionOutcome declares
    obtain ⟨inputs, isInputs, rest⟩ := bind_eq_ok_iff.1 declares
    obtain ⟨outputs, _, whole⟩ := bind_eq_ok_iff.1 rest
    rw [declared.inputs] at isInputs
    cases isInputs
    exact firstUnresolved?_of_declared (pure_eq_ok_iff.1 whole) List.mem_cons_self

/-- The two readings of signatures agree: if names of types can be told from other words and all of them
and all getters can be looked up, then a declaration with elementary inputs has an entry with its signature,
provided that the parameters of its candidate are written as types. -/
theorem exists_entry_of_declared {shared : Option Registry} {source : Text} {e : Extraction}
    (succeeds : extract .default shared source = .ok e)
    (tellable : (registryOf (Comment.strip source) shared).IsTellable)
    (getters : ∀ v ∈ StateVariable.ofText (Comment.strip source), v.visibility = .publicly →
      ∃ getter, Getter.ofType v.type = .ok getter) {d : Declaration} (member : d ∈ e.declarations)
    (elementary : ∀ p ∈ d.inputs, p.descriptor.hasElementaryLeaves = true)
    (written : ∀ c ∈ Candidate.firstOfEachName [] (Candidate.all .default (Comment.strip source)),
      c.name = d.name → c.IsWritten (registryOf (Comment.strip source) shared)) :
    ∃ es, Signature.entries source shared = .ok es ∧
      ∃ entry ∈ es, entry.error = none ∧ entry.signature = d.signature ∧ entry.selector = d.selector := by
  obtain ⟨c, isFirst, declares⟩ := exists_first_of_declared succeeds member
  obtain ⟨functions, isFunctions⟩ := tellable.exists_functionEntries (Comment.strip source)
  obtain ⟨getters', isGetters⟩ := tellable.exists_getterEntries getters
  have inputs : ∀ p ∈ d.inputs, p.descriptor.isResolved = true ∧ p.descriptor.hasElementaryLeaves = true :=
    fun p isInput => ⟨isResolved_of_outcome declares elementary p isInput, elementary p isInput⟩
  have isCandidate := mem_of_mem_firstOfEachName isFirst
  obtain ⟨definition, isEntry⟩ : ∃ definition,
      (⟨definition, d.signature, d.selector, none⟩ : Signature.Entry) ∈ functions ++ getters' := by
    -- what is reported is public, so a variable is listed among the getters
    rcases c with v | f
    · obtain ⟨getter, declared⟩ := isGetterDeclared_of_variableOutcome declares
      have reported : v ∈ Candidate.reportedVariables .default (Comment.strip source) := by
        simpa [Candidate.all] using isCandidate
      obtain ⟨isVariable, isPublic⟩ := List.mem_filter.1 reported
      have keys := written _ isFirst declared.name.symm getter declared.isGetter
      obtain ⟨definition, isEntry⟩ := mem_getterEntries tellable isVariable
        (by simpa [Options.default] using isPublic) declared keys inputs isGetters
      exact ⟨definition, List.mem_append_right _ isEntry⟩
    · have declared := isDeclared_of_functionOutcome declares
      have reported : f ∈ Candidate.reportedFunctions .default (Comment.strip source) := by
        simpa [Candidate.all] using isCandidate
      have clauses := written _ isFirst declared.name.symm
      obtain ⟨definition, isEntry⟩ := mem_functionEntries tellable (List.mem_filter.1 reported).1 clauses
        declared inputs isFunctions
      exact ⟨definition, List.mem_append_left _ isEntry⟩
  -- with an entry in it the source is not read as a list of bare signatures
  refine ⟨functions ++ getters', ?_, _, isEntry, rfl, rfl, rfl⟩
  unfold Signature.entries
  refine bind_eq_ok_iff.2 ⟨functions, isFunctions, bind_eq_ok_iff.2 ⟨getters', isGetters, ?_⟩⟩
  exact if_neg (List.ne_nil_of_mem isEntry)

/-- A struct, an enum with a qualifier and a shorthand are spelled alike by both readings. -/
theorem exists_entry_of_types :
    let source := ("contract C \x7b struct P \x7b uint256 x; Id id; \x7d enum E \x7b A \x7d type Id is uint64; " ++
      "function f(P[3] memory ps, C.E kind, uint n) external view returns (bool) \x7b\x7d \x7d").toList
    ∃ e d, extract .default none source = .ok e ∧ d ∈ e.declarations ∧
      d.signature = "f((uint256,uint64)[3],uint8,uint256)".toList ∧
      ∃ es, Signature.entries source none = .ok es ∧
        ∃ entry ∈ es, entry.error = none ∧ entry.signature = d.signature ∧ entry.selector = d.selector := by
  intro source
  have shows : (extract .default none source).toOption.map (fun e => e.declarations.map fun d =>
      (d.name, d.inputs.all fun p => p.descriptor.hasElementaryLeaves, d.signature)) =
        some [("f".toList, true, "f((uint256,uint64)[3],uint8,uint256)".toList)] := by decide +kernel
  obtain ⟨e, d, succeeds, member, shown⟩ := exists_of_view _ _ shows
  obtain ⟨isName, elementary, signature⟩ : d.name = "f".toList ∧
      (d.inputs.all fun p => p.descriptor.hasElementaryLeaves) = true ∧
        d.signature = "f((uint256,uint64)[3],uint8,uint256)".toList := by simpa using shown
  have names : (Registry.ofSource (Comment.strip source)).typeNames ⊆
      ["E".toList, "P".toList, "Id".toList, "C".toList] := by
    intro name member
    rw [Registry.typeNames, List.mem_mergeSort] at member
    revert name
    decide +kernel
  have tellable : (Registry.ofSource (Comment.strip source)).IsTellable :=
    Registry.isTellable_of_names names (by decide +kernel)
  have unobtrusive : ∀ word ∉ ["E".toList, "P".toList, "Id".toList, "C".toList],
      Registry.IsUnobtrusive (Registry.ofSource (Comment.strip source)).spelling
        (Registry.ofSource (Comment.strip source)).typeNames word :=
    fun word fresh isName => absurd (names isName) fresh
  have blank : Blanks [' '] := blanks_singleton (by decide)
  have memory : "memory".toList ∈ storageLocations := by decide
  have structs : (Registry.ofSource (Comment.strip source)).IsWrittenClause "P[3] memory ps".toList :=
    ⟨⟨"P[3]".toList, _, "ps".toList, ⟨[], "P".toList, [some 3], by decide +kernel, by decide, by simp⟩,
      .location blank (by decide) memory (.named blank (by decide) (by decide)), unobtrusive _ (by decide),
      by decide +kernel⟩⟩
  have enum : (Registry.ofSource (Comment.strip source)).IsWrittenClause "C.E kind".toList := by
    refine ⟨⟨"C.E".toList, _, "kind".toList, ⟨["C".toList], "E".toList, [], by decide +kernel, by decide, ?_⟩,
      .named blank (by decide) (by decide), unobtrusive _ (by decide), by decide +kernel⟩⟩
    -- the contract that qualifies the enum is a name of its own, spelled as an address
    have qualifier : (Registry.ofSource (Comment.strip source)).spelling "C".toList = "address".toList := by
      decide +kernel
    rw [List.forall_mem_singleton, Registry.IsUnobtrusive, qualifier]
    exact fun _ => ⟨by decide, fun isName => absurd (names isName) (by decide)⟩
  have number : (Registry.ofSource (Comment.strip source)).IsWrittenClause "uint n".toList :=
    ⟨⟨"uint".toList, _, "n".toList, ⟨[], "uint".toList, [], by decide +kernel, by decide, by simp⟩,
      .named blank (by decide) (by decide), unobtrusive _ (by decide), by decide +kernel⟩⟩
  refine ⟨e, d, succeeds, member, signature, exists_entry_of_declared succeeds tellable ?_ member
    (List.all_eq_true.1 elementary) ?_⟩
  · have none_ : StateVariable.ofText (Comment.strip source) = [] := by decide +kernel
    rw [none_]
    exact fun _ absurd_ => nomatch absurd_
  · have only : Candidate.firstOfEachName [] (Candidate.all .default (Comment.strip source)) =
        [.function ⟨"f".toList, "P[3] memory ps, C.E kind, uint n".toList, some "bool".toList, 76,
          .externally, .view⟩] := by decide +kernel
    have clauses : Delimiter.splitCommas "P[3] memory ps, C.E kind, uint n".toList =
        ["P[3] memory ps".toList, "C.E kind".toList, "uint n".toList] := by decide +kernel
    rw [only, List.forall_mem_singleton]
    intro _
    change ∀ clause ∈ Delimiter.splitCommas "P[3] memory ps, C.E kind, uint n".toList, _
    rw [clauses, List.forall_mem_cons, List.forall_mem_cons, List.forall_mem_singleton]
    exact ⟨structs, enum, number⟩

/-- A parameter that is named like a struct is taken for the struct where signatures are read from text:
the function is declared with an elementary parameter, and its definition has no signature. -/
theorem entries_of_parameter_named_like_struct :
    let source := ("contract C \x7b struct order \x7b uint256 x; \x7d " ++
      "function f(uint256 order) public view returns (uint256) \x7b\x7d \x7d").toList
    (extract .default none source).toOption.map (fun e => e.declarations.map fun d =>
      (d.signature, d.inputs.map fun p => (p.name, p.descriptor.canonical))) =
        some [("f(uint256)".toList, [("order".toList, "uint256".toList)])] ∧
      Signature.entries source none = .ok [⟨"function f(uint256 order)".toList, [], [],
        some (.unknownType "uint256 (uint256)".toList)⟩] := by
  intro source
  refine ⟨by decide +kernel, ?_⟩
  -- the names come in order, so nothing has to be sorted
  have names : (Registry.ofSource (Comment.strip source)).typeNames = ["order".toList, "C".toList] := by
    unfold Registry.typeNames
    rw [List.mergeSort_of_pairwise (by decide +kernel)]
    decide +kernel
  have substituted : (Registry.ofSource (Comment.strip source)).substitute "uint256 order".toList =
      .ok "uint256 (uint256)".toList := by
    unfold Registry.substitute
    rw [names]
    decide +kernel
  have statement : Signature.statementText "function f(uint256 order)".toList =
      "function f(uint256 order)".toList := by decide +kernel
  have head : Signature.head? "function f(uint256 order)".toList =
      some ("f".toList, "(uint256 order)".toList) := by decide +kernel
  have params : Delimiter.parenthesised? "(uint256 order)".toList =
      some ("uint256 order".toList, []) := by decide +kernel
  have types : (Delimiter.splitCommas "uint256 (uint256)".toList).mapM Signature.canonicalParam =
      .error (.unknownType "uint256 (uint256)".toList) := by decide +kernel
  have signature : Signature.ofDefinition "function f(uint256 order)".toList
      (some (Registry.ofSource (Comment.strip source))) =
        .error (.definition (.unknownType "uint256 (uint256)".toList)) := by
    simp only [Signature.ofDefinition, statement, head, params, Signature.substituteWith, substituted]
    change ((Delimiter.splitCommas "uint256 (uint256)".toList).mapM Signature.canonicalParam).mapError
      SignatureFailure.definition >>= (fun types => pure (Signature.spell "f".toList types)) = _
    rw [types]
    rfl
  have definitions : FunctionHeader.definitions (Comment.strip source) =
      ["function f(uint256 order)".toList] := by decide +kernel
  have getters : Signature.getterEntries (Comment.strip source)
      (Registry.ofSource (Comment.strip source)) = .ok [] := by decide +kernel
  unfold Signature.entries Signature.functionEntries
  simp only [Option.elim, definitions, getters, List.mapM_cons, signature]
  rfl

end ContractInterface
