import ContractInterface.Proofs.ElementaryTypes
import ContractInterface.Proofs.Validation

/-! # Names without a definition

A name that is not defined is left open if it looks user-defined, and is taken at its word otherwise.
So a descriptor ends in elementary types only, apart from its open names, exactly if every name that is
neither defined nor elementary looks user-defined (`forall_isElementary_iff`).

An extraction leaves out what has an open name.  A name that does not look user-defined gets through
without being elementary (`declares_undefined_lowercase`).
-/

namespace ContractInterface

open Text TypeSyntax Relation

namespace Registry

variable {r : Registry}

/-! ## Names taken at their word -/

theorem resolveName_of_undefined {x : Text} (isUndefined : r.definition? (unqualified x) = none)
    (plain : isCustom x = false) (visiting : List Text) :
    r.resolveName visiting x = .ok (.primitive (canonicalName x)) := by
  rw [resolveName_eq, isUndefined]
  simp [plain]

/-- A type ends in every name that it is made of and that is taken at its word. -/
theorem mem_leaves_of_isMadeOf {type type' x : Text} {d : Descriptor}
    (describes : r.describe type = .ok d) (isMadeOf : r.IsMadeOf type type')
    (mentions : Mentions type' x) (isUndefined : r.definition? (unqualified x) = none)
    (plain : isCustom x = false) : .primitive (canonicalName x) ∈ d.leaves := by
  have isWord (visiting : List Text) {t : Descriptor}
      (resolves : (Expr.ofText type').resolveWith (r.resolveName visiting) = .ok t) :
      .primitive (canonicalName x) ∈ t.leaves :=
    (Expr.mem_leaves_resolveWith_iff resolves).2 (.inr ⟨x, mentions, _,
      resolveName_of_undefined isUndefined plain visiting, List.mem_cons_self⟩)
  rcases isMadeOf with rfl | ⟨b, ⟨y, mentionsName, reaches⟩, isType⟩
  · exact isWord [] describes
  -- the type stands in the definition of `b`, which is expanded somewhere
  · obtain ⟨d', resolves⟩ := (Expr.exists_resolveWith_iff.1 ⟨d, describes⟩).2 y mentionsName
    obtain ⟨visiting, z, inner, rfl, fresh, expands, keeps⟩ :=
      exists_expansion_of_reaches resolves reaches
    obtain ⟨t, resolvesType⟩ :=
      r.exists_resolveWith_of_resolveName visiting z inner expands fresh type' isType
    have below : r.EndsBelow visiting (unqualified z) (.primitive (canonicalName x)) :=
      ⟨type', isType, t, resolvesType, isWord _ resolvesType⟩
    exact (Expr.mem_leaves_resolveWith_iff describes).2 (.inr ⟨y, mentionsName, d', resolves,
      keeps _ (r.mem_leaves_of_endsBelow visiting z inner expands fresh _ below)⟩)

/-- Whether a part of a type is no name that could be mistaken for an elementary type: it is defined, or
looks user-defined, or is elementary. -/
def isTrusted (r : Registry) : Expr → Bool
  | .name x => (r.definition? (unqualified x)).isSome || isCustom x || isElementary x
  | _ => true

/-- The types that a descriptor ends in are elementary, open names apart, exactly if no name that the
type is made of is mistaken for an elementary type. -/
theorem forall_isElementary_iff {type : Text} {d : Descriptor} (describes : r.describe type = .ok d) :
    (∀ name, .primitive name ∈ d.leaves → isElementary name = true) ↔
      r.Everywhere r.isTrusted type := by
  constructor
  · intro elementary type' isMadeOf p isPart
    cases p with
    | name x =>
      cases isDefined : r.definition? (unqualified x) with
      | some definition => simp [isTrusted, isDefined]
      | none =>
        cases looks : isCustom x with
        | true => simp [isTrusted, looks]
        | false =>
          have isLeaf := mem_leaves_of_isMadeOf describes isMadeOf isPart isDefined looks
          simp [isTrusted, ← isElementary_canonicalName x, elementary _ isLeaf]
    | _ => rfl
  · intro trusted name isLeaf
    obtain ⟨type', isMadeOf, p, isPart, yields⟩ := exists_part_of_mem_leaves describes isLeaf
    have isTrusted := trusted type' isMadeOf p isPart
    cases yields with
    | enumeration => decide
    | contract => decide
    | @word x isUndefined plain =>
      rw [isElementary_canonicalName]
      simpa [Registry.isTrusted, isUndefined, plain] using isTrusted

/-- A type that is made of an undefined name with the looks of a user-defined one has an open name. -/
theorem isResolved_eq_false {type type' x : Text} {d : Descriptor}
    (describes : r.describe type = .ok d) (isMadeOf : r.IsMadeOf type type')
    (mentions : Mentions type' x) (isUndefined : r.definition? (unqualified x) = none)
    (looks : isCustom x = true) : d.isResolved = false := by
  rw [← Bool.not_eq_true, isResolved_describe_iff describes]
  intro grounded
  have ground := grounded.ground type' isMadeOf _ mentions
  simp [isGround, isUndefined, looks] at ground

end Registry

/-! ## Candidates with an open name -/

/-- What validation finds nothing to report in: the types of a candidate, resolved. -/
structure Candidate.IsUnreported (c : Candidate) (r : Registry) (inputs outputs : List Param) : Prop where
  types : (inputs ++ outputs).map Param.type = c.types
  describes : ∀ p ∈ inputs ++ outputs, r.describe p.type = .ok p.descriptor
  inputs : firstUnresolved? inputs = none
  outputs : firstUnresolved? outputs = none

section Outcome

variable {hidden : Bool} {r : Registry} {o : Outcome}

theorem dropped_or_forall_none {line : Nat} {checks : List (List Param × (Text → Finding))}
    {result : Outcome} (ends : checkedOutcome ⟨hidden, true⟩ line checks result = o) :
    (∃ g, o = .dropped g) ∨ ∀ check ∈ checks, firstUnresolved? check.1 = none := by
  subst ends
  rcases checkedOutcome_cases ⟨hidden, true⟩ line checks result with
    ⟨_, nothing⟩ | ⟨_, _, _, _, drops⟩
  · exact .inr (nothing rfl)
  · exact .inl ⟨_, drops⟩

theorem dropped_or_isUnreported_variable {line : Nat} {v : StateVariable}
    (ends : variableOutcome ⟨hidden, true⟩ r line v = .ok o) :
    (∃ g, o = .dropped g) ∨ ∃ inputs outputs, (Candidate.variable v).IsUnreported r inputs outputs := by
  obtain ⟨getter, isGetter, rest⟩ := bind_eq_ok_iff.1 ends
  obtain ⟨inputs, isInputs, rest⟩ := bind_eq_ok_iff.1 rest
  obtain ⟨value, isValue, whole⟩ := bind_eq_ok_iff.1 rest
  rcases dropped_or_forall_none (pure_eq_ok_iff.1 whole) with drops | nothing
  · exact .inl drops
  · refine .inr ⟨inputs, [⟨valueName, getter.value, value⟩], ?_, ?_, ?_, ?_⟩
    · rw [List.map_append, map_type_getterInputs isInputs, Candidate.types, isGetter]
      rfl
    · exact List.forall_mem_append.2
        ⟨describe_of_getterInputs isInputs, List.forall_mem_singleton.2 isValue⟩
    · exact nothing _ (List.mem_cons_of_mem _ List.mem_cons_self)
    · exact nothing _ List.mem_cons_self

theorem dropped_or_isUnreported_function {line : Nat} {f : FunctionHeader}
    (ends : functionOutcome ⟨hidden, true⟩ r line f = .ok o) :
    (∃ g, o = .dropped g) ∨ ∃ inputs outputs, (Candidate.function f).IsUnreported r inputs outputs := by
  obtain ⟨inputs, isInputs, rest⟩ := bind_eq_ok_iff.1 ends
  obtain ⟨outputs, isOutputs, whole⟩ := bind_eq_ok_iff.1 rest
  rcases dropped_or_forall_none (pure_eq_ok_iff.1 whole) with drops | nothing
  · exact .inl drops
  · refine .inr ⟨inputs, outputs, ?_, ?_, ?_, ?_⟩
    · rw [List.map_append, map_type_paramsOfList isInputs, map_type_paramsOfList isOutputs,
        ← List.filter_append, ← List.map_append]
      rfl
    · exact List.forall_mem_append.2
        ⟨describe_of_paramsOfList isInputs, describe_of_paramsOfList isOutputs⟩
    · exact nothing _ List.mem_cons_self
    · exact nothing _ (List.mem_cons_of_mem _ List.mem_cons_self)

/-- A candidate with an open name is dropped, if no open name in it is empty. -/
theorem exists_dropped_of_open {cleaned : Text} {c : Candidate}
    (ends : c.outcome ⟨hidden, true⟩ r cleaned = .ok o)
    (named : ∀ type ∈ c.types, r.Everywhere Expr.isNamed type) {type : Text} (isType : type ∈ c.types)
    (isOpen : ∀ d, r.describe type = .ok d → d.isResolved = false) : ∃ g, o = .dropped g := by
  have settled : (∃ g, o = .dropped g) ∨ ∃ inputs outputs, c.IsUnreported r inputs outputs := by
    rcases c with v | f
    · exact dropped_or_isUnreported_variable ends
    · exact dropped_or_isUnreported_function ends
  rcases settled with drops | ⟨inputs, outputs, unreported⟩
  · exact drops
  have resolved {params : List Param} (within : params ⊆ inputs ++ outputs)
      (nothing : firstUnresolved? params = none) : ∀ p ∈ params, p.descriptor.isResolved = true := by
    have reported_or := @isSome_firstUnresolved?_or_forall params fun p member =>
      Registry.not_mem_unresolvedNames (unreported.describes p (within member))
        (named p.type (unreported.types ▸ List.mem_map_of_mem (within member)))
    rw [nothing] at reported_or
    exact reported_or.resolve_left Bool.false_ne_true
  -- the type is that of a parameter, in which nothing is left open
  obtain ⟨p, isParam, rfl⟩ := List.mem_map.1 (unreported.types.symm ▸ isType)
  have isResolved : p.descriptor.isResolved = true :=
    List.forall_mem_append.2 ⟨resolved (List.subset_append_left _ _) unreported.inputs,
      resolved (List.subset_append_right _ _) unreported.outputs⟩ p isParam
  rw [isOpen _ (unreported.describes p isParam)] at isResolved
  cases isResolved

end Outcome

/-! ## Whole extractions -/

/-- What is dropped is reported once and not declared. -/
theorem exists_diagnostic_of_dropped {options : Options} {shared : Option Registry} {source : Text}
    {e : Extraction} (succeeds : extract options shared source = .ok e) {c : Candidate}
    (isFirst : c ∈ Candidate.firstOfEachName [] (Candidate.all options (Comment.strip source)))
    (drops : ∀ o, c.outcome options (registryOf (Comment.strip source) shared)
      (Comment.strip source) = .ok o → ∃ g, o = .dropped g) :
    (∀ d ∈ e.declarations, d.name ≠ c.name) ∧
      ∃ g, (e.diagnostics.filter fun g => g.finding.subject = c.name) = [g] ∧
        g.line = some (Comment.lineAt (Comment.strip source) c.index) := by
  -- declarations and diagnostics have different names, and no name twice
  have apart := (List.nodup_append.1 (accounts_of_extract succeeds).distinct).2.2
  obtain ⟨outcomes, ends, whole⟩ := bind_eq_ok_iff.1 succeeds
  obtain ⟨o, isOutcome⟩ := exists_mapM_iff.1 ⟨outcomes, ends⟩ c isFirst
  obtain ⟨g, rfl⟩ := drops o isOutcome
  have isDiagnostic : g ∈ e.diagnostics := by
    rw [← pure_eq_ok_iff.1 whole]
    exact List.mem_filterMap.2 ⟨.dropped g, mem_of_mapM ends isFirst isOutcome, rfl⟩
  cases isAccounted_of_outcome isOutcome with
  | dropped subject line =>
    refine ⟨fun d member same => ?_, g, subject ▸ filter_diagnostics_eq_singleton succeeds isDiagnostic,
      line⟩
    exact apart _ (List.mem_map_of_mem member) _ (List.mem_map_of_mem isDiagnostic)
      (same.trans subject.symm)

/-- The types of a declaration end in elementary types, open names apart, exactly if no name in the
source is mistaken for one.  A candidate with a name that is not defined and looks user-defined is not
declared: it has one diagnostic, with its name and line. -/
theorem leaves_of_extract {shared : Option Registry} {source : Text} {e : Extraction}
    (succeeds : extract .default shared source = .ok e) :
    let r := registryOf (Comment.strip source) shared
    let candidates := Candidate.all .default (Comment.strip source)
    (∀ d ∈ e.declarations,
      (∀ p ∈ d.inputs ++ d.outputs, ∀ name, .primitive name ∈ p.descriptor.leaves →
          isElementary name = true) ↔
        ∀ p ∈ d.inputs ++ d.outputs, p ≠ impliedOutput → r.Everywhere r.isTrusted p.type) ∧
      ∀ c ∈ candidates, Candidate.isFirst candidates c = true →
        (∀ type ∈ c.types, r.Everywhere Expr.isNamed type) →
        ∀ type ∈ c.types, ∀ type', r.IsMadeOf type type' → ∀ x, Mentions type' x →
          r.definition? (unqualified x) = none → isCustom x = true →
          (∀ d ∈ e.declarations, d.name ≠ c.name) ∧
            ∃ g, (e.diagnostics.filter fun g => g.finding.subject = c.name) = [g] ∧
              g.line = some (Comment.lineAt (Comment.strip source) c.index) := by
  intro r candidates
  refine ⟨fun d member => forall₂_congr fun p isParam => ?_, ?_⟩
  · by_cases implied : p = impliedOutput
    · refine iff_of_true (fun name isLeaf => ?_) fun spelled => absurd implied spelled
      rw [implied] at isLeaf
      cases List.mem_singleton.1 isLeaf
      decide
    · rw [Registry.forall_isElementary_iff (describe_of_declared succeeds member isParam implied)]
      exact ⟨fun trusted _ => trusted, fun trusted => trusted implied⟩
  · intro c _ isFirst named type isType type' isMadeOf x mentions isUndefined looks
    have taken : c ∈ Candidate.firstOfEachName [] candidates :=
      Candidate.mem_firstOfEachName_iff.2 ⟨List.not_mem_nil, isFirst⟩
    exact exists_diagnostic_of_dropped succeeds taken fun o ends =>
      exists_dropped_of_open ends named isType fun d describes =>
        Registry.isResolved_eq_false describes isMadeOf mentions isUndefined looks

/-- A struct of elementary parts is declared, and a getter of an undefined type is reported. -/
theorem leaves_of_extract_contract :
    let source := ("contract C \x7b struct S \x7b uint[] a; \x7d Missing public m; " ++
      "function f(S memory s) public view \x7b\x7d \x7d").toList
    ∃ e, extract .default none source = .ok e ∧
      e.declarations.map Declaration.name = ["f".toList] ∧
      (∀ d ∈ e.declarations, ∀ p ∈ d.inputs ++ d.outputs, p ≠ impliedOutput →
        (registryOf (Comment.strip source) none).Everywhere
          (registryOf (Comment.strip source) none).isTrusted p.type) ∧
      ∃ g, (e.diagnostics.filter fun g => g.finding.subject = "m".toList) = [g] ∧ g.line = some 1 := by
  intro source
  have shows : (extract .default none source).toOption.map (fun e =>
      (e.declarations.map Declaration.name, e.declarations.all fun d => (d.inputs ++ d.outputs).all
        fun p => p.descriptor.leaves == [.primitive "uint256".toList])) = some (["f".toList], true) := by
    decide +kernel
  obtain ⟨e, succeeds, shown⟩ := exists_of_toOption_map shows
  obtain ⟨names, leaves⟩ := Prod.mk.inj shown
  obtain ⟨elementary_iff, reports⟩ := leaves_of_extract succeeds
  refine ⟨e, succeeds, names, fun d member => (elementary_iff d member).1 fun p isParam name isLeaf => ?_, ?_⟩
  · have ends := List.all_eq_true.1 (List.all_eq_true.1 leaves d member) p isParam
    rw [beq_iff_eq] at ends
    rw [ends] at isLeaf
    cases List.mem_singleton.1 isLeaf
    decide
  · have parts : (Expr.ofText "Missing".toList).parts = [.name "Missing".toList] := by decide +kernel
    have named : (registryOf (Comment.strip source) none).Everywhere Expr.isNamed "Missing".toList := by
      refine Registry.everywhere_iff.2 ⟨by decide +kernel, fun x mentions => ?_⟩
      rw [Mentions, parts] at mentions
      cases List.mem_singleton.1 mentions
      have noTypes : (registryOf (Comment.strip source) none).typesOf "Missing".toList = [] := by
        decide +kernel
      exact Registry.everywhereBelow_iff.2 fun type isType => by
        rw [show unqualified "Missing".toList = "Missing".toList from by decide, noTypes] at isType
        cases isType
    let c : Candidate := .variable ⟨"Missing".toList, "m".toList, 36, .publicly⟩
    have types : c.types = ["Missing".toList] := by decide +kernel
    obtain ⟨_, found⟩ := reports c (by decide +kernel) (by decide +kernel)
      (fun type isType => List.mem_singleton.1 (types ▸ isType) ▸ named)
      "Missing".toList (types ▸ List.mem_cons_self) "Missing".toList (.inl rfl) "Missing".toList
      (by rw [Mentions, parts]; exact List.mem_cons_self) (by decide +kernel) (by decide)
    exact found

/-- A type in lower case that is not defined is declared as if it were elementary, and nothing is
reported. -/
theorem declares_undefined_lowercase :
    let source := "contract C \x7b function f(token t) public view returns (bool) \x7b\x7d \x7d".toList
    ∃ e, extract .default none source = .ok e ∧ e.diagnostics = [] ∧
      ∃ d ∈ e.declarations, ∃ p ∈ d.inputs, p.type = "token".toList ∧
        p.descriptor = .primitive "token".toList ∧ isElementary "token".toList = false := by
  intro source
  have shows : (extract .default none source).toOption.map (fun e =>
      (e.diagnostics, e.declarations.map fun d => d.inputs.map fun p => (p.type, p.descriptor))) =
      some ([], [[("token".toList, .primitive "token".toList)]]) := by
    decide +kernel
  obtain ⟨e, succeeds, shown⟩ := exists_of_toOption_map shows
  obtain ⟨unreported, declared⟩ := Prod.mk.inj shown
  obtain ⟨d, member, inputs⟩ := List.mem_map.1 (declared ▸ List.mem_cons_self)
  obtain ⟨p, isInput, isParam⟩ := List.mem_map.1 (inputs ▸ List.mem_cons_self)
  obtain ⟨isType, isDescriptor⟩ := Prod.mk.inj isParam
  exact ⟨e, succeeds, unreported, d, member, p, isInput, isType, isDescriptor, by decide⟩

end ContractInterface
