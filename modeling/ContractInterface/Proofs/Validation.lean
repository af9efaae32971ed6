import ContractInterface.Proofs.Leaves
import ContractInterface.Proofs.LocalTypes
import ContractInterface.Proofs.Outcomes

/-! # Validation of types

Without validation every candidate is declared that is not passed over.  Validation changes the outcomes
one by one (`IsValidated`): it keeps a declaration, or drops it with a diagnostic.  So it filters the
declarations and reports each that is left out (`exists_extract_validated`).

A declaration is reported for the first open name among its inputs or among its outputs.  A mapping
without a key type leaves an empty name open, which is not reported, and neither are open names behind
it: such a declaration is kept (`declares_undefined_behind_blank_key`).
-/

namespace ContractInterface

open Text TypeSyntax

/-! ## Declarations with a finding -/

namespace Declaration

/-- Whether all types of a declaration are resolved. -/
def isResolved (d : Declaration) : Bool :=
  (d.inputs ++ d.outputs).all fun p => p.descriptor.isResolved

/-- Whether validation has something to report: a first open name, among the inputs or among the
outputs, that is not empty. -/
def hasFinding (d : Declaration) : Bool :=
  (firstUnresolved? d.inputs).isSome || (firstUnresolved? d.outputs).isSome

end Declaration

theorem isSome_firstUnresolved?_iff {params : List Param} :
    (firstUnresolved? params).isSome = true ↔
      ∃ x more, (params.flatMap fun p => p.descriptor.unresolvedNames) = x :: more ∧ x ≠ [] := by
  unfold firstUnresolved?
  cases params.flatMap fun p => p.descriptor.unresolvedNames with
  | nil => simp
  | cons x more => by_cases empty : x = [] <;> simp [empty]

/-- If no open name is empty, parameters without anything to report are resolved. -/
theorem isSome_firstUnresolved?_or_forall {params : List Param}
    (named : ∀ p ∈ params, [] ∉ p.descriptor.unresolvedNames) :
    (firstUnresolved? params).isSome = true ∨ ∀ p ∈ params, p.descriptor.isResolved = true := by
  cases names : params.flatMap fun p => p.descriptor.unresolvedNames with
  | nil =>
    exact .inr fun p member => List.isEmpty_iff.2 (List.flatMap_eq_nil_iff.1 names p member)
  | cons x more =>
    obtain ⟨p, member, isOpen⟩ := List.mem_flatMap.1 (names ▸ List.mem_cons_self (a := x))
    refine .inl (isSome_firstUnresolved?_iff.2 ⟨x, more, names, ?_⟩)
    rintro rfl
    exact named p member isOpen

namespace Declaration

/-- A declaration whose types are resolved is not reported. -/
theorem hasFinding_of_isResolved {d : Declaration} (resolved : d.isResolved = true) :
    d.hasFinding = false := by
  have closed {params : List Param} (within : params ⊆ d.inputs ++ d.outputs) :
      (firstUnresolved? params).isSome = false := by
    have empty : (params.flatMap fun p => p.descriptor.unresolvedNames) = [] :=
      List.flatMap_eq_nil_iff.2 fun p member =>
        List.isEmpty_iff.1 (List.all_eq_true.1 resolved p (within member))
    unfold firstUnresolved?
    rw [empty]
    rfl
  unfold hasFinding
  rw [closed (List.subset_append_left _ _), closed (List.subset_append_right _ _)]
  rfl

theorem hasFinding_or_isResolved {d : Declaration}
    (named : ∀ p ∈ d.inputs ++ d.outputs, [] ∉ p.descriptor.unresolvedNames) :
    d.hasFinding = true ∨ d.isResolved = true := by
  rw [List.forall_mem_append] at named
  unfold hasFinding isResolved
  rw [Bool.or_eq_true, List.all_eq_true, List.forall_mem_append]
  rcases isSome_firstUnresolved?_or_forall named.1 with reported | inputs
  · exact .inl (.inl reported)
  · rcases isSome_firstUnresolved?_or_forall named.2 with reported | outputs
    · exact .inl (.inr reported)
    · exact .inr ⟨inputs, outputs⟩

/-- The declarations that are not reported are the resolved ones exactly if each of the others is
reported. -/
theorem filter_noFinding_eq_iff (ds : List Declaration) :
    (ds.filter fun d => !d.hasFinding) = ds.filter isResolved ↔
      ∀ d ∈ ds, d.hasFinding = true ∨ d.isResolved = true := by
  constructor
  · intro same d member
    have left_iff : d ∈ (ds.filter fun d => !d.hasFinding) ↔ d ∈ ds.filter isResolved := by rw [same]
    rw [List.mem_filter, List.mem_filter, and_iff_right member, and_iff_right member] at left_iff
    cases reported : d.hasFinding with
    | true => exact .inl rfl
    | false => exact .inr (left_iff.1 (by rw [reported]; rfl))
  · refine fun settled => List.filter_congr fun d member => ?_
    cases resolved : d.isResolved with
    | true => rw [hasFinding_of_isResolved resolved]; rfl
    | false => rw [(settled d member).resolve_right (by rw [resolved]; exact Bool.false_ne_true)]; rfl

end Declaration

/-! ## One outcome -/

/-- What validation makes of an outcome. -/
inductive IsValidated : Outcome → Outcome → Prop where
  | kept {d : Declaration} (unreported : d.hasFinding = false) :
    IsValidated (.declared d) (.declared d)
  | dropped {d : Declaration} {g : Diagnostic} (reported : d.hasFinding = true)
      (subject : g.finding.subject = d.name) (line : g.line = some d.line) :
    IsValidated (.declared d) (.dropped g)
  | passedOver : IsValidated .passedOver .passedOver
  /-- A function without a result may have inputs to report. -/
  | reported (g : Diagnostic) : IsValidated .passedOver (.dropped g)

theorem isValidated_checkedOutcome {d : Declaration} {checks : List (List Param × (Text → Finding))}
    (reports : d.hasFinding = checks.any fun check => (firstUnresolved? check.1).isSome)
    (subject : ∀ check ∈ checks, ∀ missing, (check.2 missing).subject = d.name) (hidden : Bool) :
    IsValidated (.declared d) (checkedOutcome ⟨hidden, true⟩ d.line checks (.declared d)) := by
  rcases checkedOutcome_cases ⟨hidden, true⟩ d.line checks (.declared d) with
    ⟨passes, nothing⟩ | ⟨check, member, missing, isFirst, drops⟩
  · rw [passes]
    refine .kept (reports.trans (List.any_eq_false.2 fun check member => ?_))
    rw [nothing rfl check member]
    exact Bool.false_ne_true
  · rw [drops]
    refine .dropped (reports.trans (List.any_eq_true.2 ⟨check, member, ?_⟩))
      (subject check member missing) rfl
    rw [isFirst]
    rfl

section Outcome

variable {hidden : Bool} {r : Registry} {o : Outcome}

theorem exists_variableOutcome_validated {line : Nat} {v : StateVariable}
    (ends : variableOutcome ⟨hidden, false⟩ r line v = .ok o) :
    ∃ o', variableOutcome ⟨hidden, true⟩ r line v = .ok o' ∧ IsValidated o o' := by
  obtain ⟨getter, isGetter, rest⟩ := bind_eq_ok_iff.1 ends
  obtain ⟨inputs, isInputs, rest⟩ := bind_eq_ok_iff.1 rest
  obtain ⟨value, isValue, whole⟩ := bind_eq_ok_iff.1 rest
  cases pure_eq_ok_iff.1 whole
  refine ⟨_, bind_eq_ok_iff.2 ⟨getter, isGetter, bind_eq_ok_iff.2 ⟨inputs, isInputs,
    bind_eq_ok_iff.2 ⟨value, isValue, rfl⟩⟩⟩, isValidated_checkedOutcome ?_ ?_ hidden⟩
  -- the type of the value is checked before those of the keys
  · simp [Declaration.hasFinding, Bool.or_comm]
  · simp [Finding.subject]

theorem exists_functionOutcome_validated {line : Nat} {f : FunctionHeader}
    (ends : functionOutcome ⟨hidden, false⟩ r line f = .ok o) :
    ∃ o', functionOutcome ⟨hidden, true⟩ r line f = .ok o' ∧ IsValidated o o' := by
  obtain ⟨inputs, isInputs, rest⟩ := bind_eq_ok_iff.1 ends
  obtain ⟨outputs, isOutputs, whole⟩ := bind_eq_ok_iff.1 rest
  refine ⟨_, bind_eq_ok_iff.2 ⟨inputs, isInputs, bind_eq_ok_iff.2 ⟨outputs, isOutputs, rfl⟩⟩, ?_⟩
  cases pure_eq_ok_iff.1 whole
  cases hasResults : f.returns with
  | none =>
    -- the implied result is resolved, and no clause is checked in its place
    rw [hasResults] at isOutputs
    cases isOutputs
    refine isValidated_checkedOutcome ?_ ?_ hidden
    · simp [Declaration.hasFinding, impliedOutput, firstUnresolved?, Descriptor.unresolvedNames]
    · simp [Finding.subject]
  | some results =>
    simp only
    split
    · rcases checkedOutcome_cases ⟨hidden, true⟩ line _ .passedOver with
        ⟨passes, _⟩ | ⟨_, _, _, _, drops⟩
      · rw [passes]
        exact .passedOver
      · rw [drops]
        exact .reported _
    · refine isValidated_checkedOutcome ?_ ?_ hidden
      · simp [Declaration.hasFinding]
      · simp [Finding.subject]

theorem exists_outcome_validated {cleaned : Text} {c : Candidate}
    (ends : c.outcome ⟨hidden, false⟩ r cleaned = .ok o) :
    ∃ o', c.outcome ⟨hidden, true⟩ r cleaned = .ok o' ∧ IsValidated o o' := by
  rcases c with v | f
  · exact exists_variableOutcome_validated ends
  · exact exists_functionOutcome_validated ends

end Outcome

/-! ## Whole extractions -/

section Outcomes

variable {os os' : List Outcome} (validated : List.Forall₂ IsValidated os os')

include validated

/-- Without validation nothing is reported. -/
theorem diagnostics_eq_nil_of_validated : os.filterMap Outcome.diagnostic? = [] := by
  induction validated with
  | nil => rfl
  | cons first _ ih => cases first <;> exact ih

/-- Validation leaves the declarations that it does not report. -/
theorem declarations_of_validated : os'.filterMap Outcome.declaration? =
    (os.filterMap Outcome.declaration?).filter fun d => !d.hasFinding := by
  induction validated with
  | nil => rfl
  | cons first _ ih =>
    cases first with
    | @kept d unreported =>
      simp only [List.filterMap_cons, Outcome.declaration?, ih]
      exact (List.filter_cons_of_pos (by rw [unreported]; rfl)).symm
    | @dropped d g reported _ _ =>
      simp only [List.filterMap_cons, Outcome.declaration?, ih]
      exact (List.filter_cons_of_neg (by rw [reported]; exact Bool.false_ne_true)).symm
    | passedOver => exact ih
    | reported g => exact ih

theorem exists_diagnostic_of_validated {d : Declaration}
    (member : d ∈ os.filterMap Outcome.declaration?) (reported : d.hasFinding = true) :
    ∃ g ∈ os'.filterMap Outcome.diagnostic?, g.finding.subject = d.name ∧ g.line = some d.line := by
  induction validated with
  | nil => cases member
  | cons first _ ih =>
    cases first with
    | kept unreported =>
      rcases List.mem_cons.1 member with rfl | member
      · rw [reported] at unreported
        cases unreported
      · exact ih member
    | @dropped _ g _ subject line =>
      rcases List.mem_cons.1 member with rfl | member
      · exact ⟨g, List.mem_cons_self, subject, line⟩
      · obtain ⟨g', inOthers, found⟩ := ih member
        exact ⟨g', List.mem_cons_of_mem _ inOthers, found⟩
    | passedOver => exact ih member
    | reported g =>
      obtain ⟨g', inOthers, found⟩ := ih member
      exact ⟨g', List.mem_cons_of_mem _ inOthers, found⟩

end Outcomes

theorem exists_outcomes_validated {hidden : Bool} {shared : Option Registry} {source : Text}
    {e : Extraction} (succeeds : extract ⟨hidden, false⟩ shared source = .ok e) :
    ∃ os os', e = .ofOutcomes os ∧ extract ⟨hidden, true⟩ shared source = .ok (.ofOutcomes os') ∧
      List.Forall₂ IsValidated os os' := by
  obtain ⟨os, ends, whole⟩ := bind_eq_ok_iff.1 succeeds
  obtain ⟨os', ends', validated⟩ :=
    exists_forall₂_of_mapM (fun _ _ => exists_outcome_validated) ends
  -- which candidates there are does not depend on validation
  exact ⟨os, os', (pure_eq_ok_iff.1 whole).symm, bind_eq_ok_iff.2 ⟨os', ends', rfl⟩, validated⟩

/-- Among values of different names one is found by its name. -/
theorem filter_eq_singleton {α : Type} {f : α → Text} {xs : List α} (distinct : (xs.map f).Nodup)
    {x : α} (member : x ∈ xs) : (xs.filter fun y => f y = f x) = [x] := by
  induction xs with
  | nil => cases member
  | cons y ys ih =>
    obtain ⟨fresh, distinct⟩ := List.nodup_cons.1 distinct
    rcases List.mem_cons.1 member with rfl | member
    · rw [List.filter_cons_of_pos (by simp), List.filter_eq_nil_iff.2]
      intro z isOther same
      exact fresh (of_decide_eq_true same ▸ List.mem_map_of_mem isOther)
    · have other : f y ≠ f x := fun same => fresh (same ▸ List.mem_map_of_mem member)
      rw [List.filter_cons_of_neg (by simpa using other), ih distinct member]

/-- Of a subject that is reported there is one diagnostic. -/
theorem filter_diagnostics_eq_singleton {options : Options} {shared : Option Registry} {source : Text}
    {e : Extraction} (succeeds : extract options shared source = .ok e) {g : Diagnostic}
    (isDiagnostic : g ∈ e.diagnostics) :
    (e.diagnostics.filter fun g' => g'.finding.subject = g.finding.subject) = [g] :=
  filter_eq_singleton (List.nodup_append.1 (accounts_of_extract succeeds).distinct).2.1 isDiagnostic

/-- Whether a part of a type has a spelling, if it is a name or denotes nothing. -/
def TypeSyntax.Expr.isNamed : Expr → Bool
  | .name text => text ≠ []
  | .unknown text => text ≠ []
  | _ => true

/-- No empty name is left open by a type that is made of named parts. -/
theorem Registry.not_mem_unresolvedNames {r : Registry} {type : Text} {d : Descriptor}
    (describes : r.describe type = .ok d) (named : r.Everywhere Expr.isNamed type) :
    [] ∉ d.unresolvedNames := by
  intro isOpen
  obtain ⟨type', isMadeOf, p, isPart, yields⟩ :=
    exists_part_of_mem_leaves describes (Descriptor.mem_unresolvedNames_iff.1 isOpen)
  have isNamed := named type' isMadeOf p isPart
  cases yields with
  | blank => cases isNamed
  | «open» => cases isNamed

/-- Validation filters.  The declarations with validation are those without it that are not reported, and
they are the same declarations with the same items.  Each declaration that is left out has one
diagnostic, with its name and line, and without validation there are no diagnostics.

What is left are the declarations whose types are resolved, exactly if each of the others is reported.
This is so if all that their types are made of has a name. -/
theorem exists_extract_validated {hidden : Bool} {shared : Option Registry} {source : Text}
    {e : Extraction} (succeeds : extract ⟨hidden, false⟩ shared source = .ok e) :
    ∃ e', extract ⟨hidden, true⟩ shared source = .ok e' ∧ e.diagnostics = [] ∧
      e'.declarations = (e.declarations.filter fun d => !d.hasFinding) ∧
      e'.items = (e.declarations.filter fun d => !d.hasFinding).map Declaration.toItem ∧
      (∀ d ∈ e.declarations, d ∉ e'.declarations →
        ∃ g, (e'.diagnostics.filter fun g => g.finding.subject = d.name) = [g] ∧
          g.line = some d.line) ∧
      (e'.declarations = e.declarations.filter Declaration.isResolved ↔
        ∀ d ∈ e.declarations, d.hasFinding = true ∨ d.isResolved = true) ∧
      ((∀ d ∈ e.declarations, ∀ p ∈ d.inputs ++ d.outputs, p ≠ impliedOutput →
          (registryOf (Comment.strip source) shared).Everywhere Expr.isNamed p.type) →
        e'.declarations = e.declarations.filter Declaration.isResolved) := by
  obtain ⟨os, os', rfl, succeeds', validated⟩ := exists_outcomes_validated succeeds
  have left := declarations_of_validated validated
  have resolved_iff := left ▸ Declaration.filter_noFinding_eq_iff (Extraction.ofOutcomes os).declarations
  refine ⟨_, succeeds', diagnostics_eq_nil_of_validated validated, left,
    congrArg (List.map Declaration.toItem) left, fun d member isOut => ?_, resolved_iff,
    fun named => resolved_iff.2 fun d member => ?_⟩
  · have reported : d.hasFinding = true := by
      simpa [Extraction.ofOutcomes, left, show d ∈ os.filterMap Outcome.declaration? from member]
        using isOut
    obtain ⟨g, isDiagnostic, subject, line⟩ := exists_diagnostic_of_validated validated member reported
    exact ⟨g, subject ▸ filter_diagnostics_eq_singleton succeeds' isDiagnostic, line⟩
  · refine Declaration.hasFinding_or_isResolved fun p isParam => ?_
    by_cases implied : p = impliedOutput
    · rw [implied]
      exact List.not_mem_nil
    · exact Registry.not_mem_unresolvedNames (describe_of_declared succeeds member isParam implied)
        (named d member p isParam implied)

/-- Getters and functions with a type that is not defined are left out. -/
theorem exists_extract_validated_contract :
    let source := ("contract C \x7b struct S \x7b T t; \x7d Missing public m; " ++
      "mapping(uint => S) public s; uint public n; function f(uint x) public view returns (uint); " ++
      "function g(Missing x) public pure returns (memory); function h(T[] memory x) pure; \x7d").toList
    ∃ e e', extract ⟨false, false⟩ none source = .ok e ∧ extract ⟨false, true⟩ none source = .ok e' ∧
      e.declarations.map Declaration.name = ["m", "s", "n", "f", "h"].map String.toList ∧
      e'.declarations.map Declaration.name = ["n", "f"].map String.toList ∧
      e'.declarations = e.declarations.filter Declaration.isResolved := by
  intro source
  have shows : (extract ⟨false, false⟩ none source).toOption.map (fun e =>
      (e.declarations.map Declaration.name,
        (e.declarations.filter Declaration.isResolved).map Declaration.name,
        e.declarations.all fun d => d.hasFinding || d.isResolved)) =
      some (["m", "s", "n", "f", "h"].map String.toList, ["n", "f"].map String.toList, true) := by
    decide +kernel
  obtain ⟨e, succeeds, shown⟩ := exists_of_toOption_map shows
  obtain ⟨names, left, settled⟩ : _ ∧ _ ∧ _ := by simpa only [Prod.mk.injEq] using shown
  obtain ⟨e', succeeds', _, _, _, _, resolved_iff, _⟩ := exists_extract_validated succeeds
  have filters : e'.declarations = e.declarations.filter Declaration.isResolved :=
    resolved_iff.2 fun d member => by simpa using List.all_eq_true.1 settled d member
  exact ⟨e, e', succeeds, succeeds', names, by rw [filters, left], filters⟩

/-- A mapping without a key type hides a type that is not defined, also one behind it: the function is
declared with validation, although its types are not resolved, and nothing is reported. -/
theorem declares_undefined_behind_blank_key :
    let source := ("contract C \x7b function f(mapping( => uint256) storage m, Foo x) public view " ++
      "returns (uint256) \x7b\x7d \x7d").toList
    ∃ e e', extract ⟨false, false⟩ none source = .ok e ∧ extract ⟨false, true⟩ none source = .ok e' ∧
      e.declarations.filter Declaration.isResolved = [] ∧
      e'.declarations.map Declaration.name = ["f".toList] ∧ e'.diagnostics = [] := by
  intro source
  have shows : (extract ⟨false, false⟩ none source).toOption.map (fun e =>
      (e.declarations.filter Declaration.isResolved).isEmpty) = some true := by
    decide +kernel
  have shows' : (extract ⟨false, true⟩ none source).toOption.map (fun e =>
      (e.declarations.map Declaration.name, e.diagnostics)) = some (["f".toList], []) := by
    decide +kernel
  obtain ⟨e, succeeds, unresolved⟩ := exists_of_toOption_map shows
  obtain ⟨e', succeeds', shown⟩ := exists_of_toOption_map shows'
  exact ⟨e, e', succeeds, succeeds', List.isEmpty_iff.1 unresolved, Prod.mk.inj shown⟩

end ContractInterface
