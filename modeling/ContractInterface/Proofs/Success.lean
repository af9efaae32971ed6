import ContractInterface.Declaration.Extraction
import Mathlib.Data.List.Forall2

/-! # Extractions that succeed

What a successful extraction says about its parts: every declaration is the outcome of a candidate of
the source (`exists_candidate_of_declared`), and the parameters of a function's declaration are what
the clauses of its header resolve to (`exists_header_of_function`).
-/

namespace ContractInterface

section Except

variable {α β ε : Type}

theorem bind_eq_ok_iff {x : Except ε α} {f : α → Except ε β} {b : β} :
    x >>= f = .ok b ↔ ∃ a, x = .ok a ∧ f a = .ok b := by
  cases x <;> simp [Bind.bind, Except.bind]

theorem pure_eq_ok_iff {a b : α} : (pure a : Except ε α) = .ok b ↔ a = b := by
  simp [Pure.pure, Except.pure]

theorem bind_eq_error_iff {x : Except ε α} {f : α → Except ε β} {cause : ε} :
    x >>= f = .error cause ↔ x = .error cause ∨ ∃ a, x = .ok a ∧ f a = .error cause := by
  cases x <;> simp [Bind.bind, Except.bind]

theorem bind_pure_eq_error_iff {x : Except ε α} {f : α → β} {cause : ε} :
    (x >>= fun a => pure (f a)) = .error cause ↔ x = .error cause := by
  cases x <;> simp [Bind.bind, Except.bind, Pure.pure, Except.pure]

theorem exists_bind_iff {x : Except ε α} {f : α → Except ε β} :
    (∃ b, x >>= f = .ok b) ↔ ∃ a, x = .ok a ∧ ∃ b, f a = .ok b := by
  simp only [bind_eq_ok_iff]
  exact ⟨fun ⟨b, a, first, rest⟩ => ⟨a, first, b, rest⟩, fun ⟨a, first, b, rest⟩ => ⟨b, a, first, rest⟩⟩

/-- A computation whose result is passed on succeeds if it does before. -/
theorem exists_bind_pure_iff {x : Except ε α} {f : α → β} :
    (∃ b, (x >>= fun a => pure (f a)) = .ok b) ↔ ∃ a, x = .ok a := by
  cases x <;> simp [Bind.bind, Except.bind, Pure.pure, Except.pure]

theorem mapM_eq_ok_iff {f : α → Except ε β} {xs : List α} {ys : List β} :
    xs.mapM f = .ok ys ↔ xs.map f = ys.map .ok := by
  induction xs generalizing ys with
  | nil =>
    rw [List.mapM_nil, pure_eq_ok_iff]
    cases ys <;> simp
  | cons x xs ih =>
    rw [List.mapM_cons, bind_eq_ok_iff]
    constructor
    · rintro ⟨y, first, others⟩
      obtain ⟨ys', rest, whole⟩ := bind_eq_ok_iff.1 others
      cases pure_eq_ok_iff.1 whole
      rw [List.map_cons, List.map_cons, first, ih.1 rest]
    · intro same
      cases ys with
      | nil => cases same
      | cons y ys =>
        obtain ⟨first, rest⟩ := List.cons.inj same
        exact ⟨y, first, bind_eq_ok_iff.2 ⟨ys, ih.2 rest, rfl⟩⟩

theorem exists_of_mem_mapM {f : α → Except ε β} {xs : List α} {ys : List β}
    (succeeds : xs.mapM f = .ok ys) {y : β} (member : y ∈ ys) : ∃ x ∈ xs, f x = .ok y := by
  have same := mapM_eq_ok_iff.1 succeeds
  have inImage : Except.ok y ∈ xs.map f := by
    rw [same]
    exact List.mem_map_of_mem member
  exact List.mem_map.1 inImage

theorem mem_of_mapM {f : α → Except ε β} {xs : List α} {ys : List β} (succeeds : xs.mapM f = .ok ys)
    {x : α} (member : x ∈ xs) {y : β} (gives : f x = .ok y) : y ∈ ys := by
  have inImage := List.mem_map_of_mem (f := f) member
  rw [mapM_eq_ok_iff.1 succeeds, gives] at inImage
  obtain ⟨_, member', same⟩ := List.mem_map.1 inImage
  cases same
  exact member'

/-- A traversal stops at the first member that fails. -/
theorem mapM_eq_error_iff {f : α → Except ε β} {xs : List α} {cause : ε} :
    xs.mapM f = .error cause ↔ ∃ front x behind, xs = front ++ x :: behind ∧
      (∀ y ∈ front, ∃ b, f y = .ok b) ∧ f x = .error cause := by
  constructor
  · intro fails
    induction xs with
    | nil => cases fails
    | cons x xs ih =>
      rw [List.mapM_cons] at fails
      rcases bind_eq_error_iff.1 fails with atFirst | ⟨b, first, rest⟩
      · exact ⟨[], x, xs, rfl, List.forall_mem_nil _, atFirst⟩
      · obtain ⟨front, x', behind, rfl, before, stops⟩ := ih (bind_pure_eq_error_iff.1 rest)
        exact ⟨x :: front, x', behind, rfl, List.forall_mem_cons.2 ⟨⟨b, first⟩, before⟩, stops⟩
  · rintro ⟨front, x, behind, rfl, before, stops⟩
    induction front with
    | nil =>
      rw [List.nil_append, List.mapM_cons]
      exact bind_eq_error_iff.2 (.inl stops)
    | cons y front ih =>
      obtain ⟨⟨b, first⟩, before⟩ := List.forall_mem_cons.1 before
      rw [List.cons_append, List.mapM_cons]
      exact bind_eq_error_iff.2 (.inr ⟨b, first, bind_pure_eq_error_iff.2 (ih before)⟩)

theorem toBool_iff {x : Except ε α} : x.toBool = true ↔ ∃ a, x = .ok a := by
  cases x <;> simp [Except.toBool]

/-- A result that shows in some view. -/
theorem exists_of_toOption_map {x : Except ε α} {view : α → β} {shown : β}
    (shows : x.toOption.map view = some shown) : ∃ a, x = .ok a ∧ view a = shown := by
  cases x with
  | error _ => cases shows
  | ok a => exact ⟨a, rfl, Option.some.inj shows⟩

theorem eq_error_of_map {x : Except ε α} {f : α → β} {cause : ε} (fails : x.map f = .error cause) :
    x = .error cause := by
  cases x with
  | error _ => cases fails; rfl
  | ok _ => cases fails

/-- Computations of which the same is seen fail alike, or both succeed. -/
theorem cases_of_map_eq {α' : Type} {x : Except ε α} {y : Except ε α'} {f : α → β} {g : α' → β}
    (same : x.map f = y.map g) : (∃ cause, x = .error cause ∧ y = .error cause) ∨
      ∃ a a', x = .ok a ∧ y = .ok a' ∧ f a = g a' := by
  rcases x with cause | a <;> rcases y with cause' | a'
  · cases same
    exact .inl ⟨cause, rfl, rfl⟩
  · cases same
  · cases same
  · exact .inr ⟨a, a', rfl, rfl, Except.ok.inj same⟩

theorem cases_of_toOption_map_eq {α' : Type} {x : Except ε α} {y : Except ε α'} {f : α → β} {g : α' → β}
    (same : x.toOption.map f = y.toOption.map g) : (∃ cause cause', x = .error cause ∧ y = .error cause') ∨
      ∃ a a', x = .ok a ∧ y = .ok a' ∧ f a = g a' := by
  rcases x with cause | a <;> rcases y with cause' | a'
  · exact .inl ⟨cause, cause', rfl, rfl⟩
  · cases same
  · cases same
  · exact .inr ⟨a, a', rfl, rfl, Option.some.inj same⟩

theorem cases_of_toOption_eq_map {x : Except ε β} {y : Except ε α} {f : α → β}
    (same : x.toOption = y.toOption.map f) : (∃ cause cause', x = .error cause ∧ y = .error cause') ∨
      ∃ a, x = .ok (f a) ∧ y = .ok a := by
  obtain fails | ⟨_, a, left, right, rfl⟩ :=
    cases_of_toOption_map_eq (x := x) (y := y) (f := id) (by rw [same, Option.map_id, id])
  · exact .inl fails
  · exact .inr ⟨a, left, right⟩

theorem cases_of_toOption_eq {x y : Except ε α} (same : x.toOption = y.toOption) :
    (∃ cause cause', x = .error cause ∧ y = .error cause') ∨ ∃ a, x = .ok a ∧ y = .ok a :=
  cases_of_toOption_eq_map (f := id) (by rw [same, Option.map_id, id])

/-- A traversal succeeds if every step does. -/
theorem exists_mapM_iff {f : α → Except ε β} {xs : List α} :
    (∃ ys, xs.mapM f = .ok ys) ↔ ∀ x ∈ xs, ∃ y, f x = .ok y := by
  constructor
  · rintro ⟨ys, succeeds⟩ x member
    have inImage : f x ∈ xs.map f := List.mem_map_of_mem member
    rw [mapM_eq_ok_iff.1 succeeds] at inImage
    obtain ⟨y, _, same⟩ := List.mem_map.1 inImage
    exact ⟨y, same.symm⟩
  · intro succeeds
    induction xs with
    | nil => exact ⟨[], rfl⟩
    | cons x xs ih =>
      obtain ⟨y, first⟩ := succeeds x List.mem_cons_self
      obtain ⟨ys, others⟩ := ih fun x' member => succeeds x' (List.mem_cons_of_mem x member)
      rw [List.mapM_cons]
      exact ⟨y :: ys, bind_eq_ok_iff.2 ⟨y, first, bind_eq_ok_iff.2 ⟨ys, others, rfl⟩⟩⟩

/-- A traversal succeeds like another one does if each of its steps does. -/
theorem exists_forall₂_of_forall₂ {α' β' : Type} {f : α → Except ε β} {g : α' → Except ε β'}
    {Q : α → α' → Prop} {R : β → β' → Prop}
    (step : ∀ x x' y, Q x x' → f x = .ok y → ∃ z, g x' = .ok z ∧ R y z) {xs : List α} {xs' : List α'}
    (corresponds : List.Forall₂ Q xs xs') {ys : List β} (succeeds : xs.mapM f = .ok ys) :
    ∃ zs, xs'.mapM g = .ok zs ∧ List.Forall₂ R ys zs := by
  induction corresponds generalizing ys with
  | nil =>
    cases succeeds
    exact ⟨[], rfl, .nil⟩
  | cons related _ ih =>
    rw [List.mapM_cons] at succeeds
    obtain ⟨y, first, rest⟩ := bind_eq_ok_iff.1 succeeds
    obtain ⟨ys, others, whole⟩ := bind_eq_ok_iff.1 rest
    cases pure_eq_ok_iff.1 whole
    obtain ⟨z, first', relatedResult⟩ := step _ _ y related first
    obtain ⟨zs, others', relatedOthers⟩ := ih others
    rw [List.mapM_cons]
    exact ⟨z :: zs, bind_eq_ok_iff.2 ⟨z, first', bind_eq_ok_iff.2 ⟨zs, others', rfl⟩⟩,
      .cons relatedResult relatedOthers⟩

/-- Two traversals of one list. -/
theorem exists_forall₂_of_mapM {f g : α → Except ε β} {R : β → β → Prop}
    (step : ∀ x y, f x = .ok y → ∃ z, g x = .ok z ∧ R y z) {xs : List α} {ys : List β}
    (succeeds : xs.mapM f = .ok ys) : ∃ zs, xs.mapM g = .ok zs ∧ List.Forall₂ R ys zs := by
  refine exists_forall₂_of_forall₂ (fun x x' y (same : x = x') => ?_)
    (List.forall₂_same.2 fun _ _ => rfl) succeeds
  subst same
  exact step x y

end Except

/-! ## Parameters -/

theorem exists_clause_of_mem_params {r : Registry} {text : Text} {params : List Param}
    (resolves : paramsOfList r text = .ok params) {p : Param} (member : p ∈ params) :
    ∃ clause ∈ Delimiter.splitCommas text, paramOfClause? r clause = .ok (some p) := by
  obtain ⟨found, succeeds, whole⟩ := bind_eq_ok_iff.1 resolves
  cases pure_eq_ok_iff.1 whole
  obtain ⟨found', member', same⟩ := List.mem_filterMap.1 member
  cases same
  exact exists_of_mem_mapM succeeds member'

theorem mem_params_of_clause {r : Registry} {text : Text} {params : List Param}
    (resolves : paramsOfList r text = .ok params) {clause : Text}
    (isClause : clause ∈ Delimiter.splitCommas text) {p : Param}
    (isParam : paramOfClause? r clause = .ok (some p)) : p ∈ params := by
  obtain ⟨found, succeeds, whole⟩ := bind_eq_ok_iff.1 resolves
  cases pure_eq_ok_iff.1 whole
  exact List.mem_filterMap.2 ⟨some p, mem_of_mapM succeeds isClause isParam, rfl⟩

theorem paramOfClause?_eq_ok {r : Registry} {clause : Text} {p : Param}
    (resolves : paramOfClause? r clause = .ok (some p)) :
    p.name = (TypeSyntax.Clause.ofText clause).name ∧
      p.type = (TypeSyntax.Clause.ofText clause).type ∧ r.describe p.type = .ok p.descriptor := by
  unfold paramOfClause? at resolves
  simp only at resolves
  split at resolves
  · cases pure_eq_ok_iff.1 resolves
  · obtain ⟨descriptor, described, whole⟩ := bind_eq_ok_iff.1 resolves
    cases pure_eq_ok_iff.1 whole
    exact ⟨rfl, rfl, described⟩

/-- The parameters of a list are those of the clauses with a type, in order. -/
theorem map_type_paramsOfList {r : Registry} {text : Text} {params : List Param}
    (resolves : paramsOfList r text = .ok params) :
    params.map Param.type =
      ((Delimiter.splitCommas text).map fun clause => (TypeSyntax.Clause.ofText clause).type).filter (· ≠ []) := by
  obtain ⟨found, ends, whole⟩ := bind_eq_ok_iff.1 resolves
  cases pure_eq_ok_iff.1 whole
  -- by induction on the clauses, which no longer need to come from a text
  clear resolves whole
  generalize Delimiter.splitCommas text = clauses at ends ⊢
  induction clauses generalizing found with
  | nil =>
    cases ends
    rfl
  | cons clause more ih =>
    rw [List.mapM_cons] at ends
    obtain ⟨p?, first, rest⟩ := bind_eq_ok_iff.1 ends
    obtain ⟨others, ends', whole⟩ := bind_eq_ok_iff.1 rest
    cases pure_eq_ok_iff.1 whole
    unfold paramOfClause? at first
    simp only at first
    split at first
    · rename_i noType
      cases pure_eq_ok_iff.1 first
      rw [List.map_cons, List.filter_cons_of_neg (by simp [noType]), ← ih others ends']
      rfl
    · rename_i hasType
      obtain ⟨descriptor, _, isParam⟩ := bind_eq_ok_iff.1 first
      cases pure_eq_ok_iff.1 isParam
      rw [List.map_cons, List.filter_cons_of_pos (by simp [hasType]), ← ih others ends']
      rfl

/-! ## Declarations -/

/-- The clauses of a function header: its parameters and results. -/
def FunctionHeader.clauses (f : FunctionHeader) : List Text :=
  Delimiter.splitCommas f.params ++ Delimiter.splitCommas (f.returns.getD [])

theorem mem_of_mem_firstOfEachName {seen : List Text} {cs : List Candidate} {c : Candidate}
    (member : c ∈ Candidate.firstOfEachName seen cs) : c ∈ cs := by
  induction cs generalizing seen with
  | nil => exact member
  | cons first more ih =>
    have step : Candidate.firstOfEachName seen (first :: more) =
        if first.name ∈ seen then Candidate.firstOfEachName seen more
        else first :: Candidate.firstOfEachName (first.name :: seen) more := rfl
    rw [step] at member
    split at member
    · exact List.mem_cons_of_mem _ (ih member)
    · rcases List.mem_cons.1 member with rfl | member
      · exact List.mem_cons_self
      · exact List.mem_cons_of_mem _ (ih member)

theorem exists_first_of_declared {options : Options} {shared : Option Registry} {source : Text}
    {e : Extraction} (succeeds : extract options shared source = .ok e) {d : Declaration}
    (member : d ∈ e.declarations) :
    ∃ c ∈ Candidate.firstOfEachName [] (Candidate.all options (Comment.strip source)),
      c.outcome options (registryOf (Comment.strip source) shared) (Comment.strip source) =
        .ok (.declared d) := by
  obtain ⟨outcomes, resolves, whole⟩ := bind_eq_ok_iff.1 succeeds
  cases pure_eq_ok_iff.1 whole
  obtain ⟨outcome, isOutcome, declares⟩ := List.mem_filterMap.1 member
  obtain ⟨c, isCandidate, isOutcome'⟩ := exists_of_mem_mapM resolves isOutcome
  refine ⟨c, isCandidate, ?_⟩
  cases outcome with
  | declared d' =>
    cases declares
    exact isOutcome'
  | dropped _ => cases declares
  | passedOver => cases declares

theorem exists_candidate_of_declared {options : Options} {shared : Option Registry} {source : Text}
    {e : Extraction} (succeeds : extract options shared source = .ok e) {d : Declaration}
    (member : d ∈ e.declarations) :
    ∃ c ∈ Candidate.all options (Comment.strip source),
      c.outcome options (registryOf (Comment.strip source) shared) (Comment.strip source) =
        .ok (.declared d) := by
  obtain ⟨c, isFirst, declares⟩ := exists_first_of_declared succeeds member
  exact ⟨c, mem_of_mem_firstOfEachName isFirst, declares⟩

/-- A declaration that an extraction shows in some view. -/
theorem exists_of_view {α : Type} (result : Except TypeSyntax.ResolutionError Extraction)
    (view : Declaration → α) {shown : α} {others : List α}
    (shows : result.toOption.map (fun e => e.declarations.map view) = some (shown :: others)) :
    ∃ e d, result = .ok e ∧ d ∈ e.declarations ∧ view d = shown := by
  cases result with
  | error _ => cases shows
  | ok e =>
    have same : e.declarations.map view = shown :: others := Option.some.inj shows
    cases isList : e.declarations with
    | nil => simp [isList] at same
    | cons d more =>
      rw [isList] at same
      exact ⟨e, d, rfl, by rw [isList]; exact List.mem_cons_self, (List.cons.inj same).1⟩

/-- The finding of the first check that has one. -/
def finding? (checks : List (List Param × (Text → Finding))) : Option Finding :=
  checks.findSome? fun check => (firstUnresolved? check.1).map check.2

theorem checkedOutcome_eq (options : Options) (line : Nat)
    (checks : List (List Param × (Text → Finding))) (result : Outcome) :
    checkedOutcome options line checks result =
      if options.validateTypes then
        ((finding? checks).map fun finding => .dropped ⟨finding, [], some line⟩).getD result
      else result := by
  unfold checkedOutcome
  split
  · split
    · rename_i found
      rw [show finding? checks = _ from found]
      rfl
    · rename_i nothing
      rw [show finding? checks = _ from nothing]
      rfl
  · rfl

/-- Validation finds nothing, or it finds the first open name of some parameters and drops the
declaration for it. -/
theorem checkedOutcome_cases (options : Options) (line : Nat)
    (checks : List (List Param × (Text → Finding))) (result : Outcome) :
    (checkedOutcome options line checks result = result ∧
        (options.validateTypes = true → ∀ check ∈ checks, firstUnresolved? check.1 = none)) ∨
      ∃ check ∈ checks, ∃ missing, firstUnresolved? check.1 = some missing ∧
        checkedOutcome options line checks result = .dropped ⟨check.2 missing, [], some line⟩ := by
  rw [checkedOutcome_eq]
  split
  · cases found : finding? checks with
    | some finding =>
      obtain ⟨check, member, same⟩ := List.exists_of_findSome?_eq_some found
      obtain ⟨missing, isFirst, rfl⟩ := Option.map_eq_some_iff.1 same
      exact .inr ⟨check, member, missing, isFirst, rfl⟩
    | none =>
      exact .inl ⟨rfl, fun _ check member =>
        Option.map_eq_none_iff.1 (List.findSome?_eq_none_iff.1 found check member)⟩
  · rename_i unvalidated
    exact .inl ⟨rfl, fun validates => absurd validates unvalidated⟩

theorem declared_of_checkedOutcome {options : Options} {line : Nat}
    {checks : List (List Param × (Text → Finding))} {result : Outcome} {d : Declaration}
    (declares : checkedOutcome options line checks result = .declared d) : result = .declared d := by
  rcases checkedOutcome_cases options line checks result with ⟨passes, _⟩ | ⟨_, _, _, _, drops⟩
  · exact passes.symm.trans declares
  · cases drops.symm.trans declares

theorem forall₂_getterInputs {r : Registry} {keys : List Text} {number : Nat} {inputs : List Param}
    (resolves : getterInputs r number keys = .ok inputs) :
    List.Forall₂ (fun key p => p.type = key ∧ r.describe key = .ok p.descriptor) keys inputs := by
  induction keys generalizing number inputs with
  | nil =>
    cases resolves
    exact .nil
  | cons key more ih =>
    obtain ⟨descriptor, describes, others⟩ := bind_eq_ok_iff.1 resolves
    obtain ⟨rest, resolvesRest, whole⟩ := bind_eq_ok_iff.1 others
    cases pure_eq_ok_iff.1 whole
    exact .cons ⟨rfl, describes⟩ (ih resolvesRest)

theorem map_type_getterInputs {r : Registry} {keys : List Text} {number : Nat} {inputs : List Param}
    (resolves : getterInputs r number keys = .ok inputs) : inputs.map Param.type = keys := by
  have describes := forall₂_getterInputs resolves
  clear resolves
  induction describes with
  | nil => rfl
  | cons first _ ih => rw [List.map_cons, first.1, ih]

/-- What the declaration of a state variable says. -/
structure IsGetterDeclared (r : Registry) (v : StateVariable) (getter : Getter) (d : Declaration) :
    Prop where
  isGetter : Getter.ofType v.type = .ok getter
  name : d.name = v.name
  inputs : getterInputs r 1 getter.keys = .ok d.inputs
  output : ∃ value, r.describe getter.value = .ok value ∧ d.outputs = [⟨valueName, getter.value, value⟩]
  kind : d.kind = .variable

theorem isGetterDeclared_of_variableOutcome {options : Options} {r : Registry} {line : Nat}
    {v : StateVariable} {d : Declaration}
    (declares : variableOutcome options r line v = .ok (.declared d)) :
    ∃ getter, IsGetterDeclared r v getter d := by
  unfold variableOutcome at declares
  obtain ⟨getter, isGetter, rest⟩ := bind_eq_ok_iff.1 declares
  obtain ⟨inputs, isInputs, rest'⟩ := bind_eq_ok_iff.1 rest
  obtain ⟨value, isValue, whole⟩ := bind_eq_ok_iff.1 rest'
  cases declared_of_checkedOutcome (pure_eq_ok_iff.1 whole)
  exact ⟨getter, isGetter, rfl, isInputs, ⟨value, isValue, rfl⟩, rfl⟩

/-- What the declaration of a function says. -/
structure IsDeclared (r : Registry) (f : FunctionHeader) (d : Declaration) : Prop where
  name : d.name = f.name
  inputs : paramsOfList r f.params = .ok d.inputs
  outputs : (f.returns = none ∧ d.outputs = [impliedOutput]) ∨
    ∃ results, f.returns = some results ∧ paramsOfList r results = .ok d.outputs
  kind : d.kind = .function

theorem isDeclared_of_functionOutcome {options : Options} {r : Registry} {line : Nat}
    {f : FunctionHeader} {d : Declaration}
    (declares : functionOutcome options r line f = .ok (.declared d)) : IsDeclared r f d := by
  unfold functionOutcome at declares
  obtain ⟨inputs, isInputs, rest⟩ := bind_eq_ok_iff.1 declares
  obtain ⟨outputs, isOutputs, whole⟩ := bind_eq_ok_iff.1 rest
  have result := declared_of_checkedOutcome (pure_eq_ok_iff.1 whole)
  split at result
  · rename_i noResults
    cases result
    exact ⟨rfl, isInputs, .inl ⟨noResults, rfl⟩, rfl⟩
  · rename_i results hasResults
    split at result
    · cases result
    · cases result
      rw [hasResults] at isOutputs
      exact ⟨rfl, isInputs, .inr ⟨results, hasResults, isOutputs⟩, rfl⟩

theorem mem_of_mem_clauses {r : Registry} {f : FunctionHeader} {d : Declaration}
    (declared : IsDeclared r f d) {clause : Text} (isClause : clause ∈ f.clauses) {p : Param}
    (isParam : paramOfClause? r clause = .ok (some p)) : p ∈ d.inputs ++ d.outputs := by
  rw [List.mem_append]
  rcases List.mem_append.1 isClause with isInput | isOutput
  · exact .inl (mem_params_of_clause declared.inputs isInput isParam)
  · rcases declared.outputs with ⟨noResults, _⟩ | ⟨results, hasResults, resolves⟩
    · rw [noResults] at isOutput
      cases isOutput
    · rw [hasResults] at isOutput
      exact .inr (mem_params_of_clause resolves isOutput isParam)

theorem exists_header_of_function {options : Options} {shared : Option Registry} {source : Text}
    {e : Extraction} (succeeds : extract options shared source = .ok e) {d : Declaration}
    (member : d ∈ e.declarations) (isFunction : d.kind = .function) :
    ∃ f ∈ Candidate.reportedFunctions options (Comment.strip source),
      IsDeclared (registryOf (Comment.strip source) shared) f d := by
  obtain ⟨c, isCandidate, declares⟩ := exists_candidate_of_declared succeeds member
  rcases c with v | f
  · obtain ⟨getter, declared⟩ := isGetterDeclared_of_variableOutcome declares
    have isVariable := declared.kind
    rw [isFunction] at isVariable
    cases isVariable
  · refine ⟨f, ?_, isDeclared_of_functionOutcome declares⟩
    simpa [Candidate.all] using isCandidate

end ContractInterface
