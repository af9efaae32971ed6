import ContractInterface.Proofs.Items
import ContractInterface.Proofs.Positions
import ContractInterface.Proofs.Success
import Mathlib.Data.List.Forall2
import Mathlib.Data.List.Perm.Subperm

/-! # The outcomes of candidates

Of every name extraction takes the first candidate (`mem_firstOfEachName_iff`), and every candidate it
takes ends in one of three ways: it is declared, dropped with a diagnostic, or passed over, and only a
function with a result list that holds no type is passed over (`isAccounted_of_outcome`).

So an extraction accounts for the first candidate of every name once and for nothing else
(`accounts_of_resolves`).
-/

namespace ContractInterface

open Text TypeSyntax

/-! ## The first candidate of every name -/

namespace Candidate

/-- Whether a candidate is the first of its name. -/
def isFirst (cs : List Candidate) (c : Candidate) : Bool :=
  cs.find? (·.name = c.name) = some c

theorem firstOfEachName_cons (seen : List Text) (c : Candidate) (more : List Candidate) :
    firstOfEachName seen (c :: more) =
      if c.name ∈ seen then firstOfEachName seen more
      else c :: firstOfEachName (c.name :: seen) more := rfl

theorem firstOfEachName_sublist (seen : List Text) (cs : List Candidate) :
    (firstOfEachName seen cs).Sublist cs := by
  induction cs generalizing seen with
  | nil => exact List.Sublist.refl _
  | cons c more ih =>
    rw [firstOfEachName_cons]
    split
    · exact (ih seen).cons c
    · exact (ih _).cons_cons c

/-- A name that was seen is not taken again, and no name is taken twice. -/
theorem nodup_names_firstOfEachName (seen : List Text) (cs : List Candidate) :
    ((firstOfEachName seen cs).map name).Nodup ∧
      ∀ c ∈ firstOfEachName seen cs, c.name ∉ seen := by
  induction cs generalizing seen with
  | nil => exact ⟨List.nodup_nil, fun _ member => nomatch member⟩
  | cons c more ih =>
    rw [firstOfEachName_cons]
    split
    · exact ih seen
    · rename_i fresh
      obtain ⟨distinct, unseen⟩ := ih (c.name :: seen)
      refine ⟨List.nodup_cons.2 ⟨fun again => ?_, distinct⟩, fun c' member => ?_⟩
      · obtain ⟨c', member, same⟩ := List.mem_map.1 again
        exact unseen c' member (same ▸ List.mem_cons_self)
      · rcases List.mem_cons.1 member with rfl | member
        · exact fresh
        · exact fun wasSeen => unseen c' member (List.mem_cons_of_mem _ wasSeen)

theorem mem_firstOfEachName_iff {seen : List Text} {cs : List Candidate} {c : Candidate} :
    c ∈ firstOfEachName seen cs ↔ c.name ∉ seen ∧ isFirst cs c = true := by
  unfold isFirst
  rw [decide_eq_true_iff]
  induction cs generalizing seen with
  | nil => exact ⟨fun taken => (nomatch taken), fun taken => (nomatch taken.2)⟩
  | cons first more ih =>
    rw [firstOfEachName_cons, List.find?_cons]
    by_cases same : first.name = c.name
    · simp only [same, decide_true, Option.some.injEq]
      split
      · rename_i wasSeen
        rw [ih]
        exact ⟨fun taken => absurd wasSeen taken.1, fun taken => absurd wasSeen taken.1⟩
      · rename_i fresh
        rw [List.mem_cons, ih]
        exact ⟨fun taken => ⟨fresh, (taken.resolve_right fun again =>
          again.1 List.mem_cons_self).symm⟩, fun taken => .inl taken.2.symm⟩
    -- another name: the candidate is first exactly if it is first of the rest
    · have other : ¬c = first := fun isFirst => same (congrArg name isFirst.symm)
      simp only [same, decide_false]
      split
      · exact ih
      · rw [List.mem_cons, ih, List.mem_cons, not_or]
        exact ⟨fun taken => ⟨(taken.resolve_left other).1.2, (taken.resolve_left other).2⟩,
          fun taken => .inr ⟨⟨Ne.symm same, taken.1⟩, taken.2⟩⟩

end Candidate

/-! ## What becomes of a candidate -/

/-- An outcome that accounts for a candidate of a source without comments. -/
inductive IsAccounted (cleaned : Text) (c : Candidate) : Outcome → Prop where
  | declared {d : Declaration} (name : d.name = c.name) (kind : d.kind = c.kind)
      (line : d.line = Comment.lineAt cleaned c.index) : IsAccounted cleaned c (.declared d)
  | dropped {g : Diagnostic} (subject : g.finding.subject = c.name)
      (line : g.line = some (Comment.lineAt cleaned c.index)) : IsAccounted cleaned c (.dropped g)
  | passedOver {f : FunctionHeader} {results : Text} (isFunction : c = .function f)
      (hasResults : f.returns = some results)
      (noType : ∀ clause ∈ Delimiter.splitCommas results, (Clause.ofText clause).type = []) :
      IsAccounted cleaned c .passedOver

theorem isAccounted_of_variableOutcome {options : Options} {r : Registry} {cleaned : Text}
    {v : StateVariable} {o : Outcome}
    (ends : variableOutcome options r (Comment.lineAt cleaned v.index) v = .ok o) :
    IsAccounted cleaned (.variable v) o := by
  obtain ⟨getter, _, rest⟩ := bind_eq_ok_iff.1 ends
  obtain ⟨inputs, _, rest⟩ := bind_eq_ok_iff.1 rest
  obtain ⟨value, _, whole⟩ := bind_eq_ok_iff.1 rest
  cases pure_eq_ok_iff.1 whole
  rcases checkedOutcome_cases options _ _ _ with
    ⟨passes, _⟩ | ⟨check, member, missing, _, drops⟩
  · rw [passes]
    exact .declared rfl rfl rfl
  · rw [drops]
    refine .dropped ?_ rfl
    simp only [List.mem_cons, List.not_mem_nil, or_false] at member
    rcases member with rfl | rfl <;> rfl

theorem type_eq_nil_of_paramsOfList {r : Registry} {results : Text}
    (empty : paramsOfList r results = .ok []) :
    ∀ clause ∈ Delimiter.splitCommas results, (Clause.ofText clause).type = [] := by
  intro clause isClause
  have noType := List.filter_eq_nil_iff.1 (map_type_paramsOfList empty).symm _
    (List.mem_map_of_mem isClause)
  simpa using noType

theorem isAccounted_of_functionOutcome {options : Options} {r : Registry} {cleaned : Text}
    {f : FunctionHeader} {o : Outcome}
    (ends : functionOutcome options r (Comment.lineAt cleaned f.index) f = .ok o) :
    IsAccounted cleaned (.function f) o := by
  obtain ⟨inputs, _, rest⟩ := bind_eq_ok_iff.1 ends
  obtain ⟨outputs, isOutputs, whole⟩ := bind_eq_ok_iff.1 rest
  cases pure_eq_ok_iff.1 whole
  rcases checkedOutcome_cases options _ _ _ with
    ⟨passes, _⟩ | ⟨check, member, missing, _, drops⟩
  · rw [passes]
    split
    · exact .declared rfl rfl rfl
    · rename_i results hasResults
      split
      · rename_i noOutput
        rw [hasResults, Option.getD_some, List.isEmpty_iff.1 noOutput] at isOutputs
        exact .passedOver rfl hasResults (type_eq_nil_of_paramsOfList isOutputs)
      · exact .declared rfl rfl rfl
  · rw [drops]
    refine .dropped ?_ rfl
    simp only [List.mem_cons, List.not_mem_nil, or_false] at member
    rcases member with rfl | rfl <;> rfl

/-- Whatever becomes of a candidate accounts for it. -/
theorem isAccounted_of_outcome {options : Options} {r : Registry} {cleaned : Text} {c : Candidate}
    {o : Outcome} (ends : c.outcome options r cleaned = .ok o) : IsAccounted cleaned c o := by
  rcases c with v | f
  · exact isAccounted_of_variableOutcome ends
  · exact isAccounted_of_functionOutcome ends

/-! ## When there is an outcome -/

/-- The types that are spelled in a candidate: the keys and the value of a getter, or the types of
parameters and results. -/
def Candidate.types : Candidate → List Text
  | .variable v =>
    match Getter.ofType v.type with
    | .ok getter => getter.keys ++ [getter.value]
    | .error _ => []
  | .function f => (f.clauses.map fun clause => (Clause.ofText clause).type).filter (· ≠ [])

/-- Whether the types of a candidate can be looked up: its getter is found, and no type in it is such
that it cannot be read. -/
def Candidate.resolves (r : Registry) : Candidate → Bool
  | .variable v =>
    match Getter.ofType v.type with
    | .ok getter => (getter.value :: getter.keys).all fun type => (r.describe type).toBool
    | .error _ => false
  | .function f => f.clauses.all fun clause =>
    (Clause.ofText clause).type = [] || (r.describe (Clause.ofText clause).type).toBool

theorem exists_getterInputs_iff {r : Registry} {keys : List Text} (number : Nat) :
    (∃ inputs, getterInputs r number keys = .ok inputs) ↔ ∀ key ∈ keys, (r.describe key).toBool = true := by
  induction keys generalizing number with
  | nil => exact ⟨fun _ _ member => (nomatch member), fun _ => ⟨[], rfl⟩⟩
  | cons key more ih =>
    rw [getterInputs, exists_bind_iff, List.forall_mem_cons, toBool_iff, ← ih (number + 1)]
    simp only [exists_bind_pure_iff, exists_and_right]

theorem exists_paramsOfList_iff {r : Registry} {text : Text} :
    (∃ params, paramsOfList r text = .ok params) ↔ ∀ clause ∈ Delimiter.splitCommas text,
      (Clause.ofText clause).type = [] ∨ (r.describe (Clause.ofText clause).type).toBool = true := by
  rw [paramsOfList, exists_bind_pure_iff, exists_mapM_iff]
  refine forall₂_congr fun clause _ => ?_
  unfold paramOfClause?
  by_cases noType : (Clause.ofText clause).type = []
  · simp only [noType, if_true, true_or, iff_true]
    exact ⟨none, rfl⟩
  · simp only [noType, if_false, false_or, toBool_iff]
    exact exists_bind_pure_iff

/-- A candidate has an outcome if its types can be looked up, and only then. -/
theorem exists_outcome_iff_resolves (options : Options) (r : Registry) (cleaned : Text) (c : Candidate) :
    (∃ o, c.outcome options r cleaned = .ok o) ↔ c.resolves r = true := by
  rcases c with v | f
  · have steps : (∃ o, variableOutcome options r (Comment.lineAt cleaned v.index) v = .ok o) ↔
        ∃ getter, Getter.ofType v.type = .ok getter ∧
          (∃ inputs, getterInputs r 1 getter.keys = .ok inputs) ∧ ∃ d, r.describe getter.value = .ok d := by
      simp only [variableOutcome, exists_bind_iff, pure_eq_ok_iff, exists_eq', and_true, exists_and_right]
    refine steps.trans ?_
    cases isGetter : Getter.ofType v.type with
    | error cause => simp [Candidate.resolves, isGetter]
    | ok getter => simp [Candidate.resolves, isGetter, exists_getterInputs_iff, toBool_iff, and_comm]
  · have steps : (∃ o, functionOutcome options r (Comment.lineAt cleaned f.index) f = .ok o) ↔
        (∃ inputs, paramsOfList r f.params = .ok inputs) ∧
          ∃ outputs, paramsOfList r (f.returns.getD []) = .ok outputs := by
      simp only [functionOutcome, exists_bind_iff, pure_eq_ok_iff, exists_eq', and_true, exists_and_right]
    refine steps.trans ?_
    rw [exists_paramsOfList_iff, exists_paramsOfList_iff, ← List.forall_mem_append]
    simp only [Candidate.resolves, FunctionHeader.clauses, List.all_eq_true, Bool.or_eq_true, decide_eq_true_eq]

theorem exists_outcome_of_resolves {r : Registry} {c : Candidate} (resolves : c.resolves r = true)
    (options : Options) (cleaned : Text) : ∃ o, c.outcome options r cleaned = .ok o :=
  (exists_outcome_iff_resolves options r cleaned c).2 resolves

/-! ## Accounts -/

/-- A declaration of a candidate. -/
structure IsDeclarationOf (cleaned : Text) (c : Candidate) (d : Declaration) : Prop where
  name : d.name = c.name
  kind : d.kind = c.kind
  line : d.line = Comment.lineAt cleaned c.index

/-- The item of a declaration. -/
structure IsItemOf (d : Declaration) (item : Abi.Item) : Prop where
  name : item.name = d.name
  mutability : item.mutability = d.mutability.keyword
  inputs : item.inputs.map Abi.Parameter.name = d.inputs.map Param.name
  outputs : item.outputs.map Abi.Parameter.name = d.outputs.map Param.name

/-- An extraction that accounts for the first candidates of some names. -/
structure Extraction.Accounts (e : Extraction) (cleaned : Text) (firsts : List Candidate) : Prop where
  /-- Candidate by candidate there is one outcome, and nothing else is reported. -/
  outcomes : ∃ outcomes, List.Forall₂ (IsAccounted cleaned) firsts outcomes ∧
    e = .ofOutcomes outcomes
  /-- What is declared stands in the order of the source, variables before functions. -/
  ordered : ∃ declared : List Candidate, declared.Sublist firsts ∧
    declared.Pairwise Candidate.Precedes ∧
    List.Forall₂ (IsDeclarationOf cleaned) declared e.declarations
  /-- No name is declared twice, or dropped twice, or both. -/
  distinct : (e.declarations.map Declaration.name ++
    e.diagnostics.map fun g => g.finding.subject).Nodup
  items : List.Forall₂ IsItemOf e.declarations e.items

theorem isItemOf_toItem (d : Declaration) : IsItemOf d d.toItem where
  name := rfl
  mutability := rfl
  inputs := by
    unfold Declaration.toItem
    rw [List.map_map]
    exact List.map_congr_left fun p _ => Descriptor.name_toParameter p.name p.descriptor
  outputs := by
    unfold Declaration.toItem
    rw [List.map_map]
    exact List.map_congr_left fun p _ => Descriptor.name_toParameter p.name p.descriptor

section Outcomes

variable {cleaned : Text} {cs : List Candidate} {outcomes : List Outcome}
  (accounted : List.Forall₂ (IsAccounted cleaned) cs outcomes)

include accounted

theorem exists_declared_of_accounted : ∃ declared : List Candidate, declared.Sublist cs ∧
    List.Forall₂ (IsDeclarationOf cleaned) declared (outcomes.filterMap Outcome.declaration?) := by
  induction accounted with
  | nil => exact ⟨[], List.Sublist.refl _, .nil⟩
  | cons first _ ih =>
    obtain ⟨declared, within, declares⟩ := ih
    cases first with
    | declared name kind line =>
      exact ⟨_ :: declared, within.cons_cons _, .cons ⟨name, kind, line⟩ declares⟩
    | dropped _ _ => exact ⟨declared, within.cons _, declares⟩
    | passedOver _ _ _ => exact ⟨declared, within.cons _, declares⟩

/-- The names that are declared or dropped are among those of the candidates, each as often as
there. -/
theorem subperm_names_of_accounted :
    List.Subperm ((outcomes.filterMap Outcome.declaration?).map Declaration.name ++
      (outcomes.filterMap Outcome.diagnostic?).map fun g => g.finding.subject)
      (cs.map Candidate.name) := by
  induction accounted with
  | nil => exact List.Subperm.refl _
  | cons first _ ih =>
    cases first with
    | declared name _ _ =>
      rw [List.map_cons, ← name]
      exact (List.subperm_cons _).2 ih
    | dropped subject _ =>
      rw [List.map_cons, ← subject]
      exact List.perm_middle.subperm.trans ((List.subperm_cons _).2 ih)
    | passedOver _ _ _ => exact ih.cons_right _

end Outcomes

theorem accounts_of_outcomes {cleaned : Text} {firsts : List Candidate} {outcomes : List Outcome}
    (accounted : List.Forall₂ (IsAccounted cleaned) firsts outcomes)
    (distinct : (firsts.map Candidate.name).Nodup) (ordered : firsts.Pairwise Candidate.Precedes) :
    (Extraction.ofOutcomes outcomes).Accounts cleaned firsts where
  outcomes := ⟨outcomes, accounted, rfl⟩
  ordered := by
    obtain ⟨declared, within, declares⟩ := exists_declared_of_accounted accounted
    exact ⟨declared, within, ordered.sublist within, declares⟩
  distinct := by
    obtain ⟨_, isPermuted, within⟩ := subperm_names_of_accounted accounted
    exact isPermuted.nodup_iff.1 (distinct.sublist within)
  items := List.forall₂_map_right_iff.2 (List.forall₂_same.2 fun d _ => isItemOf_toItem d)

/-- What is extracted accounts for the first candidate of every name. -/
theorem accounts_of_extract {options : Options} {shared : Option Registry} {source : Text}
    {e : Extraction} (succeeds : extract options shared source = .ok e) :
    e.Accounts (Comment.strip source)
      (Candidate.firstOfEachName [] (Candidate.all options (Comment.strip source))) := by
  obtain ⟨outcomes, ends, whole⟩ := bind_eq_ok_iff.1 succeeds
  cases pure_eq_ok_iff.1 whole
  have same := mapM_eq_ok_iff.1 ends
  rw [← List.forall₂_eq_eq_eq, List.forall₂_map_left_iff, List.forall₂_map_right_iff] at same
  exact accounts_of_outcomes (same.imp fun _ _ => isAccounted_of_outcome)
    (Candidate.nodup_names_firstOfEachName [] _).1
    ((Candidate.pairwise_precedes_all options _).sublist (Candidate.firstOfEachName_sublist [] _))

/-- If the types of the first candidates of every name can be looked up, extraction accounts for these
candidates, each once. -/
theorem accounts_of_resolves {options : Options} {shared : Option Registry} {source : Text}
    (resolves : ∀ c ∈ Candidate.all options (Comment.strip source),
      Candidate.isFirst (Candidate.all options (Comment.strip source)) c = true →
        c.resolves (registryOf (Comment.strip source) shared) = true) :
    ∃ firsts e, firsts.Sublist (Candidate.all options (Comment.strip source)) ∧
      (∀ c, c ∈ firsts ↔
        Candidate.isFirst (Candidate.all options (Comment.strip source)) c = true) ∧
      firsts.Pairwise Candidate.Precedes ∧
      extract options shared source = .ok e ∧ e.Accounts (Comment.strip source) firsts := by
  generalize isCandidates : Candidate.all options (Comment.strip source) = cs at resolves
  have ordered : cs.Pairwise Candidate.Precedes :=
    isCandidates ▸ Candidate.pairwise_precedes_all options _
  have within := Candidate.firstOfEachName_sublist [] cs
  have isFirst : ∀ c, c ∈ Candidate.firstOfEachName [] cs ↔ Candidate.isFirst cs c = true :=
    fun c => by simp [Candidate.mem_firstOfEachName_iff]
  have distinct := (Candidate.nodup_names_firstOfEachName [] cs).1
  have settles : ∀ c ∈ Candidate.firstOfEachName [] cs, ∃ o, c.outcome options
      (registryOf (Comment.strip source) shared) (Comment.strip source) = .ok o := fun c member =>
    exists_outcome_of_resolves (resolves c (within.subset member) ((isFirst c).1 member)) _ _
  obtain ⟨outcomes, ends⟩ := exists_mapM_iff.2 settles
  have accounted : List.Forall₂ (IsAccounted (Comment.strip source))
      (Candidate.firstOfEachName [] cs) outcomes := by
    have same := mapM_eq_ok_iff.1 ends
    rw [← List.forall₂_eq_eq_eq, List.forall₂_map_left_iff, List.forall₂_map_right_iff] at same
    exact same.imp fun _ _ => isAccounted_of_outcome
  refine ⟨_, _, within, isFirst, ordered.sublist within, ?_,
    accounts_of_outcomes accounted distinct (ordered.sublist within)⟩
  unfold extract
  simp only [isCandidates]
  exact bind_eq_ok_iff.2 ⟨outcomes, ends, rfl⟩

/-- A name declared twice, one dropped and one passed over are accounted for. -/
theorem accounts_of_resolves_contract :
    let source := ("contract C \x7b uint public a; Missing public b; function a() view; " ++
      "function f(uint x) view returns (uint); function f() view; " ++
      "function g() view returns (memory); function h(Missing m) view; \x7d").toList
    let cs := Candidate.all .default (Comment.strip source)
    (∀ c ∈ cs, Candidate.isFirst cs c = true →
      c.resolves (registryOf (Comment.strip source) none) = true) ∧
      ∃ firsts e, firsts.Sublist cs ∧ (∀ c, c ∈ firsts ↔ Candidate.isFirst cs c = true) ∧
        firsts.Pairwise Candidate.Precedes ∧
        extract .default none source = .ok e ∧ e.Accounts (Comment.strip source) firsts := by
  intro source cs
  have resolves : ∀ c ∈ cs, Candidate.isFirst cs c = true →
      c.resolves (registryOf (Comment.strip source) none) = true := by
    decide +kernel
  exact ⟨resolves, accounts_of_resolves resolves⟩

end ContractInterface
