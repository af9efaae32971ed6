import ContractInterface.Proofs.Merging
import ContractInterface.Proofs.Success
import Mathlib.Data.List.Basic

/-! # Types of a source and shared types

Extraction resolves types with the registry of the source, into which a shared one is merged.  Every
parameter of a declaration has the descriptor that its type has there (`describe_of_declared`), so the
types of a source keep their meanings where the merge keeps them and nowhere else
(`describes_locally_iff`).  An enum of a shared registry takes over the struct of a source
(`describe_merge_enum`).
-/

namespace ContractInterface

open Text TypeSyntax

/-! ## The descriptors of declared parameters -/

theorem describe_of_getterInputs {r : Registry} {keys : List Text} {number : Nat} {inputs : List Param}
    (resolves : getterInputs r number keys = .ok inputs) :
    ∀ p ∈ inputs, r.describe p.type = .ok p.descriptor := by
  have describes := forall₂_getterInputs resolves
  clear resolves
  induction describes with
  | nil => exact fun _ member => nomatch member
  | cons first _ ih =>
    obtain ⟨rfl, isFirst⟩ := first
    exact List.forall_mem_cons.2 ⟨isFirst, ih⟩

theorem describe_of_paramsOfList {r : Registry} {text : Text} {params : List Param}
    (resolves : paramsOfList r text = .ok params) :
    ∀ p ∈ params, r.describe p.type = .ok p.descriptor := by
  intro p member
  obtain ⟨clause, _, isParam⟩ := exists_clause_of_mem_params resolves member
  exact (paramOfClause?_eq_ok isParam).2.2

theorem describe_of_variableOutcome {options : Options} {r : Registry} {line : Nat}
    {v : StateVariable} {d : Declaration}
    (declares : variableOutcome options r line v = .ok (.declared d)) :
    ∀ p ∈ d.inputs ++ d.outputs, r.describe p.type = .ok p.descriptor := by
  obtain ⟨getter, declared⟩ := isGetterDeclared_of_variableOutcome declares
  obtain ⟨value, isValue, isOutput⟩ := declared.output
  rw [isOutput, List.forall_mem_append]
  exact ⟨describe_of_getterInputs declared.inputs, List.forall_mem_singleton.2 isValue⟩

/-- The parameters and results of a declaration have the descriptors of their types, but for the result
of a function without a result list. -/
theorem describe_of_declared {options : Options} {shared : Option Registry} {source : Text}
    {e : Extraction} (succeeds : extract options shared source = .ok e) {d : Declaration}
    (member : d ∈ e.declarations) {p : Param} (isParam : p ∈ d.inputs ++ d.outputs)
    (spelled : p ≠ impliedOutput) :
    (registryOf (Comment.strip source) shared).describe p.type = .ok p.descriptor := by
  obtain ⟨c, _, declares⟩ := exists_candidate_of_declared succeeds member
  rcases c with v | f
  · exact describe_of_variableOutcome declares p isParam
  · have declared := isDeclared_of_functionOutcome declares
    rcases List.mem_append.1 isParam with isInput | isOutput
    · exact describe_of_paramsOfList declared.inputs p isInput
    · rcases declared.outputs with ⟨_, isImplied⟩ | ⟨results, _, resolves⟩
      · rw [isImplied] at isOutput
        exact absurd (List.mem_singleton.1 isOutput) spelled
      · exact describe_of_paramsOfList resolves p isOutput

/-! ## Local meanings -/

/-- A type that keeps its meaning is substituted in signatures as before. -/
theorem substituteName_merge {r other : Registry} {type : Text}
    (same : (r.merge other).describe type = r.describe type) (s : Text) :
    (r.merge other).substituteName s type = r.substituteName s type := by
  unfold Registry.substituteName Registry.canonicalType
  rw [same]

/-- When a registry is merged into another one, a type that can be resolved keeps its descriptor exactly
if every name keeps its meaning that the type meets and that is taken over.  Then it is substituted in
signatures as before; and in an extraction from a source that is resolved with both registries, the
parameters of the type have its own meaning exactly then. -/
theorem describes_locally_iff {own : Registry} {type : Text}
    (resolvable : own.canResolve type = .ok true) (shared : Registry) :
    ((own.merge shared).describe type = own.describe type ↔ own.Keeps shared type) ∧
      (own.Keeps shared type → ∀ s,
        (own.merge shared).substituteName s type = own.substituteName s type) ∧
      ∀ options source e, own = Registry.ofSource (Comment.strip source) →
        extract options (some shared) source = .ok e → ∀ d ∈ e.declarations,
          ∀ p ∈ d.inputs ++ d.outputs, p.type = type → p ≠ impliedOutput →
            (own.describe type = .ok p.descriptor ↔ own.Keeps shared type) := by
  have merged := Registry.describe_merge_iff_keeps resolvable shared
  refine ⟨merged, fun keeps => substituteName_merge (merged.2 keeps), ?_⟩
  rintro options source e rfl succeeds d member p isParam rfl spelled
  have describes := describe_of_declared succeeds member isParam spelled
  rw [← merged]
  exact ⟨fun local_ => describes.trans local_.symm, fun same => same.symm.trans describes⟩

/-- An alias of `uint8` keeps its meaning when an enum takes its name over, and a struct does not take
over the name of an enum. -/
theorem describes_locally_alias :
    let source := ("contract C \x7b struct S \x7b T t; E e; \x7d enum E \x7b X \x7d type T is uint8; " ++
      "function f(S memory s) public view returns (bool) \x7b\x7d \x7d").toList
    let own := Registry.ofSource (Comment.strip source)
    let shared := Registry.ofSource "enum T \x7b Y \x7d struct E \x7b bool b; \x7d".toList
    own.canResolve "S".toList = .ok true ∧ own.IsOutranked shared "T".toList ∧
      own.Keeps shared "S".toList ∧
      (own.merge shared).substituteName "S s".toList "S".toList = .ok "(uint8,uint8) s".toList ∧
      ∃ e, extract .default (some shared) source = .ok e ∧ ∃ d ∈ e.declarations, ∃ p ∈ d.inputs,
        own.describe "S".toList = .ok p.descriptor := by
  intro source own shared
  have resolvable : own.canResolve "S".toList = .ok true := by decide +kernel
  obtain ⟨merged, substituted, extracted⟩ := describes_locally_iff resolvable shared
  have keeps : own.Keeps shared "S".toList := merged.1 (by decide +kernel)
  have shows : (extract .default (some shared) source).toOption.map
      (fun e => e.declarations.map fun d => d.inputs.map fun p => (p.name, p.type)) =
        some [[("s".toList, "S".toList)]] := by decide +kernel
  obtain ⟨e, d, succeeds, member, inputs⟩ := exists_of_view _ _ shows
  obtain ⟨p, isInput, shown⟩ := List.mem_map.1 (inputs ▸ List.mem_cons_self)
  refine ⟨resolvable, by decide +kernel, keeps, ?_, e, succeeds, d, member, p, isInput, ?_⟩
  · rw [substituted keeps]
    decide +kernel
  · obtain ⟨isName, isType⟩ := Prod.mk.inj shown
    refine (extracted _ _ e rfl succeeds d member p (List.mem_append_left _ isInput) isType ?_).2 keeps
    rintro rfl
    exact absurd isName (by decide)

/-- A struct whose only member is elementary means another type once an enum of its name is merged. -/
theorem describe_merge_enum :
    let own := Registry.ofSource "struct S \x7b uint256 a; \x7d".toList
    let shared := Registry.ofSource "enum S \x7b X \x7d".toList
    own.definition? "S".toList = some (.struct [⟨"a".toList, "uint256".toList⟩]) ∧
      own.describe "S".toList =
        .ok (.tuple "S".toList [("a".toList, .primitive "uint256".toList)]) ∧
      own.canResolve "S".toList = .ok true ∧
      (own.merge shared).describe "S".toList = .ok (.primitive "uint8".toList) := by
  decide +kernel

end ContractInterface
