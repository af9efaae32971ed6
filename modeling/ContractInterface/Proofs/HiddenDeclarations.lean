import ContractInterface.Proofs.Findings
import ContractInterface.Proofs.Outcomes

/-! # Hidden declarations

Private and internal declarations are candidates if they are asked for.  They add to what is extracted,
with one exception: of every name only the first candidate counts, so a hidden candidate takes its name
from those behind it (`overload_lost_to_hidden`).  Apart from the names whose first candidate is hidden,
the same is declared in the same order (`declarations_including_hidden`).
-/

namespace ContractInterface

open Text TypeSyntax

namespace Candidate

/-! ## Candidates in sight -/

/-- Whether a candidate is a candidate only if private and internal declarations are. -/
def isHidden : Candidate → Bool
  | .variable v => v.visibility ≠ .publicly
  | .function f => f.visibility.isHidden

/-- Whether there is a candidate of a name, and the first one is not hidden. -/
def isVisibleFirst (cs : List Candidate) (name : Text) : Bool :=
  (cs.find? (·.name = name)).any fun c => !c.isHidden

theorem all_eq_filter_visible (validate : Bool) (cleaned : Text) :
    all ⟨false, validate⟩ cleaned = (all ⟨true, validate⟩ cleaned).filter fun c => !c.isHidden := by
  rw [all_eq_filter_found, all_eq_filter_found, List.filter_filter]
  refine List.filter_congr fun c _ => ?_
  rcases c with v | f
  · simp [isReported, isHidden]
  · simp [isReported, isHidden, Bool.and_comm]

theorem nodup_all (options : Options) (cleaned : Text) : (all options cleaned).Nodup := by
  refine (pairwise_precedes_all options cleaned).imp ?_
  rintro c _ (⟨isVariable, isFunction⟩ | ⟨_, ordered⟩) rfl
  · rw [isVariable] at isFunction
    cases isFunction
  · exact Nat.lt_irrefl _ ordered

/-! ## The first candidates of both lists -/

/-- In a list without repetitions, the first candidates of every name are those that are first. -/
theorem firstOfEachName_eq_filter {cs : List Candidate} (distinct : cs.Nodup) (seen : List Text) :
    firstOfEachName seen cs = cs.filter fun c => c.name ∉ seen && isFirst cs c := by
  induction cs generalizing seen with
  | nil => rfl
  | cons c more ih =>
    obtain ⟨fresh, distinct⟩ := List.nodup_cons.1 distinct
    -- behind `c` a candidate is first of all if it is first there and has another name
    have behind : ∀ c' ∈ more, isFirst (c :: more) c' = (c'.name ≠ c.name && isFirst more c') := by
      intro c' member
      have other : c ≠ c' := fun same => fresh (same ▸ member)
      unfold isFirst
      by_cases same : c.name = c'.name
      · simp [same, other]
      · simp [same, Ne.symm same]
    have first : isFirst (c :: more) c = true := by simp [isFirst]
    rw [firstOfEachName_cons]
    split
    · rename_i wasSeen
      rw [List.filter_cons_of_neg (by simp [wasSeen]), ih distinct]
      refine List.filter_congr fun c' member => ?_
      rw [behind c' member]
      by_cases same : c'.name = c.name <;> simp [same, wasSeen]
    · rename_i unseen
      rw [List.filter_cons_of_pos (by simp [unseen, first]), ih distinct]
      congr 1
      refine List.filter_congr fun c' member => ?_
      rw [behind c' member]
      simp [Bool.and_left_comm, Bool.and_assoc]

theorem find?_filter_of_find? {cs : List Candidate} {visible : Candidate → Bool} {name : Text}
    {c : Candidate} (found : cs.find? (·.name = name) = some c) (isVisible : visible c = true) :
    (cs.filter visible).find? (·.name = name) = some c := by
  obtain ⟨isNamed, front, behind, rfl, others⟩ := List.find?_eq_some_iff_append.1 found
  rw [List.find?_filter, List.find?_eq_some_iff_append]
  refine ⟨by simpa [isVisible] using isNamed, front, behind, rfl, fun c' member => ?_⟩
  simpa using Or.inr (by simpa using others c' member)

/-- Where the first candidate of a name is visible, it is the first without the hidden ones as well. -/
theorem filter_firstOfEachName {cs : List Candidate} (distinct : cs.Nodup) :
    ((firstOfEachName [] (cs.filter fun c => !c.isHidden)).filter fun c => isVisibleFirst cs c.name) =
      (firstOfEachName [] cs).filter fun c => isVisibleFirst cs c.name := by
  rw [firstOfEachName_eq_filter distinct, firstOfEachName_eq_filter (distinct.filter _),
    List.filter_filter, List.filter_filter, List.filter_filter]
  refine List.filter_congr fun c _ => ?_
  unfold isVisibleFirst isFirst
  cases found : cs.find? (·.name = c.name) with
  | none => rfl
  | some first =>
    cases hides : first.isHidden with
    | true => simp [hides]
    | false =>
      rw [find?_filter_of_find? found (by rw [hides]; rfl)]
      by_cases same : first = c
      · subst same
        simp [hides]
      · simp [same]

end Candidate

/-! ## What is declared -/

/-- What is declared are the declarations of the first candidates. -/
theorem declarations_eq_filterMap {options : Options} {shared : Option Registry} {source : Text}
    {e : Extraction} (succeeds : extract options shared source = .ok e) :
    e.declarations =
      (Candidate.firstOfEachName [] (Candidate.all options (Comment.strip source))).filterMap fun c =>
        (c.outcome options (registryOf (Comment.strip source) shared)
          (Comment.strip source)).toOption.bind Outcome.declaration? := by
  obtain ⟨outcomes, ends, whole⟩ := bind_eq_ok_iff.1 succeeds
  cases pure_eq_ok_iff.1 whole
  have same := congrArg (List.filterMap fun x => x.toOption.bind Outcome.declaration?)
    (mapM_eq_ok_iff.1 ends)
  rw [List.filterMap_map, List.filterMap_map] at same
  exact same.symm

/-- The declarations of the candidates that are left are the declarations that are left. -/
theorem filter_filterMap_declarations {f : Candidate → Option Declaration}
    (names : ∀ c d, f c = some d → d.name = c.name) (keeps : Text → Bool) (cs : List Candidate) :
    ((cs.filterMap f).filter fun d => keeps d.name) = (cs.filter fun c => keeps c.name).filterMap f := by
  rw [List.filter_filterMap, List.filterMap_filter]
  refine List.filterMap_congr fun c _ => ?_
  cases declares : f c with
  | none => simp
  | some d => simp [Option.filter, names c d declares]

theorem isDeclarationOf_of_outcome {options : Options} {r : Registry} {cleaned : Text} {c : Candidate}
    {d : Declaration} (ends : c.outcome options r cleaned = .ok (.declared d)) :
    IsDeclarationOf cleaned c d := by
  cases isAccounted_of_outcome ends with
  | declared name kind line => exact ⟨name, kind, line⟩

theorem outcome_eq_of_declaration? {x : Except ResolutionError Outcome} {d : Declaration}
    (declares : x.toOption.bind Outcome.declaration? = some d) : x = .ok (.declared d) := by
  rcases x with _ | (d' | _ | _) <;> cases declares
  rfl

/-- With private and internal declarations the same is declared in the same order, up to names whose
first candidate is hidden.  Such a name is declared as the hidden candidate says, if at all. -/
theorem declarations_including_hidden {validate : Bool} {shared : Option Registry} {source : Text}
    {e e' : Extraction} (succeeds : extract ⟨false, validate⟩ shared source = .ok e)
    (succeeds' : extract ⟨true, validate⟩ shared source = .ok e') :
    let candidates := Candidate.all ⟨true, validate⟩ (Comment.strip source)
    (e.declarations.filter fun d => Candidate.isVisibleFirst candidates d.name) =
        (e'.declarations.filter fun d => Candidate.isVisibleFirst candidates d.name) ∧
      (∀ d ∈ e.declarations, Candidate.isVisibleFirst candidates d.name = true →
        d ∈ e'.declarations ∧ d.toItem ∈ e'.items) ∧
      ∀ d ∈ e'.declarations, Candidate.isVisibleFirst candidates d.name = false →
        ∃ c ∈ candidates, Candidate.isFirst candidates c = true ∧ c.isHidden = true ∧
          IsDeclarationOf (Comment.strip source) c d := by
  intro candidates
  have distinct : candidates.Nodup := Candidate.nodup_all _ _
  -- what becomes of a candidate does not depend on which others there are
  have independent : ∀ (r : Registry) (cleaned : Text) (c : Candidate),
      c.outcome ⟨false, validate⟩ r cleaned = c.outcome ⟨true, validate⟩ r cleaned := by
    rintro r cleaned (_ | _) <;> rfl
  have names : ∀ (c : Candidate) (d : Declaration),
      (c.outcome ⟨true, validate⟩ (registryOf (Comment.strip source) shared)
        (Comment.strip source)).toOption.bind Outcome.declaration? = some d → d.name = c.name :=
    fun c d declares => (isDeclarationOf_of_outcome (outcome_eq_of_declaration? declares)).name
  have left : (e.declarations.filter fun d => Candidate.isVisibleFirst candidates d.name) =
      e'.declarations.filter fun d => Candidate.isVisibleFirst candidates d.name := by
    rw [declarations_eq_filterMap succeeds, declarations_eq_filterMap succeeds']
    simp only [independent]
    rw [filter_filterMap_declarations names, filter_filterMap_declarations names,
      Candidate.all_eq_filter_visible, Candidate.filter_firstOfEachName distinct]
  refine ⟨left, fun d member isVisible => ?_, fun d member isHidden => ?_⟩
  · have kept : d ∈ e'.declarations :=
      List.mem_of_mem_filter (left ▸ List.mem_filter.2 ⟨member, isVisible⟩)
    exact ⟨kept, List.mem_map_of_mem kept⟩
  · obtain ⟨c, taken, declares⟩ := exists_first_of_declared succeeds' member
    have isFirst := (Candidate.mem_firstOfEachName_iff.1 taken).2
    have declared := isDeclarationOf_of_outcome declares
    have found : candidates.find? (·.name = c.name) = some c := of_decide_eq_true isFirst
    refine ⟨c, mem_of_mem_firstOfEachName taken, isFirst, ?_, declared⟩
    rw [declared.name, Candidate.isVisibleFirst, found] at isHidden
    simpa using isHidden

/-- A getter in front of a private function of its name stays, and so does a function without a hidden
one of its name.  A private overload in front takes the name over. -/
theorem declarations_including_hidden_contract :
    let source := ("contract C \x7b uint a; uint public b; function b() private view; " ++
      "function f(uint x) internal view; function f() external view; function g() view; \x7d").toList
    let candidates := Candidate.all ⟨true, true⟩ (Comment.strip source)
    ∃ e e', extract ⟨false, true⟩ none source = .ok e ∧ extract ⟨true, true⟩ none source = .ok e' ∧
      e.declarations.map Declaration.name = ["b", "f", "g"].map String.toList ∧
      e'.declarations.map Declaration.name = ["a", "b", "f", "g"].map String.toList ∧
      (e.declarations.filter fun d => Candidate.isVisibleFirst candidates d.name) =
        (e'.declarations.filter fun d => Candidate.isVisibleFirst candidates d.name) ∧
      ["b", "f", "g"].map (fun name => Candidate.isVisibleFirst candidates name.toList) =
        [true, false, true] := by
  intro source candidates
  have shows : (extract ⟨false, true⟩ none source).toOption.map
      (fun e => e.declarations.map Declaration.name) = some (["b", "f", "g"].map String.toList) := by
    decide +kernel
  have shows' : (extract ⟨true, true⟩ none source).toOption.map
      (fun e => e.declarations.map Declaration.name) =
        some (["a", "b", "f", "g"].map String.toList) := by
    decide +kernel
  obtain ⟨e, succeeds, names⟩ := exists_of_toOption_map shows
  obtain ⟨e', succeeds', names'⟩ := exists_of_toOption_map shows'
  exact ⟨e, e', succeeds, succeeds', names, names',
    (declarations_including_hidden succeeds succeeds').1, by decide +kernel⟩

/-- A function is not declared any more when a private one of its name in front of it is. -/
theorem overload_lost_to_hidden :
    let source := ("contract C \x7b function f(uint256 a) private view returns (uint256) \x7b\x7d " ++
      "function f() public view returns (uint256) \x7b\x7d \x7d").toList
    ∃ e e', extract ⟨false, true⟩ none source = .ok e ∧ extract ⟨true, true⟩ none source = .ok e' ∧
      ∃ d ∈ e.declarations, d ∉ e'.declarations ∧ d.toItem ∉ e'.items := by
  intro source
  have shows : (extract ⟨false, true⟩ none source).toOption.map
      (fun e => e.declarations.map fun d => d.toItem.inputs.length) = some [0] := by
    decide +kernel
  have shows' : (extract ⟨true, true⟩ none source).toOption.map
      (fun e => e.declarations.map fun d => d.toItem.inputs.length) = some [1] := by
    decide +kernel
  obtain ⟨e, succeeds, inputs⟩ := exists_of_toOption_map shows
  obtain ⟨e', succeeds', inputs'⟩ := exists_of_toOption_map shows'
  obtain ⟨d, member, noInput⟩ := List.mem_map.1 (inputs ▸ List.mem_cons_self)
  have lost : d.toItem ∉ e'.items := by
    intro isItem
    obtain ⟨d', member', same⟩ := List.mem_map.1 isItem
    have oneInput : d'.toItem.inputs.length ∈ [1] := inputs' ▸ List.mem_map_of_mem member'
    rw [same, noInput] at oneInput
    cases List.mem_singleton.1 oneInput
  exact ⟨e, e', succeeds, succeeds', d, member, fun kept => lost (List.mem_map_of_mem kept), lost⟩

end ContractInterface
