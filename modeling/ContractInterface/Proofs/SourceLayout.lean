import ContractInterface.Proofs.Clauses
import ContractInterface.Proofs.CollapsedOutcomes
import Mathlib.Logic.Relation

/-! # The layout of a source

A source without comments is laid out anew by changing the width of its gaps, one after the other
(`LaidOutAs`).  The same is declared in both layouts (`exists_extract_of_alike`), and it has the same items
and signatures exactly if the names that it leaves without a meaning are the same
(`items_of_laidOutAs`).  Of these only a getter's key of several storage locations can differ: it is left
open as it is spelled (`item_of_storage_key`).
-/

namespace ContractInterface

open Text TypeSyntax Comment

/-! ## Lists read alike -/

section Lists

variable {α β γ : Type}

theorem forall₂_of_map_eq {f : α → γ} {g : β → γ} {xs : List α} {ys : List β}
    (same : xs.map f = ys.map g) : List.Forall₂ (fun x y => f x = g y) xs ys := by
  rw [← List.forall₂_eq_eq_eq, List.forall₂_map_left_iff, List.forall₂_map_right_iff] at same
  exact same

theorem append_eq_append_iff_of_length {xs xs' ys ys' : List α} (length : xs.length = xs'.length) :
    xs ++ ys = xs' ++ ys' ↔ xs = xs' ∧ ys = ys' :=
  ⟨fun same => List.append_inj same length, fun ⟨first, second⟩ => first ▸ second ▸ rfl⟩

end Lists

/-! ## Layouts -/

/-- Two texts that differ in one gap, which stands in code. -/
inductive GapChange : Text → Text → Prop where
  | mk {front gap gap' behind : Text} (code : stateAfter .code front = .code) (nonempty : gap ≠ [])
      (nonempty' : gap' ≠ []) (blanks : Blanks gap) (blanks' : Blanks gap') :
      GapChange (front ++ (gap ++ behind)) (front ++ (gap' ++ behind))

/-- Two texts of which one is got from the other by changes of gaps in code. -/
def LaidOutAs : Text → Text → Prop :=
  Relation.ReflTransGen GapChange

theorem GapChange.alike {s t : Text} (change : GapChange s t) : Alike s t := by
  obtain ⟨_, nonempty, nonempty', blanks, blanks'⟩ := change
  exact ((alike_of_blanks nonempty nonempty' blanks blanks').append rfl).append_left _

theorem LaidOutAs.alike {s t : Text} (laidOut : LaidOutAs s t) : Alike s t := by
  induction laidOut with
  | refl => rfl
  | tail _ change ih => exact ih.trans change.alike

namespace Comment

/-- Blanks in code stay, and nothing in front of them or behind is read differently. -/
theorem strip_blanks {front gap : Text} (code : stateAfter .code front = .code) (nonempty : gap ≠ [])
    (blanks : Blanks gap) (behind : Text) :
    strip (front ++ (gap ++ behind)) = strip front ++ (gap ++ strip behind) := by
  have plain : ∀ c, isBlank c = true → c ≠ '/' ∧ c ≠ '*' ∧ ¬Literal.isQuote c = true := by
    intro c blank
    refine ⟨?_, ?_, by simp [Segment.isQuote_of_isBlank blank]⟩ <;> rintro rfl <;> cases blank
  have kept : ∀ gap, Blanks gap → stripFrom .code (gap ++ behind) = gap ++ strip behind := by
    intro gap blanks
    induction gap with
    | nil => rfl
    | cons c gap ih =>
      obtain ⟨noSlash, _, noQuote⟩ := plain c (blanks c List.mem_cons_self)
      rw [List.cons_append, stripFrom_code (startsComment_eq_false noSlash _) noQuote,
        ih fun d member => blanks d (List.mem_cons_of_mem c member)]
      rfl
  -- the first blank keeps a slash at the end of the front from starting a comment with what follows
  cases gap with
  | nil => exact absurd rfl nonempty
  | cons c gap =>
    obtain ⟨noSlash, noStar, _⟩ := plain c (blanks c List.mem_cons_self)
    rw [List.cons_append, strip_append code (.inl ⟨noSlash, noStar⟩)]
    exact congrArg (strip front ++ ·) (kept (c :: gap) blanks)

end Comment

/-- A new layout has no comments either. -/
theorem GapChange.strip_eq {s t : Text} (change : GapChange s t) (commentFree : strip s = s) :
    strip t = t := by
  obtain ⟨code, nonempty, nonempty', blanks, blanks'⟩ := change
  rename_i front gap gap' behind
  rw [strip_blanks code nonempty blanks] at commentFree
  have noLonger := (strip_sublist front).length_le
  have noLonger' := (strip_sublist behind).length_le
  have lengths := congrArg List.length commentFree
  simp only [List.length_append] at lengths
  obtain ⟨frontSame, rest⟩ := List.append_inj commentFree (by omega)
  rw [strip_blanks code nonempty' blanks', frontSame, List.append_cancel_left rest]

theorem LaidOutAs.strip_eq {s t : Text} (laidOut : LaidOutAs s t) (commentFree : strip s = s) :
    strip t = t := by
  induction laidOut with
  | refl => exact commentFree
  | tail _ change ih => exact change.strip_eq ih

/-! ## Meanings -/

/-- Two meanings that agree: they are the same, or names left open that consist of storage locations. -/
inductive Descriptor.Agrees : Descriptor → Descriptor → Prop where
  | same (d : Descriptor) : Agrees d d
  | storage {name name' : Text} (alike : Alike name name') (locations : normalized name = []) :
      Agrees (.unresolved name) (.unresolved name')

namespace Descriptor

variable {d d' : Descriptor}

theorem Agrees.alike_names (agrees : d.Agrees d') :
    List.Forall₂ Alike d.unresolvedNames d'.unresolvedNames := by
  cases agrees with
  | same => exact List.forall₂_same.2 fun _ _ => rfl
  | storage alike => exact .cons alike .nil

theorem Agrees.names_eq_iff (agrees : d.Agrees d') :
    d.unresolvedNames = d'.unresolvedNames ↔ d = d' := by
  cases agrees with
  | same => simp
  | storage => simp [unresolvedNames]

theorem Agrees.parameter_eq_iff (agrees : d.Agrees d') (name : Text) :
    d.toParameter name = d'.toParameter name ↔ d = d' := by
  cases agrees with
  | same => simp
  | storage => simp [toParameter]

/-- Only several storage locations can be spelled differently. -/
theorem Agrees.eq_of_namesType (agrees : d.Agrees d') (named : ∀ n ∈ d.unresolvedNames, NamesType n) :
    d = d' := by
  cases agrees with
  | same => rfl
  | storage alike locations =>
    rename_i name name'
    have solid : IsSolid name := named name List.mem_cons_self locations
    have same : name = collapsed name' := (collapsed_solid solid).symm.trans alike
    have solid' : IsSolid name' := isSolid_of_collapsed (same ▸ solid)
    rw [same, collapsed_solid solid']

end Descriptor

/-- What a type means in one layout agrees with what it means in another. -/
theorem exists_describe_of_alike (r : Registry) {t t' : Text} (alike : Alike t t') {d : Descriptor}
    (means : r.describe t = .ok d) : ∃ d', r.describe t' = .ok d' ∧ d.Agrees d' := by
  by_cases locations : normalized t = []
  · have locations' : normalized t' = [] := by
      rwa [← normalized_collapsed, ← show collapsed t = collapsed t' from alike, normalized_collapsed]
    have open_ : ∀ t, normalized t = [] → r.describe t = .ok (.unresolved (trim t)) := by
      intro t nothing
      unfold Registry.describe
      rw [Expr.ofText.eq_def]
      simp only [nothing, if_true]
      rfl
    rw [open_ t locations] at means
    cases means
    refine ⟨_, open_ t' locations', .storage alike.trim ?_⟩
    unfold normalized
    rwa [withoutStorage_trim]
  · rw [describe_eq_of_alike r alike fun nothing => absurd nothing locations] at means
    exact ⟨d, means, .same d⟩

/-! ## Parameters -/

/-- Two parameters of one name whose meanings agree. -/
structure Param.Agrees (p p' : Param) : Prop where
  name : p.name = p'.name
  descriptor : p.descriptor.Agrees p'.descriptor

namespace Param

variable {ps ps' : List Param}

theorem alike_names_of_agrees (agrees : List.Forall₂ Agrees ps ps') :
    List.Forall₂ Alike (ps.flatMap fun p => p.descriptor.unresolvedNames)
      (ps'.flatMap fun p => p.descriptor.unresolvedNames) :=
  List.rel_flatMap agrees fun _ _ first => first.descriptor.alike_names

/-- Whether a name is reported as missing does not depend on its spelling. -/
theorem isSome_firstUnresolved?_of_agrees (agrees : List.Forall₂ Agrees ps ps') :
    (firstUnresolved? ps).isSome = (firstUnresolved? ps').isSome := by
  have names := alike_names_of_agrees agrees
  unfold firstUnresolved?
  generalize (ps.flatMap fun p => p.descriptor.unresolvedNames) = found at names ⊢
  generalize (ps'.flatMap fun p => p.descriptor.unresolvedNames) = found' at names ⊢
  cases names with
  | nil => rfl
  | cons alike _ =>
    rename_i name name' _ _ _
    have empty : name = [] ↔ name' = [] := by
      rw [← collapsed_eq_nil_iff, show collapsed name = collapsed name' from alike, collapsed_eq_nil_iff]
    by_cases nothing : name = []
    · simp [Option.filter, nothing, empty.1 nothing]
    · simp [Option.filter, nothing, mt empty.2 nothing]

theorem names_eq_iff_of_agrees (agrees : List.Forall₂ Agrees ps ps') :
    (ps.flatMap fun p => p.descriptor.unresolvedNames) =
        (ps'.flatMap fun p => p.descriptor.unresolvedNames) ↔
      ps.map descriptor = ps'.map descriptor := by
  induction agrees with
  | nil => simp
  | cons first _ ih =>
    have length := first.descriptor.alike_names.length_eq
    rw [List.flatMap_cons, List.flatMap_cons, append_eq_append_iff_of_length length, ih,
      first.descriptor.names_eq_iff, List.map_cons, List.map_cons, List.cons.injEq]

theorem parameters_eq_iff_of_agrees (agrees : List.Forall₂ Agrees ps ps') :
    ps.map toAbi = ps'.map toAbi ↔ ps.map descriptor = ps'.map descriptor := by
  induction agrees with
  | nil => simp
  | cons first _ ih =>
    have same := first.descriptor.parameter_eq_iff
    simp only [List.map_cons, List.cons.injEq, ih, toAbi, first.name, same]

theorem descriptors_eq_of_namesType (agrees : List.Forall₂ Agrees ps ps')
    (named : ∀ p ∈ ps, ∀ n ∈ p.descriptor.unresolvedNames, NamesType n) :
    ps.map descriptor = ps'.map descriptor := by
  induction agrees with
  | nil => rfl
  | cons first _ ih =>
    rw [List.map_cons, List.map_cons, first.descriptor.eq_of_namesType (named _ List.mem_cons_self),
      ih fun p member => named p (List.mem_cons_of_mem _ member)]

end Param

/-- The parameters of a getter whose keys are laid out anew. -/
theorem exists_getterInputs_of_alike (r : Registry) {keys keys' : List Text}
    (alike : List.Forall₂ Alike keys keys') {number : Nat} {ps : List Param}
    (resolves : getterInputs r number keys = .ok ps) :
    ∃ ps', getterInputs r number keys' = .ok ps' ∧ List.Forall₂ Param.Agrees ps ps' := by
  induction alike generalizing number ps with
  | nil =>
    cases resolves
    exact ⟨[], rfl, .nil⟩
  | cons first _ ih =>
    obtain ⟨d, means, rest⟩ := bind_eq_ok_iff.1 resolves
    obtain ⟨others, resolvesOthers, whole⟩ := bind_eq_ok_iff.1 rest
    cases pure_eq_ok_iff.1 whole
    obtain ⟨d', means', agrees⟩ := exists_describe_of_alike r first means
    obtain ⟨others', resolvesOthers', agreesOthers⟩ := ih resolvesOthers
    exact ⟨_, bind_eq_ok_iff.2 ⟨d', means', bind_eq_ok_iff.2 ⟨others', resolvesOthers', rfl⟩⟩,
      .cons ⟨rfl, agrees⟩ agreesOthers⟩

/-- The parameters of a list that is laid out anew. -/
theorem exists_paramsOfList_of_alike (r : Registry) {s t : Text} (alike : Alike s t) {ps : List Param}
    (resolves : paramsOfList r s = .ok ps) :
    ∃ ps', paramsOfList r t = .ok ps' ∧ List.Forall₂ Param.Agrees ps ps' := by
  have same := alike.eq (f := fun s => (paramsOfList r s).map (List.map Param.respaced))
    (paramsOfList_collapsed r)
  obtain ⟨_, fails, _⟩ | ⟨found, ps', isFound, resolves', respaced⟩ := cases_of_map_eq same
  · rw [resolves] at fails
    cases fails
  · rw [resolves] at isFound
    cases isFound
    refine ⟨ps', resolves', ?_⟩
    refine (forall₂_of_map_eq respaced).imp fun p p' equal => ?_
    have descriptor : p.descriptor = p'.descriptor := (congrArg Param.descriptor equal :)
    exact ⟨(congrArg Param.name equal :), descriptor ▸ .same _⟩

/-! ## Outcomes -/

/-- Two declarations that differ in their lines and in the spelling of names left open. -/
structure Declaration.Agrees (d d' : Declaration) : Prop where
  name : d.name = d'.name
  inputs : List.Forall₂ Param.Agrees d.inputs d'.inputs
  outputs : List.Forall₂ Param.Agrees d.outputs d'.outputs
  mutability : d.mutability = d'.mutability
  kind : d.kind = d'.kind

/-- Two outcomes of one form, the declarations in them agreeing. -/
inductive Outcome.Agrees : Outcome → Outcome → Prop where
  | declared {d d' : Declaration} (agrees : d.Agrees d') : Agrees (.declared d) (.declared d')
  | dropped (g g' : Diagnostic) : Agrees (.dropped g) (.dropped g')
  | passedOver : Agrees .passedOver .passedOver

/-- What is checked is found missing in both layouts or in neither. -/
theorem Outcome.agrees_checkedOutcome (options : Options) (line line' : Nat)
    {checks checks' : List (List Param × (Text → Finding))}
    (agrees : List.Forall₂ (fun check check' => List.Forall₂ Param.Agrees check.1 check'.1) checks checks')
    {result result' : Outcome} (results : result.Agrees result') :
    (checkedOutcome options line checks result).Agrees (checkedOutcome options line' checks' result') := by
  have found : (finding? checks).isSome = (finding? checks').isSome := by
    unfold finding?
    induction agrees with
    | nil => rfl
    | cons first _ ih =>
      have same := Param.isSome_firstUnresolved?_of_agrees first
      rw [List.findSome?_cons, List.findSome?_cons]
      revert same
      cases firstUnresolved? _ <;> cases firstUnresolved? _ <;> simp [ih]
  rw [checkedOutcome_eq, checkedOutcome_eq]
  split
  · revert found
    cases finding? checks <;> cases finding? checks'
    · exact fun _ => results
    · exact fun found => absurd found (by simp)
    · exact fun found => absurd found (by simp)
    · exact fun _ => .dropped _ _
  · exact results

/-- A variable in another layout ends alike. -/
theorem exists_variableOutcome_of_alike (options : Options) (r : Registry) (line line' : Nat)
    {v v' : StateVariable} (same : v.atStart.levelled = v'.atStart.levelled) {o : Outcome}
    (ends : variableOutcome options r line v = .ok o) :
    ∃ o', variableOutcome options r line' v' = .ok o' ∧ o.Agrees o' := by
  have alike : Alike v.type v'.type := (congrArg StateVariable.type same :)
  have name : v.name = v'.name := (congrArg StateVariable.name same :)
  obtain ⟨getter, isGetter, rest⟩ := bind_eq_ok_iff.1 ends
  obtain ⟨inputs, resolves, rest⟩ := bind_eq_ok_iff.1 rest
  obtain ⟨value, means, whole⟩ := bind_eq_ok_iff.1 rest
  cases pure_eq_ok_iff.1 whole
  -- getters are told apart up to gaps only, so what they fail with is not compared
  have getters : (Getter.ofType v.type).toOption.map Getter.collapsed =
      (Getter.ofType v'.type).toOption.map Getter.collapsed := by
    rw [← Getter.ofType_collapsed, ← Getter.ofType_collapsed, show collapsed _ = collapsed _ from alike]
  obtain ⟨_, _, fails, _⟩ | ⟨_, getter', isGetter', isGetter'', levelled⟩ := cases_of_toOption_map_eq getters
  · rw [isGetter] at fails
    cases fails
  · rw [isGetter] at isGetter'
    cases isGetter'
    have keys : List.Forall₂ Alike getter.keys getter'.keys :=
      forall₂_of_map_eq (congrArg Getter.keys levelled :)
    obtain ⟨inputs', resolves', agrees⟩ := exists_getterInputs_of_alike r keys resolves
    obtain ⟨value', means', agreesValue⟩ :=
      exists_describe_of_alike r (t := getter.value) (congrArg Getter.value levelled :) means
    have outputs : List.Forall₂ Param.Agrees [⟨valueName, getter.value, value⟩]
        [⟨valueName, getter'.value, value'⟩] := .cons ⟨rfl, agreesValue⟩ .nil
    refine ⟨_, bind_eq_ok_iff.2 ⟨getter', isGetter'', bind_eq_ok_iff.2 ⟨inputs', resolves',
      bind_eq_ok_iff.2 ⟨value', means', rfl⟩⟩⟩, ?_⟩
    exact Outcome.agrees_checkedOutcome options line line' (.cons outputs (.cons agrees .nil))
      (.declared ⟨name, agrees, outputs, rfl, rfl⟩)

/-- A function in another layout ends alike. -/
theorem exists_functionOutcome_of_alike (options : Options) (r : Registry) (line line' : Nat)
    {f f' : FunctionHeader} (same : f.atStart.levelled = f'.atStart.levelled) {o : Outcome}
    (ends : functionOutcome options r line f = .ok o) :
    ∃ o', functionOutcome options r line' f' = .ok o' ∧ o.Agrees o' := by
  have name : f.name = f'.name := (congrArg FunctionHeader.name same :)
  have params : Alike f.params f'.params := (congrArg FunctionHeader.params same :)
  have returns : f.returns.map collapsed = f'.returns.map collapsed := (congrArg FunctionHeader.returns same :)
  have mutability : f.mutability = f'.mutability := (congrArg FunctionHeader.mutability same :)
  have results : Alike (f.returns.getD []) (f'.returns.getD []) := by
    revert returns
    cases f.returns <;> cases f'.returns <;> simp [Alike]
  rw [functionOutcome_eq] at ends
  obtain ⟨inputs, resolves, rest⟩ := bind_eq_ok_iff.1 ends
  obtain ⟨outputs, resolvesOutputs, whole⟩ := bind_eq_ok_iff.1 rest
  cases pure_eq_ok_iff.1 whole
  obtain ⟨inputs', resolves', agrees⟩ := exists_paramsOfList_of_alike r params resolves
  obtain ⟨outputs', resolvesOutputs', agreesOutputs⟩ :=
    exists_paramsOfList_of_alike r results resolvesOutputs
  refine ⟨f'.outcomeWith options line' inputs' outputs', ?_, ?_⟩
  · rw [functionOutcome_eq]
    exact bind_eq_ok_iff.2 ⟨inputs', resolves', bind_eq_ok_iff.2 ⟨outputs', resolvesOutputs', rfl⟩⟩
  -- a view function without a result list is declared in both or in neither
  · refine Outcome.agrees_checkedOutcome options line line' (.cons agrees (.cons agreesOutputs .nil)) ?_
    revert returns
    cases f.returns <;> cases f'.returns
    · exact fun _ => .declared ⟨name, agrees, .cons ⟨rfl, .same _⟩ .nil, mutability, rfl⟩
    · exact fun equal => nomatch equal
    · exact fun equal => nomatch equal
    · intro _
      cases agreesOutputs with
      | nil => exact .passedOver
      | cons first others => exact .declared ⟨name, agrees, .cons first others, mutability, rfl⟩

/-! ## Extraction -/

/-- The names that a declaration leaves without a meaning. -/
def Declaration.unresolvedNames (d : Declaration) : List Text :=
  (d.inputs ++ d.outputs).flatMap fun p => p.descriptor.unresolvedNames

namespace Declaration

variable {d d' : Declaration}

theorem Agrees.toItem_eq_iff (agrees : d.Agrees d') :
    d.toItem = d'.toItem ↔ d.unresolvedNames = d'.unresolvedNames := by
  have all := List.rel_append agrees.inputs agrees.outputs
  have inputs := Param.parameters_eq_iff_of_agrees agrees.inputs
  have outputs := Param.parameters_eq_iff_of_agrees agrees.outputs
  unfold unresolvedNames toItem
  rw [Param.names_eq_iff_of_agrees all, List.map_append, List.map_append,
    append_eq_append_iff_of_length (by simpa using agrees.inputs.length_eq), ← inputs, ← outputs]
  simp [agrees.name, agrees.mutability]

theorem Agrees.signature_eq (agrees : d.Agrees d') (same : d.unresolvedNames = d'.unresolvedNames) :
    d.signature = d'.signature := by
  have all := List.rel_append agrees.inputs agrees.outputs
  have descriptors := (Param.names_eq_iff_of_agrees all).1 same
  rw [List.map_append, List.map_append] at descriptors
  have inputs := (List.append_inj descriptors (by simpa using agrees.inputs.length_eq)).1
  have canonicals := congrArg (List.map Descriptor.canonical) inputs
  rw [List.map_map, List.map_map] at canonicals
  unfold signature
  rw [agrees.name]
  exact congrArg (Signature.spell d'.name) canonicals

theorem Agrees.names_eq_of_namesType (agrees : d.Agrees d') (named : ∀ n ∈ d.unresolvedNames, NamesType n) :
    d.unresolvedNames = d'.unresolvedNames := by
  have all := List.rel_append agrees.inputs agrees.outputs
  refine (Param.names_eq_iff_of_agrees all).2 (Param.descriptors_eq_of_namesType all ?_)
  exact fun p member n isOpen => named n (List.mem_flatMap.2 ⟨p, member, isOpen⟩)

variable {ds ds' : List Declaration} (agrees : List.Forall₂ Agrees ds ds')

include agrees

theorem names_and_kinds_eq_of_agrees :
    ds.map (fun d => (d.name, d.kind)) = ds'.map fun d => (d.name, d.kind) := by
  induction agrees with
  | nil => rfl
  | cons first _ ih => rw [List.map_cons, List.map_cons, first.name, first.kind, ih]

theorem items_eq_iff_of_agrees :
    ds.map toItem = ds'.map toItem ↔ ds.map unresolvedNames = ds'.map unresolvedNames := by
  induction agrees with
  | nil => simp
  | cons first _ ih =>
    rw [List.map_cons, List.map_cons, List.cons.injEq, first.toItem_eq_iff, ih, List.map_cons,
      List.map_cons, List.cons.injEq]

theorem signatures_eq_of_agrees (same : ds.map unresolvedNames = ds'.map unresolvedNames) :
    ds.map signature = ds'.map signature := by
  induction agrees with
  | nil => rfl
  | cons first _ ih =>
    obtain ⟨firstNames, otherNames⟩ := List.cons.inj same
    rw [List.map_cons, List.map_cons, first.signature_eq firstNames, ih otherNames]

theorem unresolvedNames_eq_of_agrees (named : ∀ d ∈ ds, ∀ n ∈ d.unresolvedNames, NamesType n) :
    ds.map unresolvedNames = ds'.map unresolvedNames := by
  induction agrees with
  | nil => rfl
  | cons first _ ih =>
    rw [List.map_cons, List.map_cons, first.names_eq_of_namesType (named _ List.mem_cons_self),
      ih fun d member => named d (List.mem_cons_of_mem _ member)]

end Declaration

namespace Candidate

/-- A candidate in another layout ends alike. -/
theorem exists_outcome_of_alike (options : Options) (r : Registry) (cleaned cleaned' : Text)
    (c c' : Candidate) (o : Outcome) (same : c.atStart.levelled = c'.atStart.levelled)
    (ends : c.outcome options r cleaned = .ok o) :
    ∃ o', c'.outcome options r cleaned' = .ok o' ∧ o.Agrees o' := by
  rcases c with v | f <;> rcases c' with v' | f'
  · exact exists_variableOutcome_of_alike options r _ _ (Candidate.variable.inj same) ends
  · cases same
  · cases same
  · exact exists_functionOutcome_of_alike options r _ _ (Candidate.function.inj same) ends

/-- In both layouts the same candidates are the first of their names. -/
theorem forall₂_firstOfEachName_of_alike (options : Options) {s t : Text} (alike : Alike s t) :
    List.Forall₂ (fun c c' => c.atStart.levelled = c'.atStart.levelled)
      (firstOfEachName [] (all options s)) (firstOfEachName [] (all options t)) := by
  have found : (found s).map (fun c => c.atStart.levelled) = (found t).map fun c => c.atStart.levelled := by
    have seen := congrArg (List.map Prod.fst) (map_seen_found alike)
    rw [List.map_map, List.map_map] at seen
    simp only [levelled_atStart]
    exact seen
  have reported : ∀ c : Candidate, isReported options c.atStart.levelled = isReported options c := fun c =>
    (isReported_levelled options _).trans (isReported_atStart options c)
  have all : (all options s).map (fun c => c.atStart.levelled) =
      (all options t).map fun c => c.atStart.levelled := by
    rw [map_all _ _ reported, map_all _ _ reported, found]
  have names : ∀ c c' : Candidate, c.atStart.levelled = c'.atStart.levelled → c.name = c'.name := by
    intro c c' same
    simpa only [name_levelled, name_atStart] using congrArg name same
  exact forall₂_of_map_eq (map_firstOfEachName_eq names all [])

end Candidate

theorem Outcome.rel_declaration? (o o' : Outcome) (agrees : o.Agrees o') :
    Option.Rel Declaration.Agrees o.declaration? o'.declaration? := by
  cases agrees with
  | declared agrees => exact .some agrees
  | dropped => exact .none
  | passedOver => exact .none

/-- The same is declared in both layouts. -/
theorem exists_extract_of_alike (options : Options) (shared : Option Registry) {s t : Text}
    (commentFree : strip s = s) (commentFree' : strip t = t) (alike : Alike s t) {e : Extraction}
    (extracts : extract options shared s = .ok e) :
    ∃ e', extract options shared t = .ok e' ∧
      List.Forall₂ Declaration.Agrees e.declarations e'.declarations := by
  have types : registryOf s shared = registryOf t shared := by
    have own : Registry.ofSource s = Registry.ofSource t := by
      rw [← commentFree, ← commentFree', ofSource_strip, ofSource_strip, commentFree, commentFree']
      exact (congrArg Findings.registry (Findings.types_of_alike alike) :)
    exact congrArg (fun own : Registry => shared.elim own own.merge) own
  unfold extract at extracts ⊢
  simp only [commentFree, commentFree', ← types] at extracts ⊢
  obtain ⟨outcomes, succeeds, whole⟩ := bind_eq_ok_iff.1 extracts
  cases pure_eq_ok_iff.1 whole
  obtain ⟨outcomes', succeeds', agrees⟩ := exists_forall₂_of_forall₂
    (Candidate.exists_outcome_of_alike options (registryOf s shared) s t)
    (Candidate.forall₂_firstOfEachName_of_alike options alike) succeeds
  exact ⟨_, bind_eq_ok_iff.2 ⟨outcomes', succeeds', rfl⟩,
    List.rel_filterMap Outcome.rel_declaration? agrees⟩

/-- A source without comments declares the same in every layout, with the same items and signatures exactly
if the names that it leaves open are spelled the same, as they are unless one of them consists of several
storage locations. -/
theorem items_of_laidOutAs (options : Options) (shared : Option Registry) {source source' : Text}
    (commentFree : strip source = source) (laidOut : LaidOutAs source source') {e : Extraction}
    (extracts : extract options shared source = .ok e) :
    ∃ e', extract options shared source' = .ok e' ∧
      e.declarations.map (fun d => (d.name, d.kind)) = e'.declarations.map (fun d => (d.name, d.kind)) ∧
      (e.items = e'.items ∧
          e.declarations.map Declaration.signature = e'.declarations.map Declaration.signature ↔
        e.declarations.map Declaration.unresolvedNames = e'.declarations.map Declaration.unresolvedNames) ∧
      ((∀ d ∈ e.declarations, ∀ n ∈ d.unresolvedNames, NamesType n) →
        e.items = e'.items ∧
          e.declarations.map Declaration.signature = e'.declarations.map Declaration.signature) := by
  obtain ⟨e', extracts', agrees⟩ := exists_extract_of_alike options shared commentFree
    (laidOut.strip_eq commentFree) laidOut.alike extracts
  have items := Declaration.items_eq_iff_of_agrees agrees
  have signatures := Declaration.signatures_eq_of_agrees agrees
  have same : e.items = e'.items ∧
        e.declarations.map Declaration.signature = e'.declarations.map Declaration.signature ↔
      e.declarations.map Declaration.unresolvedNames = e'.declarations.map Declaration.unresolvedNames :=
    ⟨fun ⟨sameItems, _⟩ => items.1 sameItems, fun sameNames => ⟨items.2 sameNames, signatures sameNames⟩⟩
  exact ⟨e', extracts', Declaration.names_and_kinds_eq_of_agrees agrees, same,
    fun named => same.2 (Declaration.unresolvedNames_eq_of_agrees agrees named)⟩

/-- A function header on several lines. -/
theorem items_of_laidOutAs_header :
    let front := "contract C \x7b struct Pair \x7b uint a; bool b; \x7d function total(Pair[2] p)".toList
    let behind := "external view returns (uint256); \x7d".toList
    let source := front ++ ([' '] ++ behind)
    let source' := front ++ ("\n\t  ".toList ++ behind)
    strip source = source ∧ LaidOutAs source source' ∧
      ∃ e e', extract .default none source = .ok e ∧ extract .default none source' = .ok e' ∧
        e.declarations.map Declaration.signature = ["total((uint256,bool)[2])".toList] ∧
        e.declarations.map Declaration.unresolvedNames = [[]] ∧ e.items = e'.items ∧
        e.declarations.map Declaration.signature = e'.declarations.map Declaration.signature := by
  intro front behind source source'
  have commentFree : strip source = source := by decide +kernel
  have laidOut : LaidOutAs source source' :=
    .single (.mk (by decide +kernel) (by decide) (by decide) (blanks_singleton (by decide))
      (List.all_eq_true.1 (by decide)))
  have shows : ((extract .default none source).toOption.map fun e =>
      (e.declarations.map Declaration.signature, e.declarations.map Declaration.unresolvedNames)) =
        some (["total((uint256,bool)[2])".toList], [[]]) := by decide +kernel
  obtain ⟨e, extracts, view⟩ := exists_of_toOption_map shows
  obtain ⟨e', extracts', _, _, same⟩ := items_of_laidOutAs .default none commentFree laidOut extracts
  have resolved : ∀ d ∈ e.declarations, ∀ n ∈ d.unresolvedNames, NamesType n := by
    intro d member n isOpen
    have names := List.mem_map_of_mem (f := Declaration.unresolvedNames) member
    rw [(Prod.mk.inj view).2, List.mem_singleton] at names
    rw [names] at isOpen
    cases isOpen
  obtain ⟨items, signatures⟩ := same resolved
  exact ⟨commentFree, laidOut, e, e', extracts, extracts', (Prod.mk.inj view).1, (Prod.mk.inj view).2, items,
    signatures⟩

/-- Behind a blank key, which is not reported as missing, a key of several storage locations stays in the
item, and so does the gap in it. -/
theorem item_of_storage_key :
    let front := "contract C \x7b mapping( => mapping(memory".toList
    let behind := "storage k => uint256)) public x; \x7d".toList
    let source := front ++ ([' '] ++ behind)
    let source' := front ++ ([' ', ' '] ++ behind)
    let keyTypes := fun source => (extract .default none source).toOption.map fun e =>
      e.items.map fun item => item.inputs.map Abi.Parameter.type
    strip source = source ∧ LaidOutAs source source' ∧
      keyTypes source = some [[[], "memory storage".toList]] ∧
      keyTypes source' = some [[[], "memory  storage".toList]] := by
  intro front behind source source' keyTypes
  refine ⟨by decide +kernel, .single (.mk (by decide +kernel) (by decide) (by decide)
    (blanks_singleton (by decide)) (List.all_eq_true.1 (by decide))), by decide +kernel, by decide +kernel⟩

end ContractInterface
