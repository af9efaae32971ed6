import ContractInterface.Proofs.CollapsedFindings

/-! # Extraction with a gap widened

How wide the gaps of a candidate are shows in the types that its parameters display and nowhere else
(`toOption_outcomeInLine_levelled`).  So sources in which the same is found up to the width of gaps have
the same interface, up to the gaps of the displayed types (`extract_eq_of_levelled`).  A type that consists
of several storage locations is no type, and is reported as it is spelled.
-/

namespace ContractInterface

open Text TypeSyntax

/-! ## Traversals -/

section Traversals

variable {α β γ ε : Type}

theorem map_mapM (f : α → Except ε β) (view : β → γ) (xs : List α) :
    (xs.mapM f).map (List.map view) = xs.mapM fun x => (f x).map view := by
  induction xs with
  | nil => rfl
  | cons x xs ih =>
    rw [List.mapM_cons, List.mapM_cons, ← ih]
    cases f x with
    | error _ => rfl
    | ok y => cases xs.mapM f <;> rfl

theorem toOption_mapM (f : α → Except ε β) (xs : List α) :
    (xs.mapM f).toOption = xs.mapM fun x => (f x).toOption := by
  induction xs with
  | nil => rfl
  | cons x xs ih =>
    rw [List.mapM_cons, List.mapM_cons, ← ih]
    cases f x with
    | error _ => rfl
    | ok y => cases xs.mapM f <;> rfl

theorem toOption_map (x : Except ε α) (view : α → β) : (x.map view).toOption = x.toOption.map view := by
  cases x <;> rfl

/-- What a traversal finds in pieces that differ in their gaps only does not differ. -/
theorem mapM_eq_of_map_collapsed {m : Type → Type} [Monad m] [LawfulMonad m] {f : Text → m β}
    (blind : ∀ piece, f (collapsed piece) = f piece) {pieces pieces' : List Text}
    (same : pieces.map collapsed = pieces'.map collapsed) : pieces.mapM f = pieces'.mapM f := by
  have asCollapsed : ∀ ps : List Text, (ps.map collapsed).mapM f = ps.mapM f := by
    intro ps
    rw [List.mapM_map]
    exact congrArg (List.mapM · ps) (funext blind)
  rw [← asCollapsed, same, asCollapsed]

theorem mapM_congr_of_mem {f g : α → Option β} {xs : List α} (same : ∀ x ∈ xs, f x = g x) :
    xs.mapM f = xs.mapM g := by
  induction xs with
  | nil => rfl
  | cons x xs ih =>
    rw [List.mapM_cons, List.mapM_cons, same x List.mem_cons_self,
      ih fun y member => same y (List.mem_cons_of_mem x member)]

end Traversals

/-! ## Displayed types -/

/-- A parameter with its displayed type respaced. -/
def Param.respaced (p : Param) : Param :=
  { p with type := spaced p.type }

/-- A declaration with its displayed types respaced. -/
def Declaration.respaced (d : Declaration) : Declaration :=
  { d with inputs := d.inputs.map Param.respaced, outputs := d.outputs.map Param.respaced }

/-- The types that a description shows are not the displayed ones. -/
@[simp] theorem Declaration.toItem_respaced (d : Declaration) : d.respaced.toItem = d.toItem := by
  unfold Declaration.toItem Declaration.respaced
  simp only [List.map_map]
  rfl

def Outcome.respaced : Outcome → Outcome
  | .declared d => .declared d.respaced
  | .dropped g => .dropped g
  | .passedOver => .passedOver

theorem firstUnresolved?_respaced (params : List Param) :
    firstUnresolved? (params.map Param.respaced) = firstUnresolved? params := by
  unfold firstUnresolved?
  rw [List.flatMap_map]
  rfl

theorem respaced_checkedOutcome (options : Options) (line : Nat)
    (checks : List (List Param × (Text → Finding))) (result : Outcome) :
    (checkedOutcome options line checks result).respaced =
      checkedOutcome options line (checks.map fun check => (check.1.map Param.respaced, check.2))
        result.respaced := by
  have same : finding? (checks.map fun check => (check.1.map Param.respaced, check.2)) =
      finding? checks := by
    unfold finding?
    rw [List.findSome?_map]
    congr 1
    funext check
    exact congrArg (Option.map check.2) (firstUnresolved?_respaced check.1)
  rw [checkedOutcome_eq, checkedOutcome_eq, same]
  split
  · cases finding? checks <;> rfl
  · rfl

/-! ## Functions -/

theorem paramOfClause?_collapsed (r : Registry) (clause : Text) :
    (paramOfClause? r (collapsed clause)).map (Option.map Param.respaced) =
      (paramOfClause? r clause).map (Option.map Param.respaced) := by
  have same := Clause.saysSame_ofText_collapsed clause
  have empty : (Clause.ofText (collapsed clause)).type = [] ↔ (Clause.ofText clause).type = [] := by
    rw [← collapsed_eq_nil_iff, show collapsed _ = collapsed _ from same.type, collapsed_eq_nil_iff]
  unfold paramOfClause?
  simp only [empty, same.described, same.name]
  split
  · rfl
  · cases r.describe (Clause.ofText clause).type with
    | error _ => rfl
    | ok d =>
      exact congrArg (fun type => Except.ok (some (Param.mk (Clause.ofText clause).name type d)))
        same.type.spaced_eq

theorem map_respaced_paramsOfList (r : Registry) (text : Text) :
    (paramsOfList r text).map (List.map Param.respaced) =
      ((Delimiter.splitCommas text).mapM fun clause =>
        (paramOfClause? r clause).map (Option.map Param.respaced)).map (List.filterMap id) := by
  rw [← map_mapM]
  unfold paramsOfList
  cases (Delimiter.splitCommas text).mapM (paramOfClause? r) with
  | error _ => rfl
  | ok params =>
    refine congrArg Except.ok ?_
    rw [List.map_filterMap, List.filterMap_map]
    rfl

theorem paramsOfList_collapsed (r : Registry) (text : Text) :
    (paramsOfList r (collapsed text)).map (List.map Param.respaced) =
      (paramsOfList r text).map (List.map Param.respaced) := by
  have clauses := Delimiter.splitTopLevel_collapsed (noBlank_beq (c := ',') (by decide)) text
  rw [map_respaced_paramsOfList, map_respaced_paramsOfList]
  exact congrArg _ (mapM_eq_of_map_collapsed (paramOfClause?_collapsed r) clauses)

/-- The outcome of a function with the given parameters and results. -/
def FunctionHeader.outcomeWith (options : Options) (line : Nat) (f : FunctionHeader)
    (inputs outputs : List Param) : Outcome :=
  let declared (results : List Param) : Outcome :=
    .declared ⟨f.name, inputs, results, f.mutability, .function, line⟩
  let result :=
    match f.returns with
    | none => declared [impliedOutput]
    | some _ => if outputs.isEmpty then .passedOver else declared outputs
  checkedOutcome options line
    [(inputs, fun missing => .inputType f.name missing true), (outputs, .returnType f.name)] result

theorem functionOutcome_eq (options : Options) (r : Registry) (line : Nat) (f : FunctionHeader) :
    functionOutcome options r line f = do
      let inputs ← paramsOfList r f.params
      let outputs ← paramsOfList r (f.returns.getD [])
      return f.outcomeWith options line inputs outputs := rfl

theorem FunctionHeader.respaced_outcomeWith (options : Options) (line : Nat) (f : FunctionHeader)
    (inputs outputs : List Param) : (f.outcomeWith options line inputs outputs).respaced =
      f.outcomeWith options line (inputs.map Param.respaced) (outputs.map Param.respaced) := by
  unfold outcomeWith
  rw [respaced_checkedOutcome]
  refine congrArg (checkedOutcome options line _) ?_
  cases f.returns with
  | none => rfl
  | some _ => cases outputs <;> rfl

theorem FunctionHeader.outcomeWith_levelled (options : Options) (line : Nat) (f : FunctionHeader)
    (inputs outputs : List Param) :
    f.levelled.outcomeWith options line inputs outputs = f.outcomeWith options line inputs outputs := by
  unfold outcomeWith levelled
  cases f.returns <;> rfl

theorem functionOutcome_levelled (options : Options) (r : Registry) (line : Nat) (f : FunctionHeader) :
    (functionOutcome options r line f.levelled).map Outcome.respaced =
      (functionOutcome options r line f).map Outcome.respaced := by
  have view : ∀ f : FunctionHeader, (functionOutcome options r line f).map Outcome.respaced = do
      let inputs ← (paramsOfList r f.params).map (List.map Param.respaced)
      let outputs ← (paramsOfList r (f.returns.getD [])).map (List.map Param.respaced)
      return f.outcomeWith options line inputs outputs := by
    intro f
    rw [functionOutcome_eq]
    cases paramsOfList r f.params with
    | error _ => rfl
    | ok inputs =>
      cases paramsOfList r (f.returns.getD []) with
      | error _ => rfl
      | ok outputs => exact congrArg Except.ok (f.respaced_outcomeWith options line inputs outputs)
  have results : f.levelled.returns.getD [] = collapsed (f.returns.getD []) := by
    unfold FunctionHeader.levelled
    cases f.returns <;> rfl
  rw [view, view, results, paramsOfList_collapsed]
  simp only [FunctionHeader.outcomeWith_levelled]
  rw [FunctionHeader.levelled, paramsOfList_collapsed]

/-! ## State variables -/

/-- No key of a variable's getter, nor its result, is spelled as several storage locations. -/
def StateVariable.NamesTypes (v : StateVariable) : Prop :=
  ∀ getter, Getter.ofType v.type = .ok getter → ∀ t ∈ getter.value :: getter.keys, NamesType t

theorem StateVariable.namesTypes_iff {v : StateVariable} : v.NamesTypes ↔
    ∀ getter ∈ (Getter.ofType v.type).toOption, ∀ t ∈ getter.value :: getter.keys, NamesType t := by
  unfold NamesTypes
  refine forall_congr' fun getter => ?_
  cases Getter.ofType v.type <;> simp [Except.toOption]

instance : DecidablePred StateVariable.NamesTypes := fun _ =>
  decidable_of_iff _ StateVariable.namesTypes_iff.symm

theorem StateVariable.namesTypes_levelled_iff {v : StateVariable} : v.levelled.NamesTypes ↔ v.NamesTypes := by
  have same : (Getter.ofType v.levelled.type).toOption = _ := Getter.ofType_collapsed v.type
  unfold NamesTypes
  obtain ⟨_, _, left, right⟩ | ⟨getter, left, right⟩ := cases_of_toOption_eq_map same
  · simp [left, right]
  · simp [left, right, Getter.collapsed, namesType_collapsed_iff]

theorem getterInputs_collapsed (r : Registry) {keys : List Text} (named : ∀ t ∈ keys, NamesType t)
    (number : Nat) :
    (getterInputs r number (keys.map collapsed)).map (List.map Param.respaced) =
      (getterInputs r number keys).map (List.map Param.respaced) := by
  induction keys generalizing number with
  | nil => rfl
  | cons key keys ih =>
    have others := ih (fun t member => named t (List.mem_cons_of_mem key member)) (number + 1)
    have first := describe_eq_of_alike r (alike_collapsed key)
      (namesType_collapsed_iff.2 (named key List.mem_cons_self))
    -- up to respacing an input is told by the respaced key and its descriptor
    have view : ∀ (key : Text) (d : Descriptor) (x : Except ResolutionError (List Param)),
        (do return (⟨"key".toList ++ digits number, key, d⟩ : Param) :: (← x)).map
            (List.map Param.respaced) =
          (x.map (List.map Param.respaced)).map
            ((⟨"key".toList ++ digits number, spaced key, d⟩ : Param) :: ·) := by
      intro key d x
      cases x <;> rfl
    rw [List.map_cons, getterInputs, getterInputs, first]
    cases r.describe key with
    | error _ => rfl
    | ok d =>
      exact (view (collapsed key) d _).trans ((by rw [others, spaced_collapsed] :
        _ = _).trans (view key d _).symm)

/-- The outcome of a variable with the given parameters and result. -/
def StateVariable.outcomeWith (options : Options) (line : Nat) (v : StateVariable) (inputs : List Param)
    (output : Param) : Outcome :=
  checkedOutcome options line
    [([output], .variableType v.name), (inputs, fun missing => .inputType v.name missing false)]
    (.declared ⟨v.name, inputs, [output], .view, .variable, line⟩)

theorem variableOutcome_eq (options : Options) (r : Registry) (line : Nat) (v : StateVariable) :
    variableOutcome options r line v = do
      let getter ← Getter.ofType v.type
      let inputs ← getterInputs r 1 getter.keys
      let descriptor ← r.describe getter.value
      return v.outcomeWith options line inputs ⟨valueName, getter.value, descriptor⟩ := rfl

theorem StateVariable.respaced_outcomeWith (options : Options) (line : Nat) (v : StateVariable)
    (inputs : List Param) (output : Param) : (v.outcomeWith options line inputs output).respaced =
      v.outcomeWith options line (inputs.map Param.respaced) output.respaced := by
  unfold outcomeWith
  rw [respaced_checkedOutcome]
  rfl

/-- The outcome of a variable with a given getter. -/
theorem map_respaced_variableOutcome (options : Options) (r : Registry) (line : Nat) (v : StateVariable)
    (getter : Getter) :
    (do
      let inputs ← getterInputs r 1 getter.keys
      let descriptor ← r.describe getter.value
      return v.outcomeWith options line inputs ⟨valueName, getter.value, descriptor⟩ :
        Except ResolutionError Outcome).map Outcome.respaced = do
      let inputs ← (getterInputs r 1 getter.keys).map (List.map Param.respaced)
      let descriptor ← r.describe getter.value
      return v.outcomeWith options line inputs ⟨valueName, spaced getter.value, descriptor⟩ := by
  cases getterInputs r 1 getter.keys with
  | error _ => rfl
  | ok inputs =>
    cases r.describe getter.value with
    | error _ => rfl
    | ok d => exact congrArg Except.ok (v.respaced_outcomeWith options line inputs _)

theorem variableOutcome_levelled (options : Options) (r : Registry) (line : Nat) {v : StateVariable}
    (named : v.NamesTypes) :
    ((variableOutcome options r line v.levelled).map Outcome.respaced).toOption =
      ((variableOutcome options r line v).map Outcome.respaced).toOption := by
  have same : (Getter.ofType v.levelled.type).toOption = _ := Getter.ofType_collapsed v.type
  rw [variableOutcome_eq, variableOutcome_eq]
  -- collapsing may change the text in an error, which is why only successes are compared
  obtain ⟨_, _, left, right⟩ | ⟨getter, left, right⟩ := cases_of_toOption_eq_map same
  · rw [left, right]
    rfl
  · have types := named getter right
    have value := describe_eq_of_alike r (alike_collapsed getter.value)
      (namesType_collapsed_iff.2 (types _ List.mem_cons_self))
    have keys := getterInputs_collapsed r
      (fun t member => types t (List.mem_cons_of_mem getter.value member)) 1
    rw [left, right]
    refine congrArg Except.toOption ?_
    refine (map_respaced_variableOutcome options r line v.levelled getter.collapsed).trans
      (Eq.trans ?_ (map_respaced_variableOutcome options r line v getter).symm)
    unfold Getter.collapsed
    simp only [keys, value, spaced_collapsed]
    rfl

/-! ## Extraction -/

namespace Candidate

/-- The types of a candidate are spelled as types. -/
def NamesTypes : Candidate → Prop
  | .variable v => v.NamesTypes
  | .function _ => True

theorem namesTypes_levelled_iff {c : Candidate} : c.levelled.NamesTypes ↔ c.NamesTypes := by
  rcases c with v | f
  · exact StateVariable.namesTypes_levelled_iff
  · exact Iff.rfl

theorem namesTypes_atStart_iff {c : Candidate} : c.atStart.NamesTypes ↔ c.NamesTypes := by
  cases c <;> exact Iff.rfl

/-- How wide the gaps of a candidate are shows in the displayed types only. -/
theorem toOption_outcomeInLine_levelled (options : Options) (r : Registry) {c : Candidate}
    (named : c.NamesTypes) (line : Nat) :
    ((outcomeInLine options r (c.levelled, line)).map Outcome.respaced).toOption =
      ((outcomeInLine options r (c, line)).map Outcome.respaced).toOption := by
  rcases c with v | f
  · exact variableOutcome_levelled options r line named
  · exact congrArg Except.toOption (functionOutcome_levelled options r line f)

end Candidate

namespace Candidate

/-- A candidate apart from where it starts and from the width of its gaps, with its line. -/
def outlined (cleaned : Text) (c : Candidate) : Candidate × Nat :=
  (c.atStart.levelled, Comment.lineAt cleaned c.index)

theorem isReported_levelled (options : Options) (c : Candidate) :
    isReported options c.levelled = isReported options c := by
  cases c <;> rfl

theorem name_levelled (c : Candidate) : c.levelled.name = c.name := by
  cases c <;> rfl

theorem map_outlined_all (options : Options) (cleaned : Text) :
    (all options cleaned).map (outlined cleaned) =
      ((found cleaned).map (outlined cleaned)).filter fun p => isReported options p.1 :=
  map_all (outlined cleaned) (fun p => isReported options p.1)
    (fun c => (isReported_levelled options _).trans (isReported_atStart options c)) cleaned

/-- The outcomes of candidates, with the displayed types respaced, depend on their outlines. -/
theorem mapM_placed_eq (options : Options) (r : Registry) (cleaned : Text) {cs : List Candidate}
    (named : ∀ c ∈ cs, c.NamesTypes) :
    ((cs.map (placed cleaned)).mapM fun p =>
        ((outcomeInLine options r p).map Outcome.respaced).toOption) =
      (cs.map (outlined cleaned)).mapM fun p =>
        ((outcomeInLine options r p).map Outcome.respaced).toOption := by
  rw [List.mapM_map, List.mapM_map]
  refine mapM_congr_of_mem fun c member => ?_
  exact (toOption_outcomeInLine_levelled options r (namesTypes_atStart_iff.2 (named c member)) _).symm

end Candidate

/-- What an extraction finds, with the displayed types respaced. -/
def Extraction.respaced (e : Extraction) : Extraction :=
  { e with declarations := e.declarations.map Declaration.respaced }

@[simp] theorem Extraction.items_respaced (e : Extraction) : e.respaced.items = e.items := by
  unfold Extraction.items Extraction.respaced
  rw [List.map_map]
  congr 1
  funext d
  exact d.toItem_respaced

theorem Extraction.respaced_ofOutcomes (outcomes : List Outcome) :
    (Extraction.ofOutcomes outcomes).respaced = Extraction.ofOutcomes (outcomes.map Outcome.respaced) := by
  have declared : (fun o => (Outcome.declaration? o).map Declaration.respaced) =
      Outcome.declaration? ∘ Outcome.respaced := by
    funext o
    cases o <;> rfl
  have dropped : Outcome.diagnostic? ∘ Outcome.respaced = Outcome.diagnostic? := by
    funext o
    cases o <;> rfl
  unfold Extraction.respaced Extraction.ofOutcomes
  rw [List.filterMap_map, List.filterMap_map, List.map_filterMap, declared, dropped]

theorem toOption_extract (options : Options) (shared : Option Registry) (source : Text) :
    (extract options shared source).toOption.map Extraction.respaced =
      (((Candidate.firstOfEachName [] (Candidate.all options (Comment.strip source))).map
        (Candidate.placed (Comment.strip source))).mapM fun p =>
          ((Candidate.outcomeInLine options (registryOf (Comment.strip source) shared) p).map
            Outcome.respaced).toOption).map Extraction.ofOutcomes := by
  have whole : extract options shared source = do
      return Extraction.ofOutcomes (← (Candidate.firstOfEachName []
        (Candidate.all options (Comment.strip source))).mapM
          (Candidate.outcome options (registryOf (Comment.strip source) shared) (Comment.strip source))) :=
    rfl
  rw [← toOption_mapM, ← map_mapM, ← Candidate.mapM_outcome_eq, whole]
  cases (Candidate.firstOfEachName [] (Candidate.all options (Comment.strip source))).mapM
      (Candidate.outcome options (registryOf (Comment.strip source) shared) (Comment.strip source)) with
  | error _ => rfl
  | ok outcomes => exact congrArg some (Extraction.respaced_ofOutcomes outcomes)

theorem ofSource_eq_of_levelled {source source' : Text}
    (same : (Findings.ofText (Comment.strip source)).levelled =
      (Findings.ofText (Comment.strip source')).levelled) :
    Registry.ofSource (Comment.strip source) = Registry.ofSource (Comment.strip source') := by
  have registries := congrArg Findings.registry same
  rw [ofSource_strip, ofSource_strip]
  exact registries

/-- Sources in which the same is found up to the width of gaps have the same interface, up to the gaps of
the displayed types. -/
theorem extract_eq_of_levelled {source source' : Text} (options : Options) (shared : Option Registry)
    (same : (Findings.ofText (Comment.strip source)).levelled =
      (Findings.ofText (Comment.strip source')).levelled)
    (named : ∀ v ∈ StateVariable.ofText (Comment.strip source), v.NamesTypes) :
    (extract options shared source).toOption.map Extraction.respaced =
      (extract options shared source').toOption.map Extraction.respaced := by
  have types : registryOf (Comment.strip source) shared = registryOf (Comment.strip source') shared :=
    congrArg (fun own : Registry => shared.elim own own.merge) (ofSource_eq_of_levelled same)
  have found : (Candidate.found (Comment.strip source)).map (Candidate.outlined (Comment.strip source)) =
      (Candidate.found (Comment.strip source')).map (Candidate.outlined (Comment.strip source')) := by
    have candidates := congrArg Findings.candidates same
    unfold Findings.levelled Findings.ofText at candidates
    simp only [List.map_map] at candidates
    exact candidates
  have all : (Candidate.all options (Comment.strip source)).map
        (Candidate.outlined (Comment.strip source)) =
      (Candidate.all options (Comment.strip source')).map
        (Candidate.outlined (Comment.strip source')) := by
    rw [Candidate.map_outlined_all, Candidate.map_outlined_all, found]
  -- duplicates are dropped by name, and the outline of a candidate still tells its name
  have names : ∀ c c' : Candidate, c.outlined (Comment.strip source) =
      c'.outlined (Comment.strip source') → c.name = c'.name := by
    intro c c' same
    have named : c.atStart.levelled.name = c'.atStart.levelled.name :=
      congrArg (fun p => p.1.name) same
    simpa only [Candidate.name_levelled, Candidate.name_atStart] using named
  have firsts := Candidate.map_firstOfEachName_eq names all []
  have namesTypes : ∀ c ∈ Candidate.found (Comment.strip source), c.NamesTypes := by
    intro c member
    rcases List.mem_append.1 member with isVariable | isFunction
    · obtain ⟨v, isFound, rfl⟩ := List.mem_map.1 isVariable
      exact named v isFound
    · obtain ⟨f, _, rfl⟩ := List.mem_map.1 isFunction
      exact trivial
  -- the other source needs no assumption of its own: being named is read off the shared outlines
  have namesTypes' : ∀ c ∈ Candidate.found (Comment.strip source'), c.NamesTypes := by
    intro c' member'
    obtain ⟨c, member, outline⟩ := List.mem_map.1 (found ▸ List.mem_map_of_mem member')
    have levelled : c.atStart.levelled = c'.atStart.levelled := congrArg Prod.fst outline
    have named := Candidate.namesTypes_levelled_iff.2 (Candidate.namesTypes_atStart_iff.2 (namesTypes c member))
    rw [levelled] at named
    exact Candidate.namesTypes_atStart_iff.1 (Candidate.namesTypes_levelled_iff.1 named)
  have within : ∀ cleaned, ∀ c ∈ Candidate.firstOfEachName [] (Candidate.all options cleaned),
      c ∈ Candidate.found cleaned := by
    intro cleaned c member
    have reported := mem_of_mem_firstOfEachName member
    rw [Candidate.all_eq_filter_found] at reported
    exact List.mem_of_mem_filter reported
  rw [toOption_extract, toOption_extract,
    Candidate.mapM_placed_eq _ _ _ fun c member => namesTypes c (within _ c member),
    Candidate.mapM_placed_eq _ _ _ fun c member => namesTypes' c (within _ c member), firsts, types]

end ContractInterface
