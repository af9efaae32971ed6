import ContractInterface.Proofs.CollapsedOutcomes
import ContractInterface.Proofs.References

/-! # Signatures with a gap widened

Types are substituted and read regardless of the width of gaps, which shows in the wording of errors only
(`toOption_canonicalParam_collapsed`).  So the entries of a source keep their signatures and selectors when
a gap is widened (`entries_insert_space`).
-/

namespace ContractInterface

open Text TypeSyntax Delimiter

namespace Registry

variable (r : Registry)

theorem substituteName_of_alike {s t : Text} (alike : Alike s t) (name : Text) :
    (r.substituteName s name).map collapsed = (r.substituteName t name).map collapsed := by
  unfold substituteName
  rw [alike.eq (refersTo_collapsed name)]
  split
  · cases r.canonicalType name with
    | error _ => rfl
    | ok replacement =>
      exact congrArg Except.ok (alike.map (alike_replaceReferences name replacement))
  · exact congrArg Except.ok alike

/-- Substituting in texts that differ in their gaps only gives texts that differ in their gaps only. -/
theorem substitute_of_alike {s t : Text} (alike : Alike s t) :
    (r.substitute s).map collapsed = (r.substitute t).map collapsed := by
  unfold substitute
  generalize r.typeNames = names
  induction names generalizing s t with
  | nil => exact congrArg Except.ok alike
  | cons name names ih =>
    have first := r.substituteName_of_alike alike name
    rw [List.foldlM_cons, List.foldlM_cons]
    obtain ⟨cause, left, right⟩ | ⟨s', t', left, right, alike'⟩ := cases_of_map_eq first
    · rw [left, right]
    · rw [left, right]
      exact ih alike'

end Registry

namespace Signature

/-! ## Parameters -/

theorem toOption_tupleShape (shown shown' text : Text) :
    (tupleShape shown text).toOption = (tupleShape shown' text).toOption := by
  unfold tupleShape
  split
  · rfl
  · split <;> rfl

theorem toOption_clauseShape_collapsed (clause : Text) :
    (clauseShape (collapsed clause)).toOption = (clauseShape clause).toOption := by
  unfold clauseShape
  simp only [normalized_collapsed]
  split
  · exact toOption_tupleShape _ _ _
  · rfl

/-- The canonical type of a clause of known shape. -/
def canonicalShape : ClauseShape → Except SignatureError Text
  | .plain text => canonicalPlain text
  | .tuple parts suffix => do
    let types ← parts.mapM canonicalParam
    return '(' :: joined [','] types ++ ')' :: suffix

theorem canonicalParam_eq (clause : Text) :
    canonicalParam clause = (clauseShape clause).bind canonicalShape := by
  rw [canonicalParam.eq_def]
  split
  · rename_i cause shape
    rw [shape]
    rfl
  · rename_i text shape
    rw [shape]
    rfl
  · rename_i parts suffix shape
    rw [shape]
    simp [canonicalShape, Except.bind]

theorem toOption_canonicalParam_collapsed (clause : Text) :
    (canonicalParam (collapsed clause)).toOption = (canonicalParam clause).toOption := by
  have shape := toOption_clauseShape_collapsed clause
  rw [canonicalParam_eq, canonicalParam_eq]
  obtain ⟨_, _, left, right⟩ | ⟨found, left, right⟩ := cases_of_toOption_eq shape
  · rw [left, right]
    rfl
  · rw [left, right]

/-! ## Signatures -/

/-- What comes of reading a signature, apart from the wording of its errors. -/
def verdict : Except SignatureFailure Text → Except ResolutionError (Option Text)
  | .ok text => .ok (some text)
  | .error (.definition _) => .ok none
  | .error (.resolution cause) => .error cause

/-- The signature and selector of an entry. -/
def Entry.brief (e : Entry) : Text × Text :=
  (e.signature, e.selector)

/-- The signature and selector that a verdict gives. -/
def briefOf : Option Text → Text × Text
  | some text => (text, selector text)
  | none => ([], [])

theorem map_brief_entry (definition : Text) (signature : Except SignatureFailure Text) :
    (entry definition signature).map Entry.brief = (verdict signature).map briefOf := by
  rcases signature with (_ | _) | _ <;> rfl

theorem verdict_spell (name : Text) (types : Except SignatureError (List Text)) :
    verdict (do return spell name (← types.mapError .definition)) =
      .ok (types.toOption.map (spell name)) := by
  cases types <;> rfl

theorem substituteWith_of_alike (r : Registry) {s t : Text} (alike : Alike s t) :
    (substituteWith (some r) s).map collapsed = (substituteWith (some r) t).map collapsed := by
  have view : ∀ s, (substituteWith (some r) s).map collapsed =
      ((r.substitute s).map collapsed).mapError SignatureFailure.resolution := by
    intro s
    change ((r.substitute s).mapError _).map _ = _
    cases r.substitute s <;> rfl
  rw [view, view, r.substitute_of_alike alike]

theorem verdict_ofGetter (r : Registry) (name : Text) {keys keys' : List Text}
    (same : keys.map collapsed = keys'.map collapsed) :
    verdict (ofGetter name keys (some r)) = verdict (ofGetter name keys' (some r)) := by
  have texts : (keys.mapM (substituteWith (some r))).map (List.map collapsed) =
      (keys'.mapM (substituteWith (some r))).map (List.map collapsed) := by
    rw [map_mapM, map_mapM]
    exact mapM_eq_of_map_collapsed (fun key => substituteWith_of_alike r (alike_collapsed key)) same
  unfold ofGetter
  obtain ⟨cause, left, right⟩ | ⟨substituted, substituted', left, right, alike⟩ := cases_of_map_eq texts
  · rw [left, right]
  · rw [left, right]
    refine (verdict_spell name _).trans (Eq.trans ?_ (verdict_spell name _).symm)
    rw [toOption_mapM, toOption_mapM]
    exact congrArg (fun types : Option (List Text) => Except.ok (types.map (spell name)))
      (mapM_eq_of_map_collapsed toOption_canonicalParam_collapsed alike)

/-! ## Getters -/

theorem mapM_eq_of_forall₂ {α β γ : Type} {R : α → β → Prop} {f : α → Option γ} {g : β → Option γ}
    {xs : List α} {ys : List β} (corresponds : List.Forall₂ R xs ys) (same : ∀ x y, R x y → f x = g y) :
    xs.mapM f = ys.mapM g := by
  induction corresponds with
  | nil => rfl
  | cons first _ ih => rw [List.mapM_cons, List.mapM_cons, same _ _ first, ih]

/-- The entry of the getter of a variable, if it has one. -/
def entryOfVariable? (r : Registry) (definition : Text) (v : StateVariable) :
    Except ResolutionError (Option Entry) :=
  if v.visibility = .publicly then do
    let getter ← Getter.ofType v.type
    return some (← entry definition (ofGetter v.name getter.keys (some r)))
  else return none

theorem entryOfStatement?_eq (r : Registry) (statement : Statement) : entryOfStatement? r statement =
    match StateVariable.ofStatement? statement.text statement.index with
    | some v => entryOfVariable? r (spaced statement.text) v
    | none => return none := rfl

theorem toOption_entryOfVariable?_levelled (r : Registry) (definition : Text) (v : StateVariable) :
    ((entryOfVariable? r definition v.levelled).map (Option.map Entry.brief)).toOption =
      ((entryOfVariable? r definition v).map (Option.map Entry.brief)).toOption := by
  have same : (Getter.ofType v.levelled.type).toOption = _ := Getter.ofType_collapsed v.type
  have view : ∀ keys, (do
      return some (← entry definition (ofGetter v.name keys (some r))) :
        Except ResolutionError (Option Entry)).map (Option.map Entry.brief) =
      ((verdict (ofGetter v.name keys (some r))).map briefOf).map some := by
    intro keys
    rw [← map_brief_entry definition]
    cases entry definition (ofGetter v.name keys (some r)) <;> rfl
  have visibility : v.levelled.visibility = v.visibility := rfl
  unfold entryOfVariable?
  by_cases isPublic : v.visibility = .publicly
  · rw [visibility, if_pos isPublic, if_pos isPublic]
    -- a type and its collapsed form fail together, though not with the same text in the error
    obtain ⟨_, _, left, right⟩ | ⟨getter, left, right⟩ := cases_of_toOption_eq_map same
    · rw [left, right]
      rfl
    · have keys : getter.collapsed.keys.map collapsed = getter.keys.map collapsed := by
        simp [Getter.collapsed, collapsed_collapsed]
      rw [left, right]
      refine congrArg Except.toOption ((view getter.collapsed.keys).trans (Eq.trans ?_ (view _).symm))
      rw [verdict_ofGetter r v.name keys]
  · rw [visibility, if_neg isPublic, if_neg isPublic]

theorem toOption_entryOfStatement?_of_corresponds (r : Registry) {s t : Text}
    {statement statement' : Statement} (corresponds : Statement.Corresponds s t statement statement') :
    ((entryOfStatement? r statement).map (Option.map Entry.brief)).toOption =
      ((entryOfStatement? r statement').map (Option.map Entry.brief)).toOption := by
  have declared := StateVariable.face_of_alike corresponds.text statement.index statement'.index
  rw [entryOfStatement?_eq, entryOfStatement?_eq, corresponds.text.spaced_eq]
  cases left : StateVariable.ofStatement? statement.text statement.index with
  | none =>
    cases right : StateVariable.ofStatement? statement'.text statement'.index with
    | none => rfl
    | some _ =>
      rw [left, right] at declared
      cases declared
  | some v =>
    cases right : StateVariable.ofStatement? statement'.text statement'.index with
    | none =>
      rw [left, right] at declared
      cases declared
    | some v' =>
      rw [left, right] at declared
      have faces : StateVariable.levelledFace v.face = StateVariable.levelledFace v'.face :=
        Option.some.inj declared
      have levelled : { v.levelled with index := 0 } = { v'.levelled with index := 0 } :=
        congrArg (StateVariable.ofFace 0) faces
      -- entries do not tell where a variable stands, the only thing in which the two still differ
      have placeless : ∀ v : StateVariable, entryOfVariable? r (spaced statement'.text) v.levelled =
          entryOfVariable? r (spaced statement'.text) { v.levelled with index := 0 } := fun _ => rfl
      have same := toOption_entryOfVariable?_levelled r (spaced statement'.text) v
      have same' := toOption_entryOfVariable?_levelled r (spaced statement'.text) v'
      rw [placeless, levelled, ← placeless] at same
      exact same.symm.trans same'

theorem toOption_getterEntries (cleaned : Text) (r : Registry) :
    (getterEntries cleaned r).toOption.map (List.map Entry.brief) =
      ((Statement.ofText cleaned).mapM fun statement =>
        ((entryOfStatement? r statement).map (Option.map Entry.brief)).toOption).map
          (List.filterMap id) := by
  rw [← toOption_mapM, ← map_mapM]
  unfold getterEntries
  cases (Statement.ofText cleaned).mapM (entryOfStatement? r) with
  | error _ => rfl
  | ok es =>
    refine congrArg some ?_
    rw [List.map_filterMap, List.filterMap_map]
    rfl

/-- The getters of texts that differ in their gaps only have the same signatures. -/
theorem getterEntries_of_alike (r : Registry) {s t : Text} (alike : Alike s t) :
    (getterEntries s r).toOption.map (List.map Entry.brief) =
      (getterEntries t r).toOption.map (List.map Entry.brief) := by
  rw [toOption_getterEntries, toOption_getterEntries]
  exact congrArg _ (mapM_eq_of_forall₂ (Statement.forall₂_ofText_of_alike alike) fun _ _ =>
    toOption_entryOfStatement?_of_corresponds r)

/-! ## Lines -/

theorem fields_append_of_not_mem {c : Char} {s : Text} (absent : c ∉ s) (t : Text) :
    fields c (s ++ t) = onFront s (fields c t) := by
  induction s with
  | nil => exact (onFront_nil (fields_ne_nil c t)).symm
  | cons d s ih =>
    have other : d ≠ c := fun same => absent (same ▸ List.mem_cons_self)
    rw [List.cons_append, fields, if_neg other, ih fun member => absent (List.mem_cons_of_mem d member),
      onFirst_eq_onFront, onFront_onFront]
    rfl

/-- The line in front of which a text ends takes up no more than the text's first line. -/
theorem exists_first_field (c : Char) (s : Text) : ∃ first more, fields c s = first :: more ∧
    (first = [] ∨ first.head? = s.head?) := by
  cases s with
  | nil => exact ⟨[], [], rfl, .inl rfl⟩
  | cons d s =>
    unfold fields
    split
    · exact ⟨[], _, rfl, .inl rfl⟩
    · cases fields c s with
      | nil => exact ⟨[d], [], rfl, .inr rfl⟩
      | cons first more => exact ⟨d :: first, more, rfl, .inr rfl⟩

/-- A space beside a blank leaves all lines as they are once they are respaced. -/
theorem map_spaced_fields_insert_space {s t : Text}
    (beside : s = [] ∨ (s.getLast?.any isBlank || t.head?.any isBlank) = true) :
    (fields '\n' (s ++ ' ' :: t)).map spaced = (fields '\n' (s ++ t)).map spaced := by
  by_cases breaks : '\n' ∈ s
  · -- the lines in front of the one with the space are not touched
    obtain ⟨line, rest, whole, absent⟩ := List.eq_append_cons_of_mem breaks
    rw [whole] at beside ⊢
    have others : (fields '\n' (rest ++ ' ' :: t)).map spaced = (fields '\n' (rest ++ t)).map spaced := by
      refine map_spaced_fields_insert_space ?_
      rcases List.eq_nil_or_concat rest with rfl | ⟨front, last, rfl⟩
      · exact .inl rfl
      · simpa [List.getLast?_append, List.getLast?_cons] using beside
    rw [List.append_assoc, List.append_assoc, List.cons_append, List.cons_append,
      fields_append_cons absent, fields_append_cons absent, List.map_cons,
      List.map_cons, others]
  · obtain ⟨first, more, isFirst, edge⟩ := exists_first_field '\n' t
    have space : fields '\n' (' ' :: t) = (' ' :: first) :: more := by
      rw [fields, if_neg (by decide), isFirst]
      rfl
    have line : spaced (s ++ ' ' :: first) = spaced (s ++ first) := by
      rcases beside with rfl | beside
      · exact congrArg (joined [' ']) (words_blank (by decide) first)
      · rcases edge with rfl | edge
        · rw [List.append_nil]
          exact congrArg (joined [' ']) (words_append_blanks (blanks_singleton (by decide)) s)
        · exact (alike_insert_space (by rwa [edge])).spaced_eq
    rw [fields_append_of_not_mem breaks, fields_append_of_not_mem breaks, space, isFirst]
    simp only [onFront, List.map_cons, line]
termination_by s.length
decreasing_by
  rw [whole, List.length_append, List.length_cons]
  omega

theorem ofDefinition_eq_of_spaced {definition definition' : Text}
    (same : spaced definition = spaced definition') (registry : Option Registry) :
    ofDefinition definition registry = ofDefinition definition' registry := by
  unfold ofDefinition statementText
  rw [same]

theorem map_brief_lineEntries (cleaned : Text) (r : Registry) :
    (lineEntries cleaned r).map (List.map Entry.brief) =
      (((fields '\n' cleaned).map spaced).filter (·.contains '(')).mapM fun line =>
        (verdict (ofDefinition line (some r))).map briefOf := by
  have holdsParen : ∀ line : Text, (trim line).contains '(' = (spaced line).contains '(' := by
    intro line
    rw [spaced_eq_trim_collapsed, trim_collapsed, contains_collapsed (by decide)]
  have read : ∀ line : Text, ofDefinition (trim line) (some r) = ofDefinition (spaced line) (some r) :=
    fun line => ofDefinition_eq_of_spaced ((spaced_trim line).trans (spaced_spaced line).symm) _
  unfold lineEntries
  rw [map_mapM]
  simp only [map_brief_entry]
  induction fields '\n' cleaned with
  | nil => rfl
  | cons line lines ih =>
    rw [List.map_cons, List.map_cons, List.filter_cons, List.filter_cons, holdsParen]
    split
    · rw [List.mapM_cons, List.mapM_cons, ih, read]
    · exact ih

/-! ## Entries -/

/-- With a space beside a blank the entries have the same signatures and selectors. -/
theorem entries_insert_space {source source' s t : Text} (isText : Comment.strip source = s ++ ' ' :: t)
    (isText' : Comment.strip source' = s ++ t)
    (beside : (s.getLast?.any isBlank || t.head?.any isBlank) = true) (shared : Option Registry) :
    (entries source shared).toOption.map (List.map Entry.brief) =
      (entries source' shared).toOption.map (List.map Entry.brief) := by
  have alike := alike_insert_space beside
  have types : Registry.ofSource (s ++ ' ' :: t) = Registry.ofSource (s ++ t) := by
    rw [← isText, ← isText']
    refine ofSource_eq_of_levelled ?_
    rw [isText, isText']
    exact levelled_findings_insert_space beside
  have functions : ∀ r, functionEntries (s ++ ' ' :: t) r = functionEntries (s ++ t) r := by
    intro r
    unfold functionEntries
    rw [alike.eq FunctionHeader.definitions_collapsed]
  have lines : ∀ r, (lineEntries (s ++ ' ' :: t) r).map (List.map Entry.brief) =
      (lineEntries (s ++ t) r).map (List.map Entry.brief) := by
    intro r
    rw [map_brief_lineEntries, map_brief_lineEntries, map_spaced_fields_insert_space (.inr beside)]
  unfold entries
  simp only [isText, isText', types, functions]
  generalize shared.elim (Registry.ofSource (s ++ t)) (Registry.ofSource (s ++ t)).merge = r
  cases functionEntries (s ++ t) r with
  | error _ => rfl
  | ok fs =>
    obtain ⟨_, _, left, right⟩ | ⟨gs, gs', left, right, briefs⟩ :=
      cases_of_toOption_map_eq (getterEntries_of_alike r alike)
    · rw [left, right]
      rfl
    · have empty : fs ++ gs = [] ↔ fs ++ gs' = [] := by
        rw [List.append_eq_nil_iff, List.append_eq_nil_iff,
          ← List.map_eq_nil_iff (f := Entry.brief) (l := gs), briefs, List.map_eq_nil_iff]
      rw [left, right]
      -- the lines are read where there is neither a function nor a getter
      by_cases neither : fs ++ gs = []
      · have neither' := empty.1 neither
        have same := congrArg Except.toOption (lines r)
        rw [toOption_map, toOption_map] at same
        change (if fs ++ gs = [] then _ else _ : Except ResolutionError (List Entry)).toOption.map _ =
          (if fs ++ gs' = [] then _ else _ : Except ResolutionError (List Entry)).toOption.map _
        rw [if_pos neither, if_pos neither']
        exact same
      · have some_ : ¬_ := fun nothing => neither (empty.2 nothing)
        change (if fs ++ gs = [] then _ else _ : Except ResolutionError (List Entry)).toOption.map _ =
          (if fs ++ gs' = [] then _ else _ : Except ResolutionError (List Entry)).toOption.map _
        rw [if_neg neither, if_neg some_]
        exact congrArg some (by rw [List.map_append, List.map_append, briefs])

end Signature

end ContractInterface
