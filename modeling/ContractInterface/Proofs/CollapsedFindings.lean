import ContractInterface.Proofs.CollapsedHeads
import ContractInterface.Proofs.CollapsedStatements
import ContractInterface.Proofs.Origins

/-! # Findings with a gap widened

A space beside a blank widens a gap.  The same types and candidates are found with it and without it, each
candidate in its line, and they are spelled with the same gaps up to their width
(`levelled_findings_insert_space`).
-/

namespace ContractInterface

open Text Comment

/-! ## Candidates -/

/-- A variable with the gaps of its type collapsed. -/
def StateVariable.levelled (v : StateVariable) : StateVariable :=
  { v with type := collapsed v.type }

theorem StateVariable.map_levelled_ofStatement? (s : Text) (index : Nat) :
    (ofStatement? s index).map (fun v => (v.levelled.atStart, v.index)) =
      (((ofStatement? s 0).map face).map levelledFace).map fun f => (ofFace 0 f, index) := by
  rw [ofStatement?_eq_ofFace s index]
  simp only [Option.map_map]
  rfl

/-- Lists whose members correspond are read as the same. -/
theorem filterMap_eq_of_forall₂ {α β γ : Type} {R : α → β → Prop} {f : α → Option γ} {g : β → Option γ}
    {xs : List α} {ys : List β} (corresponds : List.Forall₂ R xs ys) (same : ∀ x y, R x y → f x = g y) :
    xs.filterMap f = ys.filterMap g := by
  induction corresponds with
  | nil => rfl
  | cons first _ ih => rw [List.filterMap_cons, List.filterMap_cons, same _ _ first, ih]

namespace Candidate

/-- A candidate with its gaps collapsed. -/
def levelled : Candidate → Candidate
  | .variable v => .variable v.levelled
  | .function f => .function f.levelled

theorem levelled_atStart (c : Candidate) : c.atStart.levelled = c.levelled.atStart := by
  cases c <;> rfl

/-- A candidate apart from where it starts and from the width of its gaps, with the number of visible
characters in front of it. -/
def seen (cleaned : Text) (c : Candidate) : Candidate × Nat :=
  (c.levelled.atStart, inkBefore cleaned c.index)

theorem map_seen_variables {s t : Text} (alike : Alike s t) :
    ((StateVariable.ofText s).map Candidate.variable).map (seen s) =
      ((StateVariable.ofText t).map Candidate.variable).map (seen t) := by
  have asFilter : ∀ s, ((StateVariable.ofText s).map Candidate.variable).map (seen s) =
      (Statement.ofText s).filterMap fun statement =>
        ((StateVariable.ofStatement? statement.text statement.index).map fun v =>
          (v.levelled.atStart, v.index)).map fun found =>
            (Candidate.variable found.1, inkBefore s found.2) := by
    intro s
    rw [StateVariable.ofText, List.map_map, List.map_filterMap]
    refine List.filterMap_congr fun statement _ => ?_
    rw [Option.map_map]
    rfl
  rw [asFilter, asFilter]
  refine filterMap_eq_of_forall₂ (Statement.forall₂_ofText_of_alike alike) fun x y corresponds => ?_
  rw [StateVariable.map_levelled_ofStatement?, StateVariable.map_levelled_ofStatement?,
    StateVariable.face_of_alike corresponds.text 0 0]
  cases ((StateVariable.ofStatement? y.text 0).map StateVariable.face).map StateVariable.levelledFace with
  | none => rfl
  | some f =>
    exact congrArg (fun n => some (Candidate.variable (StateVariable.ofFace 0 f), n)) corresponds.place

theorem map_seen_functions_collapsed (s : Text) :
    ((FunctionHeader.ofText (collapsed s)).map Candidate.function).map (seen (collapsed s)) =
      ((FunctionHeader.ofText s).map Candidate.function).map (seen s) := by
  -- a header is seen where its head stands, so it is enough to compare the heads
  have asFilter : ∀ s, ((FunctionHeader.ofText s).map Candidate.function).map (seen s) =
      ((FunctionHead.ofText s).map fun found => (inkBefore s found.1, found.2)).filterMap fun found =>
        (FunctionHeader.ofHead? 0 found.2).map fun f => (Candidate.function f.levelled, found.1) := by
    intro s
    rw [FunctionHeader.ofText, List.map_map, List.map_filterMap, List.filterMap_map]
    refine List.filterMap_congr fun found _ => ?_
    simp only [Function.comp_apply, ← FunctionHeader.map_atStart_ofHead? found.1, Option.map_map]
    refine Option.map_congr fun f isHeader => ?_
    rw [← FunctionHeader.index_of_ofHead? isHeader]
    rfl
  rw [asFilter, asFilter, FunctionHead.map_ofText_collapsed, List.filterMap_map, List.filterMap_map]
  refine List.filterMap_congr fun found member => ?_
  obtain ⟨_, _, written⟩ := FunctionHead.exists_isWritten_of_mem member
  have starts : startsWith ['('] found.2.fromParen = true := by
    obtain ⟨s, opens⟩ := written.opens
    rw [opens]
    rfl
  simp only [Function.comp_apply, FunctionHeader.ofHead?_levelled 0 starts, Option.map_map]
  refine Option.map_congr fun f _ => ?_
  simp only [Function.comp_apply, FunctionHeader.levelled, collapsed_collapsed, Option.map_map]
  congr 4
  funext content
  exact collapsed_collapsed content

/-- Texts that differ in their gaps only declare the same at the same places among what can be seen. -/
theorem map_seen_found {s t : Text} (alike : Alike s t) :
    (found s).map (seen s) = (found t).map (seen t) := by
  unfold found
  rw [List.map_append, List.map_append, map_seen_variables alike,
    alike.eq (f := fun s => ((FunctionHeader.ofText s).map Candidate.function).map (seen s))
      map_seen_functions_collapsed]

theorem StartsAt.showsAt {cleaned : Text} {index : Nat} {c : Candidate}
    (starts : c.StartsAt cleaned index) : ShowsAt cleaned index := by
  unfold ShowsAt
  rw [← List.head?_drop]
  cases starts with
  | ofStatement _ visible trimmed _ isText =>
    obtain ⟨d, rest, rfl⟩ := List.exists_cons_of_ne_nil visible
    exact ⟨d, by rw [isText]; rfl, trimmed.first d rfl⟩
  | ofHead _ written isText =>
    refine ⟨'f', ?_, by decide⟩
    rw [isText, written.lead]
    rfl

end Candidate

/-! ## Lines -/

namespace Text

theorem showsAt_append_of_lt {s : Text} {place : Nat} (within : place < s.length) (t : Text) :
    ShowsAt (s ++ t) place ↔ ShowsAt s place := by
  unfold ShowsAt
  rw [List.getElem?_append_left within]

theorem inkBefore_append_of_le {s : Text} {place : Nat} (within : place ≤ s.length) (t : Text) :
    inkBefore (s ++ t) place = inkBefore s place := by
  unfold inkBefore
  rw [List.take_append_of_le_length within]

theorem inkBefore_append (s t : Text) (place : Nat) :
    inkBefore (s ++ t) (s.length + place) = (ink s).length + inkBefore t place := by
  unfold inkBefore
  rw [List.take_length_add_append, ink_append, List.length_append]

theorem showsAt_append (s t : Text) (place : Nat) :
    ShowsAt (s ++ t) (s.length + place) ↔ ShowsAt t place := by
  unfold ShowsAt
  rw [List.getElem?_append_right (Nat.le_add_right _ _), Nat.add_sub_cancel_left]

/-- A visible place has its line also when there is one space more. -/
theorem exists_place_of_insert_space (s t : Text) {place : Nat} (shows : ShowsAt (s ++ t) place) :
    ∃ place', ShowsAt (s ++ ' ' :: t) place' ∧
      inkBefore (s ++ ' ' :: t) place' = inkBefore (s ++ t) place ∧
      lineAt (s ++ ' ' :: t) place' = lineAt (s ++ t) place := by
  by_cases within : place < s.length
  · refine ⟨place, ?_, ?_, ?_⟩
    · rw [showsAt_append_of_lt within] at shows ⊢
      exact shows
    · rw [inkBefore_append_of_le (Nat.le_of_lt within), inkBefore_append_of_le (Nat.le_of_lt within)]
    · rw [lineAt_append_of_le (Nat.le_of_lt within), lineAt_append_of_le (Nat.le_of_lt within)]
  · obtain ⟨k, rfl⟩ := Nat.exists_eq_add_of_le (Nat.le_of_not_lt within)
    refine ⟨s.length + (k + 1), ?_, ?_, ?_⟩
    · rw [showsAt_append] at shows ⊢
      exact shows
    · rw [inkBefore_append, inkBefore_append, inkBefore_succ_of_blank (by decide)]
    · rw [lineAt_append, lineAt_append]
      rfl

theorem lineAt_insert_space {s t : Text} {i j : Nat} (shows : ShowsAt (s ++ ' ' :: t) i)
    (shows' : ShowsAt (s ++ t) j) (same : inkBefore (s ++ ' ' :: t) i = inkBefore (s ++ t) j) :
    lineAt (s ++ ' ' :: t) i = lineAt (s ++ t) j := by
  obtain ⟨i', showsHere, sameInk, line⟩ := exists_place_of_insert_space s t shows'
  rw [eq_of_inkBefore shows showsHere (same.trans sameInk.symm), line]

end Text

/-! ## Findings -/

/-- Findings with the gaps of the candidates collapsed. -/
def Findings.levelled (f : Findings) : Findings :=
  { f with candidates := f.candidates.map fun p => (p.1.levelled, p.2) }

theorem map_eq_map_of_imp {α β γ δ : Type} {f : α → γ} {g : β → γ} {f' : α → δ} {g' : β → δ}
    {xs : List α} {ys : List β} (same : xs.map f = ys.map g)
    (implies : ∀ x ∈ xs, ∀ y ∈ ys, f x = g y → f' x = g' y) : xs.map f' = ys.map g' := by
  induction xs generalizing ys with
  | nil =>
    cases ys with
    | nil => rfl
    | cons y ys => cases same
  | cons x xs ih =>
    cases ys with
    | nil => cases same
    | cons y ys =>
      obtain ⟨first, others⟩ := List.cons.inj same
      rw [List.map_cons, List.map_cons, implies x List.mem_cons_self y List.mem_cons_self first,
        ih others fun a member b member' =>
          implies a (List.mem_cons_of_mem x member) b (List.mem_cons_of_mem y member')]

/-- The types that are found, apart from the candidates. -/
def Findings.types (f : Findings) : Findings :=
  { f with candidates := [] }

/-- Texts that differ in their gaps only define the same types. -/
theorem Findings.types_of_alike {s t : Text} (alike : Alike s t) : (ofText s).types = (ofText t).types := by
  unfold types ofText
  rw [alike.eq Registry.structDefinitions_collapsed, alike.eq Registry.enumNames_collapsed,
    alike.eq Registry.aliasDefinitions_collapsed, alike.eq (Registry.namesOfKind_collapsed .contract),
    alike.eq (Registry.namesOfKind_collapsed .interface)]

/-- With a space beside a blank the same is found, up to the width of gaps. -/
theorem levelled_findings_insert_space {s t : Text}
    (beside : (s.getLast?.any isBlank || t.head?.any isBlank) = true) :
    (Findings.ofText (s ++ ' ' :: t)).levelled = (Findings.ofText (s ++ t)).levelled := by
  have alike := alike_insert_space beside
  have candidates : (Findings.ofText (s ++ ' ' :: t)).levelled.candidates =
      (Findings.ofText (s ++ t)).levelled.candidates := by
    unfold Findings.levelled Findings.ofText
    simp only [List.map_map]
    refine map_eq_map_of_imp (Candidate.map_seen_found alike) fun c member c' member' same => ?_
    have starts := (Candidate.startsAt_of_mem_found member).showsAt
    have starts' := (Candidate.startsAt_of_mem_found member').showsAt
    have line := lineAt_insert_space starts starts' (congrArg Prod.snd same)
    have sameCandidate := congrArg Prod.fst same
    exact Prod.ext ((c.levelled_atStart).trans (sameCandidate.trans c'.levelled_atStart.symm)) line
  have withCandidates : ∀ f : Findings,
      f.levelled = { f.types with candidates := f.levelled.candidates } := fun _ => rfl
  rw [withCandidates, withCandidates (Findings.ofText (s ++ t)), candidates, Findings.types_of_alike alike]

end ContractInterface
