import ContractInterface.Proofs.LiteralStatements
import ContractInterface.Proofs.Headers

/-! # The order of candidates

A scanner that goes through a text finds nothing twice: what it finds later stands further behind.
Statements and function heads come from two scanners, and the candidates of a source are the variables
of the one before the functions of the other (`pairwise_precedes_all`).
-/

namespace ContractInterface

open Text

/-! ## What a reader finds -/

namespace Text

theorem pairwise_locateFrom {α : Type} (index : Nat) {xs : List (Span α)}
    (visible : ∀ text value, Span.found text value ∈ xs → text ≠ []) :
    (locateFrom index xs).Pairwise (fun found found' => found.1 < found'.1) ∧
      ∀ found ∈ locateFrom index xs, index ≤ found.1 := by
  induction xs generalizing index with
  | nil => exact ⟨List.Pairwise.nil, fun _ member => nomatch member⟩
  | cons x xs ih =>
    have others : ∀ text value, Span.found text value ∈ xs → text ≠ [] := fun text value member =>
      visible text value (List.mem_cons_of_mem x member)
    cases x with
    | plain text =>
      obtain ⟨ordered, within⟩ := ih (index + text.length) others
      exact ⟨ordered, fun found member => Nat.le_trans (Nat.le_add_right _ _) (within found member)⟩
    | found text value =>
      obtain ⟨ordered, within⟩ := ih (index + text.length) others
      have long : 0 < text.length := List.length_pos_iff.2 (visible text value List.mem_cons_self)
      refine ⟨List.pairwise_cons.2 ⟨fun later member => ?_, ordered⟩, fun found member => ?_⟩
      · exact Nat.lt_of_lt_of_le (Nat.lt_add_of_pos_right long) (within later member)
      · rcases List.mem_cons.1 member with rfl | member
        · exact Nat.le_refl _
        · exact Nat.le_trans (Nat.le_add_right _ _) (within found member)

theorem ne_nil_of_found_mem_spans {α : Type} {isMember : Char → Bool}
    {read? : Text → Text → Option (α × Nat)} {s text : Text} {value : α}
    (member : Span.found text value ∈ spans isMember read? s) : text ≠ [] := by
  fun_induction spans isMember read? s with
  | case1 => cases member
  | case2 c s _ run rest first taken _ ih =>
    rcases List.mem_cons.1 member with same | member
    · cases same
      simp [run]
    · exact ih member
  | case3 c s _ run rest _ ih =>
    rcases List.mem_cons.1 member with same | member
    · cases same
    · exact ih member
  | case4 c s _ ih =>
    rcases List.mem_cons.1 member with same | member
    · cases same
    · exact ih member

/-- What a reader finds is listed in the order of its places. -/
theorem pairwise_locate {α : Type} (isMember : Char → Bool)
    (read? : Text → Text → Option (α × Nat)) (s : Text) :
    (locate isMember read? s).Pairwise fun found found' => found.1 < found'.1 :=
  (pairwise_locateFrom 0 fun _ _ member => ne_nil_of_found_mem_spans member).1

end Text

/-! ## Statements -/

namespace Statement

theorem le_index_of_mem_among {start : Nat} {blocks : List Bool} {xs : List Segment}
    {statement : Statement} (member : statement ∈ among start blocks xs) : start ≤ statement.index := by
  obtain ⟨before, segment, behind, _, _, _, rfl⟩ := exists_segment_of_mem_among member
  simp only
  omega

theorem pairwise_among (start : Nat) (blocks : List Bool) (xs : List Segment) :
    (among start blocks xs).Pairwise fun x y => x.index < y.index := by
  induction xs generalizing start blocks with
  | nil => exact List.Pairwise.nil
  | cons x xs ih =>
    simp only [among]
    split
    · exact ih _ _
    · exact ih _ _
    · split
      · exact ih _ _
      · refine List.pairwise_cons.2 ⟨fun later member => ?_, ih _ _⟩
        -- the blanks in front of a statement lie in its segment
        have blanks := (List.takeWhile_sublist isBlank (l := x.text)).length_le
        have behind := le_index_of_mem_among member
        simp only
        omega

end Statement

/-! ## Candidates -/

theorem StateVariable.pairwise_ofText (s : Text) :
    (StateVariable.ofText s).Pairwise fun v w => v.index < w.index := by
  unfold ofText
  refine List.Pairwise.filterMap _ (fun x y ordered v isV w isW => ?_) (Statement.pairwise_among _ _ _)
  rw [index_of_ofStatement? isV, index_of_ofStatement? isW]
  exact ordered

theorem FunctionHeader.pairwise_ofText (s : Text) :
    (FunctionHeader.ofText s).Pairwise fun f g => f.index < g.index := by
  unfold ofText
  refine List.Pairwise.filterMap _ (fun x y ordered f isF g isG => ?_) (pairwise_locate _ _ _)
  rw [index_of_ofHead? isF, index_of_ofHead? isG]
  exact ordered

namespace Candidate

/-- What a candidate declares. -/
def kind : Candidate → DeclarationKind
  | .variable _ => .variable
  | .function _ => .function

/-- The order of candidates: variables come before functions, and of one kind those that start earlier
come first. -/
def Precedes (c c' : Candidate) : Prop :=
  (c.kind = .variable ∧ c'.kind = .function) ∨ (c.kind = c'.kind ∧ c.index < c'.index)

theorem pairwise_precedes_all (options : Options) (cleaned : Text) :
    (all options cleaned).Pairwise Precedes := by
  refine List.pairwise_append.2 ⟨?_, ?_, ?_⟩
  · refine List.pairwise_map.2 (((StateVariable.pairwise_ofText cleaned).filter _).imp ?_)
    exact fun ordered => .inr ⟨rfl, ordered⟩
  · refine List.pairwise_map.2 (((FunctionHeader.pairwise_ofText cleaned).filter _).imp ?_)
    exact fun ordered => .inr ⟨rfl, ordered⟩
  · intro c isVariable c' isFunction
    obtain ⟨_, _, rfl⟩ := List.mem_map.1 isVariable
    obtain ⟨_, _, rfl⟩ := List.mem_map.1 isFunction
    exact .inl ⟨rfl, rfl⟩

end Candidate

end ContractInterface
