import ContractInterface.Proofs.ElementaryTypes

/-! # Parameter lists

A parameter list is the join of its pieces, and collapsing blanks and substituting names work on the
pieces one by one.  So a list of written clauses is read alike by both readers of signatures: clause by
clause, its descriptors and its text give the same types (`Registry.map_canonicalParam_eq`).
-/

namespace ContractInterface

open Text TypeSyntax Delimiter Signature

/-! ## Pieces -/

theorem joined_segments (depth : Int) (s : Text) : joined [','] (segments (· == ',') depth s) = s := by
  induction s generalizing depth with
  | nil => rfl
  | cons c s ih =>
    rw [segments]
    split
    · rename_i separates
      obtain ⟨first, more, split⟩ := List.exists_cons_of_ne_nil (segments_ne_nil (· == ',') depth s)
      have rest := ih depth
      rw [split] at rest ⊢
      rw [joined_cons_cons, rest, eq_of_beq separates.2.1]
      rfl
    · rw [joined_onFirst, ih]

/-- What works on the sides of a comma one by one works on the pieces of a list one by one. -/
theorem map_joined {F : Text → Text} (nil : F [] = []) (separates : ∀ s t, F (s ++ ',' :: t) = F s ++ ',' :: F t)
    (pieces : List Text) : F (joined [','] pieces) = joined [','] (pieces.map F) := by
  induction pieces with
  | nil => exact nil
  | cons t pieces ih =>
    cases pieces with
    | nil => simp [joined]
    | cons next more =>
      rw [joined_cons_cons, List.singleton_append, separates, ih]
      simp only [List.map_cons, joined_cons_cons]
      rfl

theorem collapsed_append_of_last {s t : Text} (last : ∀ c ∈ s.getLast?, isBlank c = false) :
    collapsed (s ++ t) = collapsed s ++ collapsed t := by
  induction s with
  | nil => rfl
  | cons c s ih =>
    cases s with
    | nil =>
      -- only the last character meets what follows
      have visible : isBlank c = false := last c rfl
      rw [List.singleton_append, collapsed_cons visible, collapsed_cons visible]
      rfl
    | cons d s =>
      have others := ih (by simpa using last)
      rw [List.cons_append, collapsed, collapsed, others]
      by_cases blank : isBlank c = true
      · by_cases next : isBlank d = true <;> simp [blank, next]
      · simp [blank]

theorem IsDecoration.last {t name : Text} (decorates : IsDecoration t name) :
    ∀ c ∈ t.getLast?, isBlank c = false := by
  induction decorates with
  | nothing => exact fun _ isLast => nomatch isLast
  | @location b place rest name _ _ isPlace _ ih =>
    obtain ⟨nonempty, _, _, letters⟩ := isWordChar_of_storageLocations _ isPlace
    intro c isLast
    cases rest with
    | nil =>
      rw [List.append_nil, List.getLast?_append_of_ne_nil _ nonempty] at isLast
      exact isBlank_of_isWordChar (List.all_eq_true.1 letters c (List.mem_of_mem_getLast? isLast))
    | cons d rest =>
      rw [← List.append_assoc, List.getLast?_append_of_ne_nil _ (List.cons_ne_nil d rest)] at isLast
      exact ih c isLast
  | named _ _ plain => exact plain.solid.isTrimmed.append_last plain.nonempty _

theorem IsBare.isTrimmed_append {t behind name : Text} (bare : IsBare t)
    (decorates : IsDecoration behind name) : IsTrimmed (t ++ behind) := by
  refine ⟨bare.solid.isTrimmed.first_append bare.nonempty behind, fun c isLast => ?_⟩
  by_cases nothing : behind = []
  · rw [nothing, List.append_nil] at isLast
    exact bare.solid.isTrimmed.last c isLast
  · rw [List.getLast?_append_of_ne_nil _ nothing] at isLast
    exact decorates.last c isLast

/-- A character that no scan for parentheses or literals minds. -/
def isQuiet (c : Char) : Bool :=
  parenStep c == 0 && !Literal.isQuote c

theorem isQuiet_of_isTypeMember {c : Char} (member : Clause.isTypeMember c = true) : isQuiet c = true := by
  have notQuote : Literal.isQuote c = false := by
    apply Bool.eq_false_iff.2
    intro quote
    rcases Bool.or_eq_true_iff.1 quote with double | single
    · rw [eq_of_beq double] at member
      exact absurd member (by decide)
    · rw [eq_of_beq single] at member
      exact absurd member (by decide)
  simp [isQuiet, (flat_of_isTypeMember member).1, notQuote]

theorem isQuiet_of_isBlank {c : Char} (blank : isBlank c = true) : isQuiet c = true := by
  have notOpen : c ≠ '(' := by rintro rfl; exact absurd blank (by decide)
  have notClose : c ≠ ')' := by rintro rfl; exact absurd blank (by decide)
  have notQuote : Literal.isQuote c = false := by
    apply Bool.eq_false_iff.2
    intro quote
    rw [isBlank_of_isQuote quote] at blank
    cases blank
  simp [isQuiet, parenStep, step, isOpenParen, isCloseParen, notOpen, notClose, notQuote]

theorem isTypeMember_of_isWordChar {c : Char} (letter : isWordChar c = true) :
    Clause.isTypeMember c = true := by
  simp only [Clause.isTypeMember, isMember_of_isWordChar letter, Bool.true_or]

theorem IsDecoration.isQuiet {t name : Text} (decorates : IsDecoration t name) :
    ∀ c ∈ t, isQuiet c = true := by
  intro c member
  rcases decorates.chars c member with blank | letter
  · exact isQuiet_of_isBlank blank
  · exact isQuiet_of_isTypeMember (isTypeMember_of_isWordChar letter)

theorem parenStep_of_isQuiet {c : Char} (quiet : isQuiet c = true) : parenStep c = 0 :=
  eq_of_beq (Bool.and_eq_true_iff.1 quiet).1

theorem isQuote_of_isQuiet {c : Char} (quiet : isQuiet c = true) : Literal.isQuote c = false := by
  simpa using (Bool.and_eq_true_iff.1 quiet).2

theorem IsDecoration.isOpaque {t name : Text} (decorates : IsDecoration t name) : IsOpaque t :=
  isOpaque_of_chars fun c member => ⟨parenStep_of_isQuiet (decorates.isQuiet c member), by
    rintro rfl
    exact decorates.not_mem (by decide) (by decide) member⟩

/-! ## Written clauses -/

namespace Registry

/-- A type as it is written: a name of plain words, with qualifiers that do not get in the way, and
dimensions. -/
structure IsWrittenType (r : Registry) (type : Text) : Prop where
  spelled : ∃ qualifiers name lengths, type = typeText (qualifiers ++ [name]) lengths ∧
    (∀ part ∈ qualifiers ++ [name], IsPlainWord part) ∧
    ∀ q ∈ qualifiers, IsUnobtrusive r.spelling r.typeNames q

/-- A clause as it is written: a written type with a decoration, in which a name does not get in the
way. -/
structure IsWrittenClause (r : Registry) (clause : Text) : Prop where
  spelled : ∃ type behind name, r.IsWrittenType type ∧ IsDecoration behind name ∧
    IsUnobtrusive r.spelling r.typeNames name ∧ clause = type ++ behind

/-- A parameter list as signatures are read from it: its blanks are collapsed, and the names of types are
replaced. -/
def respelled (r : Registry) (s : Text) : Text :=
  substituted r.spelling r.typeNames (collapsed s)

variable {r : Registry}

theorem respelled_comma (s t : Text) : r.respelled (s ++ ',' :: t) = r.respelled s ++ ',' :: r.respelled t := by
  unfold respelled
  rw [collapsed_append_cons (by decide), substituted_append_cons _ _ (by decide)]

theorem respelled_nil : r.respelled [] = [] := substituted_nil _ _

theorem respelled_blanks {b : Text} (blanks : Blanks b) : r.respelled b = gap b := by
  unfold respelled
  rw [collapsed_blanks blanks, substituted_of_blanks (blanks_gap b)]

/-- Blanks around a clause are kept apart from it. -/
theorem respelled_between {a b clause : Text} (before : Blanks a) (behind : Blanks b)
    (trimmed : IsTrimmed clause) (nonempty : clause ≠ []) :
    r.respelled (a ++ clause ++ b) = gap a ++ (r.respelled clause ++ gap b) := by
  have edge := trimmed.first_append nonempty b
  have edge' : ∀ c ∈ (gap b).head?, isReferenceMember c = false := fun c isFirst =>
    isReferenceMember_of_isBlank (blanks_gap b c (List.mem_of_mem_head? isFirst))
  unfold respelled
  rw [List.append_assoc, collapsed_blanks_append before edge, collapsed_append_of_last trimmed.last,
    collapsed_blanks behind, substituted_blanks_append (blanks_gap a), substituted_append _ _ edge',
    substituted_of_blanks (blanks_gap b)]

/-- A clause that is read as a parameter with a given canonical type when its names are replaced. -/
structure RespellsAs (r : Registry) (clause canonical : Text) : Prop where
  spelled : ∃ t behind name, ReadsAs t canonical ∧ IsDecoration behind name ∧
    r.respelled clause = t ++ behind

namespace RespellsAs

variable {clause canonical : Text}

theorem isOpaque (respells : r.RespellsAs clause canonical) : IsOpaque (r.respelled clause) := by
  obtain ⟨t, behind, name, reads, decorates, isText⟩ := respells.spelled
  rw [isText]
  exact reads.isOpaque.append decorates.isOpaque

theorem isTrimmed (respells : r.RespellsAs clause canonical) : IsTrimmed (r.respelled clause) := by
  obtain ⟨t, behind, name, reads, decorates, isText⟩ := respells.spelled
  rw [isText]
  exact reads.bare.isTrimmed_append decorates

theorem nonempty (respells : r.RespellsAs clause canonical) : r.respelled clause ≠ [] := by
  obtain ⟨t, behind, name, reads, _, isText⟩ := respells.spelled
  rw [isText]
  exact List.append_ne_nil_of_left_ne_nil reads.bare.nonempty behind

theorem reads (respells : r.RespellsAs clause canonical) :
    canonicalParam (r.respelled clause) = .ok canonical := by
  obtain ⟨t, behind, name, reads, decorates, isText⟩ := respells.spelled
  rw [isText]
  exact reads.reads decorates

end RespellsAs

/-- A piece of a list is blank, or a clause between blanks, and stays so. -/
theorem respelled_piece {piece : Text}
    (respells : trim piece ≠ [] → ∃ canonical, r.RespellsAs (trim piece) canonical) :
    IsOpaque (r.respelled piece) ∧ trim (r.respelled piece) = r.respelled (trim piece) ∧
      (r.respelled (trim piece) != []) = (trim piece != []) := by
  obtain ⟨behind, blanks, whole⟩ := exists_blanks_trim piece
  by_cases blank : trim piece = []
  · have isBlanks : Blanks piece := by
      rw [← whole, blank, List.append_nil]
      exact (blanks_takeWhile piece).append blanks
    -- a blank piece stays blank and is left out again
    have nothing : trim (gap piece) = [] := by
      have skipped := trim_blanks_append (blanks_gap piece) []
      rwa [List.append_nil] at skipped
    rw [respelled_blanks isBlanks, blank, respelled_nil, nothing]
    exact ⟨isOpaque_of_blanks (blanks_gap piece), rfl, rfl⟩
  · obtain ⟨canonical, respellsAs⟩ := respells blank
    have between := respelled_between (r := r) (blanks_takeWhile piece) blanks (isTrimmed_trim piece) blank
    rw [whole] at between
    have trimmed := trim_blanks (blanks_gap (piece.takeWhile isBlank)) (blanks_gap behind)
      respellsAs.isTrimmed
    rw [List.append_assoc] at trimmed
    rw [between]
    refine ⟨?_, trimmed, ?_⟩
    · exact (isOpaque_of_blanks (blanks_gap _)).append
        (respellsAs.isOpaque.append (isOpaque_of_blanks (blanks_gap _)))
    · rw [bne_iff_ne.2 respellsAs.nonempty, bne_iff_ne.2 blank]

/-- A list of clauses is respelled clause by clause. -/
theorem splitCommas_respelled {params : Text}
    (respells : ∀ clause ∈ splitCommas params, ∃ canonical, r.RespellsAs clause canonical) :
    splitCommas (r.respelled params) = (splitCommas params).map r.respelled := by
  have pieces := map_joined respelled_nil (respelled_comma (r := r)) (segments (· == ',') 0 params)
  rw [joined_segments] at pieces
  have piece : ∀ t ∈ segments (· == ',') 0 params, IsOpaque (r.respelled t) ∧
      trim (r.respelled t) = r.respelled (trim t) ∧ (r.respelled (trim t) != []) = (trim t != []) :=
    fun t member => respelled_piece fun visible =>
      respells (trim t) (List.mem_filter.2 ⟨List.mem_map_of_mem member, bne_iff_ne.2 visible⟩)
  have opaques : ∀ t ∈ (segments (· == ',') 0 params).map r.respelled, IsOpaque t :=
    List.forall_mem_map.2 fun t member => (piece t member).1
  have trimmed : ((segments (· == ',') 0 params).map r.respelled).map trim =
      ((segments (· == ',') 0 params).map trim).map r.respelled := by
    rw [List.map_map, List.map_map]
    exact List.map_congr_left fun t member => (piece t member).2.1
  have visible : ∀ t ∈ (segments (· == ',') 0 params).map trim, (r.respelled t != []) = (t != []) :=
    List.forall_mem_map.2 fun t member => (piece t member).2.2
  rw [pieces, splitCommas_joined opaques, trimmed, List.filter_map]
  exact congrArg (List.map r.respelled) (List.filter_congr visible)

/-! ## Parameters -/

/-- A written type becomes a text that is read with the spelling of the type's descriptor. -/
theorem IsWrittenType.readsAs {type : Text} (written : r.IsWrittenType type) (tellable : r.IsTellable)
    {d : Descriptor} (describes : r.describe type = .ok d) (resolved : d.isResolved = true)
    (leaves : d.hasElementaryLeaves = true) :
    ReadsAs (substituted r.spelling r.typeNames type) d.canonical := by
  obtain ⟨qualifiers, name, lengths, rfl, plain, unobtrusive⟩ := written.spelled
  exact readsAs_substituted tellable plain unobtrusive describes resolved leaves

theorem IsWrittenType.isBare {type : Text} (written : r.IsWrittenType type) : IsBare type := by
  obtain ⟨qualifiers, name, lengths, rfl, plain, _⟩ := written.spelled
  exact isBare_typeText (by simp) plain lengths

theorem IsWrittenType.isTypeMember {type : Text} (written : r.IsWrittenType type) :
    ∀ c ∈ type, Clause.isTypeMember c = true := by
  obtain ⟨qualifiers, name, lengths, rfl, plain, _⟩ := written.spelled
  exact isTypeMember_of_mem_typeText plain lengths

theorem IsWrittenType.respelled_append {type behind name : Text} (written : r.IsWrittenType type)
    (decorates : IsDecoration behind name) : r.respelled (type ++ behind) =
      substituted r.spelling r.typeNames type ++ substituted r.spelling r.typeNames (collapsed behind) := by
  have edge : ∀ c ∈ (collapsed behind).head?, isReferenceMember c = false := fun c isFirst =>
    isReferenceMember_of_isBlank (decorates.collapsed.first c isFirst)
  unfold respelled
  rw [collapsed_solid_append written.isBare.solid, substituted_append _ _ edge]

/-- A written clause makes a parameter, and becomes a text that is read with the spelling of that
parameter's descriptor. -/
theorem IsWrittenClause.exists_param {clause : Text} (written : r.IsWrittenClause clause)
    (tellable : r.IsTellable) {found : Option Param} (resolves : paramOfClause? r clause = .ok found) :
    ∃ p, found = some p ∧ (p.descriptor.isResolved = true → p.descriptor.hasElementaryLeaves = true →
      r.RespellsAs clause p.descriptor.canonical) := by
  obtain ⟨type, behind, name, isType, decorates, unobtrusive, rfl⟩ := written.spelled
  have bare := isType.isBare
  have isClause : Clause.ofText (type ++ behind) = ⟨type, name⟩ := by
    obtain ⟨qualifiers, last, lengths, rfl, plain, _⟩ := isType.spelled
    exact decorates.clause_eq (by simp) plain lengths (bare.isTrimmed_append decorates).trim_eq
  unfold paramOfClause? at resolves
  rw [isClause] at resolves
  simp only [bare.nonempty, if_false] at resolves
  obtain ⟨d, describes, whole⟩ := bind_eq_ok_iff.1 resolves
  cases pure_eq_ok_iff.1 whole
  obtain ⟨name', decorates'⟩ := decorates.collapsed.exists_substituted tellable.distinct unobtrusive
  exact ⟨_, rfl, fun resolved leaves => ⟨_, _, name', isType.readsAs tellable describes resolved leaves,
    decorates', isType.respelled_append decorates⟩⟩

/-- The types that are read from the text of written clauses are those of their parameters. -/
theorem map_canonicalParam_eq (tellable : r.IsTellable) {clauses : List Text}
    (written : ∀ clause ∈ clauses, r.IsWrittenClause clause) {found : List (Option Param)}
    (resolves : clauses.map (paramOfClause? r) = found.map .ok)
    (elementary : ∀ p ∈ found.filterMap id, p.descriptor.isResolved = true ∧
      p.descriptor.hasElementaryLeaves = true) :
    clauses.map (fun clause => canonicalParam (r.respelled clause)) =
        (found.filterMap id).map (fun p => .ok p.descriptor.canonical) ∧
      ∀ clause ∈ clauses, ∃ canonical, r.RespellsAs clause canonical := by
  induction clauses generalizing found with
  | nil =>
    cases found with
    | nil => exact ⟨rfl, fun _ member => nomatch member⟩
    | cons _ _ => cases resolves
  | cons clause clauses ih =>
    cases found with
    | nil => cases resolves
    | cons first others =>
      obtain ⟨isFirst, isOthers⟩ := List.cons.inj resolves
      rw [List.forall_mem_cons] at written
      obtain ⟨p, rfl, respells⟩ := written.1.exists_param tellable isFirst
      have split : (some p :: others).filterMap id = p :: others.filterMap id := rfl
      rw [split, List.forall_mem_cons] at elementary
      -- clause and parameter stand at the same place
      have respellsAs := respells elementary.1.1 elementary.1.2
      obtain ⟨rest, restRespell⟩ := ih written.2 isOthers elementary.2
      rw [split, List.map_cons, List.map_cons, respellsAs.reads, rest, List.forall_mem_cons]
      exact ⟨rfl, ⟨_, respellsAs⟩, restRespell⟩

/-- The types that are read from a written parameter list are those of its parameters. -/
theorem mapM_canonicalParam_eq (tellable : r.IsTellable) {params : Text}
    (written : ∀ clause ∈ splitCommas params, r.IsWrittenClause clause) {inputs : List Param}
    (resolves : paramsOfList r params = .ok inputs) (elementary : ∀ p ∈ inputs,
      p.descriptor.isResolved = true ∧ p.descriptor.hasElementaryLeaves = true) :
    (splitCommas (r.respelled params)).mapM canonicalParam =
      .ok (inputs.map fun p => p.descriptor.canonical) := by
  obtain ⟨found, succeeds, whole⟩ := bind_eq_ok_iff.1 resolves
  cases pure_eq_ok_iff.1 whole
  obtain ⟨types, respells⟩ := map_canonicalParam_eq tellable written (mapM_eq_ok_iff.1 succeeds) elementary
  rw [splitCommas_respelled respells, mapM_eq_ok_iff, List.map_map, List.map_map]
  exact types

end Registry

end ContractInterface
