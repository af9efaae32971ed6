import ContractInterface.Proofs.Declarator
import ContractInterface.Proofs.MatchingDelimiters
import Mathlib.Data.List.Count

/-! # Separated pieces

A text is cut at the separators that it meets at depth zero.  So at a separator behind a level text, one
that opens as many parentheses as it closes, splitting works on both sides one by one
(`splitTopLevel_append_cons`), and pieces that are not cut themselves are read back from the text that joins
them (`AreCut.splitTopLevel_joined`).

What a text is split into is such pieces again (`areCut_splitTopLevel`), also where its parentheses are not
balanced: only the last piece need not be level, and no separator stands behind it.
-/

namespace ContractInterface.Delimiter

open Text

/-! ## Level texts -/

/-- A text that opens as many parentheses as it closes, in whatever order. -/
def IsLevel (t : Text) : Prop :=
  t.count '(' = t.count ')'

instance (t : Text) : Decidable (IsLevel t) :=
  inferInstanceAs (Decidable (_ = _))

theorem depthOf_eq_count (t : Text) : depthOf t = (t.count '(' : Int) - t.count ')' := by
  have injective : Function.Injective fun c : Char => Mark.mk c false := fun _ _ same =>
    congrArg Mark.char same
  have unquoted (c : Char) : (Literal.unquotedMarks t).count ⟨c, false⟩ = t.count c :=
    List.count_map_of_injective t _ injective c
  have distinct : '(' ≠ ')' := by decide
  have counted := depthAlong_eq_count distinct (Literal.unquotedMarks t)
  rw [unquoted, unquoted] at counted
  exact (depthAlong_unquotedMarks t).symm.trans counted

theorem depthOf_eq_zero_iff {t : Text} : depthOf t = 0 ↔ IsLevel t := by
  rw [depthOf_eq_count, IsLevel]
  omega

theorem depthOf_trim (t : Text) : depthOf (trim t) = depthOf t := by
  obtain ⟨behind, blanks, whole⟩ := exists_blanks_trim t
  have sum := congrArg depthOf whole
  rw [depthOf_append, depthOf_append, depthOf_blanks (blanks_takeWhile t), depthOf_blanks blanks] at sum
  omega

/-! ## Cuts -/

section Cuts

variable {separator : Char} {depth : Int} {s t : Text}

/-- A text is not cut if no separator stands in it where the depth is zero. -/
theorem isUncut_iff : IsUncut (· == separator) depth t ↔
    ∀ index (inside : index < t.length), t[index] = separator → depth + depthOf (t.take index) ≠ 0 := by
  induction t generalizing depth with
  | nil => simp [IsUncut]
  | cons c t ih =>
    rw [IsUncut, ih]
    -- the first index is the head, and all others are indices of what follows it
    constructor
    · rintro ⟨first, later⟩ (_ | index) inside separates
      · simpa using first (beq_iff_eq.2 separates)
      · rw [List.take_succ_cons, depthOf_cons, ← Int.add_assoc]
        exact later index (Nat.lt_of_succ_lt_succ inside) separates
    · intro whole
      refine ⟨fun separates => ?_, fun index inside separates => ?_⟩
      · simpa using whole 0 (Nat.succ_pos _) (beq_iff_eq.1 separates)
      · have later := whole (index + 1) (Nat.succ_lt_succ inside) separates
        rwa [List.take_succ_cons, depthOf_cons, ← Int.add_assoc] at later

instance decidableIsUncut (isSeparator : Char → Bool) :
    (depth : Int) → (t : Text) → Decidable (IsUncut isSeparator depth t)
  | _, [] => instDecidableTrue
  | depth, c :: t =>
    have := decidableIsUncut isSeparator (depth + parenStep c) t
    inferInstanceAs (Decidable ((isSeparator c = true → depth ≠ 0) ∧ IsUncut isSeparator (depth + parenStep c) t))

theorem onFirst_append {pieces : List Text} (nonempty : pieces ≠ []) (c : Char) (more : List Text) :
    onFirst c (pieces ++ more) = onFirst c pieces ++ more := by
  cases pieces with
  | nil => exact absurd rfl nonempty
  | cons piece pieces => rfl

/-- At a separator that a text meets at depth zero, both sides are cut one by one. -/
theorem segments_append_cons (flat : parenStep separator = 0) (level : depth + depthOf s = 0) (t : Text) :
    segments (· == separator) depth (s ++ separator :: t) =
      segments (· == separator) depth s ++ segments (· == separator) 0 t := by
  induction s generalizing depth with
  | nil =>
    have top : depth = 0 := by simpa using level
    subst top
    simp [segments, flat]
  | cons d s ih =>
    rw [depthOf_cons, ← Int.add_assoc] at level
    rw [List.cons_append, segments, segments]
    split
    · -- a separator leaves the depth as it is
      rename_i cut
      rw [cut.1, Int.add_zero] at level
      rw [ih level, List.cons_append]
    · rw [ih level, onFirst_append (segments_ne_nil _ _ _)]

/-- Behind a level text, splitting works on both sides of a separator one by one. -/
theorem splitTopLevel_append_cons (flat : parenStep separator = 0) (level : depthOf s = 0) (t : Text) :
    splitTopLevel (· == separator) (s ++ separator :: t) =
      splitTopLevel (· == separator) s ++ splitTopLevel (· == separator) t := by
  unfold splitTopLevel
  rw [segments_append_cons flat (by rw [level, Int.add_zero]), List.map_append, List.filter_append]

theorem IsUncut.splitTopLevel_eq (uncut : IsUncut (· == separator) 0 t) :
    splitTopLevel (· == separator) t = [trim t].filter (· != []) := by
  rw [splitTopLevel, uncut.segments_eq, List.map_singleton]

theorem isUncut_trim (uncut : IsUncut (· == separator) 0 t) : IsUncut (· == separator) 0 (trim t) := by
  obtain ⟨behind, -, whole⟩ := exists_blanks_trim t
  rw [← whole, isUncut_append, isUncut_append, depthOf_blanks (blanks_takeWhile t)] at uncut
  exact uncut.1.2

end Cuts

/-! ## Pieces -/

section Pieces

variable {separator : Char} {depth : Int} {pieces : List Text}

/-- Pieces as a text that starts at `depth` is cut into: no separator stands in one of them at depth zero,
and behind each of them but the last the depth is zero. -/
def AreCut (separator : Char) (depth : Int) : List Text → Prop
  | [] => True
  | t :: more => IsUncut (· == separator) depth t ∧ (more ≠ [] → depth + depthOf t = 0) ∧ AreCut separator 0 more

theorem areCut_of_level (uncut : ∀ t ∈ pieces, IsUncut (· == separator) 0 t)
    (level : ∀ t ∈ pieces, depthOf t = 0) : AreCut separator 0 pieces := by
  induction pieces with
  | nil => trivial
  | cons t pieces ih =>
    rw [List.forall_mem_cons] at uncut level
    exact ⟨uncut.1, fun _ => by rw [level.1, Int.add_zero], ih uncut.2 level.2⟩

theorem AreCut.onFirst {c : Char} (cut : AreCut separator (depth + parenStep c) pieces)
    (goesOn : (c == separator) = true → depth ≠ 0) (nonempty : pieces ≠ []) :
    AreCut separator depth (onFirst c pieces) := by
  cases pieces with
  | nil => exact absurd rfl nonempty
  | cons t pieces =>
    obtain ⟨uncut, level, more⟩ := cut
    refine ⟨⟨goesOn, uncut⟩, fun others => ?_, more⟩
    rw [depthOf_cons, ← Int.add_assoc]
    exact level others

/-- Segments are cut, wherever the text starts and ends. -/
theorem areCut_segments (flat : parenStep separator = 0) (depth : Int) (s : Text) :
    AreCut separator depth (segments (· == separator) depth s) := by
  induction s generalizing depth with
  | nil => exact ⟨trivial, fun more => absurd rfl more, trivial⟩
  | cons c s ih =>
    rw [segments]
    split
    · rename_i cut
      obtain ⟨-, -, rfl⟩ := cut
      exact ⟨trivial, fun _ => rfl, ih 0⟩
    · rename_i notCut
      have goesOn : (c == separator) = true → depth ≠ 0 := fun separates top =>
        notCut ⟨eq_of_beq separates ▸ flat, separates, top⟩
      exact (ih _).onFirst goesOn (segments_ne_nil _ _ _)

/-- Trimmed pieces without the blank ones are cut as well: blanks leave the depth as it is, and what stands in
front of a blank piece may be the last. -/
theorem AreCut.trimmed (cut : AreCut separator 0 pieces) :
    AreCut separator 0 ((pieces.map trim).filter (· != [])) := by
  induction pieces with
  | nil => trivial
  | cons t pieces ih =>
    obtain ⟨uncut, level, more⟩ := cut
    rw [List.map_cons, List.filter_cons]
    split
    · refine ⟨isUncut_trim uncut, fun others => ?_, ih more⟩
      rw [depthOf_trim]
      exact level fun none_ => others (by rw [none_]; rfl)
    · exact ih more

theorem areCut_splitTopLevel (flat : parenStep separator = 0) (s : Text) :
    AreCut separator 0 (splitTopLevel (· == separator) s) :=
  (areCut_segments flat 0 s).trimmed

/-- Cut pieces are read back from the text that joins them, trimmed and without the blank ones. -/
theorem AreCut.splitTopLevel_joined (cut : AreCut separator 0 pieces) (flat : parenStep separator = 0) :
    splitTopLevel (· == separator) (joined [separator] pieces) = (pieces.map trim).filter (· != []) := by
  induction pieces with
  | nil => rfl
  | cons t pieces ih =>
    obtain ⟨uncut, level, more⟩ := cut
    cases pieces with
    | nil => simpa [joined] using uncut.splitTopLevel_eq
    | cons next others =>
      -- only a piece with others behind it has to be level
      have top : depthOf t = 0 := by simpa using level (List.cons_ne_nil next others)
      rw [joined_cons_cons, List.singleton_append, splitTopLevel_append_cons flat top, uncut.splitTopLevel_eq,
        ih more, ← List.filter_append]
      rfl

/-- What a text is split into is trimmed, and nothing of it is blank. -/
theorem trimmed_splitTopLevel (isSeparator : Char → Bool) (s : Text) :
    ((splitTopLevel isSeparator s).map trim).filter (· != []) = splitTopLevel isSeparator s := by
  have trimmed : (splitTopLevel isSeparator s).map trim = splitTopLevel isSeparator s := by
    refine (List.map_congr_left fun part member => ?_).trans (List.map_id _)
    obtain ⟨raw, -, rfl⟩ := List.mem_map.1 (List.mem_filter.1 member).1
    exact trim_trim raw
  rw [trimmed, List.filter_eq_self]
  exact fun part member => (List.mem_filter.1 member).2

end Pieces

/-- A piece that a separator sets off from others: it is not blank, it is level, and each separator in it
stands behind a text that is not level. -/
structure IsPiece (separator : Char) (t : Text) : Prop where
  visible : t.any (!isBlank ·) = true
  level : IsLevel t
  uncut : ∀ index (inside : index < t.length), t[index] = separator → ¬ IsLevel (t.take index)

theorem isPiece_iff {separator : Char} {t : Text} : IsPiece separator t ↔
    t.any (!isBlank ·) = true ∧ IsLevel t ∧ IsUncut (· == separator) 0 t := by
  rw [isUncut_iff]
  simp only [Int.zero_add, ne_eq, depthOf_eq_zero_iff]
  exact ⟨fun ⟨visible, level, uncut⟩ => ⟨visible, level, uncut⟩,
    fun ⟨visible, level, uncut⟩ => ⟨visible, level, uncut⟩⟩

instance (separator : Char) (t : Text) : Decidable (IsPiece separator t) :=
  decidable_of_iff _ isPiece_iff.symm

theorem IsPiece.trim_ne_nil {separator : Char} {t : Text} (piece : IsPiece separator t) : trim t ≠ [] := by
  obtain ⟨c, member, notBlank⟩ := List.any_eq_true.1 piece.visible
  have visible : isBlank c = false := by simpa using notBlank
  exact List.ne_nil_of_mem (mem_trim visible member)

/-- Splitting at a character that is no parenthesis works on both sides of a separator one by one, if it
stands behind a level text.  So pieces are read back from the text that joins them, trimmed, and what any
text is split into is split into the same pieces when it is joined again. -/
theorem splits_at_level_cuts {separator : Char} (notOpen : separator ≠ '(') (notClose : separator ≠ ')') :
    (∀ s t : Text, IsLevel s → splitTopLevel (· == separator) (s ++ separator :: t) =
      splitTopLevel (· == separator) s ++ splitTopLevel (· == separator) t) ∧
    (∀ pieces : List Text, (∀ t ∈ pieces, IsPiece separator t) →
      splitTopLevel (· == separator) (joined [separator] pieces) = pieces.map trim) ∧
    ∀ s : Text, splitTopLevel (· == separator) (joined [separator] (splitTopLevel (· == separator) s)) =
      splitTopLevel (· == separator) s := by
  have flat : parenStep separator = 0 := by
    simp [parenStep, step, isOpenParen, isCloseParen, notOpen, notClose]
  refine ⟨fun s t level => ?_, fun pieces arePieces => ?_, fun s => ?_⟩
  · exact splitTopLevel_append_cons flat (depthOf_eq_zero_iff.2 level) t
  · have cut : AreCut separator 0 pieces :=
      areCut_of_level (fun t member => (isPiece_iff.1 (arePieces t member)).2.2)
        fun t member => depthOf_eq_zero_iff.2 (arePieces t member).level
    have kept : (pieces.map trim).filter (· != []) = pieces.map trim :=
      List.filter_eq_self.2 <| List.forall_mem_map.2 fun t member =>
        bne_iff_ne.2 (arePieces t member).trim_ne_nil
    rw [cut.splitTopLevel_joined flat, kept]
  · rw [(areCut_splitTopLevel flat s).splitTopLevel_joined flat, trimmed_splitTopLevel]

/-- Also where a piece closes before it opens, and where what is split is not level. -/
theorem splits_at_level_cuts_below :
    let s := "g(a, b), )(".toList
    let pieces := ["f(a, b) x".toList, " ),( ".toList, "uint c ".toList]
    ',' ≠ '(' ∧ ',' ≠ ')' ∧ IsLevel s ∧ (∀ t ∈ pieces, IsPiece ',' t) ∧
      splitTopLevel (· == ',') (s ++ ", ((c, d".toList) =
        splitTopLevel (· == ',') s ++ splitTopLevel (· == ',') " ((c, d".toList ∧
      splitTopLevel (· == ',') (joined [','] pieces) = ["f(a, b) x".toList, "),(".toList, "uint c".toList] ∧
      splitTopLevel (· == ',') "g(a, b),)(,((c, d".toList = splitTopLevel (· == ',') (s ++ ", ((c, d".toList) := by
  intro s pieces
  have notOpen : ',' ≠ '(' := by decide
  have notClose : ',' ≠ ')' := by decide
  have laws := splits_at_level_cuts notOpen notClose
  have level : IsLevel s := by decide
  have arePieces : ∀ t ∈ pieces, IsPiece ',' t := by decide
  exact ⟨notOpen, notClose, level, arePieces, laws.1 s " ((c, d".toList level, laws.2.1 pieces arePieces,
    laws.2.2 (s ++ ", ((c, d".toList)⟩

end ContractInterface.Delimiter
