import ContractInterface.Proofs.Clauses
import ContractInterface.Proofs.CollapsedTypes

/-! # Parts of a type

A part of a text that stands between word boundaries is read for words as the text is.  So what a type is taken
apart into names no storage location if the type does not: what it is an array of (`IsPart.splitTrailing`), the
value of a mapping (`IsPart.finalValue`), the text in front of a name (`IsPart.withoutName`), the size of a dimension
(`IsPart.of_mem_splitTrailing`).
-/

namespace ContractInterface

open Text TypeSyntax Delimiter

/-! ## Texts without storage locations -/

/-- Blanking the storage locations shortens a text, unless there are none. -/
theorem blankStorage_eq_of_length_le {s : Text} (asLong : s.length ≤ (blankStorage s).length) :
    blankStorage s = s := by
  induction s using spans_induction (p := isWordChar) with
  | nil => exact blankStorage_nil
  | plain c s plain ih =>
    rw [blankStorage_cons plain] at asLong ⊢
    rw [ih (Nat.le_of_succ_le_succ asLong)]
  | run run rest nonempty isRun edge ih =>
    -- a run that is replaced is longer than the space that it is replaced by
    have long : ∀ place ∈ storageLocations, 1 < place.length := by decide
    have behind := length_blankStorage_le rest
    rw [blankStorage_append edge, blankStorage_word nonempty isRun, List.length_append] at asLong
    rw [blankStorage_append edge, blankStorage_word nonempty isRun]
    split at asLong
    · rename_i isPlace
      have shorter := long run isPlace
      simp only [List.length_append, List.length_cons, List.length_nil] at asLong
      omega
    · rename_i other
      rw [List.length_append] at asLong
      have others := ih 0
      rw [List.drop_zero] at others
      rw [if_neg other, others (by omega)]

theorem blankStorage_blankStorage (s : Text) : blankStorage (blankStorage s) = blankStorage s := by
  induction s using spans_induction (p := isWordChar) with
  | nil => simp
  | plain c s plain ih => rw [blankStorage_cons plain, blankStorage_cons plain, ih]
  | run run rest nonempty isRun edge ih =>
    have others := ih 0
    rw [List.drop_zero] at others
    have edge' : ∀ c ∈ (blankStorage rest).head?, isWordChar c = false := by
      intro c first
      cases rest with
      | nil => rw [blankStorage_nil] at first; cases first
      | cons d rest =>
        have plain : isWordChar d = false := edge d rfl
        rw [blankStorage_cons plain] at first
        exact Option.some.inj first ▸ plain
    rw [blankStorage_append edge, blankStorage_append edge', others]
    congr 1
    rw [blankStorage_word nonempty isRun]
    split
    · have space : isWordChar ' ' = false := by decide
      rw [blankStorage_cons space, blankStorage_nil]
    · rename_i other
      rw [blankStorage_word nonempty isRun, if_neg other]

/-! ## Parts between word boundaries -/

/-- The dimension at the end of a text, with the blanks in it and in front of it. -/
theorem TypeSyntax.Dimension.exists_of_trailing? {s front size : Text} (found : trailing? s = some (front, size)) :
    ∃ gap opened closed, s = front ++ (gap ++ '[' :: (opened ++ size ++ closed ++ [']'])) ∧ Blanks gap ∧
      Blanks opened ∧ Blanks closed := by
  rw [trailing?_eq] at found
  obtain ⟨inner, isInner, found⟩ := Option.bind_eq_some_iff.1 found
  obtain ⟨reversed, isReversed, same⟩ := Option.map_eq_some_iff.1 found
  cases same
  -- the text is read from its end: blanks, the size, blanks, the bracket, and blanks again
  have whole : s.reverse = ']' :: (inner.takeWhile isBlank ++ ((trimStart inner).takeWhile isWordChar ++
      (((trimStart inner).dropWhile isWordChar).takeWhile isBlank ++
        '[' :: (reversed.takeWhile isBlank ++ trimStart reversed)))) := by
    rw [takeWhile_append_trimStart reversed, ← List.singleton_append (l := reversed), ← after?_eq_some.1 isReversed,
      takeWhile_append_trimStart, List.takeWhile_append_dropWhile, takeWhile_append_trimStart]
    exact after?_eq_some.1 isInner
  refine ⟨_, _, _, ?_, (blanks_takeWhile reversed).reverse,
    (blanks_takeWhile ((trimStart inner).dropWhile isWordChar)).reverse, (blanks_takeWhile inner).reverse⟩
  rw [← List.reverse_reverse s, whole]
  simp

/-- `IsPart part s` says that `part` stands in `s` between word boundaries. -/
def IsPart (part s : Text) : Prop :=
  ∃ front behind, s = front ++ (part ++ behind) ∧ (∀ c ∈ front.getLast?, isWordChar c = false) ∧
    ∀ c ∈ behind.head?, isWordChar c = false

namespace IsPart

variable {part s t : Text}

theorem refl (s : Text) : IsPart s s :=
  ⟨[], [], by simp, nofun, nofun⟩

theorem trans (inner : IsPart part s) (outer : IsPart s t) : IsPart part t := by
  obtain ⟨front, behind, rfl, edge, edge'⟩ := inner
  obtain ⟨before, after, rfl, outerEdge, outerEdge'⟩ := outer
  refine ⟨before ++ front, behind ++ after, by simp, fun c last => ?_, fun c first => ?_⟩
  · rw [List.getLast?_append] at last
    cases ends : front.getLast? with
    | none => rw [ends, Option.none_or] at last; exact outerEdge c last
    | some d => rw [ends, Option.some_or] at last; exact edge c (ends ▸ last)
  · rw [List.head?_append] at first
    cases starts : behind.head? with
    | none => rw [starts, Option.none_or] at first; exact outerEdge' c first
    | some d => rw [starts, Option.some_or] at first; exact edge' c (starts ▸ first)

/-- A part of a text without storage locations has none. -/
theorem blankStorage_eq (isPart : IsPart part s) (unlocated : blankStorage s = s) :
    blankStorage part = part := by
  obtain ⟨front, behind, rfl, edge, edge'⟩ := isPart
  refine blankStorage_eq_of_length_le ?_
  have first := length_blankStorage_le front
  have last := length_blankStorage_le behind
  -- the text is as long as before, and none of the three parts grows, so none of them shrinks
  have whole : blankStorage (front ++ (part ++ behind)) =
      blankStorage front ++ (blankStorage part ++ blankStorage behind) := by
    rw [← blankStorage_append edge']
    rcases List.eq_nil_or_concat front with rfl | ⟨before, c, rfl⟩
    · simp
    · have plain : isWordChar c = false := edge c (by simp)
      have around := blankStorage_append_cons plain before (part ++ behind)
      have ends := blankStorage_append_cons plain before []
      rw [blankStorage_nil] at ends
      rw [List.concat_eq_append, List.append_assoc, List.singleton_append, around, ends]
      simp
  have same := congrArg List.length (whole.symm.trans unlocated)
  simp only [List.length_append] at same
  omega

/-! ### Parts between blanks -/

theorem of_blanks {before behind : Text} (before_blanks : Blanks before) (behind_blanks : Blanks behind)
    (s : Text) : IsPart s (before ++ s ++ behind) :=
  ⟨before, behind, List.append_assoc _ _ _,
    fun c last => isWordChar_of_isBlank (before_blanks c (List.mem_of_mem_getLast? last)),
    fun c first => isWordChar_of_isBlank (behind_blanks c (List.mem_of_mem_head? first))⟩

theorem trim (s : Text) : IsPart (trim s) s := by
  obtain ⟨behind, blanks, whole⟩ := exists_blanks_trim s
  have isPart := of_blanks (blanks_takeWhile s) blanks (Text.trim s)
  rwa [whole] at isPart

theorem trimStart (s : Text) : IsPart (trimStart s) s := by
  have isPart := of_blanks (blanks_takeWhile s) blanks_nil (Text.trimStart s)
  rwa [List.append_nil, takeWhile_append_trimStart] at isPart

theorem trimEnd (s : Text) : IsPart (trimEnd s) s := by
  have isPart := of_blanks blanks_nil (blanks_blanksBehind s) (Text.trimEnd s)
  rwa [List.nil_append, trimEnd_append_blanksBehind] at isPart

/-- What stands in front of the last word, unless that is nothing. -/
theorem splitLastWord (nonempty : (splitLastWord s).1 ≠ []) : IsPart (splitLastWord s).1 s := by
  refine IsPart.trans ?_ (trimEnd s)
  unfold Text.splitLastWord at nonempty ⊢
  simp only at nonempty ⊢
  have split := List.takeWhile_append_dropWhile (p := fun c => !isBlank c) (l := (Text.trimEnd s).reverse)
  have stops := List.head?_dropWhile_not (fun c => !isBlank c) (Text.trimEnd s).reverse
  generalize (Text.trimEnd s).reverse.dropWhile (fun c => !isBlank c) = front at *
  generalize (Text.trimEnd s).reverse.takeWhile (fun c => !isBlank c) = word at *
  have whole : Text.trimEnd s = front.reverse ++ word.reverse := by
    rw [← List.reverse_append, split, List.reverse_reverse]
  -- in front of the last word stands a blank, which keeps it from going on a word of the front
  have apart : ∀ c ∈ (blanksBehind front.reverse ++ word.reverse).head?, isWordChar c = false := by
    intro c first
    cases front with
    | nil => exact absurd rfl nonempty
    | cons d front =>
      have blank : isBlank d = true := by simpa using stops
      have ends : blanksBehind (d :: front).reverse = (front.takeWhile isBlank).reverse ++ [d] := by
        unfold blanksBehind
        rw [List.reverse_reverse, List.takeWhile_cons_of_pos blank, List.reverse_cons]
      have blanks := blanks_blanksBehind (d :: front).reverse
      refine isWordChar_of_isBlank (blanks c ?_)
      rw [List.head?_append_of_ne_nil _ (ends ▸ List.concat_ne_nil _ _)] at first
      exact List.mem_of_mem_head? first
  refine ⟨[], blanksBehind front.reverse ++ word.reverse, ?_, nofun, apart⟩
  rw [List.nil_append, ← List.append_assoc, trimEnd_append_blanksBehind, whole]

/-! ### Parts of types -/

theorem withoutName (s : Text) : IsPart (Mapping.withoutName s) s := by
  unfold Mapping.withoutName
  simp only
  split
  · exact trim s
  · split
    · rename_i named
      exact (splitLastWord named.1).trans (trim s)
    · exact trim s

theorem behindArrow? {value : Text} (found : Mapping.behindArrow? s = some value) : IsPart value s := by
  obtain ⟨arrowAt, close, isArrow, isClose, inside, rfl⟩ := Mapping.behindArrow?_eq_some_iff.1 found
  obtain ⟨rest, behind⟩ := exists_of_findAtDepth? isArrow
  have ends : s[arrowAt + 1]? = some '>' := by
    rw [← List.getElem?_drop, behind]
    rfl
  have within : arrowAt + 2 ≤ s.length := by
    have stands := (List.getElem?_eq_some_iff.1 ends).1
    omega
  -- the value stands between the head of the arrow and the parenthesis
  refine ⟨s.take (arrowAt + 2), s.drop close, ?_, fun c last => ?_, fun c first => ?_⟩
  · have cut : s.take (arrowAt + 2) = (s.take close).take (arrowAt + 2) := by
      rw [List.take_take, Nat.min_eq_left (Nat.le_of_lt inside)]
    rw [← List.append_assoc, cut, List.take_append_drop, List.take_append_drop]
  · rw [List.getLast?_eq_getElem?, List.length_take, Nat.min_eq_left within,
      List.getElem?_take_of_lt (by omega), Nat.add_sub_assoc (by decide), ends] at last
    cases last
    decide
  · rw [List.head?_drop, closeIndex?_spec isClose] at first
    cases first
    decide

theorem outerValue (s : Text) : IsPart (Mapping.outerValue s) s := by
  rw [Mapping.outerValue_eq]
  split
  · cases found : Mapping.behindArrow? (Text.trim s) with
    | none => exact trim s
    | some value => exact ((withoutName value).trans (behindArrow? found)).trans (trim s)
  · exact trim s

theorem finalValue (s : Text) : IsPart (Mapping.finalValue s) s := by
  fun_induction Mapping.finalValue s with
  | case1 s _ _ ih => exact ih.trans (outerValue s)
  | case2 s _ _ => exact trim s
  | case3 s _ => exact trim s

theorem trailing? {front size : Text} (found : Dimension.trailing? s = some (front, size)) : IsPart front s := by
  obtain ⟨gap, opened, closed, whole, blanks, -⟩ := Dimension.exists_of_trailing? found
  exact ⟨[], _, whole, nofun, noBlank_isWordChar.edge blanks (by decide) _⟩

/-- The size between the last brackets. -/
theorem trailing?_size {front size : Text} (found : Dimension.trailing? s = some (front, size)) : IsPart size s := by
  obtain ⟨gap, opened, closed, rfl, -, opened_blanks, closed_blanks⟩ := Dimension.exists_of_trailing? found
  refine (of_blanks opened_blanks closed_blanks size).trans ⟨front ++ (gap ++ ['[']), [']'], by simp, ?_, ?_⟩
  · intro c last
    rw [← List.append_assoc, List.getLast?_concat] at last
    cases last
    decide
  · intro c first
    cases first
    decide

theorem peel (s : Text) : IsPart (Dimension.peel s).1 s := by
  fun_induction Dimension.peel s with
  | case1 s front size found ih => exact ih.trans (trailing? found)
  | case2 s _ => exact refl s

theorem splitTrailing (s : Text) : IsPart (Dimension.splitTrailing s).1 s := by
  unfold Dimension.splitTrailing
  simp only
  split
  · exact trim s
  · exact (trim _).trans ((peel _).trans (trimEnd s))

theorem of_mem_peel {size : Text} (member : size ∈ (Dimension.peel s).2) : IsPart size s := by
  fun_induction Dimension.peel s with
  | case1 s front last found ih =>
    rcases List.mem_append.1 member with inFront | isLast
    · exact (ih inFront).trans (trailing? found)
    · exact List.mem_singleton.1 isLast ▸ trailing?_size found
  | case2 s _ => cases member

theorem of_mem_splitTrailing {size : Text} (member : size ∈ (Dimension.splitTrailing s).2) : IsPart size s := by
  unfold Dimension.splitTrailing at member
  simp only at member
  split at member
  · cases member
  · exact (of_mem_peel member).trans (trimEnd s)

end IsPart

/-- What a separator keeps apart names no storage locations either. -/
theorem unlocated_append_cons {c : Char} (plain : isWordChar c = false) {s t : Text}
    (unlocated : blankStorage (s ++ c :: t) = s ++ c :: t) : blankStorage s = s ∧ blankStorage t = t := by
  have front : IsPart s (s ++ c :: t) := ⟨[], c :: t, rfl, nofun, by simpa using plain⟩
  have behind : IsPart t (s ++ c :: t) := ⟨s ++ [c], [], by simp, by simpa using plain, nofun⟩
  exact ⟨front.blankStorage_eq unlocated, behind.blankStorage_eq unlocated⟩

/-! ## What an array is an array of -/

namespace TypeSyntax.Dimension

theorem peel_prefix (s : Text) : (peel s).1 <+: s := by
  fun_induction peel s with
  | case1 s front size found ih =>
    obtain ⟨_, _, _, whole, _⟩ := exists_of_trailing? found
    exact ih.trans ⟨_, whole.symm⟩
  | case2 s _ => exact List.prefix_refl s

theorem trimEnd_prefix (s : Text) : trimEnd s <+: s :=
  ⟨blanksBehind s, trimEnd_append_blanksBehind s⟩

theorem splitTrailing_prefix {s : Text} (trimmed : IsTrimmed s) : (splitTrailing s).1 <+: s := by
  have part := peel_prefix s
  unfold splitTrailing
  simp only [trimEnd_of_last trimmed.last]
  split
  · simp only [trimmed.trim_eq, List.prefix_refl]
  · have first : ∀ c ∈ (peel s).1.head?, isBlank c = false := by
      intro c isFirst
      obtain ⟨behind, whole⟩ := part
      refine trimmed.first c ?_
      rw [← whole, List.head?_append, Option.mem_def.1 isFirst]
      rfl
    unfold trim
    rw [trimStart_of_first first]
    have front := trimEnd_prefix (peel s).1
    exact front.trans part

theorem isTrimmed_splitTrailing (s : Text) : IsTrimmed (splitTrailing s).1 := by
  unfold splitTrailing
  simp only
  split
  · exact isTrimmed_trim s
  · exact isTrimmed_trim _

/-! ## Dimensions without blanks -/

theorem exists_of_leading? {s size rest : Text} (found : leading? s = some (size, rest)) :
    ∃ opened closed, s = '[' :: (opened ++ size ++ closed ++ ']' :: rest) ∧ Blanks opened ∧ Blanks closed := by
  rw [leading?_eq] at found
  obtain ⟨inner, isInner, found⟩ := Option.bind_eq_some_iff.1 found
  obtain ⟨rest', isRest, same⟩ := Option.map_eq_some_iff.1 found
  cases same
  refine ⟨inner.takeWhile isBlank, ((trimStart inner).dropWhile isWordChar).takeWhile isBlank, ?_,
    blanks_takeWhile _, blanks_takeWhile _⟩
  rw [after?_eq_some.1 isInner, List.singleton_append, ← List.singleton_append (l := rest), ← after?_eq_some.1 isRest,
    List.append_assoc, takeWhile_append_trimStart, List.append_assoc, List.takeWhile_append_dropWhile,
    takeWhile_append_trimStart]

theorem head?_tightened {s : Text} (edge : ∀ c ∈ s.head?, isWordChar c = false) :
    ∀ c ∈ (tightened s).head?, isWordChar c = false := by
  intro c first
  cases s with
  | nil =>
    rw [tightened_nil] at first
    cases first
  | cons d s =>
    cases found : leading? (trimStart (d :: s)) with
    | some _ =>
      rw [tightened_of_some found, bracketed] at first
      cases first
      decide
    | none =>
      rw [tightened_of_none found] at first
      exact edge c first

/-- Dropping the blanks in and before the dimensions of a text puts no storage location together. -/
theorem blankStorage_tightened : ∀ s : Text, blankStorage s = s → blankStorage (tightened s) = tightened s
  | [], _ => by rw [tightened_nil, blankStorage_nil]
  | c :: s, unlocated => by
    have opens : isWordChar '[' = false := by decide
    have closes : isWordChar ']' = false := by decide
    cases found : leading? (trimStart (c :: s)) with
    | some found' =>
      obtain ⟨size, rest⟩ := found'
      have shorter := length_leading? found
      have noLonger := length_trimStart_le (c :: s)
      obtain ⟨opened, closed, whole, opened_blanks, closed_blanks⟩ := exists_of_leading? found
      have unlocated' := (IsPart.trimStart (c :: s)).blankStorage_eq unlocated
      rw [whole] at unlocated'
      obtain ⟨inside, behind⟩ := unlocated_append_cons closes (unlocated_append_cons (s := []) opens unlocated').2
      have isSize := (IsPart.of_blanks opened_blanks closed_blanks size).blankStorage_eq inside
      have others := blankStorage_tightened _ behind
      rw [tightened_of_some found, bracketed, List.append_assoc, List.cons_append, blankStorage_cons opens,
        List.singleton_append, blankStorage_append_cons closes, isSize, others]
    | none =>
      cases word : isWordChar c with
      | false =>
        have others := blankStorage_tightened _ (unlocated_append_cons (s := []) word unlocated).2
        rw [tightened_of_none found, blankStorage_cons word, others]
      | true =>
        -- a word stays as it is, and so does what stands behind it
        have split := List.takeWhile_append_dropWhile (p := isWordChar) (l := s)
        have letters : ∀ d ∈ c :: s.takeWhile isWordChar, isWordChar d = true :=
          List.forall_mem_cons.2 ⟨word, List.all_eq_true.1 List.all_takeWhile⟩
        have shorter := length_dropWhile_le isWordChar s
        have edge : ∀ d ∈ (s.dropWhile isWordChar).head?, isWordChar d = false := head?_dropWhile s
        generalize s.takeWhile isWordChar = run at split letters
        generalize s.dropWhile isWordChar = rest at split edge shorter
        rw [← split, ← List.cons_append] at unlocated ⊢
        have isRun : IsPart (c :: run) (c :: run ++ rest) := ⟨[], rest, rfl, by simp, edge⟩
        have unlocatedRun := isRun.blankStorage_eq unlocated
        rw [blankStorage_append edge, unlocatedRun] at unlocated
        have others := blankStorage_tightened _ (List.append_cancel_left unlocated)
        have solid : IsSolid (c :: run) := fun d member => isBlank_of_isWordChar (letters d member)
        have noBracket : '[' ∉ c :: run := fun member => absurd (letters '[' member) (by decide)
        rw [tightened_append solid noBracket, blankStorage_append (head?_tightened edge), unlocatedRun, others]
termination_by s => s.length
decreasing_by
  all_goals
    simp only [List.length_cons] at *
    omega

end TypeSyntax.Dimension

end ContractInterface
