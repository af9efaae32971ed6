import ContractInterface.Proofs.Fields
import ContractInterface.Proofs.Layout
import ContractInterface.Proofs.Spans

/-! # Spacing

A text is respaced by writing one space for each run of blanks and trimming the result
(`spaced_eq_trim_collapsed`).  Collapsing the blanks works on the parts of a text one by one wherever a
part starts with a visible character, so the spacing of a text is told from its parts.
-/

namespace ContractInterface.Text

/-- A text without blanks. -/
def IsSolid (s : Text) : Prop :=
  ∀ c ∈ s, isBlank c = false

theorem IsSolid.isTrimmed {s : Text} (solid : IsSolid s) : IsTrimmed s where
  first c isFirst := solid c (List.mem_of_mem_head? isFirst)
  last c isLast := solid c (List.mem_of_mem_getLast? isLast)

theorem IsSolid.reverse {s : Text} (solid : IsSolid s) : IsSolid s.reverse := fun c member =>
  solid c (List.mem_reverse.1 member)

theorem trimStart_solid_append {s : Text} (solid : IsSolid s) {c : Char} (visible : isBlank c = false)
    (t : Text) : trimStart (s ++ c :: t) = s ++ c :: t := by
  cases s with
  | nil => exact trimStart_of_first (by simpa using visible)
  | cons d s => exact trimStart_of_first (by simpa using solid d List.mem_cons_self)

/-- Trimming leaves a word that is empty at the next visible character, and any other in front of what
follows it. -/
theorem exists_trimStart_around {before word behind : Text} (before_blanks : Blanks before)
    (solid : IsSolid word) (behind_blanks : Blanks behind) {c : Char} (visible : isBlank c = false)
    (t : Text) : ∃ gap, Blanks gap ∧
      trimStart (before ++ (word ++ (behind ++ c :: t))) = word ++ (gap ++ c :: t) := by
  rw [trimStart_blanks before_blanks]
  cases word with
  | nil =>
    refine ⟨[], blanks_nil, ?_⟩
    rw [List.nil_append, trimStart_blanks behind_blanks]
    exact trimStart_of_first (by simpa using visible)
  | cons d word =>
    exact ⟨behind, behind_blanks, trimStart_of_first (by simpa using solid d List.mem_cons_self)⟩

/-- A text with one space for each run of blanks. -/
def collapsed : Text → Text
  | [] => []
  | c :: s =>
    if isBlank c then if s.head?.any isBlank then collapsed s else ' ' :: collapsed s
    else c :: collapsed s

@[simp] theorem collapsed_nil : collapsed [] = [] := rfl

theorem collapsed_cons {c : Char} (visible : isBlank c = false) (s : Text) :
    collapsed (c :: s) = c :: collapsed s := by
  rw [collapsed, if_neg (by simp [visible])]

theorem collapsed_append {s t : Text} (edge : ∀ c ∈ t.head?, isBlank c = false) :
    collapsed (s ++ t) = collapsed s ++ collapsed t := by
  induction s with
  | nil => rfl
  | cons c s ih =>
    cases blank : isBlank c with
    | false =>
      rw [List.cons_append, collapsed_cons blank, collapsed_cons blank, ih]
      rfl
    | true =>
      have next : (s ++ t).head?.any isBlank = s.head?.any isBlank := by
        cases s with
        | nil =>
          cases t with
          | nil => rfl
          | cons d t => exact edge d rfl
        | cons d s => rfl
      rw [List.cons_append, collapsed, collapsed, if_pos blank, if_pos blank, next, ih]
      split <;> rfl

theorem collapsed_append_cons {c : Char} (visible : isBlank c = false) (s t : Text) :
    collapsed (s ++ c :: t) = collapsed s ++ c :: collapsed t := by
  rw [collapsed_append (by simpa using visible), collapsed_cons visible]

theorem collapsed_solid_append {s : Text} (solid : IsSolid s) (t : Text) :
    collapsed (s ++ t) = s ++ collapsed t := by
  induction s with
  | nil => rfl
  | cons c s ih =>
    rw [List.cons_append, collapsed_cons (solid c List.mem_cons_self),
      ih fun d member => solid d (List.mem_cons_of_mem c member)]
    rfl

theorem collapsed_solid {s : Text} (solid : IsSolid s) : collapsed s = s := by
  have whole := collapsed_solid_append solid []
  simpa using whole

/-- What is left of a run of blanks. -/
def gap (b : Text) : Text :=
  if b = [] then [] else [' ']

theorem blanks_gap (b : Text) : Blanks (gap b) := by
  unfold gap
  split
  · exact blanks_nil
  · exact blanks_singleton (by decide)

theorem collapsed_blanks {b : Text} (blanks : Blanks b) : collapsed b = gap b := by
  induction b with
  | nil => rfl
  | cons c b ih =>
    have others := ih fun d member => blanks d (List.mem_cons_of_mem c member)
    rw [collapsed, if_pos (blanks c List.mem_cons_self), others]
    cases b with
    | nil => rfl
    | cons d b =>
      have next : (d :: b).head?.any isBlank = true :=
        blanks d (List.mem_cons_of_mem c List.mem_cons_self)
      rw [if_pos next]
      rfl

theorem collapsed_blanks_append {b t : Text} (blanks : Blanks b)
    (edge : ∀ c ∈ t.head?, isBlank c = false) : collapsed (b ++ t) = gap b ++ collapsed t := by
  rw [collapsed_append edge, collapsed_blanks blanks]

theorem collapsed_of_isBlank {c : Char} (blank : isBlank c = true) (s : Text) :
    collapsed (c :: s) = ' ' :: collapsed (trimStart s) := by
  have blanks : Blanks (c :: s.takeWhile isBlank) := List.forall_mem_cons.2 ⟨blank, blanks_takeWhile s⟩
  have split : c :: s = c :: s.takeWhile isBlank ++ trimStart s := by
    rw [List.cons_append, takeWhile_append_trimStart]
  rw [split, collapsed_blanks_append blanks (head?_trimStart s)]
  rfl

theorem head?_collapsed (s : Text) : (collapsed s).head?.any isBlank = s.head?.any isBlank := by
  induction s with
  | nil => rfl
  | cons c s ih =>
    rw [collapsed]
    split
    · rename_i blank
      split
      · rename_i next
        rw [ih, next]
        exact blank.symm
      · exact blank.symm
    · rfl

theorem collapsed_collapsed (s : Text) : collapsed (collapsed s) = collapsed s := by
  induction s with
  | nil => rfl
  | cons c s ih =>
    rw [collapsed]
    split
    · split
      · exact ih
      · rename_i next
        rw [collapsed, if_pos (by decide), head?_collapsed, if_neg next, ih]
    · rename_i visible
      rw [collapsed_cons (by simpa using visible), ih]

/-! ## Respacing -/

theorem trim_cons_of_visible {c : Char} (visible : isBlank c = false) (s : Text) :
    trim (c :: s) = c :: trimEnd s := by
  have start : trimStart (c :: s) = c :: s := trimStart_of_first (by simpa using visible)
  unfold trim
  rw [start]
  cases blanks : s.all isBlank with
  | true =>
    have isBlanks : Blanks s := List.all_eq_true.1 blanks
    have nothing : trimEnd s = [] := trimEnd_blanks isBlanks []
    rw [nothing]
    have alone : trimEnd ([c] ++ s) = trimEnd [c] := trimEnd_blanks isBlanks [c]
    exact alone.trans (trimEnd_of_last (by simpa using visible))
  | false =>
    obtain ⟨d, member, isVisible⟩ := List.all_eq_false.1 blanks
    have seen : ∃ d ∈ s, isBlank d = false := ⟨d, member, by simpa using isVisible⟩
    exact trimEnd_append_of_visible (s := [c]) seen

theorem joined_onFirst (separator : Text) (c : Char) (pieces : List Text) :
    joined separator (onFirst c pieces) = c :: joined separator pieces := by
  match pieces with
  | [] => simp [onFirst, joined]
  | [_] => simp [onFirst, joined]
  | _ :: _ :: _ => simp [onFirst, joined_cons_cons]

theorem ne_nil_of_mem_words {s word : Text} (member : word ∈ words s) : word ≠ [] := by
  fun_induction words s with
  | case1 => cases member
  | case2 c s _ ih => exact ih member
  | case3 c _ =>
    rw [List.mem_singleton.1 member]
    exact List.cons_ne_nil _ _
  | case4 c _ d s _ ih =>
    rcases List.mem_cons.1 member with rfl | member
    · exact List.cons_ne_nil _ _
    · exact ih member
  | case5 c _ d s _ ih =>
    cases rest : words (d :: s) with
    | nil =>
      rw [rest] at member
      rw [List.mem_singleton.1 member]
      exact List.cons_ne_nil _ _
    | cons w ws =>
      rw [rest] at member ih
      rcases List.mem_cons.1 member with rfl | member
      · exact List.cons_ne_nil _ _
      · exact ih (List.mem_cons_of_mem w member)

/-- A word in front of further words is set off by a space. -/
theorem joined_cons_words (w s : Text) : joined [' '] (w :: words s) =
    w ++ if joined [' '] (words s) = [] then [] else ' ' :: joined [' '] (words s) := by
  cases others : words s with
  | nil => simp [joined]
  | cons next ws =>
    have nonempty := ne_nil_of_mem_words (s := s) (others ▸ List.mem_cons_self)
    have some_ : joined [' '] (next :: ws) ≠ [] := by
      cases ws with
      | nil => simpa [joined] using nonempty
      | cons _ _ => simp [joined_cons_cons]
    rw [joined_cons_cons, if_neg some_]
    rfl

/-- A space in front of a text is an end to be trimmed exactly if nothing visible follows. -/
theorem trimEnd_space {t : Text} (first : t.head?.any isBlank = false) :
    trimEnd (' ' :: t) = if trim t = [] then [] else ' ' :: trim t := by
  cases t with
  | nil => exact trimEnd_blanks (blanks_singleton (by decide)) []
  | cons e t =>
    have visible : isBlank e = false := first
    have seen := trimEnd_append_of_visible (s := [' ']) (t := e :: t) ⟨e, List.mem_cons_self, visible⟩
    have whole := trim_cons_of_visible visible t
    rw [whole, if_neg (List.cons_ne_nil _ _)]
    unfold trim at whole
    rw [trimStart_of_first (by simpa using visible)] at whole
    rw [whole] at seen
    exact seen

theorem head?_collapsed_trimStart (s : Text) : (collapsed (trimStart s)).head?.any isBlank = false := by
  rw [head?_collapsed]
  cases start : (trimStart s).head? with
  | none => rfl
  | some e => exact head?_trimStart s e start

/-- Respacing is collapsing the blanks and trimming. -/
theorem spaced_eq_trim_collapsed (s : Text) : spaced s = trim (collapsed s) := by
  unfold spaced
  induction s with
  | nil => rfl
  | cons c s ih =>
    cases blank : isBlank c with
    | true =>
      rw [words_blank blank, ih, collapsed, if_pos blank]
      split
      · rfl
      · exact (trim_blanks_append (b := [' ']) (blanks_singleton (by decide)) _).symm
    | false =>
      rw [collapsed_cons blank, trim_cons_of_visible blank]
      -- whether a word ends here depends on the next character
      cases s with
      | nil =>
        rw [words_last blank]
        rfl
      | cons d s =>
        cases nextBlank : isBlank d with
        | false =>
          rw [words_within blank nextBlank, joined_onFirst, ih, collapsed_cons nextBlank, trim,
            trimStart_of_first (by simpa using nextBlank)]
        | true =>
          have space : trim (' ' :: collapsed (trimStart s)) = trim (collapsed (trimStart s)) :=
            trim_blanks_append (blanks_singleton (by decide)) _
          rw [words_blank nextBlank, collapsed_of_isBlank nextBlank, space] at ih
          rw [words_before_blank blank nextBlank, joined_cons_words, ih, collapsed_of_isBlank nextBlank,
            trimEnd_space (head?_collapsed_trimStart s)]
          rfl

theorem spaced_solid {s : Text} (solid : IsSolid s) : spaced s = s := by
  rw [spaced_eq_trim_collapsed, collapsed_solid solid, solid.isTrimmed.trim_eq]

theorem words_blanks {b : Text} (blanks : Blanks b) (s : Text) : words (b ++ s) = words s := by
  induction b with
  | nil => rfl
  | cons c b ih =>
    rw [List.cons_append, words_blank (blanks c List.mem_cons_self)]
    exact ih fun d member => blanks d (List.mem_cons_of_mem c member)

theorem words_ne_nil {c : Char} (visible : isBlank c = false) (s : Text) : words (c :: s) ≠ [] := by
  cases s with
  | nil =>
    rw [words_last visible]
    exact List.cons_ne_nil _ _
  | cons d s =>
    cases blank : isBlank d with
    | true =>
      rw [words_before_blank visible blank]
      exact List.cons_ne_nil _ _
    | false =>
      rw [words_within visible blank]
      exact onFirst_ne_nil _ _

theorem words_solid {word : Text} (solid : IsSolid word) (nonempty : word ≠ []) : words word = [word] := by
  induction word with
  | nil => exact absurd rfl nonempty
  | cons c word ih =>
    have visible := solid c List.mem_cons_self
    cases word with
    | nil => exact words_last visible
    | cons d word =>
      have others := ih (fun e member => solid e (List.mem_cons_of_mem c member)) (List.cons_ne_nil d word)
      rw [words_within visible (solid d (by simp)), others]
      rfl

theorem words_trimStart (s : Text) : words (trimStart s) = words s := by
  have whole := words_blanks (blanks_takeWhile s) (trimStart s)
  rw [takeWhile_append_trimStart] at whole
  exact whole.symm

/-- A blank ends a word. -/
theorem words_append_cons {c : Char} (blank : isBlank c = true) (s t : Text) :
    words (s ++ c :: t) = words s ++ words t := by
  fun_induction words s with
  | case1 => exact words_blank blank t
  | case2 d s blank' ih => rw [List.cons_append, words_blank blank', ih]
  | case3 d visible => rw [List.singleton_append, words_before_blank (by simpa using visible) blank]; rfl
  | case4 d visible e s blank' ih =>
    have others : words (e :: (s ++ c :: t)) = words (s ++ c :: t) := words_blank blank' _
    rw [List.cons_append, List.cons_append, words_before_blank (by simpa using visible) blank', ← others]
    exact congrArg ([d] :: ·) ih
  | case5 d visible e s visible' ih =>
    rw [List.cons_append, List.cons_append, words_within (by simpa using visible) (by simpa using visible'),
      ← List.cons_append, ih]
    -- the word that goes on is the first one, and there is one
    obtain ⟨w, ws, isWords⟩ := List.exists_cons_of_ne_nil (words_ne_nil (by simpa using visible') s)
    rw [isWords]
    rfl

theorem words_append_blanks {b : Text} (blanks : Blanks b) (s : Text) : words (s ++ b) = words s := by
  cases b with
  | nil => rw [List.append_nil]
  | cons c b =>
    have none_ : words b = [] := by
      have nothing := words_blanks (fun d member => blanks d (List.mem_cons_of_mem c member)) []
      rwa [List.append_nil] at nothing
    rw [words_append_cons (blanks c List.mem_cons_self), none_, List.append_nil]

/-- Blanks at the ends do not matter for the spacing. -/
theorem spaced_trim (s : Text) : spaced (trim s) = spaced s := by
  obtain ⟨behind, blanks, whole⟩ := exists_blanks_trim s
  have same : words s = words (trim s) := by
    conv => lhs; rw [← whole]
    rw [words_append_blanks blanks, words_blanks (blanks_takeWhile s)]
  unfold spaced
  rw [same]

theorem spaced_spaced (s : Text) : spaced (spaced s) = spaced s := by
  rw [spaced_eq_trim_collapsed s, spaced_trim, spaced_eq_trim_collapsed, collapsed_collapsed]

end ContractInterface.Text
