import ContractInterface.Proofs.Spacing
import ContractInterface.Proofs.Words

/-! # Reading a text with its blanks collapsed

A scanner that passes over blanks, however many stand side by side, reads a text and its collapsed form
alike: what it finds in the collapsed form is the collapsed form of what it finds in the text.  This
module says so of the scanners that all others are made of.

Two texts are `Alike` if they have the same collapsed form, as a text and the same text with a space added
beside one of its blanks have (`alike_insert_space`).
-/

namespace ContractInterface

namespace Text

/-! ## Texts that differ in the width of their gaps -/

/-- Two texts that differ in how wide their gaps are and in nothing else. -/
def Alike (s t : Text) : Prop :=
  collapsed s = collapsed t

/-- A function that sees no gaps gives equal values for texts that differ in their gaps only. -/
theorem Alike.eq {α : Type} {f : Text → α} (blind : ∀ s, f (collapsed s) = f s) {s t : Text}
    (alike : Alike s t) : f s = f t := by
  rw [← blind s, ← blind t, show collapsed s = collapsed t from alike]

/-- A function that widens gaps only gives texts that differ in their gaps only. -/
theorem Alike.map {f : Text → Text} (blind : ∀ s, Alike (f (collapsed s)) (f s)) {s t : Text}
    (alike : Alike s t) : Alike (f s) (f t) :=
  Alike.eq (f := fun s => collapsed (f s)) blind alike

theorem alike_of_blanks {b b' : Text} (nonempty : b ≠ []) (nonempty' : b' ≠ []) (blanks : Blanks b)
    (blanks' : Blanks b') : Alike b b' := by
  unfold Alike
  rw [collapsed_blanks blanks, collapsed_blanks blanks', gap, gap, if_neg nonempty, if_neg nonempty']

/-- A class of characters without blanks. -/
def NoBlank (p : Char → Bool) : Prop :=
  ∀ c, isBlank c = true → p c = false

theorem isSolid_of_all {s : Text} (solid : s.all (!isBlank ·) = true) : IsSolid s := fun c member => by
  simpa using List.all_eq_true.1 solid c member

theorem isSolid_singleton {c : Char} (visible : isBlank c = false) : IsSolid [c] := fun d member => by
  rwa [List.mem_singleton.1 member]

theorem NoBlank.space {p : Char → Bool} (noBlank : NoBlank p) : p ' ' = false :=
  noBlank ' ' (by decide)

theorem NoBlank.visible {p : Char → Bool} (noBlank : NoBlank p) {c : Char} (member : p c = true) :
    isBlank c = false := by
  cases blank : isBlank c with
  | false => rfl
  | true =>
    rw [noBlank c blank] at member
    cases member

theorem noBlank_beq {c : Char} (visible : isBlank c = false) : NoBlank (· == c) := fun d blank => by
  refine beq_eq_false_iff_ne.2 ?_
  rintro rfl
  rw [visible] at blank
  cases blank

theorem noBlank_isMember : NoBlank Identifier.isMember := fun c blank => by
  cases member : Identifier.isMember c with
  | false => rfl
  | true =>
    rw [isBlank_of_isMember member] at blank
    cases blank

theorem noBlank_isWordChar : NoBlank isWordChar := fun _ blank => isWordChar_of_isBlank blank

theorem noBlank_isStart : NoBlank Identifier.isStart := fun c blank => by
  cases starts : Identifier.isStart c with
  | false => rfl
  | true => exact (Identifier.isStart_isMember starts).symm.trans (noBlank_isMember c blank)

/-- Blanks and what stands behind them end a run. -/
theorem NoBlank.edge {p : Char → Bool} (noBlank : NoBlank p) {b : Text} (blanks : Blanks b) {c : Char}
    (plain : p c = false) (t : Text) : ∀ d ∈ (b ++ c :: t).head?, p d = false := by
  intro d first
  cases b with
  | nil =>
    cases first
    exact plain
  | cons e b =>
    cases first
    exact noBlank _ (blanks _ List.mem_cons_self)

/-- A text is read off as visible characters and runs of blanks between them. -/
@[elab_as_elim]
theorem runs_induction {motive : Text → Prop} (nil : motive [])
    (visible : ∀ c s, isBlank c = false → motive s → motive (c :: s))
    (blanks : ∀ b s, b ≠ [] → Blanks b → (∀ c ∈ s.head?, isBlank c = false) → motive s →
      motive (b ++ s)) (s : Text) : motive s :=
  match s with
  | [] => nil
  | c :: s =>
    if blank : isBlank c = true then by
      have isRun : Blanks (c :: s.takeWhile isBlank) := List.forall_mem_cons.2 ⟨blank, blanks_takeWhile s⟩
      have shorter := length_trimStart_le s
      have run := blanks (c :: s.takeWhile isBlank) (trimStart s) (List.cons_ne_nil _ _) isRun
        (head?_trimStart s) (runs_induction nil visible blanks (trimStart s))
      rwa [List.cons_append, takeWhile_append_trimStart] at run
    else visible c s (by simpa using blank) (runs_induction nil visible blanks s)
termination_by s.length

theorem collapsed_run {b s : Text} (nonempty : b ≠ []) (blanks : Blanks b)
    (edge : ∀ c ∈ s.head?, isBlank c = false) : collapsed (b ++ s) = ' ' :: collapsed s := by
  rw [collapsed_blanks_append blanks edge, gap, if_neg nonempty]
  rfl

theorem collapsed_eq_nil_iff {s : Text} : collapsed s = [] ↔ s = [] := by
  constructor
  · intro empty
    cases s with
    | nil => rfl
    | cons c s =>
      cases blank : isBlank c with
      | true =>
        rw [collapsed_of_isBlank blank] at empty
        cases empty
      | false =>
        rw [collapsed_cons blank] at empty
        cases empty
  · rintro rfl
    rfl

theorem collapsed_append_of_last {s t : Text} (edge : ∀ c ∈ s.getLast?, isBlank c = false) :
    collapsed (s ++ t) = collapsed s ++ collapsed t := by
  rcases List.eq_nil_or_concat s with rfl | ⟨front, c, rfl⟩
  · rfl
  · have visible : isBlank c = false := edge c (by simp)
    rw [List.concat_eq_append, List.append_assoc, List.singleton_append,
      collapsed_append_cons visible, collapsed_append_cons visible front []]
    simp

/-- What ends a text ends its collapsed form. -/
theorem collapsed_suffix {s t : Text} (suffix : t <:+ s) : collapsed t <:+ collapsed s := by
  obtain ⟨front, rfl⟩ := suffix
  induction front with
  | nil => exact List.suffix_refl _
  | cons c front ih =>
    refine ih.trans ?_
    rw [List.cons_append, collapsed]
    split
    · split
      · exact List.suffix_refl _
      · exact List.suffix_cons _ _
    · exact List.suffix_cons _ _

/-- A text with gaps has gaps when they are collapsed. -/
theorem isSolid_of_collapsed {s : Text} (solid : IsSolid (collapsed s)) : IsSolid s := by
  induction s using runs_induction with
  | nil => exact solid
  | visible c s visible ih =>
    rw [collapsed_cons visible] at solid
    have others := ih fun d member => solid d (List.mem_cons_of_mem c member)
    intro d member
    rcases List.mem_cons.1 member with rfl | member
    · exact visible
    · exact others d member
  | blanks b s nonempty blanks edge _ =>
    rw [collapsed_run nonempty blanks edge] at solid
    exact absurd (solid ' ' List.mem_cons_self) (by decide)

theorem alike_collapsed (s : Text) : Alike (collapsed s) s :=
  collapsed_collapsed s

theorem Alike.head? {s t : Text} (alike : Alike s t) :
    s.head?.any isBlank = t.head?.any isBlank := by
  rw [← head?_collapsed s, ← head?_collapsed t, show collapsed s = collapsed t from alike]

theorem Alike.blank_cons {s t : Text} (alike : Alike s t) {c d : Char} (blank : isBlank c = true)
    (blank' : isBlank d = true) : Alike (c :: s) (d :: t) := by
  unfold Alike at *
  rw [collapsed, collapsed, if_pos blank, if_pos blank', Alike.head? alike, alike]

theorem Alike.cons {s t : Text} (alike : Alike s t) (c : Char) : Alike (c :: s) (c :: t) := by
  cases blank : isBlank c with
  | true => exact alike.blank_cons blank blank
  | false =>
    unfold Alike at *
    rw [collapsed_cons blank, collapsed_cons blank, alike]

theorem Alike.append_left {s t : Text} (alike : Alike s t) (front : Text) :
    Alike (front ++ s) (front ++ t) := by
  induction front with
  | nil => exact alike
  | cons c front ih => exact ih.cons c

theorem alike_collapsed_append (s t : Text) : Alike (collapsed s ++ t) (s ++ t) := by
  fun_induction collapsed s with
  | case1 => rfl
  | case2 c s blank next ih =>
    have next' : (s ++ t).head?.any isBlank = true := by
      cases s with
      | nil => cases next
      | cons d s => exact next
    refine ih.trans ?_
    rw [List.cons_append, collapsed, if_pos blank, if_pos next']
  | case3 c s blank next ih => exact ih.blank_cons (by decide) blank
  | case4 c s visible ih => exact ih.cons c

/-- The collapsed form of a concatenation depends on the collapsed forms of its parts. -/
theorem Alike.append {s s' t t' : Text} (front : Alike s s') (back : Alike t t') :
    Alike (s ++ t) (s' ++ t') := by
  have left := alike_collapsed_append s t
  have left' := alike_collapsed_append s' t
  rw [show collapsed s = collapsed s' from front] at left
  exact (left.symm.trans left').trans (back.append_left s')

theorem alike_blank_cons {c : Char} (blank : isBlank c = true) {t : Text}
    (next : t.head?.any isBlank = true) : Alike (c :: t) t := by
  unfold Alike
  rw [collapsed, if_pos blank, if_pos next]

theorem alike_cons_space {c : Char} (blank : isBlank c = true) (t : Text) :
    Alike (c :: ' ' :: t) (c :: t) :=
  (alike_blank_cons blank (by simp [isBlank])).trans (Alike.blank_cons rfl (by decide) blank)

/-- A space beside a blank is not seen. -/
theorem alike_insert_space {s t : Text}
    (beside : (s.getLast?.any isBlank || t.head?.any isBlank) = true) :
    Alike (s ++ ' ' :: t) (s ++ t) := by
  rcases Bool.or_eq_true_iff.1 beside with behind | before
  · rcases List.eq_nil_or_concat s with rfl | ⟨front, c, rfl⟩
    · cases behind
    · have blank : isBlank c = true := by simpa using behind
      rw [List.concat_eq_append, List.append_assoc, List.append_assoc]
      exact (alike_cons_space blank t).append_left front
  · exact (alike_blank_cons (by decide) before).append_left s

/-! ## Trimming -/

theorem trimStart_collapsed (s : Text) : trimStart (collapsed s) = collapsed (trimStart s) := by
  induction s using runs_induction with
  | nil => rfl
  | visible c s visible _ =>
    rw [collapsed_cons visible, trimStart_of_first (by simpa using visible),
      trimStart_of_first (by simpa using visible), collapsed_cons visible]
  | blanks b s nonempty blanks edge ih =>
    rw [collapsed_run nonempty blanks edge, trimStart_blanks blanks, ← ih]
    exact trimStart_blanks (blanks_singleton (by decide)) _

theorem collapsed_reverse (s : Text) : collapsed s.reverse = (collapsed s).reverse := by
  induction s using runs_induction with
  | nil => rfl
  | visible c s visible ih =>
    rw [List.reverse_cons, collapsed_append_cons visible, ih, collapsed_cons visible, List.reverse_cons]
    rfl
  | blanks b s nonempty blanks edge ih =>
    have blanks' := blanks.reverse
    have edge' : ∀ c ∈ s.reverse.getLast?, isBlank c = false := by
      rwa [List.getLast?_reverse]
    rw [List.reverse_append, collapsed_append_of_last edge', ih, collapsed_blanks blanks', gap,
      if_neg (by simpa using nonempty), collapsed_run nonempty blanks edge, List.reverse_cons]

theorem trimEnd_collapsed (s : Text) : trimEnd (collapsed s) = collapsed (trimEnd s) := by
  have reversed := trimStart_collapsed s.reverse
  unfold trimStart at reversed
  unfold trimEnd
  rw [← collapsed_reverse, reversed, collapsed_reverse]

theorem trim_collapsed (s : Text) : trim (collapsed s) = collapsed (trim s) := by
  unfold trim
  rw [trimStart_collapsed, trimEnd_collapsed]

theorem Alike.trim {s t : Text} (alike : Alike s t) : Alike (trim s) (trim t) :=
  alike.map fun s => by
    rw [trim_collapsed]
    exact alike_collapsed _

theorem spaced_collapsed (s : Text) : spaced (collapsed s) = spaced s := by
  rw [spaced_eq_trim_collapsed, spaced_eq_trim_collapsed, collapsed_collapsed]

theorem Alike.spaced_eq {s t : Text} (alike : Alike s t) : spaced s = spaced t := by
  rw [spaced_eq_trim_collapsed, spaced_eq_trim_collapsed, show collapsed s = collapsed t from alike]

theorem words_collapsed (s : Text) : words (collapsed s) = words s := by
  fun_induction collapsed s with
  | case1 => rfl
  | case2 c s blank _ ih => rw [ih, words_blank blank]
  | case3 c s blank _ ih => rw [words_blank (by decide), ih, words_blank blank]
  | case4 c s visible ih =>
    have visible' : isBlank c = false := by simpa using visible
    cases s with
    | nil => rfl
    | cons d s =>
      cases next : isBlank d with
      | true =>
        rw [collapsed_of_isBlank next, words_blank (by decide), words_blank next] at ih
        rw [collapsed_of_isBlank next, words_before_blank visible' (by decide), ih,
          words_before_blank visible' next]
      | false =>
        rw [collapsed_cons next] at ih ⊢
        rw [words_within visible' next, ih, words_within visible' next]

/-! ## Runs of a class without blanks -/

section Runs

variable {p : Char → Bool} (noBlank : NoBlank p)

include noBlank

theorem takeWhile_collapsed (s : Text) : (collapsed s).takeWhile p = s.takeWhile p := by
  induction s with
  | nil => rfl
  | cons c s ih =>
    cases blank : isBlank c with
    | true => simp [collapsed_of_isBlank blank, noBlank c blank, noBlank.space]
    | false => rw [collapsed_cons blank, List.takeWhile_cons, List.takeWhile_cons, ih]

theorem dropWhile_collapsed (s : Text) : (collapsed s).dropWhile p = collapsed (s.dropWhile p) := by
  induction s with
  | nil => rfl
  | cons c s ih =>
    cases blank : isBlank c with
    | true => simp [collapsed_of_isBlank blank, noBlank c blank, noBlank.space]
    | false =>
      rw [collapsed_cons blank, List.dropWhile_cons, List.dropWhile_cons, ih]
      split
      · rfl
      · rw [collapsed_cons blank]

theorem any_collapsed (s : Text) : (collapsed s).any p = s.any p := by
  fun_induction collapsed s with
  | case1 => rfl
  | case2 c s blank _ ih => rw [ih, List.any_cons, noBlank c blank, Bool.false_or]
  | case3 c s blank _ ih =>
    rw [List.any_cons, List.any_cons, ih, noBlank c blank, noBlank.space]
  | case4 c s _ ih => rw [List.any_cons, List.any_cons, ih]

end Runs

theorem dropWhile_collapsed_of_blank {p : Char → Bool} (blanks : ∀ c, isBlank c = true → p c = true)
    (s : Text) : (collapsed s).dropWhile p = collapsed (s.dropWhile p) := by
  induction s using runs_induction with
  | nil => rfl
  | visible c s visible ih =>
    rw [collapsed_cons visible, List.dropWhile_cons, List.dropWhile_cons, ih]
    split
    · rfl
    · rw [collapsed_cons visible]
  | blanks b s nonempty isBlanks edge ih =>
    rw [collapsed_run nonempty isBlanks edge, List.dropWhile_cons, if_pos (blanks ' ' (by decide)), ih,
      List.dropWhile_append_of_pos fun c member => blanks c (isBlanks c member)]

theorem takeWhile_collapsed_of_blank {p : Char → Bool} (blanks : ∀ c, isBlank c = true → p c = true)
    (s : Text) : (collapsed s).takeWhile p = collapsed (s.takeWhile p) := by
  induction s using runs_induction with
  | nil => rfl
  | visible c s visible ih =>
    rw [collapsed_cons visible, List.takeWhile_cons, List.takeWhile_cons, ih]
    split
    · rw [collapsed_cons visible]
    · rfl
  | blanks b s nonempty isBlanks edge ih =>
    -- what is taken behind the blanks may be nothing, but does not start with a blank
    have edge' : ∀ c ∈ (s.takeWhile p).head?, isBlank c = false := by
      cases s with
      | nil => exact edge
      | cons c s =>
        rw [List.takeWhile_cons]
        split
        · simpa using edge
        · intro _ none_
          cases none_
    rw [collapsed_run nonempty isBlanks edge, List.takeWhile_cons, if_pos (blanks ' ' (by decide)), ih,
      List.takeWhile_append_of_pos fun c member => blanks c (isBlanks c member),
      collapsed_run nonempty isBlanks edge']

theorem contains_collapsed {c : Char} (visible : isBlank c = false) (s : Text) :
    (collapsed s).contains c = s.contains c := by
  have found := any_collapsed (noBlank_beq visible) s
  simpa only [List.any_beq'] using found

/-! ## Solid needles -/

theorem after?_collapsed {head : Text} (solid : IsSolid head) (s : Text) :
    after? head (collapsed s) = (after? head s).map collapsed := by
  induction head generalizing s with
  | nil => rfl
  | cons h head ih =>
    have visible := solid h List.mem_cons_self
    have others : IsSolid head := fun c member => solid c (List.mem_cons_of_mem h member)
    cases s with
    | nil => rfl
    | cons c s =>
      -- where a blank stands, neither a space nor the blank is the next character of `head`
      cases blank : isBlank c with
      | true =>
        have notSpace : h ≠ ' ' := by rintro rfl; cases visible
        have notFirst : h ≠ c := by
          rintro rfl
          rw [visible] at blank
          cases blank
        rw [collapsed_of_isBlank blank, after?, after?, if_neg notSpace, if_neg notFirst]
        rfl
      | false =>
        rw [collapsed_cons blank, after?, after?]
        split
        · exact ih others s
        · rfl

theorem startsWith_eq_isSome (head s : Text) : startsWith head s = (after? head s).isSome := by
  unfold startsWith
  induction head generalizing s with
  | nil => cases s <;> rfl
  | cons h head ih =>
    cases s with
    | nil => rfl
    | cons c s =>
      rw [List.isPrefixOf, after?, ih]
      by_cases same : h = c <;> simp [same]

theorem startsWith_collapsed {head : Text} (solid : IsSolid head) (s : Text) :
    startsWith head (collapsed s) = startsWith head s := by
  rw [startsWith_eq_isSome, startsWith_eq_isSome, after?_collapsed solid, Option.isSome_map]

theorem endsWith_collapsed {last : Text} (solid : IsSolid last) (s : Text) :
    endsWith last (collapsed s) = endsWith last s := by
  have reversed := startsWith_collapsed solid.reverse s.reverse
  rw [collapsed_reverse] at reversed
  exact reversed

theorem startsWith_of_isBlank {h : Char} {needle : Text} (solid : IsSolid (h :: needle)) {c : Char}
    (blank : isBlank c = true) (s : Text) : startsWith (h :: needle) (c :: s) = false := by
  have other : (h == c) = false := by
    refine beq_eq_false_iff_ne.2 ?_
    rintro rfl
    rw [solid h List.mem_cons_self] at blank
    cases blank
  rw [startsWith, List.isPrefixOf, other, Bool.false_and]

theorem holds_collapsed {c : Char} {needle : Text} (solid : IsSolid (c :: needle)) (s : Text) :
    holds (c :: needle) (collapsed s) = holds (c :: needle) s := by
  have starts := startsWith_collapsed solid
  have noBlank : ∀ d t, isBlank d = true → (c :: needle).isPrefixOf (d :: t) = false := fun _ t blank =>
    startsWith_of_isBlank solid blank t
  fun_induction collapsed s with
  | case1 => rfl
  | case2 d s blank _ ih => rw [ih, holds, noBlank d s blank, Bool.false_or]
  | case3 d s blank _ ih =>
    rw [holds, holds, noBlank d s blank, noBlank ' ' _ (by decide), ih]
  | case4 d s visible ih =>
    have front := starts (d :: s)
    rw [collapsed_cons (by simpa using visible)] at front
    rw [holds, holds, ih]
    exact congrArg (· || holds (c :: needle) s) front

theorem splitLastWord_collapsed (s : Text) :
    splitLastWord (collapsed s) = (collapsed (splitLastWord s).1, (splitLastWord s).2) := by
  have noBlank : NoBlank (!isBlank ·) := fun c blank => by simp [blank]
  unfold splitLastWord
  simp only [trimEnd_collapsed, ← collapsed_reverse, takeWhile_collapsed noBlank,
    dropWhile_collapsed noBlank]

end Text

namespace Identifier

open Text

theorem leading?_collapsed (s : Text) :
    leading? (collapsed s) = (leading? s).map fun found => (found.1, collapsed found.2) := by
  cases s with
  | nil => rfl
  | cons c s =>
    cases blank : isBlank c with
    | true =>
      simp [collapsed_of_isBlank blank, leading?, noBlank_isStart c blank, noBlank_isStart.space]
    | false =>
      rw [collapsed_cons blank, leading?, leading?, takeWhile_collapsed noBlank_isMember,
        dropWhile_collapsed noBlank_isMember]
      split <;> rfl

theorem afterBlanks?_collapsed (s : Text) :
    afterBlanks? (collapsed s) = (afterBlanks? s).map fun found => (found.1, collapsed found.2) := by
  cases s with
  | nil => rfl
  | cons c s =>
    cases blank : isBlank c with
    | true =>
      have trimmed : trimStart (collapsed (trimStart s)) = collapsed (trimStart s) := by
        rw [trimStart_collapsed, trimStart_of_first (head?_trimStart s)]
      rw [collapsed_of_isBlank blank, afterBlanks?, afterBlanks?, if_pos (by decide), if_pos blank, trimmed,
        leading?_collapsed]
    | false =>
      rw [collapsed_cons blank, afterBlanks?, afterBlanks?, if_neg (by simp [blank]),
        if_neg (by simp [blank])]
      rfl

theorem identifiers_collapsed (s : Text) : identifiers (collapsed s) = identifiers s := by
  have passes : ∀ c t, isBlank c = true → identifiers (c :: t) = identifiers t := fun c t blank => by
    rw [identifiers, if_neg (by simp [noBlank_isStart c blank])]
  fun_induction identifiers s with
  | case1 => rw [collapsed_nil, identifiers]
  | case2 c s starts ih =>
    rw [collapsed_cons (noBlank_isStart.visible starts), identifiers, if_pos starts,
      takeWhile_collapsed noBlank_isMember, dropWhile_collapsed noBlank_isMember, ih]
  | case3 c s plain ih =>
    rw [collapsed]
    split
    · split
      · exact ih
      · rw [passes _ _ (by decide), ih]
    · rw [identifiers, if_neg plain, ih]

end Identifier

end ContractInterface
