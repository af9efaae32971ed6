import ContractInterface.Text.Blank
import ContractInterface.Text.Word

/-! # Blanks at the ends of a text

Every text is its trimmed form with blanks on both sides (`exists_blanks_trim`), and blanks on either
side are what trimming does not see (`trim_blanks`).  A text that neither starts nor ends with a blank
is trimmed already. -/

namespace ContractInterface.Text

/-- A text of blanks only. -/
def Blanks (s : Text) : Prop :=
  ∀ c ∈ s, isBlank c = true

/-- A text that neither starts nor ends with a blank. -/
structure IsTrimmed (s : Text) : Prop where
  first : ∀ c ∈ s.head?, isBlank c = false
  last : ∀ c ∈ s.getLast?, isBlank c = false

section Trimmed

variable {s t : Text}

theorem IsTrimmed.first_append (trimmed : IsTrimmed s) (nonempty : s ≠ []) (t : Text) :
    ∀ c ∈ (s ++ t).head?, isBlank c = false := by
  cases s with
  | nil => exact absurd rfl nonempty
  | cons c s => exact trimmed.first

theorem IsTrimmed.append_last (trimmed : IsTrimmed t) (nonempty : t ≠ []) (s : Text) :
    ∀ c ∈ (s ++ t).getLast?, isBlank c = false := by
  have last := List.getLast?_eq_some_getLast nonempty
  rw [List.getLast?_append, last, Option.some_or, ← last]
  exact trimmed.last

/-- Whatever stands between them, two trimmed texts make a trimmed one. -/
theorem IsTrimmed.around (left : IsTrimmed s) (nonempty : s ≠ []) (right : IsTrimmed t) (nonempty' : t ≠ [])
    (between : Text) : IsTrimmed (s ++ between ++ t) where
  first := by
    rw [List.append_assoc]
    exact left.first_append nonempty _
  last := right.append_last nonempty' _

end Trimmed

theorem blanks_nil : Blanks [] := fun _ member => nomatch member

theorem blanks_singleton {c : Char} (blank : isBlank c = true) : Blanks [c] := by
  intro d member
  rw [List.mem_singleton.1 member]
  exact blank

theorem blanks_space : Blanks [' '] :=
  blanks_singleton (by decide)

theorem space_ne_nil : ([' '] : Text) ≠ [] :=
  List.cons_ne_nil _ _

theorem Blanks.append {s t : Text} (left : Blanks s) (right : Blanks t) : Blanks (s ++ t) := by
  intro c member
  rcases List.mem_append.1 member with member | member
  · exact left c member
  · exact right c member

theorem Blanks.reverse {b : Text} (blanks : Blanks b) : Blanks b.reverse := fun c member =>
  blanks c (List.mem_reverse.1 member)

theorem blanks_takeWhile (s : Text) : Blanks (s.takeWhile isBlank) :=
  List.all_eq_true.1 List.all_takeWhile

/-- The blanks by their numbers. -/
def blankCodes : List Nat :=
  [0x09, 0x0a, 0x0b, 0x0c, 0x0d, 0x1c, 0x1d, 0x1e, 0x1f, 0x20, 0x85, 0xa0, 0x1680, 0x2000, 0x2001,
   0x2002, 0x2003, 0x2004, 0x2005, 0x2006, 0x2007, 0x2008, 0x2009, 0x200a, 0x2028, 0x2029, 0x202f,
   0x205f, 0x3000]

theorem toNat_mem_blankCodes {c : Char} (blank : isBlank c = true) : c.toNat ∈ blankCodes := by
  simp only [isBlank, Bool.or_eq_true, Bool.and_eq_true, decide_eq_true_eq, beq_iff_eq] at blank
  simp only [blankCodes, List.mem_cons, List.not_mem_nil, or_false]
  omega

/-- No blank is a word character. -/
theorem isWordChar_of_isBlank {c : Char} (blank : isBlank c = true) : isWordChar c = false := by
  have none_ : ∀ n ∈ blankCodes, isWordChar (Char.ofNat n) = false := by decide +kernel
  have result := none_ c.toNat (toNat_mem_blankCodes blank)
  rwa [Char.ofNat_toNat] at result

/-! ## Blanks are not seen -/

theorem trimStart_blanks {b : Text} (blanks : Blanks b) (s : Text) :
    trimStart (b ++ s) = trimStart s :=
  List.dropWhile_append_of_pos blanks

theorem trimStart_eq_nil {b : Text} (blanks : Blanks b) : trimStart b = [] := by
  rw [← List.append_nil b, trimStart_blanks blanks]
  rfl

theorem trimStart_append (s t : Text) :
    trimStart (s ++ t) = if trimStart s = [] then trimStart t else trimStart s ++ t := by
  unfold trimStart
  rw [List.dropWhile_append]
  simp [List.isEmpty_iff]

theorem trimEnd_blanks {b : Text} (blanks : Blanks b) (s : Text) : trimEnd (s ++ b) = trimEnd s := by
  unfold trimEnd
  rw [List.reverse_append, List.dropWhile_append_of_pos blanks.reverse]

theorem trimStart_of_first {s : Text} (first : ∀ c ∈ s.head?, isBlank c = false) :
    trimStart s = s := by
  cases s with
  | nil => rfl
  | cons c s => exact List.dropWhile_cons_of_neg (by simp [first c rfl])

theorem trimEnd_of_last {s : Text} (last : ∀ c ∈ s.getLast?, isBlank c = false) :
    trimEnd s = s := by
  have first : ∀ c ∈ s.reverse.head?, isBlank c = false := by
    rwa [List.head?_reverse]
  unfold trimEnd
  rw [show s.reverse.dropWhile isBlank = s.reverse from trimStart_of_first first,
    List.reverse_reverse]

theorem IsTrimmed.trim_eq {s : Text} (trimmed : IsTrimmed s) : trim s = s := by
  unfold trim
  rw [trimStart_of_first trimmed.first, trimEnd_of_last trimmed.last]

theorem trimStart_subset (s : Text) : trimStart s ⊆ s :=
  List.dropWhile_subset _

theorem trimEnd_subset (s : Text) : trimEnd s ⊆ s := by
  intro c member
  exact List.mem_reverse.1 (List.dropWhile_subset _ (List.mem_reverse.1 member))

theorem trim_subset (s : Text) : trim s ⊆ s :=
  List.Subset.trans (trimEnd_subset _) (trimStart_subset s)

theorem not_mem_trimStart {c : Char} {s : Text} (absent : c ∉ s) : c ∉ trimStart s :=
  fun member => absent (trimStart_subset s member)

theorem startsWith_eq_false {c : Char} {s : Text} (absent : c ∉ s) : startsWith [c] s = false := by
  cases s with
  | nil => rfl
  | cons d s =>
    have other : c ≠ d := fun same => absent (same ▸ List.mem_cons_self)
    simp [startsWith, List.isPrefixOf, other]

/-! ## Every text is its trimmed form between blanks -/

theorem head?_trimStart (s : Text) : ∀ c ∈ (trimStart s).head?, isBlank c = false := by
  intro c member
  have found := List.head?_dropWhile_not isBlank s
  unfold trimStart at member
  rw [Option.mem_def] at member
  simpa [member] using found

theorem getLast?_trimEnd (s : Text) : ∀ c ∈ (trimEnd s).getLast?, isBlank c = false := by
  intro c member
  unfold trimEnd at member
  rw [List.getLast?_reverse] at member
  exact head?_trimStart s.reverse c member

theorem takeWhile_append_trimStart (s : Text) : s.takeWhile isBlank ++ trimStart s = s :=
  List.takeWhile_append_dropWhile

/-- The blanks behind a text. -/
def blanksBehind (s : Text) : Text :=
  (s.reverse.takeWhile isBlank).reverse

theorem trimEnd_append_blanksBehind (s : Text) : trimEnd s ++ blanksBehind s = s := by
  unfold trimEnd blanksBehind
  rw [← List.reverse_append, List.takeWhile_append_dropWhile, List.reverse_reverse]

theorem blanks_blanksBehind (s : Text) : Blanks (blanksBehind s) :=
  (blanks_takeWhile s.reverse).reverse

/-- A text starts with its leading blanks and its trimmed form. -/
theorem exists_blanks_trim (s : Text) :
    ∃ behind, Blanks behind ∧ s.takeWhile isBlank ++ trim s ++ behind = s := by
  refine ⟨blanksBehind (trimStart s), blanks_blanksBehind _, ?_⟩
  rw [List.append_assoc]
  unfold trim
  rw [trimEnd_append_blanksBehind, takeWhile_append_trimStart]

theorem isTrimmed_trim (s : Text) : IsTrimmed (trim s) where
  last := getLast?_trimEnd (trimStart s)
  first := by
    intro c member
    refine head?_trimStart s c ?_
    have whole := trimEnd_append_blanksBehind (trimStart s)
    unfold trim at member
    rw [← whole, List.head?_append]
    simp only [Option.mem_def] at member
    simp [member]

instance (s : Text) : Decidable (IsTrimmed s) :=
  decidable_of_iff (trim s = s) ⟨fun same => same ▸ isTrimmed_trim s, IsTrimmed.trim_eq⟩

@[simp] theorem trim_trim (s : Text) : trim (trim s) = trim s :=
  (isTrimmed_trim s).trim_eq

/-- Trimming drops blanks on both sides, unless there is nothing between them. -/
theorem trim_blanks {a b s : Text} (before : Blanks a) (behind : Blanks b) (trimmed : IsTrimmed s) :
    trim (a ++ s ++ b) = s := by
  cases s with
  | nil =>
    rw [List.append_nil]
    have nothing : trimStart (a ++ b) = [] := trimStart_eq_nil (before.append behind)
    unfold trim
    rw [nothing]
    rfl
  | cons c s =>
    unfold trim
    rw [List.append_assoc, trimStart_blanks before]
    have first : trimStart ((c :: s) ++ b) = (c :: s) ++ b :=
      trimStart_of_first (by simpa using trimmed.first)
    rw [first, trimEnd_blanks behind, trimEnd_of_last trimmed.last]

theorem trim_append_blanks {b : Text} (blanks : Blanks b) (s : Text) : trim (s ++ b) = trim s := by
  obtain ⟨behind, blanksBehind, whole⟩ := exists_blanks_trim s
  have split : s ++ b = s.takeWhile isBlank ++ trim s ++ (behind ++ b) := by
    rw [← List.append_assoc, whole]
  rw [split]
  exact trim_blanks (blanks_takeWhile s) (blanksBehind.append blanks) (isTrimmed_trim s)

/-- Trimming behind a visible character does not reach what stands in front of it. -/
theorem trimEnd_append_of_visible {s t : Text} (visible : ∃ c ∈ t, isBlank c = false) :
    trimEnd (s ++ t) = s ++ trimEnd t := by
  have reached : (t.reverse.dropWhile isBlank).isEmpty = false := by
    apply Bool.eq_false_iff.2
    intro empty
    obtain ⟨c, member, isVisible⟩ := visible
    have blanks : Blanks t.reverse := by
      rw [← takeWhile_append_trimStart t.reverse]
      unfold trimStart
      rw [List.isEmpty_iff.1 empty, List.append_nil]
      exact blanks_takeWhile _
    have blank := blanks c (List.mem_reverse.2 member)
    rw [isVisible] at blank
    cases blank
  unfold trimEnd
  rw [List.reverse_append, List.dropWhile_append, reached]
  simp

theorem trim_blanks_append {b : Text} (blanks : Blanks b) (s : Text) : trim (b ++ s) = trim s := by
  unfold trim
  rw [trimStart_blanks blanks]

end ContractInterface.Text
