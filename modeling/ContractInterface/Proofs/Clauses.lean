import ContractInterface.Proofs.CanonicalTexts
import ContractInterface.TypeSyntax.Clause
import ContractInterface.TypeSyntax.Expr
import Mathlib.Data.List.Induction

/-! # Clauses as they are written

A clause is a dotted name with dimensions (`typeText`), storage locations behind it, and perhaps a name
at the end (`IsDecoration`).  Whatever reads clauses drops the blanks and locations and finds the type
and the name (`IsDecoration.clause_eq`).
-/

namespace ContractInterface

open Text TypeSyntax

/-! ## Decorations -/

/-- What stands behind a type in a clause, and the name in it: storage locations and a name, each set
off by blanks.  The name is empty if there is none. -/
inductive IsDecoration : Text → Text → Prop
  | nothing : IsDecoration [] []
  | location {b place rest name : Text} (blanks : Blanks b) (apart : b ≠ [])
      (isPlace : place ∈ storageLocations) (behind : IsDecoration rest name) :
      IsDecoration (b ++ (place ++ rest)) name
  | named {b name : Text} (blanks : Blanks b) (apart : b ≠ []) (plain : IsPlainWord name) :
      IsDecoration (b ++ name) name

/-- A name as it stands behind a type without locations. -/
def setOff (name : Text) : Text :=
  if name = [] then [] else ' ' :: name

theorem isDecoration_setOff {name : Text} (plain : name = [] ∨ IsPlainWord name) :
    IsDecoration (setOff name) name := by
  unfold setOff
  rcases plain with rfl | plain
  · exact .nothing
  · rw [if_neg plain.nonempty]
    exact .named (b := [' ']) (blanks_singleton (by decide)) (List.cons_ne_nil _ _) plain

theorem isWordChar_of_storageLocations : ∀ place ∈ storageLocations,
    place ≠ [] ∧ place ≠ "address".toList ∧ place ≠ "payable".toList ∧
      place.all isWordChar = true := by
  decide

theorem isBlank_of_head?_blanks {b : Text} (blanks : Blanks b) (apart : b ≠ []) (t : Text) :
    ∀ c ∈ (b ++ t).head?, isBlank c = true := by
  intro c first
  rw [List.head?_append_of_ne_nil _ apart] at first
  exact blanks c (List.mem_of_mem_head? first)

/-- A decoration starts with a blank. -/
theorem IsDecoration.first {t name : Text} (decorates : IsDecoration t name) :
    ∀ c ∈ t.head?, isBlank c = true := by
  intro c isFirst
  cases decorates with
  | nothing => cases isFirst
  | location blanks apart _ _ | named blanks apart _ => exact isBlank_of_head?_blanks blanks apart _ c isFirst

theorem IsDecoration.edge {t name : Text} (decorates : IsDecoration t name) :
    ∀ c ∈ t.head?, isWordChar c = false :=
  fun c isFirst => isWordChar_of_isBlank (decorates.first c isFirst)

theorem takeWhile_trimStart_of_blanks {b word rest : Text} (blanks : Blanks b) (nonempty : word ≠ [])
    (letters : ∀ c ∈ word, isWordChar c = true) (edge : ∀ c ∈ rest.head?, isWordChar c = false) :
    (trimStart (b ++ (word ++ rest))).takeWhile isWordChar = word := by
  obtain ⟨c, s, rfl⟩ := List.exists_cons_of_ne_nil nonempty
  have visible : isBlank c = false := by
    apply Bool.eq_false_iff.2
    intro blank
    have letter := letters c List.mem_cons_self
    rw [isWordChar_of_isBlank blank] at letter
    cases letter
  rw [trimStart_blanks blanks, List.cons_append, trimStart_of_first (by simpa using visible),
    ← List.cons_append, takeWhile_append_of_head? edge]
  exact List.takeWhile_eq_self_iff.2 letters

theorem IsDecoration.isUnpaid {t name : Text} (decorates : IsDecoration t name) : IsUnpaid t := by
  refine ⟨decorates.edge, ?_⟩
  cases decorates with
  | nothing => exact (List.cons_ne_nil _ _).symm
  | location blanks _ isPlace behind =>
    obtain ⟨nonempty, _, notPayable, letters⟩ := isWordChar_of_storageLocations _ isPlace
    rw [takeWhile_trimStart_of_blanks blanks nonempty (List.all_eq_true.1 letters) behind.edge]
    exact notPayable
  | @named b name blanks _ plain =>
    have word : (trimStart (b ++ (name ++ []))).takeWhile isWordChar = name :=
      takeWhile_trimStart_of_blanks blanks plain.nonempty plain.letters fun _ isFirst => nomatch isFirst
    rw [List.append_nil] at word
    rw [word]
    exact fun payable => plain.free (payable ▸ List.mem_cons_self)

theorem plainAddress_blanks_append {b : Text} (blanks : Blanks b) (t : Text) :
    plainAddress (b ++ t) = b ++ plainAddress t :=
  replacing_append_of_not_mem (fun c member => isWordChar_of_isBlank (blanks c member)) t

/-- Without a blank nothing follows an address. -/
theorem plainAddress_solid {s : Text} (solid : IsSolid s) : plainAddress s = s := by
  refine plainAddress_eq_self ?_
  rintro ⟨front, gap, rest, isRun, blanks, apart, -⟩
  obtain ⟨c, gap, rfl⟩ := List.exists_cons_of_ne_nil apart
  have visible := solid c (by rw [isRun.whole]; simp)
  rw [blanks c List.mem_cons_self] at visible
  cases visible

theorem blankStorage_blanks_append {b : Text} (blanks : Blanks b) (t : Text) :
    blankStorage (b ++ t) = b ++ blankStorage t :=
  replacing_append_of_not_mem (fun c member => isWordChar_of_isBlank (blanks c member)) t

/-- A storage location becomes a blank. -/
theorem blankStorage_place_append {place : Text} (isPlace : place ∈ storageLocations) {t : Text}
    (edge : ∀ c ∈ t.head?, isWordChar c = false) : blankStorage (place ++ t) = ' ' :: blankStorage t := by
  obtain ⟨nonempty, _, _, letters⟩ := isWordChar_of_storageLocations _ isPlace
  rw [blankStorage_append edge, blankStorage_word nonempty (List.all_eq_true.1 letters), if_pos isPlace,
    List.singleton_append]

/-- Blanks around a text stay where they are, and are left out when it is respaced. -/
theorem withoutStorage_trim (s : Text) : withoutStorage (trim s) = withoutStorage s := by
  obtain ⟨behind, blanks, whole⟩ := exists_blanks_trim s
  have edge : ∀ c ∈ behind.head?, isWordChar c = false := fun c member =>
    isWordChar_of_isBlank (blanks c (List.mem_of_mem_head? member))
  have kept : blankStorage behind = behind := by
    simpa using blankStorage_blanks_append blanks []
  conv_rhs => rw [← whole]
  unfold withoutStorage spaced
  rw [List.append_assoc, blankStorage_blanks_append (blanks_takeWhile s), blankStorage_append edge, kept,
    words_blanks (blanks_takeWhile s), words_append_blanks blanks]

theorem IsDecoration.chars {t name : Text} (decorates : IsDecoration t name) :
    ∀ c ∈ t, isBlank c = true ∨ isWordChar c = true := by
  induction decorates with
  | nothing => exact fun _ member => nomatch member
  | location blanks _ isPlace _ ih =>
    obtain ⟨_, _, _, letters⟩ := isWordChar_of_storageLocations _ isPlace
    intro c member
    rcases List.mem_append.1 member with inBlanks | member
    · exact .inl (blanks c inBlanks)
    · rcases List.mem_append.1 member with inPlace | inRest
      · exact .inr (List.all_eq_true.1 letters c inPlace)
      · exact ih c inRest
  | named blanks _ plain =>
    intro c member
    exact (List.mem_append.1 member).imp (blanks c) (plain.letters c)

theorem IsDecoration.not_mem {t name : Text} (decorates : IsDecoration t name) {c : Char}
    (visible : isBlank c = false) (noLetter : isWordChar c = false) : c ∉ t := by
  intro member
  rcases decorates.chars c member with blank | letter
  · rw [visible] at blank
    cases blank
  · rw [noLetter] at letter
    cases letter

theorem IsDecoration.plainAddress_eq {t name : Text} (decorates : IsDecoration t name) :
    plainAddress t = t := by
  induction decorates with
  | nothing => exact plainAddress_nil
  | location blanks _ isPlace behind ih =>
    obtain ⟨nonempty, _, _, letters⟩ := isWordChar_of_storageLocations _ isPlace
    rw [plainAddress_blanks_append blanks, plainAddress_append behind.isUnpaid, ih,
      plainAddress_word nonempty (List.all_eq_true.1 letters)]
  | named blanks _ plain => rw [plainAddress_blanks_append blanks, plain.plainAddress_eq]

/-- Without its locations a decoration is a name behind blanks. -/
theorem IsDecoration.exists_blanks {t name : Text} (decorates : IsDecoration t name) :
    ∃ b, blankStorage t = b ++ name ∧ Blanks b ∧ (name ≠ [] → b ≠ []) := by
  induction decorates with
  | nothing => exact ⟨[], blankStorage_nil, blanks_nil, fun absurd_ => absurd_⟩
  | @location b place rest name blanks apart isPlace behind ih =>
    obtain ⟨b', isBehind, blanks', _⟩ := ih
    refine ⟨b ++ (' ' :: b'), ?_, ?_, fun _ => by simp⟩
    · rw [blankStorage_blanks_append blanks, blankStorage_place_append isPlace behind.edge, isBehind]
      simp
    · exact blanks.append ((blanks_singleton (c := ' ') (by decide)).append blanks')
  | @named b name blanks apart plain =>
    exact ⟨b, by rw [blankStorage_blanks_append blanks, plain.blankStorage_eq], blanks, fun _ => apart⟩

theorem IsDecoration.name_plain {t name : Text} (decorates : IsDecoration t name) :
    name = [] ∨ IsPlainWord name := by
  induction decorates with
  | nothing => exact .inl rfl
  | location _ _ _ _ ih => exact ih
  | named _ _ plain => exact .inr plain

/-! ## Bare texts -/

/-- A text without decorations and blanks. -/
structure IsBare (t : Text) : Prop where
  nonempty : t ≠ []
  solid : IsSolid t
  blankStorage_eq : blankStorage t = t
  plainAddress_eq : plainAddress t = t

theorem IsPlainWord.solid {word : Text} (plain : IsPlainWord word) : IsSolid word := fun c member =>
  isBlank_of_isMember (isMember_of_isIdentifier plain.identifier c member)

namespace IsBare

variable {t : Text}

theorem isTrimmed_append_setOff (bare : IsBare t) {name : Text} (plain : name = [] ∨ IsPlainWord name) :
    IsTrimmed (t ++ setOff name) := by
  unfold setOff
  rcases plain with rfl | plain
  · rw [if_pos rfl, List.append_nil]
    exact bare.solid.isTrimmed
  · rw [if_neg plain.nonempty]
    rw [← List.singleton_append, ← List.append_assoc]
    exact bare.solid.isTrimmed.around bare.nonempty plain.solid.isTrimmed plain.nonempty [' ']

theorem withoutStorage_append (bare : IsBare t) {behind name : Text}
    (decorates : IsDecoration behind name) : withoutStorage (t ++ behind) = t ++ setOff name := by
  obtain ⟨b, isBehind, blanks, apart⟩ := decorates.exists_blanks
  unfold withoutStorage
  rw [blankStorage_append decorates.edge, bare.blankStorage_eq, isBehind, spaced_eq_trim_collapsed,
    collapsed_solid_append bare.solid]
  have trimmed := bare.isTrimmed_append_setOff decorates.name_plain
  rcases decorates.name_plain with rfl | plain
  · rw [List.append_nil, collapsed_blanks blanks, trim_append_blanks (blanks_gap b),
      bare.solid.isTrimmed.trim_eq]
    exact (List.append_nil t).symm
  · have space : gap b = [' '] := if_neg (apart plain.nonempty)
    rw [collapsed_blanks_append blanks plain.solid.isTrimmed.first, collapsed_solid plain.solid, space]
    unfold setOff at trimmed ⊢
    rw [if_neg plain.nonempty] at trimmed ⊢
    exact trimmed.trim_eq

theorem plainAddress_append (bare : IsBare t) {behind name : Text}
    (decorates : IsDecoration behind name) : plainAddress (t ++ behind) = t ++ behind := by
  rw [ContractInterface.plainAddress_append decorates.isUnpaid, bare.plainAddress_eq,
    decorates.plainAddress_eq]

theorem normalized_append (bare : IsBare t) {behind name : Text}
    (decorates : IsDecoration behind name) : normalized (t ++ behind) = t ++ setOff name := by
  rw [normalized, bare.withoutStorage_append decorates,
    bare.plainAddress_append (isDecoration_setOff decorates.name_plain)]

theorem normalized_eq (bare : IsBare t) : normalized t = t := by
  have whole := bare.normalized_append .nothing
  rw [List.append_nil] at whole
  exact whole.trans (List.append_nil t)

end IsBare

/-! ## Dimensions -/

section Dimensions

open Dimension

theorem isBlank_of_isWordChar {c : Char} (word : isWordChar c = true) : isBlank c = false :=
  isBlank_of_isMember (isMember_of_isWordChar word)

theorem isSolid_sizeText (length : Option Nat) : IsSolid (sizeText length) := fun _ member =>
  isBlank_of_isWordChar (isWordChar_of_mem_sizeText member)

/-- A dimension at the front of a text, with blanks around its size. -/
theorem leading?_written {opened size closed : Text} (opened_blanks : Blanks opened)
    (letters : ∀ c ∈ size, isWordChar c = true) (closed_blanks : Blanks closed) (t : Text) :
    leading? ('[' :: (opened ++ (size ++ (closed ++ ']' :: t)))) = some (size, t) := by
  obtain ⟨gap, gap_blanks, start⟩ := exists_trimStart_around opened_blanks
    (fun c member => isBlank_of_isWordChar (letters c member)) closed_blanks (show isBlank ']' = false by decide) t
  have edge : ∀ c ∈ (gap ++ ']' :: t).head?, isWordChar c = false := by
    intro c first
    cases gap with
    | nil =>
      cases first
      decide
    | cons d gap =>
      cases first
      exact isWordChar_of_isBlank (gap_blanks _ List.mem_cons_self)
  have close : trimStart (gap ++ ']' :: t) = ']' :: t := by
    rw [trimStart_blanks gap_blanks]
    exact trimStart_of_first (by simp; decide)
  unfold leading?
  simp only [start, takeWhile_append_of_head? edge, dropWhile_append_of_head? edge,
    List.takeWhile_eq_self_iff.2 letters, List.dropWhile_eq_nil_iff.2 letters, List.nil_append, close]

theorem trailing?_bracketed {front size : Text} (last : ∀ c ∈ front.getLast?, isBlank c = false)
    (letters : ∀ c ∈ size, isWordChar c = true) : trailing? (front ++ bracketed size) = some (front, size) := by
  have reversed : (front ++ bracketed size).reverse = ']' :: (size.reverse ++ '[' :: front.reverse) := by
    simp [bracketed]
  have letters' : ∀ c ∈ size.reverse, isWordChar c = true := fun c member => letters c (List.mem_reverse.1 member)
  have solid : IsSolid size := fun c member => isBlank_of_isWordChar (letters c member)
  have start : trimStart (size.reverse ++ '[' :: front.reverse) = size.reverse ++ '[' :: front.reverse :=
    trimStart_solid_append solid.reverse (by decide) _
  have inSize : (size.reverse ++ '[' :: front.reverse).takeWhile isWordChar = size.reverse := by
    rw [List.takeWhile_append_of_pos letters', List.takeWhile_cons_of_neg (by decide), List.append_nil]
  have behind : (size.reverse ++ '[' :: front.reverse).dropWhile isWordChar = '[' :: front.reverse := by
    rw [List.dropWhile_append_of_pos letters', List.dropWhile_cons_of_neg (by decide)]
  have opened : trimStart ('[' :: front.reverse) = '[' :: front.reverse :=
    trimStart_of_first (by simp; decide)
  have rest : trimStart front.reverse = front.reverse := trimStart_of_first (by rwa [List.head?_reverse])
  unfold trailing?
  simp only [reversed, start, inSize, behind, opened, rest, List.reverse_reverse]

theorem isSolid_brackets (lengths : List (Option Nat)) : IsSolid (brackets lengths) := by
  intro c member
  rcases mem_brackets member with letter | rfl | rfl
  · exact isBlank_of_isWordChar letter
  · decide
  · decide

section Sizes

variable {sizes : List Text} (words : ∀ size ∈ sizes, ∀ c ∈ size, isWordChar c = true)

include words

theorem isBlank_of_mem_sizes {c : Char} (member : c ∈ sizes.flatMap bracketed) : isBlank c = false := by
  rcases mem_flatMap_bracketed words member with letter | rfl | rfl
  · exact isBlank_of_isWordChar letter
  · decide
  · decide

/-- Dimensions bring in no blank at the end. -/
theorem last_append_sizes {base : Text} (last : ∀ c ∈ base.getLast?, isBlank c = false) :
    ∀ c ∈ (base ++ sizes.flatMap bracketed).getLast?, isBlank c = false := by
  intro c isLast
  rw [List.getLast?_append] at isLast
  cases ends : (sizes.flatMap bracketed).getLast? with
  | none => exact last c (by rwa [ends] at isLast)
  | some d =>
    rw [ends] at isLast
    exact isBlank_of_mem_sizes words (List.mem_of_mem_getLast? (ends.trans isLast))

theorem peel_append_sizes {base : Text} (last : ∀ c ∈ base.getLast?, isBlank c = false ∧ c ≠ ']') :
    peel (base ++ sizes.flatMap bracketed) = (base, sizes) := by
  -- the dimensions are read from the last one on
  induction sizes using List.reverseRecOn with
  | nil =>
    have none_ : trailing? base = none := by
      unfold trailing?
      split
      · rename_i r isReversed
        have isLast : base.getLast? = some ']' := by
          rw [← List.head?_reverse, isReversed]
          rfl
        exact absurd rfl (last ']' isLast).2
      · rfl
    rw [List.flatMap_nil, List.append_nil, peel_of_none none_]
  | append_singleton sizes size ih =>
    obtain ⟨inFront, isWord⟩ := List.forall_mem_append.1 words
    have found := trailing?_bracketed (last_append_sizes inFront fun c isLast => (last c isLast).1)
      (isWord size List.mem_cons_self)
    rw [List.append_assoc] at found
    rw [List.flatMap_append, List.flatMap_singleton, peel_of_some found, ih inFront]

theorem splitTrailing_append_sizes {base : Text} (nonempty : base ≠ []) (trimmed : IsTrimmed base)
    (last : ∀ c ∈ base.getLast?, c ≠ ']') : splitTrailing (base ++ sizes.flatMap bracketed) = (base, sizes) := by
  unfold splitTrailing
  rw [trimEnd_of_last (last_append_sizes words trimmed.last),
    peel_append_sizes words fun c isLast => ⟨trimmed.last c isLast, last c isLast⟩]
  simp only [trimmed.trim_eq, nonempty, if_false]

end Sizes

theorem splitTrailing_append_brackets {base : Text} (nonempty : base ≠ []) (trimmed : IsTrimmed base)
    (last : ∀ c ∈ base.getLast?, c ≠ ']') (lengths : List (Option Nat)) :
    splitTrailing (base ++ brackets lengths) = (base, lengths.map sizeText) := by
  rw [← flatMap_bracketed]
  exact splitTrailing_append_sizes (fun size isSize => (isPlainSize_of_mem size isSize).letters) nonempty trimmed last

theorem leading?_eq_none {s : Text} (other : ∀ c ∈ s.head?, c ≠ '[') : leading? s = none := by
  unfold leading?
  split
  · exact absurd rfl (other '[' rfl)
  · rfl

theorem tightened_nil : tightened [] = [] := by
  rw [tightened.eq_def]

theorem tightened_of_none {c : Char} {s : Text} (none_ : leading? (trimStart (c :: s)) = none) :
    tightened (c :: s) = c :: tightened s := by
  rw [tightened.eq_def]
  simp only
  split
  · rename_i found
    rw [none_] at found
    cases found
  · rfl

theorem tightened_of_some {c : Char} {s size rest : Text}
    (found : leading? (trimStart (c :: s)) = some (size, rest)) :
    tightened (c :: s) = bracketed size ++ tightened rest := by
  rw [tightened.eq_def]
  simp only
  split
  · rename_i found'
    rw [found] at found'
    cases found'
    rfl
  · rename_i none_
    rw [found] at none_
    cases none_

theorem tightened_append {s : Text} (solid : IsSolid s) (plain : '[' ∉ s) (t : Text) :
    tightened (s ++ t) = s ++ tightened t := by
  induction s with
  | nil => rfl
  | cons c s ih =>
    have start : trimStart (c :: (s ++ t)) = c :: (s ++ t) :=
      trimStart_of_first (by simpa using solid c List.mem_cons_self)
    have other : c ≠ '[' := fun same => plain (same ▸ List.mem_cons_self)
    have none_ : leading? (trimStart (c :: (s ++ t))) = none := by
      rw [start]
      exact leading?_eq_none (by simpa using other)
    rw [List.cons_append, tightened_of_none none_,
      ih (fun d member => solid d (List.mem_cons_of_mem c member))
        fun member => plain (List.mem_cons_of_mem c member)]
    rfl

theorem tightened_written {b opened size closed : Text} (blanks : Blanks b) (opened_blanks : Blanks opened)
    (letters : ∀ c ∈ size, isWordChar c = true) (closed_blanks : Blanks closed) (t : Text) :
    tightened (b ++ '[' :: (opened ++ (size ++ (closed ++ ']' :: t)))) = bracketed size ++ tightened t := by
  have start : trimStart (b ++ '[' :: (opened ++ (size ++ (closed ++ ']' :: t)))) =
      '[' :: (opened ++ (size ++ (closed ++ ']' :: t))) := by
    rw [trimStart_blanks blanks]
    exact trimStart_of_first (by simp; decide)
  have found := leading?_written opened_blanks letters closed_blanks t
  rw [← start] at found
  cases b with
  | nil => exact tightened_of_some found
  | cons c b => exact tightened_of_some found

theorem tightened_sizes_append {sizes : List Text} (words : ∀ size ∈ sizes, ∀ c ∈ size, isWordChar c = true)
    (t : Text) : tightened (sizes.flatMap bracketed ++ t) = sizes.flatMap bracketed ++ tightened t := by
  induction sizes with
  | nil => rfl
  | cons size sizes ih =>
    obtain ⟨letters, others⟩ := List.forall_mem_cons.1 words
    have first := tightened_written blanks_nil blanks_nil letters blanks_nil (sizes.flatMap bracketed ++ t)
    rw [List.flatMap_cons, List.append_assoc, List.append_assoc, ← ih others, ← first]
    simp [bracketed]

theorem trimStart_setOff {name : Text} (isName : name = [] ∨ Identifier.isIdentifier name = true) :
    trimStart (setOff name) = name := by
  unfold setOff
  rcases isName with rfl | isName
  · rfl
  · rw [if_neg (ne_nil_of_isIdentifier isName)]
    have first : ∀ c ∈ name.head?, isBlank c = false := fun c isFirst =>
      isBlank_of_isMember (isMember_of_isIdentifier isName c (List.mem_of_mem_head? isFirst))
    exact (trimStart_blanks (b := [' ']) (blanks_singleton (by decide)) name).trans (trimStart_of_first first)

theorem tightened_setOff {name : Text} (isName : name = [] ∨ Identifier.isIdentifier name = true) :
    tightened (setOff name) = setOff name := by
  have start := trimStart_setOff isName
  unfold setOff at start ⊢
  rcases isName with rfl | isName
  · exact tightened_nil
  · have members := isMember_of_isIdentifier isName
    rw [if_neg (ne_nil_of_isIdentifier isName)] at start ⊢
    have noBracket : '[' ∉ name := fun member => absurd (members '[' member) (by decide)
    have none_ : leading? (trimStart (' ' :: name)) = none := by
      rw [start]
      refine leading?_eq_none fun c isFirst => ?_
      rintro rfl
      exact noBracket (List.mem_of_mem_head? isFirst)
    have inner := tightened_append (fun c member => isBlank_of_isMember (members c member)) noBracket []
    rw [tightened_nil, List.append_nil] at inner
    rw [tightened_of_none none_, inner]

end Dimensions

/-! ## Types and names -/

/-- A type without blanks and the name that is set off from it. -/
theorem plain?_append_setOff {c : Char} {s name : Text} (starts : Identifier.isStart c = true)
    (members : ∀ d ∈ s, Clause.isTypeMember d = true)
    (isName : name = [] ∨ Identifier.isIdentifier name = true) :
    Clause.plain? (c :: s ++ setOff name) = some ⟨c :: s, name⟩ := by
  unfold Clause.plain? Clause.leadingType?
  simp only [List.cons_append, starts, if_true, List.takeWhile_append_of_pos members,
    List.dropWhile_append_of_pos members]
  unfold setOff
  rcases isName with rfl | isName
  · simp
  · have space : Clause.isTypeMember ' ' = false := by decide
    have blank : isBlank ' ' = true := by decide
    have start : trimStart name = name := trimStart_of_first fun d isFirst =>
      isBlank_of_isMember (isMember_of_isIdentifier isName d (List.mem_of_mem_head? isFirst))
    simp [ne_nil_of_isIdentifier isName, space, blank, start, isName]

/-- The type and the name that are read from a clause with a type that is read as it stands. -/
theorem IsBare.clause_eq {t : Text} (bare : IsBare t) (first : ∃ c s, t = c :: s ∧ Identifier.isStart c = true)
    (members : ∀ c ∈ t, Clause.isTypeMember c = true)
    (tight : ∀ u, Dimension.tightened (t ++ u) = t ++ Dimension.tightened u) {clause behind name : Text}
    (decorates : IsDecoration behind name) (isWritten : trim clause = t ++ behind) :
    Clause.ofText clause = ⟨t, name⟩ := by
  have isName := decorates.name_plain.imp id IsPlainWord.identifier
  -- without a parenthesis it is no mapping
  have noMapping : Mapping.split? (t ++ behind) = none := by
    have noParen : '(' ∉ t ++ behind := by
      rw [List.mem_append, not_or]
      exact ⟨fun member => absurd (members '(' member) (by decide), decorates.not_mem (by decide) (by decide)⟩
    have trimmed : trim (t ++ behind) = t ++ behind := by
      rw [← isWritten, trim_trim]
    apply Mapping.split?_of_not_isMapping
    rw [trimmed, isMapping_eq_false noParen]
  have found : Clause.plain? (t ++ setOff name) = some ⟨t, name⟩ := by
    obtain ⟨c, s, rfl, starts⟩ := first
    exact plain?_append_setOff starts (fun d member => members d (List.mem_cons_of_mem c member)) isName
  unfold Clause.ofText
  simp only [isWritten, bare.plainAddress_append decorates, noMapping, bare.withoutStorage_append decorates, tight,
    tightened_setOff isName, found, Option.getD_some]

/-! ## Types as they are written -/

/-- The spelling of a type by a dotted name and dimensions. -/
def typeText (parts : List Text) (lengths : List (Option Nat)) : Text :=
  Registry.dotted parts ++ brackets lengths

theorem isBlank_of_isTypeMember {c : Char} (member : Clause.isTypeMember c = true) :
    isBlank c = false := by
  simp only [Clause.isTypeMember, Bool.or_eq_true, beq_iff_eq] at member
  rcases member with ((isMember | rfl) | rfl) | rfl
  · exact isBlank_of_isMember isMember
  · decide
  · decide
  · decide

theorem isTypeMember_of_isReferenceMember {c : Char} (member : Registry.isReferenceMember c = true) :
    Clause.isTypeMember c = true := by
  simp only [Registry.isReferenceMember, Clause.isTypeMember, Bool.or_eq_true] at member ⊢
  exact .inl (.inl member)

theorem isSolid_of_identifiers {parts : List Text}
    (identifiers : ∀ part ∈ parts, Identifier.isIdentifier part = true) : IsSolid (Registry.dotted parts) :=
  fun c member => isBlank_of_isTypeMember
    (isTypeMember_of_isReferenceMember (Registry.isReferenceMember_of_mem_dotted identifiers c member))

section Written

open Registry (dotted dotted_cons_cons)

variable {parts : List Text} (nonempty : parts ≠ []) (plain : ∀ part ∈ parts, IsPlainWord part)

include plain

theorem fixed_dotted {F : Text → Text} (nil : F [] = [])
    (separates : ∀ s t, F (s ++ '.' :: t) = F s ++ '.' :: F t)
    (word : ∀ w, IsPlainWord w → F w = w) : F (dotted parts) = dotted parts := by
  induction parts with
  | nil => exact nil
  | cons part more ih =>
    have first := word part (plain part List.mem_cons_self)
    cases more with
    | nil => rw [Registry.dotted_singleton, first]
    | cons next more =>
      rw [dotted_cons_cons, separates, first, ih fun p member => plain p (List.mem_cons_of_mem part member)]

theorem isReferenceMember_of_mem_plain : ∀ c ∈ dotted parts, Registry.isReferenceMember c = true :=
  Registry.isReferenceMember_of_mem_dotted fun part member => (plain part member).identifier

theorem isTypeMember_of_mem_typeText (lengths : List (Option Nat)) :
    ∀ c ∈ typeText parts lengths, Clause.isTypeMember c = true := by
  intro c member
  unfold Clause.isTypeMember
  rcases List.mem_append.1 member with inName | inBrackets
  · have isMember := isReferenceMember_of_mem_plain plain c inName
    unfold Registry.isReferenceMember at isMember
    simp only [isMember, Bool.true_or]
  · rcases mem_brackets inBrackets with letter | rfl | rfl
    · simp only [isMember_of_isWordChar letter, Bool.true_or]
    · rfl
    · rfl

theorem isMapping_typeText_append (lengths : List (Option Nat)) {behind : Text}
    (noParen : '(' ∉ behind) : isMapping (typeText parts lengths ++ behind) = false := by
  refine isMapping_eq_false fun member => ?_
  rcases List.mem_append.1 member with inType | inBehind
  · exact absurd (isTypeMember_of_mem_typeText plain lengths '(' inType) (by decide)
  · exact noParen inBehind

theorem isSolid_dotted : IsSolid (dotted parts) :=
  isSolid_of_identifiers fun part member => (plain part member).identifier

theorem not_mem_dotted {c : Char} (other : Registry.isReferenceMember c = false) : c ∉ dotted parts :=
  fun member => by simp [isReferenceMember_of_mem_plain plain c member] at other

include nonempty

theorem exists_first_dotted : ∃ c s, dotted parts = c :: s ∧ Identifier.isStart c = true :=
  Registry.exists_first_of_identifiers nonempty fun part member => (plain part member).identifier

theorem isBare_typeText (lengths : List (Option Nat)) : IsBare (typeText parts lengths) where
  nonempty := by
    obtain ⟨c, s, split, _⟩ := exists_first_dotted nonempty plain
    unfold typeText
    rw [split]
    exact List.cons_ne_nil _ _
  solid c member := isBlank_of_isTypeMember (isTypeMember_of_mem_typeText plain lengths c member)
  blankStorage_eq := by
    have words := fixed_dotted plain blankStorage_nil (fun s t => blankStorage_append_cons (by decide) s t)
      fun _ isPlain => isPlain.blankStorage_eq
    unfold typeText
    rw [fixed_append_brackets blankStorage_nil blankStorage_separator blankStorage_sizeText, words]
  plainAddress_eq := by
    have words := fixed_dotted plain plainAddress_nil
      (fun s t => plainAddress_append_cons (by decide) (by decide) s t)
      fun _ isPlain => isPlain.plainAddress_eq
    unfold typeText
    rw [fixed_append_brackets plainAddress_nil plainAddress_separator plainAddress_sizeText, words]

theorem splitTrailing_typeText (lengths : List (Option Nat)) :
    Dimension.splitTrailing (typeText parts lengths) = (dotted parts, lengths.map sizeText) := by
  obtain ⟨c, s, split, _⟩ := exists_first_dotted nonempty plain
  refine splitTrailing_append_brackets (split ▸ List.cons_ne_nil _ _) (isSolid_dotted plain).isTrimmed
    (fun d isLast => ?_) lengths
  rintro rfl
  exact not_mem_dotted plain (by decide) (List.mem_of_mem_getLast? isLast)

/-- The expression that a written type stands for. -/
theorem ofText_typeText (lengths : List (Option Nat)) : Expr.ofText (typeText parts lengths) =
    if lengths = [] then .name (dotted parts)
    else .array (.name (dotted parts)) (lengths.map sizeText) := by
  have ofDotted : Expr.ofText (dotted parts) = .name (dotted parts) := by
    -- without dimensions there is nothing to split off
    have bare := isBare_typeText nonempty plain []
    have split := splitTrailing_typeText nonempty plain []
    have notMapping : isMapping (typeText parts [] ++ []) = false :=
      isMapping_typeText_append plain [] List.not_mem_nil
    unfold typeText at bare split notMapping
    rw [brackets_nil, List.append_nil] at bare split
    rw [brackets_nil, List.append_nil, List.append_nil] at notMapping
    rw [Expr.ofText]
    simp only [bare.normalized_eq, bare.nonempty, if_false, split, List.map_nil, ne_eq,
      not_true_eq_false, dite_false, notMapping, Bool.false_eq_true]
  have bare := isBare_typeText nonempty plain lengths
  have split := splitTrailing_typeText nonempty plain lengths
  by_cases none_ : lengths = []
  · subst none_
    unfold typeText
    rw [brackets_nil, List.append_nil, if_pos rfl, ofDotted]
  · have some_ : lengths.map sizeText ≠ [] := by simpa using none_
    rw [Expr.ofText]
    simp only [bare.normalized_eq, bare.nonempty, if_false, split, ne_eq, some_, not_false_eq_true,
      dite_true, ofDotted, none_]

/-- The type and the name that are read from a written clause. -/
theorem IsDecoration.clause_eq (lengths : List (Option Nat)) {clause behind name : Text}
    (decorates : IsDecoration behind name) (isWritten : trim clause = typeText parts lengths ++ behind) :
    Clause.ofText clause = ⟨typeText parts lengths, name⟩ := by
  refine (isBare_typeText nonempty plain lengths).clause_eq ?_ (isTypeMember_of_mem_typeText plain lengths)
    (fun t => ?_) decorates isWritten
  · obtain ⟨c, s, split, starts⟩ := exists_first_dotted nonempty plain
    unfold typeText
    rw [split]
    exact ⟨c, _, rfl, starts⟩
  · unfold typeText
    rw [List.append_assoc, tightened_append (isSolid_dotted plain) (not_mem_dotted plain (by decide)),
      ← flatMap_bracketed, tightened_sizes_append fun size isSize => (isPlainSize_of_mem size isSize).letters,
      List.append_assoc]

end Written

end ContractInterface
