import ContractInterface.Proofs.MappingSpellings
import ContractInterface.Proofs.TypeParts

/-! # Normalizing a part of a normalized type

A normalized type names no storage location (`blankStorage_normalized`), and no part of it does.  Such a part
need not be normal itself, since an `address payable` in front of another `payable` stays.  But normalizing it
once more makes nothing a mapping that is none (`isMapping_normalized`), and gives no mapping a value that it
does not have (`isSome_behindArrow?_of_normalized`).
-/

namespace ContractInterface

open Text TypeSyntax Delimiter

/-! ## Texts with plain addresses -/

/-- Making addresses plain leaves a run as it is, and drops what makes it payable behind it. -/
theorem exists_plainAddress_run_append {run rest : Text} (nonempty : run ≠ [])
    (isRun : ∀ c ∈ run, isWordChar c = true) (edge : ∀ c ∈ rest.head?, isWordChar c = false) :
    ∃ gone behind, rest = gone ++ behind ∧ (∀ c ∈ behind.head?, isWordChar c = false) ∧
      plainAddress (run ++ rest) = run ++ plainAddress behind ∧ (gone = [] ∨ run = "address".toList) := by
  let read? : Text → Text → Option (Text × Nat) := fun word rest =>
    if word = "address".toList then (payableLength? rest).map ("address".toList, ·) else none
  have whole := @replacing_run_append _ read? _ _ nonempty isRun edge
  simp only [read?] at whole
  by_cases isAddress : run = "address".toList
  · subst isAddress
    cases found : payableLength? rest with
    | none =>
      simp only [if_true, found, Option.map_none] at whole
      exact ⟨[], rest, rfl, edge, whole, .inl rfl⟩
    | some n =>
      simp only [if_true, found, Option.map_some] at whole
      obtain ⟨⟨_, isPayable⟩, rfl⟩ := payableLength?_eq_some_iff.1 found
      have split := List.takeWhile_append_dropWhile (p := isWordChar) (l := trimStart rest)
      rw [isPayable] at split
      -- what is dropped ends with the word `payable`, so behind it stands no character of a word
      have left : rest.drop (rest.length - (trimStart rest).length + "payable".toList.length) =
          (trimStart rest).dropWhile isWordChar := by
        have suffix : trimStart rest <:+ rest := List.dropWhile_suffix _
        conv_lhs => rw [drop_of_suffix suffix, ← split]
        exact List.drop_left
      refine ⟨_, _, (List.take_append_drop _ rest).symm, ?_, whole, .inr rfl⟩
      rw [left]
      exact head?_dropWhile _
  · simp only [if_neg isAddress] at whole
    exact ⟨[], rest, rfl, edge, whole, .inl rfl⟩

/-- What holds of texts put together from words and other characters holds of texts with plain addresses. -/
theorem plainAddress_induction {motive : Text → Text → Prop} (nil : motive [] [])
    (plain : ∀ c s, isWordChar c = false → motive s (plainAddress s) → motive (c :: s) (c :: plainAddress s))
    (run : ∀ run gone behind, run ≠ [] → (∀ c ∈ run, isWordChar c = true) →
      (∀ c ∈ behind.head?, isWordChar c = false) → (gone = [] ∨ run = "address".toList) →
      motive behind (plainAddress behind) → motive (run ++ (gone ++ behind)) (run ++ plainAddress behind))
    (s : Text) : motive s (plainAddress s) := by
  induction s using spans_induction (p := isWordChar) with
  | nil => rwa [plainAddress_nil]
  | plain c s notWord ih =>
    rw [plainAddress_cons notWord]
    exact plain c s notWord ih
  | run word rest nonempty isRun edge ih =>
    obtain ⟨gone, behind, rfl, edge', whole, kind⟩ := exists_plainAddress_run_append nonempty isRun edge
    have others := ih gone.length
    rw [List.drop_left] at others
    rw [whole]
    exact run word gone behind nonempty isRun edge' kind others

/-- A text in which an address was made plain has a letter of it. -/
theorem plainAddress_eq_or_mem (s : Text) : plainAddress s = s ∨ 'd' ∈ plainAddress s := by
  refine plainAddress_induction (motive := fun s plain => plain = s ∨ 'd' ∈ plain) (.inl rfl) ?_ ?_ s
  · exact fun c _ _ ih => ih.imp (congrArg (c :: ·)) (List.mem_cons_of_mem c)
  · rintro run gone behind - - - (rfl | rfl) ih
    · exact ih.imp (congrArg (run ++ ·)) (List.mem_append_right run)
    · exact .inr (List.mem_append_left _ (by decide))

theorem plainAddress_eq_nil_iff {s : Text} : plainAddress s = [] ↔ s = [] := by
  constructor
  · intro empty
    rcases plainAddress_eq_or_mem s with same | member
    · rw [← same, empty]
    · rw [empty] at member
      cases member
  · rintro rfl
    exact plainAddress_nil

theorem head?_plainAddress (s : Text) : (plainAddress s).head? = s.head? := by
  refine plainAddress_induction (motive := fun s plain => plain.head? = s.head?) rfl (fun _ _ _ _ => rfl) ?_ s
  intro run gone behind nonempty _ _ _ _
  rw [List.head?_append_of_ne_nil _ nonempty, List.head?_append_of_ne_nil _ nonempty]

/-- A text ends as before, or with a word. -/
theorem last_plainAddress {s : Text} (last : ∀ c ∈ s.getLast?, isBlank c = false) :
    ∀ c ∈ (plainAddress s).getLast?, isBlank c = false := by
  revert last
  refine plainAddress_induction (motive := fun s plain => (∀ c ∈ s.getLast?, isBlank c = false) →
    ∀ c ∈ plain.getLast?, isBlank c = false) id ?_ ?_ s
  · intro c s _ ih last d isLast
    cases s with
    | nil => exact last d (by rwa [plainAddress_nil] at isLast)
    | cons e s =>
      have nonempty : plainAddress (e :: s) ≠ [] := mt plainAddress_eq_nil_iff.1 (List.cons_ne_nil e s)
      rw [← List.singleton_append, List.getLast?_append_of_ne_nil _ nonempty] at isLast
      exact ih (fun f isLast => last f (by rwa [List.getLast?_cons_cons])) d isLast
  · intro run gone behind nonempty isRun _ _ ih last d isLast
    by_cases empty : behind = []
    · rw [empty, plainAddress_nil, List.append_nil] at isLast
      exact noBlank_isWordChar.visible (isRun d (List.mem_of_mem_getLast? isLast))
    · rw [List.getLast?_append_of_ne_nil _ (mt plainAddress_eq_nil_iff.1 empty)] at isLast
      refine ih (fun f isLast => last f ?_) d isLast
      rwa [← List.append_assoc, List.getLast?_append_of_ne_nil _ empty]

theorem isTrimmed_plainAddress {s : Text} (trimmed : IsTrimmed s) : IsTrimmed (plainAddress s) :=
  ⟨fun c first => trimmed.first c (head?_plainAddress s ▸ first), last_plainAddress trimmed.last⟩

theorem isTrimmed_spaced (s : Text) : IsTrimmed (spaced s) := by
  rw [spaced_eq_trim_collapsed]
  exact isTrimmed_trim _

theorem isTrimmed_normalized (s : Text) : IsTrimmed (normalized s) :=
  isTrimmed_plainAddress (isTrimmed_spaced _)

/-! ### Storage locations -/

theorem blankStorage_of_append {s t : Text} (edge : ∀ c ∈ t.head?, isWordChar c = false)
    (unlocated : blankStorage (s ++ t) = s ++ t) : blankStorage s = s ∧ blankStorage t = t := by
  have first := length_blankStorage_le s
  have second := length_blankStorage_le t
  rw [blankStorage_append edge] at unlocated
  have same := congrArg List.length unlocated
  simp only [List.length_append] at same
  exact ⟨blankStorage_eq_of_length_le (by omega), blankStorage_eq_of_length_le (by omega)⟩

/-- Without storage locations before, there are none after addresses are made plain. -/
theorem blankStorage_plainAddress {s : Text} (unlocated : blankStorage s = s) :
    blankStorage (plainAddress s) = plainAddress s := by
  revert unlocated
  refine plainAddress_induction (motive := fun s plain => blankStorage s = s → blankStorage plain = plain)
    id ?_ ?_ s
  · intro c s notWord ih unlocated
    rw [blankStorage_cons notWord] at unlocated ⊢
    rw [ih (List.cons.inj unlocated).2]
  · intro run gone behind nonempty isRun edge kind ih unlocated
    have edge' : ∀ c ∈ (plainAddress behind).head?, isWordChar c = false := by
      rwa [head?_plainAddress]
    rw [← List.append_assoc] at unlocated
    have parts := blankStorage_of_append edge unlocated
    rw [blankStorage_append edge', ih parts.2]
    congr 1
    rcases kind with rfl | rfl
    · simpa using parts.1
    · rw [blankStorage_word nonempty isRun, if_neg (by decide)]

theorem length_collapsed_le (s : Text) : (collapsed s).length ≤ s.length := by
  induction s with
  | nil => exact Nat.le_refl 0
  | cons c s ih =>
    rw [collapsed]
    split
    · split <;> simp only [List.length_cons] <;> omega
    · exact Nat.succ_le_succ ih

theorem blankStorage_spaced {s : Text} (unlocated : blankStorage s = s) :
    blankStorage (spaced s) = spaced s := by
  have collapsed_ : blankStorage (collapsed s) = collapsed s := by
    have alike : collapsed (blankStorage (collapsed s)) = collapsed (blankStorage s) :=
      alike_replacing noBlank_isWordChar readsCollapsed_storage s
    rw [unlocated] at alike
    refine blankStorage_eq_of_length_le ?_
    conv_lhs => rw [← alike]
    exact length_collapsed_le _
  rw [spaced_eq_trim_collapsed]
  exact (IsPart.trim _).blankStorage_eq collapsed_

theorem blankStorage_normalized (s : Text) : blankStorage (normalized s) = normalized s :=
  blankStorage_plainAddress (blankStorage_spaced (blankStorage_blankStorage s))

/-! ## Mappings with plain addresses -/

namespace TypeSyntax

theorem isMapping_blanks_append {b : Text} (blanks : Blanks b) (s : Text) :
    isMapping (b ++ s) = isMapping s := by
  unfold isMapping
  rw [trimStart_blanks blanks]

theorem Mapping.head_append (gap t : Text) : head gap ++ t = "mapping".toList ++ (gap ++ t) :=
  List.append_assoc _ _ _

theorem exists_of_isMapping {s : Text} (mapping : isMapping s = true) : ∃ before gap inner, Blanks before ∧
    Blanks gap ∧ s = before ++ (Mapping.head gap ++ '(' :: inner) := by
  unfold isMapping at mapping
  split at mapping
  · rename_i rest isRest
    have word := after?_eq_some.1 isRest
    have split := takeWhile_append_trimStart s
    have splitRest := takeWhile_append_trimStart rest
    cases opens : trimStart rest with
    | nil =>
      rw [opens] at mapping
      cases mapping
    | cons c inner =>
      rw [opens] at mapping splitRest
      obtain rfl : '(' = c := by
        simpa [startsWith, List.isPrefixOf] using mapping
      refine ⟨_, _, inner, blanks_takeWhile s, blanks_takeWhile rest, ?_⟩
      rw [Mapping.head_append, splitRest, ← word, split]
  · cases mapping

theorem takeWhile_noOpen {front : Text} (noOpen : '(' ∉ front) (behind : Text) :
    (front ++ '(' :: behind).takeWhile (!isOpenParen ·) = front := by
  have others : ∀ c ∈ front, (!isOpenParen c) = true := by
    intro c member
    have other : c ≠ '(' := fun same => noOpen (same ▸ member)
    simp [isOpenParen, other]
  rw [List.takeWhile_append_of_pos others, List.takeWhile_cons_of_neg (by decide), List.append_nil]

/-- A mapping starts with its word, behind blanks and in front of its first parenthesis. -/
theorem isMapping_append_cons_iff {front : Text} (noOpen : '(' ∉ front) (behind : Text) :
    isMapping (front ++ '(' :: behind) = true ↔ trim front = "mapping".toList := by
  have solid : IsSolid "mapping".toList := isSolid_of_all (by decide)
  constructor
  · intro mapping
    obtain ⟨before, gap, inner, blanks, blanks', whole⟩ := exists_of_isMapping mapping
    have noOpen' : '(' ∉ before ++ Mapping.head gap := by
      rw [List.mem_append, not_or]
      exact ⟨(Mapping.isFlat_of_blanks blanks).noOpen, (Mapping.isFlat_head blanks').noOpen⟩
    have cut := takeWhile_noOpen noOpen behind
    rw [whole, ← List.append_assoc, takeWhile_noOpen noOpen'] at cut
    have trimmed := trim_blanks blanks blanks' solid.isTrimmed
    rw [List.append_assoc] at trimmed
    rw [← cut]
    exact trimmed
  · intro word
    obtain ⟨gap, blanks, whole⟩ := exists_blanks_trim front
    rw [word, List.append_assoc] at whole
    rw [← whole, List.append_assoc, isMapping_blanks_append (blanks_takeWhile front)]
    exact Mapping.isMapping_head_append blanks behind

theorem trim_plainAddress_eq_iff (s : Text) :
    trim (plainAddress s) = "mapping".toList ↔ trim s = "mapping".toList := by
  constructor
  · intro word
    rcases plainAddress_eq_or_mem s with same | member
    · rwa [same] at word
    · have inWord := mem_trim (by decide) member
      rw [word] at inWord
      exact absurd inWord (by decide)
  · intro word
    have unpaid : ¬PaysAddress s := fun pays => by
      have inside : 'y' ∈ s := pays.isInfix.subset (by decide)
      have inWord := mem_trim (by decide) inside
      rw [word] at inWord
      exact absurd inWord (by decide)
    rwa [plainAddress_eq_self unpaid]

/-- Making addresses plain makes nothing a mapping, and no mapping something else. -/
theorem isMapping_plainAddress (s : Text) : isMapping (plainAddress s) = isMapping s := by
  by_cases opens : '(' ∈ s
  · obtain ⟨front, behind, rfl, noOpen⟩ := List.eq_append_cons_of_mem opens
    have noOpen' : '(' ∉ plainAddress front := fun member => noOpen (plainAddress_subset front member)
    rw [plainAddress_append_cons (by decide) (by decide), Bool.eq_iff_iff,
      isMapping_append_cons_iff noOpen, isMapping_append_cons_iff noOpen', trim_plainAddress_eq_iff]
  · rw [isMapping_eq_false opens, isMapping_eq_false fun member => opens (plainAddress_subset s member)]

namespace Mapping

/-! ### Places -/

/-- A character that mappings are taken apart at. -/
def isMark (c : Char) : Bool :=
  "()=>".toList.contains c

theorem isBlank_of_isMark {c : Char} (mark : isMark c = true) : isBlank c = false := by
  have noBlank : ("()=>".toList.all fun c => !isBlank c) = true := by decide
  exact eq_false_of_all noBlank c (List.contains_iff_mem.1 mark)

theorem isWordChar_of_isMark {c : Char} (mark : isMark c = true) : isWordChar c = false := by
  have noWordChar : ("()=>".toList.all fun c => !isWordChar c) = true := by decide
  exact eq_false_of_all noWordChar c (List.contains_iff_mem.1 mark)

/-- A text without marks is flat. -/
theorem isFlat_of_noMark {s : Text} (noMark : ∀ c ∈ s, isMark c = false) : IsFlat s := by
  intro c member
  have other := noMark c member
  have notOpen : c ≠ '(' := by rintro rfl; cases other
  have notClose : c ≠ ')' := by rintro rfl; cases other
  refine ⟨?_, by rintro rfl; cases other⟩
  simp [parenStep, step, isOpenParen, isCloseParen, notOpen, notClose]

/-- A text is read as marks and as parts between them. -/
@[elab_as_elim]
theorem marks_induction {motive : Text → Prop} (nil : motive [])
    (mark : ∀ c s, isMark c = true → motive s → motive (c :: s))
    (plain : ∀ part rest, (∀ c ∈ part, isMark c = false) → (∀ c ∈ rest.head?, isMark c = true) →
      motive rest → motive (part ++ rest)) (s : Text) : motive s := by
  induction s using spans_induction (p := fun c => !isMark c) with
  | nil => exact nil
  | plain c s isMark_ ih => exact mark c s (by simpa using isMark_) ih
  | run part rest _ noMark edge ih =>
    refine plain part rest (by simpa using noMark) (by simpa using edge) ?_
    have others := ih 0
    rwa [List.drop_zero] at others

/-- The place in a text with plain addresses that corresponds to a place in the text. -/
def plainPlace (s : Text) (place : Nat) : Nat :=
  (plainAddress (s.take place)).length

theorem plainAddress_append_of_mark {part rest : Text} (edge : ∀ c ∈ rest.head?, isMark c = true) :
    plainAddress (part ++ rest) = plainAddress part ++ plainAddress rest := by
  cases rest with
  | nil => simp
  | cons c rest =>
    have mark : isMark c = true := edge c rfl
    rw [plainAddress_append_cons (isBlank_of_isMark mark) (isWordChar_of_isMark mark),
      plainAddress_cons (isWordChar_of_isMark mark)]

theorem plainPlace_cons {c : Char} (mark : isMark c = true) (s : Text) (place : Nat) :
    plainPlace (c :: s) (place + 1) = plainPlace s place + 1 := by
  rw [plainPlace, List.take_succ_cons, plainAddress_cons (isWordChar_of_isMark mark)]
  rfl

theorem plainPlace_append {part rest : Text} (edge : ∀ c ∈ rest.head?, isMark c = true) (place : Nat) :
    plainPlace (part ++ rest) (part.length + place) = (plainAddress part).length + plainPlace rest place := by
  have edge' : ∀ c ∈ (rest.take place).head?, isMark c = true := by
    intro c first
    rw [List.head?_take] at first
    split at first
    · cases first
    · exact edge c first
  rw [plainPlace, List.take_length_add_append, plainAddress_append_of_mark edge', List.length_append]
  rfl

theorem startsWith_arrow_cons (c : Char) (s : Text) :
    startsWith arrow (c :: s) = ('=' == c && s.head? == some '>') := by
  have isArrow : arrow = ['=', '>'] := rfl
  rw [isArrow]
  cases s with
  | nil => simp [startsWith, List.isPrefixOf]
  | cons d s => exact congrArg ('=' == c && ·) ((Bool.and_true _).trans BEq.comm)

@[simp] theorem plainPlace_zero (s : Text) : plainPlace s 0 = 0 := by
  simp [plainPlace]

/-- The first arrow stands at the corresponding place. -/
theorem findAtDepth?_plainAddress {depth : Int} (inside : 0 ≤ depth) (s : Text) :
    findAtDepth? arrow 1 depth (plainAddress s) = (findAtDepth? arrow 1 depth s).map (plainPlace s) := by
  -- an arrow is made of marks, so the words between them neither hold one nor change the depth
  induction s using marks_induction generalizing depth with
  | nil => simp [findAtDepth?]
  | mark c s mark ih =>
    have starts : startsWith arrow (c :: plainAddress s) = startsWith arrow (c :: s) := by
      rw [startsWith_arrow_cons, startsWith_arrow_cons, head?_plainAddress]
    rw [plainAddress_cons (isWordChar_of_isMark mark), findAtDepth?, findAtDepth?, starts]
    split
    · rfl
    · rename_i goesOn
      split
      · simp
      · rw [ih (Int.not_lt.1 goesOn), Option.map_map, Option.map_map]
        congr 1
        funext place
        exact (plainPlace_cons mark s place).symm
  | plain part rest noMark edge ih =>
    have flat := isFlat_of_noMark noMark
    have flat' : IsFlat (plainAddress part) := fun c member => flat c (plainAddress_subset part member)
    rw [plainAddress_append_of_mark edge]
    unfold arrow at ih ⊢
    rw [show "=>".toList = ['=', '>'] from rfl] at ih ⊢
    rw [findAtDepth?_append_of_flat inside flat.steps fun _ => flat.noArrow,
      findAtDepth?_append_of_flat inside flat'.steps fun _ => flat'.noArrow, ih inside, Option.map_map,
      Option.map_map]
    congr 1
    funext place
    exact (plainPlace_append edge place).symm

theorem closeFrom?_plainAddress {depth : Int} (inside : 0 < depth) (s : Text) :
    closeFrom? isOpenParen isCloseParen depth (Literal.unquotedMarks (plainAddress s)) =
      (closeFrom? isOpenParen isCloseParen depth (Literal.unquotedMarks s)).map (plainPlace s) := by
  -- marks change the depth and are kept; between marks nothing does, and only there something is dropped
  induction s using marks_induction generalizing depth with
  | nil => simp [Literal.unquotedMarks, closeFrom?]
  | mark c s mark ih =>
    have succ : (plainPlace (c :: s) ∘ fun place => place + 1) = (· + 1) ∘ plainPlace s :=
      funext (plainPlace_cons mark s)
    have marks_ : ∀ t, Literal.unquotedMarks (c :: t) = ⟨c, false⟩ :: Literal.unquotedMarks t := fun _ => rfl
    rw [plainAddress_cons (isWordChar_of_isMark mark), marks_, marks_]
    by_cases opens : c = '('
    · subst opens
      rw [closeFrom?_open, closeFrom?_open, ih (by omega), Option.map_map, Option.map_map, succ]
    by_cases closes : c = ')'
    · subst closes
      by_cases last : depth = 1
      · subst last
        simp [closeFrom?_close_one]
      · rw [closeFrom?_close _ last, closeFrom?_close _ last, ih (by omega), Option.map_map, Option.map_map, succ]
    · have flat : parenStep c = 0 := by
        simp [parenStep, step, isOpenParen, isCloseParen, opens, closes]
      have passes := isBalanced_char flat depth inside
      have singleton : Literal.unquotedMarks [c] = [⟨c, false⟩] := rfl
      simp only [singleton, List.singleton_append, List.length_singleton] at passes
      rw [passes, passes, ih inside, Option.map_map, Option.map_map, succ]
  | plain part rest noMark edge ih =>
    have flat := isFlat_of_noMark noMark
    have flat' : IsFlat (plainAddress part) := fun c member => flat c (plainAddress_subset part member)
    have marks_ : ∀ s t, Literal.unquotedMarks (s ++ t) = Literal.unquotedMarks s ++ Literal.unquotedMarks t :=
      fun _ _ => List.map_append
    rw [plainAddress_append_of_mark edge, marks_, marks_, flat.isBalanced _ inside, flat'.isBalanced _ inside,
      ih inside, Option.map_map, Option.map_map]
    congr 1
    funext place
    simp only [Function.comp_apply]
    rw [Nat.add_comm place, plainPlace_append edge, Nat.add_comm]

theorem closeIndex?_plainAddress (s : Text) :
    closeIndex? (plainAddress s) = (closeIndex? s).map (plainPlace s) := by
  by_cases opens : '(' ∈ s
  · obtain ⟨front, behind, rfl, noOpen⟩ := List.eq_append_cons_of_mem opens
    have noOpen' : '(' ∉ plainAddress front := fun member => noOpen (plainAddress_subset front member)
    have edge : ∀ c ∈ ('(' :: behind).head?, isMark c = true := by simp; decide
    -- the match is searched from the first opening parenthesis, at depth one
    have found : ∀ {t : Text} (u : Text), '(' ∉ t → closeIndex? (t ++ '(' :: u) =
        (closeFrom? isOpenParen isCloseParen 1 (Literal.unquotedMarks u)).map fun place => t.length + (place + 1) := by
      intro t u none_
      have first : openIndex (t ++ '(' :: u) = t.length := by
        rw [openIndex_eq_length, takeWhile_noOpen none_]
      unfold closeIndex? matchingPlainParen?
      have marks : Literal.unquotedMarks ('(' :: u) = ⟨'(', false⟩ :: Literal.unquotedMarks u := rfl
      rw [first, List.drop_left, marks, closeFrom?_open, Option.map_map]
      rfl
    rw [plainAddress_append_cons (by decide) (by decide), found _ noOpen, found _ noOpen',
      closeFrom?_plainAddress (by decide), Option.map_map, Option.map_map]
    congr 1
    funext place
    simp only [Function.comp_apply]
    rw [plainPlace_append edge, plainPlace_cons (by decide)]
  · have none_ : ∀ t : Text, '(' ∉ t → closeIndex? t = none := by
      intro t noOpen
      have all : ∀ c ∈ t, (!isOpenParen c) = true := by
        intro c member
        have other : c ≠ '(' := fun same => noOpen (same ▸ member)
        simp [isOpenParen, other]
      unfold closeIndex?
      rw [drop_openIndex, List.dropWhile_eq_nil_iff.2 all]
      rfl
    rw [none_ _ opens, none_ _ fun member => opens (plainAddress_subset s member)]
    rfl

/-- Behind a mark, or at the same place, a place corresponds to none before. -/
theorem plainPlace_le {s : Text} {i j : Nat} (order : i ≤ j) {c : Char} (stands : s[i]? = some c)
    (mark : isMark c = true) : plainPlace s i ≤ plainPlace s j := by
  rcases Nat.eq_or_lt_of_le order with rfl | before
  · exact Nat.le_refl _
  · have edge : ∀ d ∈ ((s.take j).drop i).head?, isMark d = true := by
      intro d first
      rw [List.head?_drop, List.getElem?_take_of_lt before, stands] at first
      cases first
      exact mark
    have front : (s.take j).take i = s.take i := by
      rw [List.take_take, Nat.min_eq_left order]
    unfold plainPlace
    rw [← List.take_append_drop i (s.take j), plainAddress_append_of_mark edge, front, List.length_append]
    exact Nat.le_add_right _ _

/-- An arrow stays as wide as it is. -/
theorem plainPlace_arrow {s : Text} {arrowAt : Nat} (found : arrowIndex? s = some arrowAt) :
    plainPlace s (arrowAt + 2) = plainPlace s arrowAt + 2 := by
  obtain ⟨rest, behind⟩ := exists_of_findAtDepth? found
  have edge : ∀ c ∈ ('=' :: '>' :: rest).head?, isMark c = true := by simp; decide
  have within : arrowAt ≤ s.length := by
    have long := congrArg List.length behind
    simp only [List.length_drop, List.length_append, List.length_cons] at long
    omega
  have length : (s.take arrowAt).length = arrowAt := List.length_take_of_le within
  have place := @plainPlace_append (s.take arrowAt) _ edge
  have whole : s.take arrowAt ++ '=' :: '>' :: rest = s := by
    conv_rhs => rw [← List.take_append_drop arrowAt s, behind]
    rfl
  rw [whole, length] at place
  have width := place 2
  have start := place 0
  rw [plainPlace_cons (by decide), plainPlace_cons (by decide), plainPlace_zero] at width
  rw [Nat.add_zero, plainPlace_zero] at start
  omega

/-- A mapping with plain addresses has a value only if the mapping has. -/
theorem isSome_behindArrow?_of_plainAddress {s : Text}
    (valued : (behindArrow? (plainAddress s)).isSome = true) : (behindArrow? s).isSome = true := by
  obtain ⟨arrowAt', close', found, found', inside⟩ := isSome_behindArrow?_iff.1 valued
  have arrows : arrowIndex? (plainAddress s) = (arrowIndex? s).map (plainPlace s) :=
    findAtDepth?_plainAddress (Int.le_refl 0) s
  rw [arrows] at found
  rw [closeIndex?_plainAddress] at found'
  obtain ⟨arrowAt, isArrow, rfl⟩ := Option.map_eq_some_iff.1 found
  obtain ⟨close, isClose, rfl⟩ := Option.map_eq_some_iff.1 found'
  refine isSome_behindArrow?_iff.2 ⟨arrowAt, close, isArrow, isClose, Nat.lt_of_not_le fun outside => ?_⟩
  have order := plainPlace_le outside (closeIndex?_spec isClose) (by decide)
  rw [plainPlace_arrow isArrow] at order
  omega

end Mapping

/-! ## Normalizing once more -/

section Unlocated

variable {s : Text} (trimmed : IsTrimmed s) (unlocated : blankStorage s = s)

include trimmed unlocated

/-- What is normalized of a trimmed text without storage locations. -/
theorem normalized_of_unlocated : normalized s = plainAddress (collapsed s) := by
  unfold normalized withoutStorage
  rw [unlocated, spaced_eq_trim_collapsed, trim_collapsed, trimmed.trim_eq]

theorem isMapping_normalized : isMapping (normalized s) = isMapping s := by
  rw [normalized_of_unlocated trimmed unlocated, isMapping_plainAddress, isMapping_collapsed]

theorem isSome_behindArrow?_of_normalized (valued : (Mapping.behindArrow? (normalized s)).isSome = true) :
    (Mapping.behindArrow? s).isSome = true := by
  rw [normalized_of_unlocated trimmed unlocated] at valued
  have collapsed_ := Mapping.isSome_behindArrow?_of_plainAddress valued
  rwa [Mapping.behindArrow?_collapsed, Option.isSome_map] at collapsed_

end Unlocated

end TypeSyntax

end ContractInterface
