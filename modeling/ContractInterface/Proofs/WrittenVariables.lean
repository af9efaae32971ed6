import ContractInterface.Proofs.BalancedTexts
import ContractInterface.Proofs.CollapsedStatements
import ContractInterface.Proofs.Initialiser
import ContractInterface.Proofs.MappingSpellings

/-! # State variables as they are written

A state variable is written as a type (`IsVariableType`), modifiers in any order (`WrittenModifier`), and a
name, with an initialiser or without one (`EndsDeclaration`).

Up to its name such a declaration holds an equals sign only between parentheses, so the first one behind
the name cuts the initialiser off (`WrittenVariable.trim_declarationPart`).  Lists behind `override` are
dropped where they stand, and what is left behind the type are blanks, modifiers and the name.  So the
statement is read as it is written (`StateVariable.ofStatement?_text`).
-/

namespace ContractInterface

open Text TypeSyntax Delimiter

/-! ## Dimensions -/

/-- Dimensions with blanks around their brackets, and the sizes of these. -/
inductive IsDimensions : Text → List Text → Prop
  | nil : IsDimensions [] []
  | cons {b opened size closed t : Text} {sizes : List Text} (blanks : Blanks b) (opened_blanks : Blanks opened)
      (letters : ∀ c ∈ size, isWordChar c = true) (closed_blanks : Blanks closed) (behind : IsDimensions t sizes) :
      IsDimensions (b ++ '[' :: (opened ++ (size ++ (closed ++ ']' :: t)))) (size :: sizes)

theorem isFlat_of_identifiers {parts : List Text}
    (identifiers : ∀ part ∈ parts, Identifier.isIdentifier part = true) : Mapping.IsFlat (Registry.dotted parts) :=
  Mapping.isFlat_of_members fun c member => isTypeMember_of_isReferenceMember
    (Registry.isReferenceMember_of_mem_dotted identifiers c member)

theorem isShut_of_isFlat {t : Text} (flat : Mapping.IsFlat t) : IsShut (· == '=') t :=
  isShut_of_absent (depthOf_eq_zero flat.steps) fun c member => beq_false_of_ne (flat c member).2

namespace IsDimensions

variable {t : Text} {sizes : List Text}

theorem isFlat (dimensions : IsDimensions t sizes) : Mapping.IsFlat t := by
  induction dimensions with
  | nil => exact fun _ member => nomatch member
  | @cons b opened size closed t _ blanks opened_blanks letters closed_blanks _ ih =>
    have opens : Mapping.IsFlat ['['] := by simp [Mapping.IsFlat]; decide
    have closes : Mapping.IsFlat [']'] := by simp [Mapping.IsFlat]; decide
    have inner : Mapping.IsFlat size := Mapping.isFlat_of_members fun c member =>
      isTypeMember_of_isReferenceMember (Registry.isReferenceMember_of_isMember
        (isMember_of_isWordChar (letters c member)))
    have cut : b ++ '[' :: (opened ++ (size ++ (closed ++ ']' :: t))) =
        b ++ (['['] ++ (opened ++ (size ++ (closed ++ ([']'] ++ t))))) := rfl
    rw [cut]
    exact (Mapping.isFlat_of_blanks blanks).append (opens.append ((Mapping.isFlat_of_blanks opened_blanks).append
      (inner.append ((Mapping.isFlat_of_blanks closed_blanks).append (closes.append ih)))))

/-- No name goes on into dimensions or into what is set off behind them. -/
theorem edge (dimensions : IsDimensions t sizes) {s : Text} (blank : ∀ c ∈ s.head?, isBlank c = true) :
    ∀ c ∈ (t ++ s).head?, StateVariable.isSimpleTypeMember c = false := by
  cases dimensions with
  | nil => exact fun c first => StateVariable.noBlank_isSimpleTypeMember c (blank c first)
  | cons blanks =>
    rw [List.append_assoc]
    exact StateVariable.noBlank_isSimpleTypeMember.edge blanks (by decide) _

/-- Dimensions are split from what starts with no bracket. -/
theorem splitLeading_append (dimensions : IsDimensions t sizes) {s : Text}
    (other : ∀ c ∈ (trimStart s).head?, c ≠ '[') : Dimension.splitLeading (t ++ s) = (sizes, s) := by
  induction dimensions with
  | nil => exact Dimension.splitLeading_of_none (leading?_eq_none other)
  | @cons b opened size closed t sizes blanks opened_blanks letters closed_blanks _ ih =>
    have start : trimStart (b ++ '[' :: (opened ++ (size ++ (closed ++ ']' :: t))) ++ s) =
        '[' :: (opened ++ (size ++ (closed ++ ']' :: (t ++ s)))) := by
      rw [List.append_assoc, trimStart_blanks blanks]
      simp only [List.cons_append, List.append_assoc]
      exact trimStart_of_first (by simp; decide)
    have found := leading?_written opened_blanks letters closed_blanks (t ++ s)
    rw [← start] at found
    rw [Dimension.splitLeading_of_some found, ih]

end IsDimensions

theorem trim_eq_trimStart {s : Text} (last : ∀ c ∈ s.getLast?, isBlank c = false) : trim s = trimStart s := by
  refine trimEnd_of_last fun c isLast => last c ?_
  rw [← takeWhile_append_trimStart s, List.getLast?_append, Option.mem_def.1 isLast]
  rfl

/-- Blanks in front of a text do not count for its dimensions, nor for the words behind these. -/
theorem exists_splitLeading_trimStart (s : Text) : ∃ behind, Dimension.splitLeading (trimStart s) =
    ((Dimension.splitLeading s).1, behind) ∧ words behind = words (Dimension.splitLeading s).2 := by
  have again : trimStart (trimStart s) = trimStart s := trimStart_of_first (head?_trimStart s)
  cases found : Dimension.leading? (trimStart s) with
  | none =>
    refine ⟨trimStart s, ?_, ?_⟩
    · rw [Dimension.splitLeading_of_none found, Dimension.splitLeading_of_none (by rw [again, found])]
    · rw [Dimension.splitLeading_of_none found, words_trimStart]
  | some first =>
    refine ⟨(Dimension.splitLeading s).2, ?_, rfl⟩
    rw [Dimension.splitLeading_of_some found, Dimension.splitLeading_of_some (by rw [again, found])]

/-! ## What is set off -/

/-- A text that starts with blanks and then with an identifier. -/
structure StartsSetOff (t : Text) : Prop where
  blank : t.head?.any isBlank = true
  word : ∀ c ∈ (trimStart t).head?, Identifier.isStart c = true

theorem startsSetOff_append {gap word : Text} (blanks : Blanks gap) (apart : gap ≠ [])
    (isWord : Identifier.isIdentifier word = true) (t : Text) : StartsSetOff (gap ++ (word ++ t)) := by
  cases word with
  | nil => cases isWord
  | cons c word =>
    have starts := (Bool.and_eq_true_iff.1 isWord).1
    have visible := isBlank_of_isMember (Identifier.isStart_isMember starts)
    refine ⟨?_, ?_⟩
    · obtain ⟨d, gap, rfl⟩ := List.exists_cons_of_ne_nil apart
      simpa using blanks d List.mem_cons_self
    · rw [trimStart_blanks blanks, trimStart_of_first (by simpa using visible)]
      simpa using starts

namespace StartsSetOff

variable {t : Text}

theorem first (setOff : StartsSetOff t) : ∀ c ∈ t.head?, isBlank c = true := by
  intro c isFirst
  have blank := setOff.blank
  rw [Option.mem_def.1 isFirst] at blank
  simpa using blank

theorem exists_first (setOff : StartsSetOff t) : ∃ c rest, t = c :: rest ∧ isBlank c = true := by
  cases t with
  | nil => cases setOff.blank
  | cons c rest => exact ⟨c, rest, rfl, setOff.first c rfl⟩

theorem wordEdge (setOff : StartsSetOff t) : ∀ c ∈ t.head?, isWordChar c = false := fun c isFirst =>
  isWordChar_of_isBlank (setOff.first c isFirst)

theorem isUnlisted (setOff : StartsSetOff t) : IsUnlisted t where
  edge := setOff.wordEdge
  noList inner isList := by
    have starts := setOff.word '(' (by rw [isList]; rfl)
    exact absurd starts (by decide)

end StartsSetOff

/-! ## Types -/

/-- A text with a list behind an `override` in it. -/
def HoldsOverrideList (s : Text) : Prop :=
  ∃ front gap list rest, IsRun isWordChar front "override".toList (gap ++ '(' :: (list ++ ')' :: rest)) s ∧
    Blanks gap ∧ ')' ∉ list

theorem withoutOverrideLists_eq_self {s : Text} (unlisted : ¬HoldsOverrideList s) :
    StateVariable.withoutOverrideLists s = s := by
  refine replacing_eq_self fun front run rest isRun => ?_
  split
  · rename_i isOverride
    subst isOverride
    have alone : StateVariable.listLength? rest = none := by
      unfold StateVariable.listLength?
      split
      · rename_i inner opens
        split
        · rename_i c behind closes
          have close : c = ')' := by
            have outside := head?_dropWhile (p := (· ≠ ')')) inner c (by rw [closes]; rfl)
            simpa using outside
          rw [close] at closes
          -- a list that closes would be an override list of `s`, put together here from its parts
          have whole : rest = rest.takeWhile isBlank ++ '(' :: (inner.takeWhile (· ≠ ')') ++ ')' :: behind) := by
            rw [← closes, List.takeWhile_append_dropWhile, ← opens, takeWhile_append_trimStart]
          rw [whole] at isRun
          refine absurd ⟨front, _, _, _, isRun, blanks_takeWhile rest, fun member => ?_⟩ unlisted
          have inside := List.all_eq_true.1 List.all_takeWhile ')' member
          simp at inside
        · rfl
      · rfl
    rw [alone]
    rfl
  · rfl

/-- A type as it is written in front of a state variable, and the type that it declares. -/
inductive IsVariableType : Text → Text → Prop
  | simple {first dims : Text} {parts sizes : List Text}
      (identifiers : ∀ part ∈ first :: parts, Identifier.isIdentifier part = true)
      (declares : first ∉ Keyword.otherStatements) (dimensions : IsDimensions dims sizes) :
      IsVariableType (Registry.dotted (first :: parts) ++ dims)
        (Registry.dotted (first :: parts) ++ sizes.flatMap bracketed)
  | mapping {gap inner dims : Text} {sizes : List Text} (blanks : Blanks gap)
      (nested : IsNested (Literal.unquotedMarks inner))
      (arrow : holds Mapping.arrow (Mapping.head gap ++ '(' :: (inner ++ [')'])) = true)
      (dimensions : IsDimensions dims sizes) :
      IsVariableType (Mapping.head gap ++ '(' :: (inner ++ [')']) ++ dims)
        (Mapping.head gap ++ '(' :: (inner ++ [')']) ++ sizes.flatMap bracketed)

namespace IsVariableType

variable {spelled type : Text}

/-- A type starts with a word that a declaration can start with. -/
theorem exists_first (isType : IsVariableType spelled type) : ∃ first rest, spelled = first ++ rest ∧
    Identifier.isIdentifier first = true ∧ first ∉ Keyword.otherStatements ∧
      ∀ t : Text, (∀ c ∈ t.head?, isBlank c = true) → ∀ c ∈ (rest ++ t).head?, Identifier.isMember c = false := by
  cases isType with
  | @simple first dims parts sizes identifiers declares dimensions =>
    refine ⟨first, parts.flatMap ('.' :: ·) ++ dims, ?_, identifiers first List.mem_cons_self, declares, ?_⟩
    · rw [Registry.dotted_cons, List.append_assoc]
    · intro t blank c isFirst
      cases parts with
      | nil => exact (Bool.or_eq_false_iff.1 (dimensions.edge blank c isFirst)).1
      | cons next parts =>
        cases isFirst
        decide
  | @mapping gap inner dims sizes blanks _ _ _ =>
    refine ⟨"mapping".toList, gap ++ '(' :: (inner ++ [')'] ++ dims), ?_, by decide +kernel, by decide, ?_⟩
    · unfold Mapping.head
      simp only [List.append_assoc, List.cons_append]
    · intro t _
      rw [List.append_assoc]
      exact noBlank_isMember.edge blanks (by decide) _

theorem ne_nil (isType : IsVariableType spelled type) : spelled ≠ [] := by
  obtain ⟨first, rest, rfl, isFirst, _⟩ := isType.exists_first
  exact fun empty => ne_nil_of_isIdentifier isFirst (List.append_eq_nil_iff.1 empty).1

/-- The equals signs of a type stand between its parentheses. -/
theorem isShut (isType : IsVariableType spelled type) : IsShut (· == '=') spelled := by
  cases isType with
  | simple identifiers _ dimensions =>
    exact isShut_of_isFlat ((isFlat_of_identifiers identifiers).append dimensions.isFlat)
  | mapping blanks nested _ dimensions =>
    exact ((isShut_of_isFlat (Mapping.isFlat_head blanks)).append
      (isShut_parens (by decide) (by decide) nested)).append (isShut_of_isFlat dimensions.isFlat)

/-- What a type opens it closes. -/
theorem mem_of_suffix (isType : IsVariableType spelled type) {rest inner : Text} (isRest : rest <:+ spelled)
    (isList : trimStart rest = '(' :: inner) : ')' ∈ inner := by
  have opened : '(' :: inner <:+ spelled := isList ▸ (List.dropWhile_suffix isBlank).trans isRest
  cases isType with
  | @simple first dims parts sizes identifiers _ dimensions =>
    have flat := (isFlat_of_identifiers identifiers).append dimensions.isFlat
    exact absurd (opened.subset List.mem_cons_self) flat.noOpen
  | @mapping gap inner' dims sizes blanks _ _ dimensions =>
    obtain ⟨front, whole⟩ := opened
    have cut : Mapping.head gap ++ '(' :: (inner' ++ [')']) ++ dims =
        (Mapping.head gap ++ '(' :: inner') ++ ')' :: dims := by
      simp only [List.append_assoc, List.cons_append, List.nil_append]
    rw [cut] at whole
    rcases List.append_eq_append_iff.1 whole with ⟨mid, _, isInner⟩ | ⟨mid, _, isBehind⟩
    · cases mid with
      | nil => cases isInner
      | cons c mid =>
        cases isInner
        simp
    · -- behind the closing parenthesis nothing opens
      have opens : '(' ∈ ')' :: dims := by
        rw [isBehind]
        simp
      rcases List.mem_cons.1 opens with same | member
      · cases same
      · exact absurd member dimensions.isFlat.noOpen

theorem withoutOverrideLists_append (isType : IsVariableType spelled type) (unlisted : ¬HoldsOverrideList spelled)
    {t : Text} (setOff : StartsSetOff t) :
    StateVariable.withoutOverrideLists (spelled ++ t) = spelled ++ StateVariable.withoutOverrideLists t := by
  rw [ContractInterface.withoutOverrideLists_append setOff.isUnlisted fun rest inner isRest isList =>
    .inl (isType.mem_of_suffix isRest isList), withoutOverrideLists_eq_self unlisted]

/-- A type is split from what is set off behind it. -/
theorem exists_splitType? (isType : IsVariableType spelled type) {t : Text} (setOff : StartsSetOff t)
    (noOpen : '(' ∉ t) (last : ∀ c ∈ t.getLast?, isBlank c = false) :
    ∃ behind, StateVariable.splitType? (spelled ++ t) = some (type, behind) ∧ words behind = words t := by
  have noBracket : ∀ c ∈ (trimStart t).head?, c ≠ '[' := fun c isFirst => by
    rintro rfl
    exact absurd (setOff.word '[' isFirst) (by decide)
  -- what stands behind a simple type is trimmed once, behind a mapping again with every dimension
  cases isType with
  | @simple first dims parts sizes identifiers _ dimensions =>
    have members := Registry.isReferenceMember_of_mem_dotted identifiers
    obtain ⟨c, s, isName, starts⟩ := Registry.exists_first_of_identifiers (List.cons_ne_nil first parts) identifiers
    have others : ∀ d ∈ s, StateVariable.isSimpleTypeMember d = true := fun d member =>
      members d (isName ▸ List.mem_cons_of_mem c member)
    have flat := (isFlat_of_identifiers identifiers).append dimensions.isFlat
    have noMapping : isMapping (Registry.dotted (first :: parts) ++ dims ++ t) = false :=
      isMapping_eq_false fun member => (List.mem_append.1 member).elim flat.noOpen noOpen
    have edge := dimensions.edge setOff.first
    refine ⟨trimStart t, ?_, words_trimStart t⟩
    unfold StateVariable.splitType?
    rw [noMapping, isName]
    simp only [Bool.false_eq_true, if_false, List.cons_append, List.append_assoc, StateVariable.simpleType?, starts,
      if_true, takeWhile_append_of_head? edge, dropWhile_append_of_head? edge, List.takeWhile_eq_self_iff.2 others,
      List.dropWhile_eq_nil_iff.2 others, List.nil_append, dimensions.splitLeading_append noBracket, setOff.blank]
  | @mapping gap inner dims sizes blanks nested arrow dimensions =>
    have cut : Mapping.head gap ++ '(' :: (inner ++ [')']) ++ dims ++ t =
        Mapping.head gap ++ '(' :: (inner ++ ')' :: (dims ++ t)) := by
      simp only [List.append_assoc, List.cons_append, List.nil_append]
    obtain ⟨behind, isSplit, isBehind⟩ := exists_splitLeading_trimStart (dims ++ t)
    rw [dimensions.splitLeading_append noBracket] at isSplit isBehind
    have nonempty : t ≠ [] := by
      obtain ⟨c, rest, isFirst, _⟩ := setOff.exists_first
      exact isFirst ▸ List.cons_ne_nil c rest
    have trimmed : trim (dims ++ t) = trimStart (dims ++ t) := trim_eq_trimStart fun c isLast => by
      rw [List.getLast?_append_of_ne_nil _ nonempty] at isLast
      exact last c isLast
    refine ⟨behind, ?_, isBehind⟩
    unfold StateVariable.splitType? StateVariable.mappingType?
    rw [cut, Mapping.isMapping_head_append blanks, if_pos rfl,
      Mapping.split?_head_append blanks (isBalanced_of_isNested nested), trimmed]
    simp only [arrow, if_true, isSplit]

end IsVariableType

/-! ## Modifiers -/

/-- A list in parentheses without a parenthesis in it, and blanks in front. -/
inductive IsOverrideList : Text → Prop
  | list {b inner : Text} (blanks : Blanks b) (noOpen : '(' ∉ inner) (noClose : ')' ∉ inner) :
      IsOverrideList (b ++ '(' :: (inner ++ [')']))

theorem IsOverrideList.listLength?_append {list : Text} (isList : IsOverrideList list) (t : Text) :
    StateVariable.listLength? (list ++ t) = some list.length := by
  obtain @⟨b, inner, blanks, _, noClose⟩ := isList
  have cut : b ++ '(' :: (inner ++ [')']) ++ t = b ++ '(' :: (inner ++ ')' :: t) := by
    simp only [List.append_assoc, List.cons_append, List.nil_append]
  have start : trimStart (b ++ '(' :: (inner ++ ')' :: t)) = '(' :: (inner ++ ')' :: t) := by
    rw [trimStart_blanks blanks]
    exact trimStart_of_first (by simp; decide)
  have behind : (inner ++ ')' :: t).dropWhile (· ≠ ')') = ')' :: t := by
    rw [List.dropWhile_append, dropWhile_eq_nil_of_unclosed noClose, List.isEmpty_nil, if_pos rfl]
    exact List.dropWhile_cons_of_neg (by simp)
  unfold StateVariable.listLength?
  rw [cut, start]
  simp only [behind, List.length_append, List.length_cons, List.length_nil, Option.some.injEq]
  omega

theorem IsOverrideList.edge {list : Text} (isList : IsOverrideList list) (t : Text) :
    ∀ c ∈ (list ++ t).head?, isWordChar c = false := by
  obtain @⟨b, inner, blanks, _, _⟩ := isList
  rw [List.append_assoc]
  exact noBlank_isWordChar.edge blanks (by decide) _

theorem IsOverrideList.isShut {list : Text} (isList : IsOverrideList list) : IsShut (· == '=') list := by
  obtain @⟨b, inner, blanks, noOpen, noClose⟩ := isList
  have flat : ∀ c ∈ inner, parenStep c = 0 := by
    intro c member
    have notOpen : c ≠ '(' := fun same => noOpen (same ▸ member)
    have notClose : c ≠ ')' := fun same => noClose (same ▸ member)
    simp [parenStep, step, isOpenParen, isCloseParen, notOpen, notClose]
  exact (isShut_of_isFlat (Mapping.isFlat_of_blanks blanks)).append
    (isShut_parens (by decide) (by decide) (isNested_of_flat flat))

/-- A modifier as it is written behind a type.  Only an `override` can have a list. -/
structure WrittenModifier where
  gap : Text
  word : Text
  list : Text
  blanks : Blanks gap
  apart : gap ≠ []
  isModifier : word ∈ Keyword.variableModifiers
  isList : list = [] ∨ word = "override".toList ∧ IsOverrideList list

namespace WrittenModifier

/-- The text of a modifier. -/
def text (m : WrittenModifier) : Text :=
  m.gap ++ (m.word ++ m.list)

/-- The text of a modifier without its list. -/
def unlisted (m : WrittenModifier) : Text :=
  m.gap ++ m.word

theorem isIdentifier (m : WrittenModifier) : Identifier.isIdentifier m.word = true := by
  have all : Keyword.variableModifiers.all Identifier.isIdentifier = true := by decide +kernel
  exact List.all_eq_true.1 all m.word m.isModifier

theorem letters (m : WrittenModifier) : ∀ c ∈ m.word, isWordChar c = true := by
  have all : Keyword.variableModifiers.all (·.all isWordChar) = true := by decide
  exact List.all_eq_true.1 (List.all_eq_true.1 all m.word m.isModifier)

theorem nonempty (m : WrittenModifier) : m.word ≠ [] :=
  ne_nil_of_isIdentifier m.isIdentifier

theorem isFlat_unlisted (m : WrittenModifier) : Mapping.IsFlat m.unlisted :=
  (Mapping.isFlat_of_blanks m.blanks).append (Mapping.isFlat_of_isIdentifier m.isIdentifier)

theorem isShut (m : WrittenModifier) : IsShut (· == '=') m.text := by
  have front := isShut_of_isFlat m.isFlat_unlisted
  have list : IsShut (· == '=') m.list := by
    rcases m.isList with none_ | ⟨_, isList⟩
    · rw [none_]
      exact ⟨fun _ _ => trivial, rfl⟩
    · exact isList.isShut
  have whole := front.append list
  rwa [unlisted, List.append_assoc] at whole

/-- A list is dropped, and nothing else. -/
theorem withoutOverrideLists_append (m : WrittenModifier) {t : Text} (setOff : StartsSetOff t) :
    StateVariable.withoutOverrideLists (m.text ++ t) = m.unlisted ++ StateVariable.withoutOverrideLists t := by
  have plain : ∀ c ∈ m.gap, isWordChar c = false := fun c member => isWordChar_of_isBlank (m.blanks c member)
  have edge : ∀ c ∈ (m.list ++ t).head?, isWordChar c = false := by
    rcases m.isList with none_ | ⟨_, isList⟩
    · rw [none_]
      exact setOff.wordEdge
    · exact isList.edge t
  have word : StateVariable.withoutOverrideLists (m.word ++ (m.list ++ t)) =
      m.word ++ StateVariable.withoutOverrideLists t := by
    unfold StateVariable.withoutOverrideLists
    rw [replacing_run_append m.nonempty m.letters edge]
    rcases m.isList with none_ | ⟨isOverride, isList⟩
    · have alone : StateVariable.listLength? t = none := setOff.isUnlisted.listLength?_eq_none
      rw [none_, List.nil_append, alone]
      split
      · rename_i found
        split at found <;> cases found
      · rfl
    · simp only [isOverride, if_true, isList.listLength?_append, Option.map_some, List.drop_left]
  rw [text, unlisted, List.append_assoc, List.append_assoc, StateVariable.withoutOverrideLists,
    replacing_append_of_not_mem plain, ← StateVariable.withoutOverrideLists, word, List.append_assoc]

theorem plainAddress_append (m : WrittenModifier) {t : Text} (edge : ∀ c ∈ t.head?, isWordChar c = false) :
    plainAddress (m.unlisted ++ t) = m.unlisted ++ plainAddress t := by
  have other : m.word ≠ "address".toList := by
    have all : ∀ word ∈ Keyword.variableModifiers, word ≠ "address".toList := by decide
    exact all m.word m.isModifier
  rw [unlisted, List.append_assoc, plainAddress_blanks_append m.blanks, plainAddress,
    replacing_run_append m.nonempty m.letters edge, if_neg other, List.append_assoc]
  rfl

end WrittenModifier

section Modifiers

variable {t : Text} (ms : List WrittenModifier) (setOff : StartsSetOff t)

include setOff

theorem startsSetOff_unlisted : StartsSetOff (ms.flatMap WrittenModifier.unlisted ++ t) := by
  cases ms with
  | nil => exact setOff
  | cons m ms =>
    rw [List.flatMap_cons, WrittenModifier.unlisted, List.append_assoc, List.append_assoc]
    exact startsSetOff_append m.blanks m.apart m.isIdentifier _

theorem startsSetOff_text : StartsSetOff (ms.flatMap WrittenModifier.text ++ t) := by
  cases ms with
  | nil => exact setOff
  | cons m ms =>
    rw [List.flatMap_cons, WrittenModifier.text, List.append_assoc, List.append_assoc, List.append_assoc]
    exact startsSetOff_append m.blanks m.apart m.isIdentifier _

theorem withoutOverrideLists_modifiers :
    StateVariable.withoutOverrideLists (ms.flatMap WrittenModifier.text ++ t) =
      ms.flatMap WrittenModifier.unlisted ++ StateVariable.withoutOverrideLists t := by
  induction ms with
  | nil => rfl
  | cons m ms ih =>
    rw [List.flatMap_cons, List.append_assoc, m.withoutOverrideLists_append (startsSetOff_text ms setOff), ih,
      List.flatMap_cons, List.append_assoc]

theorem plainAddress_modifiers : plainAddress (ms.flatMap WrittenModifier.unlisted ++ t) =
    ms.flatMap WrittenModifier.unlisted ++ plainAddress t := by
  induction ms with
  | nil => rfl
  | cons m ms ih =>
    rw [List.flatMap_cons, List.append_assoc, m.plainAddress_append (startsSetOff_unlisted ms setOff).wordEdge, ih,
      List.append_assoc]

theorem words_modifiers : words (ms.flatMap WrittenModifier.unlisted ++ t) =
    ms.map WrittenModifier.word ++ words t := by
  induction ms with
  | nil => rfl
  | cons m ms ih =>
    have solid : IsSolid m.word := fun c member => isBlank_of_isWordChar (m.letters c member)
    obtain ⟨c, rest, isRest, blank⟩ := (startsSetOff_unlisted ms setOff).exists_first
    rw [List.flatMap_cons, WrittenModifier.unlisted, List.append_assoc, List.append_assoc, words_blanks m.blanks,
      isRest, words_append_cons blank, words_solid solid m.nonempty, ← words_blank blank, ← isRest, ih]
    rfl

end Modifiers

/-! ## Declarations -/

/-- What may stand behind the name of a state variable: nothing but blanks, or an initialiser. -/
inductive EndsDeclaration : Text → Prop
  | bare {b : Text} (blanks : Blanks b) : EndsDeclaration b
  | initialised {b initialiser : Text} (blanks : Blanks b) (visible : ∃ c ∈ initialiser, isBlank c = false)
      (plain : ∀ c ∈ initialiser.head?, c ≠ '=' ∧ c ≠ '>') : EndsDeclaration (b ++ '=' :: initialiser)

/-- A state variable as it is written in a statement. -/
structure WrittenVariable where
  before : Text
  spelled : Text
  type : Text
  modifiers : List WrittenModifier
  gap : Text
  name : Text
  tail : Text
  before_blanks : Blanks before
  isType : IsVariableType spelled type
  unlisted : ¬HoldsOverrideList spelled
  gap_blanks : Blanks gap
  apart : gap ≠ []
  isName : Identifier.isIdentifier name = true
  free : name ∉ Keyword.variableModifiers
  ends : EndsDeclaration tail

/-- An equals sign that a scan meets in parentheses starts no initialiser. -/
theorem declarationFrom_append_of_isUncut {depth : Int} {t : Text} (uncut : IsUncut (· == '=') depth t)
    (before : Option Char) (s : Text) : StateVariable.declarationFrom depth before (t ++ s) =
      t ++ StateVariable.declarationFrom (depth + depthOf t) (t.getLast?.or before) s := by
  induction t generalizing depth before with
  | nil => simp
  | cons c t ih =>
    have inside : ¬(c = '=' ∧ depth = 0 ∧ StateVariable.startsInitialiser before (t ++ s).head? = true) :=
      fun cut => uncut.1 (beq_iff_eq.2 cut.1) cut.2.1
    have last : t.getLast?.or (some c) = (c :: t).getLast?.or before := by
      cases t.eq_nil_or_concat with
      | inl empty => simp [empty]
      | inr concat =>
        obtain ⟨front, d, rfl⟩ := concat
        simp [List.getLast?_cons]
    rw [List.cons_append, StateVariable.declarationFrom, if_neg inside, ih uncut.2, depthOf_cons, Int.add_assoc, last]
    rfl

theorem EndsDeclaration.edge {tail : Text} (ends : EndsDeclaration tail) :
    ∀ c ∈ tail.head?, isWordChar c = false := by
  cases ends with
  | bare blanks => exact fun c isFirst => isWordChar_of_isBlank (blanks c (List.mem_of_mem_head? isFirst))
  | initialised blanks => exact noBlank_isWordChar.edge blanks (by decide) _

/-- Trimming a text from behind leaves its first character. -/
theorem exists_trimEnd_eq_cons {s : Text} (visible : ∃ c ∈ s, isBlank c = false) :
    ∃ c rest, trimEnd s = c :: rest ∧ s.head? = some c := by
  have whole := trimEnd_append_blanksBehind s
  cases kept : trimEnd s with
  | nil =>
    obtain ⟨c, member, isVisible⟩ := visible
    rw [kept, List.nil_append] at whole
    have blank := blanks_blanksBehind s c (by rw [whole]; exact member)
    rw [isVisible] at blank
    cases blank
  | cons c rest =>
    rw [kept] at whole
    exact ⟨c, rest, rfl, by rw [← whole]; rfl⟩

theorem startsInitialiser_of_operand {before after : Char}
    (operand : isBlank before = true ∨ Identifier.isMember before = true) (plain : after ≠ '=' ∧ after ≠ '>') :
    StateVariable.startsInitialiser (some before) (some after) = true := by
  have notBefore : "=!<>".toList.contains before = false := by
    refine Bool.eq_false_iff.2 fun holds => ?_
    have operators : "=!<>".toList.all (fun c => !isBlank c && !Identifier.isMember c) = true := by decide
    have known := List.all_eq_true.1 operators before (List.contains_iff_mem.1 holds)
    rcases operand with blank | isMember
    · simp [blank] at known
    · simp [isMember] at known
  have notAfter : "=>".toList.contains after = false := by simp [plain.1, plain.2]
  simp only [StateVariable.startsInitialiser, notBefore, notAfter, Bool.not_false, Bool.and_self]

/-- Behind a declaration that ends in a name at most blanks are kept. -/
theorem EndsDeclaration.exists_declarationPart {s tail : Text} (ends : EndsDeclaration tail)
    (shut : IsShut (· == '=') s) (nonempty : s ≠ []) (last : ∀ c ∈ s.getLast?, Identifier.isMember c = true) :
    ∃ b, Blanks b ∧ StateVariable.declarationPart (s ++ trimEnd tail) = s ++ b := by
  unfold StateVariable.declarationPart
  cases ends with
  | bare blanks =>
    have nothing : trimEnd tail = trimEnd [] := trimEnd_blanks blanks []
    refine ⟨[], blanks_nil, ?_⟩
    rw [nothing, declarationFrom_append_of_isUncut (shut.uncut 0 (Int.le_refl 0))]
    rfl
  | @initialised b initialiser blanks visible plain =>
    refine ⟨b, blanks, ?_⟩
    have whole := shut.append (isShut_of_isFlat (Mapping.isFlat_of_blanks blanks))
    obtain ⟨after, rest, isRest, first⟩ := exists_trimEnd_eq_cons visible
    obtain ⟨before, isLast⟩ : ∃ before, (s ++ b).getLast? = some before :=
      Option.ne_none_iff_exists'.1 fun none_ =>
        nonempty (List.append_eq_nil_iff.1 (List.getLast?_eq_none_iff.1 none_)).1
    -- in front of the equals sign stands a blank or the end of the name, never half of an operator
    have operand : isBlank before = true ∨ Identifier.isMember before = true := by
      rw [List.getLast?_append, Option.or_eq_some_iff] at isLast
      rcases isLast with inBlanks | ⟨_, inName⟩
      · exact .inl (blanks before (List.mem_of_mem_getLast? inBlanks))
      · exact .inr (last before inName)
    have starts : StateVariable.startsInitialiser ((s ++ b).getLast?.or none) (some after) = true := by
      rw [isLast, Option.or_none]
      exact startsInitialiser_of_operand operand (plain after first)
    rw [trimEnd_append_cons (by decide), isRest, ← List.append_assoc,
      declarationFrom_append_of_isUncut (whole.uncut 0 (Int.le_refl 0)), whole.level, Int.add_zero,
      StateVariable.declarationFrom, if_pos ⟨rfl, rfl, starts⟩, List.append_nil]

namespace WrittenVariable

variable (v : WrittenVariable)

/-- The text of the whole statement. -/
def text : Text :=
  v.before ++ (v.spelled ++ (v.modifiers.flatMap WrittenModifier.text ++ (v.gap ++ (v.name ++ v.tail))))

/-- The declaration up to its name. -/
def declaration : Text :=
  v.spelled ++ (v.modifiers.flatMap WrittenModifier.text ++ (v.gap ++ v.name))

/-- What stands behind the type when the lists are dropped. -/
def behind : Text :=
  v.modifiers.flatMap WrittenModifier.unlisted ++ (v.gap ++ v.name)

theorem text_eq : v.text = v.before ++ (v.declaration ++ v.tail) := by
  simp only [text, declaration, List.append_assoc]

theorem startsSetOff_name : StartsSetOff (v.gap ++ v.name) := by
  simpa using startsSetOff_append v.gap_blanks v.apart v.isName []

theorem startsSetOff_behind : StartsSetOff v.behind :=
  startsSetOff_unlisted v.modifiers v.startsSetOff_name

theorem isFlat_name : Mapping.IsFlat (v.gap ++ v.name) :=
  (Mapping.isFlat_of_blanks v.gap_blanks).append (Mapping.isFlat_of_isIdentifier v.isName)

theorem isFlat_behind : Mapping.IsFlat v.behind := by
  have modifiers : Mapping.IsFlat (v.modifiers.flatMap WrittenModifier.unlisted) := by
    intro c member
    obtain ⟨m, _, inModifier⟩ := List.mem_flatMap.1 member
    exact m.isFlat_unlisted c inModifier
  exact modifiers.append v.isFlat_name

theorem getLast?_append_name (s : Text) :
    ∀ c ∈ (s ++ (v.gap ++ v.name)).getLast?, Identifier.isMember c = true := by
  intro c isLast
  rw [← List.append_assoc, List.getLast?_append_of_ne_nil _ (ne_nil_of_isIdentifier v.isName)] at isLast
  exact isMember_of_isIdentifier v.isName c (List.mem_of_mem_getLast? isLast)

theorem declaration_eq : v.declaration =
    (v.spelled ++ v.modifiers.flatMap WrittenModifier.text) ++ (v.gap ++ v.name) := by
  rw [declaration, List.append_assoc]

theorem isTrimmed_declaration : IsTrimmed v.declaration where
  first := by
    obtain ⟨first, rest, isSpelled, isFirst, _⟩ := v.isType.exists_first
    intro c isHead
    rw [declaration, isSpelled, List.append_assoc, List.head?_append_of_ne_nil _ (ne_nil_of_isIdentifier isFirst)]
      at isHead
    exact isBlank_of_isMember (isMember_of_isIdentifier isFirst c (List.mem_of_mem_head? isHead))
  last c isLast := by
    rw [declaration_eq] at isLast
    exact isBlank_of_isMember (v.getLast?_append_name _ c isLast)

theorem declaration_ne_nil : v.declaration ≠ [] := fun empty =>
  v.isType.ne_nil (List.append_eq_nil_iff.1 empty).1

theorem trim_text : trim v.text = v.declaration ++ trimEnd v.tail := by
  have start : trimStart (v.declaration ++ v.tail) = v.declaration ++ v.tail :=
    trimStart_of_first (v.isTrimmed_declaration.first_append v.declaration_ne_nil v.tail)
  rw [text_eq, trim_blanks_append v.before_blanks, trim, start,
    trimEnd_append_of_last v.declaration_ne_nil v.isTrimmed_declaration.last]

theorem isShut_declaration : IsShut (· == '=') v.declaration := by
  have modifiers : IsShut (· == '=') (v.modifiers.flatMap WrittenModifier.text) := by
    induction v.modifiers with
    | nil => exact ⟨fun _ _ => trivial, rfl⟩
    | cons m ms ih => exact m.isShut.append ih
  exact v.isType.isShut.append (modifiers.append (isShut_of_isFlat v.isFlat_name))

/-- The initialiser is cut off behind the declaration. -/
theorem trim_declarationPart : trim (StateVariable.declarationPart (trim v.text)) = v.declaration := by
  obtain ⟨b, blanks, part⟩ := v.ends.exists_declarationPart v.isShut_declaration v.declaration_ne_nil
    (v.declaration_eq ▸ v.getLast?_append_name _)
  rw [trim_text, part, trim_append_blanks blanks, v.isTrimmed_declaration.trim_eq]

/-- The lists behind `override` are dropped. -/
theorem withoutOverrideLists_declaration :
    StateVariable.withoutOverrideLists v.declaration = v.spelled ++ v.behind := by
  have noList : ¬HoldsOverrideList (v.gap ++ v.name) := by
    rintro ⟨front, gap, list, rest, isRun, -, -⟩
    refine v.isFlat_name.noOpen ?_
    rw [isRun.whole]
    simp
  rw [declaration, v.isType.withoutOverrideLists_append v.unlisted (startsSetOff_text _ v.startsSetOff_name),
    withoutOverrideLists_modifiers _ v.startsSetOff_name, withoutOverrideLists_eq_self noList]
  rfl

/-- No address in the statement is payable, so none is in its declaration. -/
theorem plainAddress_eq (unpaid : ¬PaysAddress v.text) :
    plainAddress (v.spelled ++ v.behind) = v.spelled ++ v.behind := by
  have before : ∀ c ∈ v.before.getLast?, isWordChar c = false := fun c isLast =>
    isWordChar_of_isBlank (v.before_blanks c (List.mem_of_mem_getLast? isLast))
  cases isEmpty : v.modifiers with
  | nil =>
    -- nothing was dropped
    have same : v.spelled ++ v.behind = v.declaration := by
      simp [declaration, behind, isEmpty]
    rw [same]
    refine plainAddress_eq_self fun pays => unpaid ?_
    rw [text_eq]
    exact pays.append before v.ends.edge
  | cons m ms =>
    have spelled : plainAddress v.spelled = v.spelled := by
      refine plainAddress_eq_self fun pays => unpaid (pays.append before ?_)
      exact (startsSetOff_text v.modifiers (startsSetOff_append v.gap_blanks v.apart v.isName v.tail)).wordEdge
    have name : plainAddress v.name = v.name := plainAddress_solid (Mapping.isSolid_of_isIdentifier v.isName)
    have apart : IsUnpaid v.behind := by
      refine ⟨v.startsSetOff_behind.wordEdge, ?_⟩
      have other : m.word ≠ "payable".toList := by
        have all : ∀ word ∈ Keyword.variableModifiers, word ≠ "payable".toList := by decide
        exact all m.word m.isModifier
      rw [behind, isEmpty, List.flatMap_cons, WrittenModifier.unlisted, List.append_assoc, List.append_assoc,
        takeWhile_trimStart_of_blanks m.blanks m.nonempty m.letters
          (startsSetOff_unlisted ms v.startsSetOff_name).wordEdge]
      exact other
    rw [plainAddress_append apart, spelled, behind, plainAddress_modifiers _ v.startsSetOff_name,
      plainAddress_blanks_append v.gap_blanks, name]

theorem words_behind : words v.behind = v.modifiers.map WrittenModifier.word ++ [v.name] := by
  rw [behind, words_modifiers _ v.startsSetOff_name, words_blanks v.gap_blanks,
    words_solid (Mapping.isSolid_of_isIdentifier v.isName) (ne_nil_of_isIdentifier v.isName)]

end WrittenVariable

namespace StateVariable

/-- The first of the words `public`, `private` and `internal`, or internal if there is none. -/
def firstVisibility : List Text → Visibility
  | [] => .internally
  | word :: more =>
    if word = "public".toList then .publicly
    else if word = "private".toList then .privately
    else if word = "internal".toList then .internally
    else firstVisibility more

theorem visibilityOf_eq_firstVisibility {modifiers : List Text}
    (known : ∀ word ∈ modifiers, word ∈ Keyword.variableModifiers) :
    visibilityOf modifiers = firstVisibility modifiers := by
  have names : ∀ word ∈ Keyword.variableModifiers, Visibility.ofWord? word =
      if word = "public".toList then some .publicly
      else if word = "private".toList then some .privately
      else if word = "internal".toList then some .internally else none := by
    decide
  unfold visibilityOf
  induction modifiers with
  | nil => rfl
  | cons word more ih =>
    obtain ⟨isModifier, others⟩ := List.forall_mem_cons.1 known
    rw [List.findSome?_cons, names word isModifier, firstVisibility]
    by_cases isPublic : word = "public".toList
    · rw [if_pos isPublic, if_pos isPublic]
      rfl
    · rw [if_neg isPublic, if_neg isPublic]
      by_cases isPrivate : word = "private".toList
      · rw [if_pos isPrivate, if_pos isPrivate]
        rfl
      · rw [if_neg isPrivate, if_neg isPrivate]
        by_cases isInternal : word = "internal".toList
        · rw [if_pos isInternal, if_pos isInternal]
          rfl
        · rw [if_neg isInternal, if_neg isInternal]
          exact ih others

theorem nameAndVisibility?_behind (v : WrittenVariable) :
    nameAndVisibility? (words v.behind) =
      some (v.name, firstVisibility (v.modifiers.map WrittenModifier.word)) := by
  have known : ∀ word ∈ v.modifiers.map WrittenModifier.word, word ∈ Keyword.variableModifiers := by
    intro word member
    obtain ⟨m, _, rfl⟩ := List.mem_map.1 member
    exact m.isModifier
  have all : (v.modifiers.map WrittenModifier.word).all Keyword.variableModifiers.contains = true :=
    List.all_eq_true.2 fun word member => List.contains_iff_mem.2 (known word member)
  have free : Keyword.variableModifiers.contains v.name = false :=
    Bool.eq_false_iff.2 fun holds => v.free (List.contains_iff_mem.1 holds)
  rw [v.words_behind, nameAndVisibility?, List.getLast?_concat, List.dropLast_concat]
  simp only [v.isName, free, all, Bool.not_false, Bool.and_self, if_true, visibilityOf_eq_firstVisibility known]

/-- A state variable is read as it is written, whatever the order of its modifiers. -/
theorem ofStatement?_text (v : WrittenVariable) (unpaid : ¬PaysAddress v.text) (index : Nat) :
    ofStatement? v.text index = some ⟨v.type, v.name, index,
      firstVisibility (v.modifiers.map WrittenModifier.word)⟩ := by
  obtain ⟨first, rest, isSpelled, isFirst, declares, edge⟩ := v.isType.exists_first
  have leads : ∃ t, Identifier.leading? (trim v.text) = some (first, t) := by
    have setOff := startsSetOff_text v.modifiers
      (startsSetOff_append v.gap_blanks v.apart v.isName (trimEnd v.tail))
    refine ⟨rest ++ (v.modifiers.flatMap WrittenModifier.text ++ (v.gap ++ (v.name ++ trimEnd v.tail))), ?_⟩
    rw [v.trim_text, WrittenVariable.declaration, isSpelled]
    simp only [List.append_assoc]
    exact leading?_identifier_append isFirst (edge _ setOff.first)
  obtain ⟨t, leads⟩ := leads
  have visible : ∀ c ∈ v.behind.getLast?, isBlank c = false := fun c isLast =>
    isBlank_of_isMember (v.getLast?_append_name _ c isLast)
  obtain ⟨behind, isSplit, isBehind⟩ :=
    v.isType.exists_splitType? v.startsSetOff_behind v.isFlat_behind.noOpen visible
  have known : Keyword.otherStatements.contains first = false :=
    Bool.eq_false_iff.2 fun holds => declares (List.contains_iff_mem.1 holds)
  unfold ofStatement?
  simp only [leads, Option.bind_eq_bind, Option.bind_some, known, Bool.false_eq_true, if_false,
    v.trim_declarationPart, v.withoutOverrideLists_declaration, v.plainAddress_eq unpaid, isSplit, isBehind,
    nameAndVisibility?_behind, pure]

/-- The modifier `override (IERC20, IVault)`. -/
def overriding : WrittenModifier where
  gap := [' ']
  word := "override".toList
  list := " (IERC20, IVault)".toList
  blanks := blanks_space
  apart := space_ne_nil
  isModifier := by decide
  isList := .inr ⟨rfl, @IsOverrideList.list [' '] "IERC20, IVault".toList blanks_space
    (by decide) (by decide)⟩

/-- A modifier behind a line break. -/
def modifier (word : Text) (isModifier : word ∈ Keyword.variableModifiers) : WrittenModifier where
  gap := ['\n']
  word
  list := []
  blanks := blanks_singleton (by decide)
  apart := List.cons_ne_nil _ _
  isModifier
  isList := .inl rfl

/-- An array of mappings with two modifiers and an initialiser. -/
def balances : WrittenVariable where
  before := [' ']
  spelled := "mapping (address=>uint256) [ 2 ]".toList
  type := "mapping (address=>uint256)[2]".toList
  modifiers := [overriding, modifier "private".toList (by decide), modifier "public".toList (by decide)]
  gap := [' ']
  name := "balances$".toList
  tail := "= f(a == b)".toList
  before_blanks := blanks_space
  isType := @IsVariableType.mapping [' '] "address=>uint256".toList " [ 2 ]".toList [['2']]
    blanks_space (by decide +kernel) (by decide +kernel)
    (@IsDimensions.cons [' '] [' '] ['2'] [' '] [] [] blanks_space blanks_space
      (List.forall_mem_singleton.2 (by decide)) blanks_space .nil)
  unlisted := by
    have absent : ¬"override".toList <:+: "mapping (address=>uint256) [ 2 ]".toList := by decide +kernel
    exact fun ⟨_, _, _, _, isRun, _⟩ => absent isRun.isInfix
  gap_blanks := blanks_space
  apart := space_ne_nil
  isName := by decide +kernel
  free := by decide
  ends := @EndsDeclaration.initialised [] " f(a == b)".toList blanks_nil ⟨'f', by decide, by decide⟩
    (by simp)

theorem ofStatement?_text_balances :
    ofStatement? (" mapping (address=>uint256) [ 2 ] override (IERC20, IVault)\nprivate\npublic balances$= " ++
      "f(a == b)").toList 3 = some ⟨"mapping (address=>uint256)[2]".toList, "balances$".toList, 3, .privately⟩ := by
  have spelled : (" mapping (address=>uint256) [ 2 ] override (IERC20, IVault)\nprivate\npublic balances$= " ++
      "f(a == b)").toList = balances.text := by
    decide +kernel
  have unpaid : ¬PaysAddress balances.text := by
    have absent : ¬"payable".toList <:+: balances.text := by decide +kernel
    exact fun pays => absent pays.isInfix
  rw [spelled]
  exact ofStatement?_text balances unpaid 3

end StateVariable

end ContractInterface
