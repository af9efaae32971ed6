import ContractInterface.Proofs.Headers
import ContractInterface.Proofs.Numerals
import ContractInterface.Proofs.References
import ContractInterface.Proofs.Spacing
import ContractInterface.Proofs.Spelling
import ContractInterface.Signature

/-! # Canonical texts

The spellings of types in a signature are built from names of elementary types, tuples and brackets
(`IsCanonical`).  The brackets hold lengths there, but any words that are no storage locations will do for
reading (`IsSignatureType`).  Whatever reads such texts word by word leaves them as they are
(`IsSignatureType.fixed`), and whatever counts their parentheses passes over them (`IsSignatureType.compose`).
-/

namespace ContractInterface

open Text TypeSyntax Delimiter

/-- The brackets of some dimensions, one after the other. -/
def brackets (lengths : List (Option Nat)) : Text :=
  lengths.flatMap Descriptor.dimension

/-- A text that spells a type of elementary parts in a signature. -/
inductive IsCanonical : Text → Prop
  | elementary {name : Text} (isName : isElementaryName name = true)
      (isFull : canonicalName name = name) (lengths : List (Option Nat)) :
      IsCanonical (name ++ brackets lengths)
  | tuple {types : List Text} (canonical : ∀ t ∈ types, IsCanonical t)
      (lengths : List (Option Nat)) :
      IsCanonical ('(' :: (joined [','] types ++ ')' :: brackets lengths))

theorem dimension_eq_bracketed (length : Option Nat) :
    Descriptor.dimension length = bracketed (sizeText length) := by
  cases length <;> rfl

@[simp] theorem brackets_nil : brackets [] = [] := rfl

@[simp] theorem brackets_cons (length : Option Nat) (lengths : List (Option Nat)) :
    brackets (length :: lengths) = '[' :: (sizeText length ++ ']' :: brackets lengths) := by
  unfold brackets
  rw [List.flatMap_cons, dimension_eq_bracketed, bracketed]
  simp

theorem brackets_append (xs ys : List (Option Nat)) :
    brackets (xs ++ ys) = brackets xs ++ brackets ys :=
  List.flatMap_append

theorem flatMap_bracketed (lengths : List (Option Nat)) :
    (lengths.map sizeText).flatMap bracketed = brackets lengths := by
  unfold brackets
  rw [List.flatMap_map]
  exact congrArg (lengths.flatMap ·) (funext fun length => (dimension_eq_bracketed length).symm)

theorem mem_flatMap_bracketed {sizes : List Text} (letters : ∀ size ∈ sizes, ∀ c ∈ size, isWordChar c = true)
    {c : Char} (member : c ∈ sizes.flatMap bracketed) : isWordChar c = true ∨ c = '[' ∨ c = ']' := by
  obtain ⟨size, isSize, inSize⟩ := List.mem_flatMap.1 member
  simp only [bracketed, List.cons_append, List.mem_cons, List.mem_append, List.not_mem_nil, or_false] at inSize
  rcases inSize with rfl | inSize | rfl
  · exact .inr (.inl rfl)
  · exact .inl (letters size isSize c inSize)
  · exact .inr (.inr rfl)

theorem mem_brackets {c : Char} {lengths : List (Option Nat)} (member : c ∈ brackets lengths) :
    isWordChar c = true ∨ c = '[' ∨ c = ']' := by
  rw [← flatMap_bracketed] at member
  refine mem_flatMap_bracketed (fun size isSize => ?_) member
  obtain ⟨length, _, rfl⟩ := List.mem_map.1 isSize
  exact fun _ inSize => isWordChar_of_mem_sizeText inSize

/-- Dimensions behind a canonical text make a canonical text. -/
theorem IsCanonical.append {t : Text} (canonical : IsCanonical t) (lengths : List (Option Nat)) :
    IsCanonical (t ++ brackets lengths) := by
  cases canonical with
  | elementary isName isFull inner =>
    rw [List.append_assoc, ← brackets_append]
    exact .elementary isName isFull _
  | tuple canonical inner =>
    rw [List.cons_append, List.append_assoc, List.cons_append, ← brackets_append]
    exact .tuple canonical _

/-- A text that spells a type in a signature, with sizes of one kind in the brackets behind elementary types
and of another kind behind tuples. -/
inductive IsSignatureType (isSize isTupleSize : Text → Prop) : Text → Prop
  | elementary {name : Text} {sizes : List Text} (isName : isElementaryName name = true)
      (isFull : canonicalName name = name) (areSizes : ∀ size ∈ sizes, isSize size) :
      IsSignatureType isSize isTupleSize (name ++ sizes.flatMap bracketed)
  | tuple {types sizes : List Text} (areTypes : ∀ t ∈ types, IsSignatureType isSize isTupleSize t)
      (areSizes : ∀ size ∈ sizes, isTupleSize size) :
      IsSignatureType isSize isTupleSize ('(' :: (joined [','] types ++ ')' :: sizes.flatMap bracketed))

theorem IsSignatureType.mono {isSize isTupleSize isSize' isTupleSize' : Text → Prop}
    (weaker : ∀ size, isSize size → isSize' size) (weaker' : ∀ size, isTupleSize size → isTupleSize' size)
    {t : Text} (isType : IsSignatureType isSize isTupleSize t) : IsSignatureType isSize' isTupleSize' t := by
  induction isType with
  | elementary isName isFull areSizes =>
    exact .elementary isName isFull fun size member => weaker size (areSizes size member)
  | tuple _ areSizes ih => exact .tuple ih fun size member => weaker' size (areSizes size member)

/-- A length as it is written. -/
def IsLength (size : Text) : Prop :=
  ∃ length, sizeText length = size

theorem isLength_of_mem {lengths : List (Option Nat)} : ∀ size ∈ lengths.map sizeText, IsLength size := by
  intro size member
  obtain ⟨length, _, same⟩ := List.mem_map.1 member
  exact ⟨length, same⟩

theorem IsCanonical.isSignatureType {t : Text} (canonical : IsCanonical t) : IsSignatureType IsLength IsLength t := by
  induction canonical with
  | elementary isName isFull lengths =>
    rw [← flatMap_bracketed]
    exact .elementary isName isFull isLength_of_mem
  | tuple _ lengths ih =>
    rw [← flatMap_bracketed]
    exact .tuple ih isLength_of_mem

theorem ne_addressPayable {name : Text} (isFull : canonicalName name = name) :
    name ≠ "address payable".toList := by
  rintro rfl
  exact absurd isFull (by decide)

/-! ## Word by word -/

section Fixed

variable {F : Text → Text} (nil : F [] = [])
  (separates : ∀ c ∈ "()[],".toList, ∀ s t, F (s ++ c :: t) = F s ++ c :: F t)

include nil separates

theorem fixed_cons {c : Char} (separator : c ∈ "()[],".toList) (t : Text) :
    F (c :: t) = c :: F t := by
  have whole := separates c separator [] t
  rw [nil] at whole
  exact whole

theorem fixed_append_sizes {sizes : List Text} (fixed : ∀ size ∈ sizes, F size = size) (s : Text) :
    F (s ++ sizes.flatMap bracketed) = F s ++ sizes.flatMap bracketed := by
  induction sizes generalizing s with
  | nil => simp
  | cons size sizes ih =>
    obtain ⟨first, others⟩ := List.forall_mem_cons.1 fixed
    have rest := ih others []
    rw [nil, List.nil_append] at rest
    have split : (size :: sizes).flatMap bracketed = '[' :: (size ++ ']' :: sizes.flatMap bracketed) := by
      simp [bracketed]
    rw [split, separates _ (by decide), separates _ (by decide), first, rest]

theorem fixed_append_brackets (size : ∀ length, F (sizeText length) = sizeText length) (s : Text)
    (lengths : List (Option Nat)) : F (s ++ brackets lengths) = F s ++ brackets lengths := by
  rw [← flatMap_bracketed]
  refine fixed_append_sizes nil separates (fun written member => ?_) s
  obtain ⟨length, rfl⟩ := isLength_of_mem written member
  exact size length

theorem fixed_joined {types : List Text} (types_ : ∀ t ∈ types, F t = t) :
    F (joined [','] types) = joined [','] types := by
  induction types with
  | nil => exact nil
  | cons t types ih =>
    have first := types_ t List.mem_cons_self
    cases types with
    | nil => simpa [joined] using first
    | cons next more =>
      rw [joined_cons_cons, List.singleton_append, separates _ (by decide), first,
        ih fun u member => types_ u (List.mem_cons_of_mem t member)]

/-- What acts on words, and neither on the names of elementary types nor on sizes, leaves the spelling of a
type as it is. -/
theorem IsSignatureType.fixed {isSize : Text → Prop} (size : ∀ s, isSize s → F s = s)
    (word : ∀ name, isElementaryName name = true → canonicalName name = name → F name = name)
    {t : Text} (isType : IsSignatureType isSize isSize t) : F t = t := by
  induction isType with
  | elementary isName isFull areSizes =>
    rw [fixed_append_sizes nil separates fun s member => size s (areSizes s member), word _ isName isFull]
  | tuple _ areSizes ih =>
    -- the parentheses, the commas and the brackets all separate
    have behind := fixed_append_sizes nil separates (fun s member => size s (areSizes s member)) []
    rw [nil, List.nil_append] at behind
    rw [fixed_cons nil separates (by decide), separates _ (by decide), fixed_joined nil separates ih, behind]

end Fixed

theorem eq_false_of_all {s : Text} {p : Char → Bool} (all : (s.all fun c => !p c) = true) :
    ∀ c ∈ s, p c = false := by
  intro c member
  have holds := List.all_eq_true.1 all c member
  simpa using holds

theorem isWordChar_of_separator : ∀ c ∈ "()[],".toList, isWordChar c = false :=
  eq_false_of_all (by decide)

theorem isBlank_of_separator : ∀ c ∈ "()[],".toList, isBlank c = false :=
  eq_false_of_all (by decide)

theorem blankStorage_separator (c : Char) (separator : c ∈ "()[],".toList) (s t : Text) :
    blankStorage (s ++ c :: t) = blankStorage s ++ c :: blankStorage t :=
  blankStorage_append_cons (isWordChar_of_separator c separator) s t

theorem plainAddress_separator (c : Char) (separator : c ∈ "()[],".toList) (s t : Text) :
    plainAddress (s ++ c :: t) = plainAddress s ++ c :: plainAddress t :=
  plainAddress_append_cons (isBlank_of_separator c separator) (isWordChar_of_separator c separator) s t

/-- A size that is read as it stands. -/
structure IsPlainSize (size : Text) : Prop where
  letters : ∀ c ∈ size, isWordChar c = true
  unlocated : size ∉ storageLocations

theorem isPlainSize_of_isDecimal {size : Text} (decimal : ∀ c ∈ size, isDecimal c = true) : IsPlainSize size where
  letters c member := isWordChar_of_isDecimal (decimal c member)
  unlocated isPlace := by
    have none_ : ∀ place ∈ storageLocations, place.all isDecimal = false := by decide
    exact Bool.false_ne_true ((none_ size isPlace).symm.trans (List.all_eq_true.2 decimal))

theorem IsLength.isDecimal {size : Text} (isLength : IsLength size) : ∀ c ∈ size, isDecimal c = true := by
  obtain ⟨length, rfl⟩ := isLength
  exact fun _ member => isDecimal_of_mem_sizeText member

theorem isPlainSize_of_mem {lengths : List (Option Nat)} : ∀ size ∈ lengths.map sizeText, IsPlainSize size :=
  fun size isSize => isPlainSize_of_isDecimal (isLength_of_mem size isSize).isDecimal

theorem IsPlainSize.blankStorage_eq {size : Text} (plain : IsPlainSize size) : blankStorage size = size := by
  by_cases nonempty : size = []
  · rw [nonempty, blankStorage_nil]
  · rw [blankStorage_word nonempty plain.letters, if_neg plain.unlocated]

theorem IsPlainSize.plainAddress_eq {size : Text} (plain : IsPlainSize size) : plainAddress size = size := by
  by_cases nonempty : size = []
  · rw [nonempty, plainAddress_nil]
  · exact plainAddress_word nonempty plain.letters

theorem blankStorage_sizeText (length : Option Nat) : blankStorage (sizeText length) = sizeText length :=
  (isPlainSize_of_isDecimal fun _ member => isDecimal_of_mem_sizeText member).blankStorage_eq

theorem plainAddress_sizeText (length : Option Nat) : plainAddress (sizeText length) = sizeText length :=
  (isPlainSize_of_isDecimal fun _ member => isDecimal_of_mem_sizeText member).plainAddress_eq

/-- The name of an elementary type is a plain word, unless it is `address payable`. -/
theorem isPlainWord_of_isElementaryName {name : Text} (isName : isElementaryName name = true)
    (other : name ≠ "address payable".toList) : IsPlainWord name where
  identifier := isIdentifier_of_isElementaryName isName other
  letters := isWordChar_of_isElementaryName isName other
  free reserved := by
    -- no reserved word is elementary, so no elementary name is reserved
    have none_ : ∀ word ∈ reservedWords, isElementaryName word = false := by decide +kernel
    rw [none_ name reserved] at isName
    cases isName

/-- The spelling of a type names no storage location. -/
theorem IsSignatureType.blankStorage_eq {t : Text} (isType : IsSignatureType IsPlainSize IsPlainSize t) :
    blankStorage t = t :=
  isType.fixed blankStorage_nil blankStorage_separator (fun _ => IsPlainSize.blankStorage_eq)
    fun _ isName isFull => (isPlainWord_of_isElementaryName isName (ne_addressPayable isFull)).blankStorage_eq

theorem IsSignatureType.plainAddress_eq {t : Text} (isType : IsSignatureType IsPlainSize IsPlainSize t) :
    plainAddress t = t :=
  isType.fixed plainAddress_nil plainAddress_separator (fun _ => IsPlainSize.plainAddress_eq)
    fun _ isName isFull => (isPlainWord_of_isElementaryName isName (ne_addressPayable isFull)).plainAddress_eq

/-- Names of types that can be told from the words with a meaning of their own. -/
structure AreDistinct (names : List Text) : Prop where
  identifiers : ∀ name ∈ names, Identifier.isIdentifier name = true
  userDefined : ∀ name ∈ names, isElementaryName name = false
  free : ∀ name ∈ names, name ∉ reservedWords

theorem AreDistinct.sizeText_not_mem {names : List Text} (distinct : AreDistinct names)
    {length : Option Nat} (nonempty : sizeText length ≠ []) : sizeText length ∉ names := by
  refine ContractInterface.sizeText_not_mem (fun name member => ?_) nonempty
  have identifier := distinct.identifiers name member
  cases name with
  | nil => rfl
  | cons c s =>
    have starts := (Bool.and_eq_true_iff.1 identifier).1
    apply Bool.eq_false_iff.2
    intro digit
    rw [isStart_of_isDigit digit] at starts
    cases starts

theorem substituted_separator (spelling : Text → Text) (names : List Text) (c : Char)
    (separator : c ∈ "()[],".toList) (s t : Text) :
    Registry.substituted spelling names (s ++ c :: t) =
      Registry.substituted spelling names s ++ c :: Registry.substituted spelling names t := by
  have separators : ∀ c ∈ "()[],".toList, Registry.isReferenceMember c = false :=
    eq_false_of_all (by decide)
  exact Registry.substituted_append_cons spelling names (separators c separator) s t

theorem AreDistinct.substituted_sizeText {names : List Text} (distinct : AreDistinct names)
    (spelling : Text → Text) (length : Option Nat) :
    Registry.substituted spelling names (sizeText length) = sizeText length := by
  by_cases nonempty : sizeText length = []
  · rw [nonempty, Registry.substituted_nil]
  · exact Registry.substituted_of_not_mem nonempty
      (fun c member => isMember_of_isWordChar (isWordChar_of_mem_sizeText member))
      (distinct.sizeText_not_mem nonempty)

/-- Substitution leaves a canonical text as it is. -/
theorem IsCanonical.substituted_eq {names : List Text} (distinct : AreDistinct names)
    (spelling : Text → Text) {t : Text} (canonical : IsCanonical t) :
    Registry.substituted spelling names t = t := by
  refine canonical.isSignatureType.fixed (Registry.substituted_nil spelling names)
    (substituted_separator spelling names) ?_ fun name isName isFull => ?_
  · rintro _ ⟨length, rfl⟩
    exact distinct.substituted_sizeText spelling length
  have plain := isPlainWord_of_isElementaryName isName (ne_addressPayable isFull)
  refine Registry.substituted_of_not_mem plain.nonempty
    (isMember_of_isIdentifier plain.identifier) fun member => ?_
  rw [distinct.userDefined name member] at isName
  cases isName

/-! ## Character by character -/

/-- What holds of members, of brackets and of what is put together from texts of which it holds holds
of the spellings of types. -/
theorem IsSignatureType.compose {P : Text → Prop} (nil : P [])
    (append : ∀ s t, P s → P t → P (s ++ t))
    (char : ∀ c, Identifier.isMember c = true ∨ c = '[' ∨ c = ']' → P [c])
    (parens : ∀ types : List Text, (∀ t ∈ types, P t) → P ('(' :: (joined [','] types ++ [')'])))
    {t : Text} (isType : IsSignatureType IsPlainSize IsPlainSize t) : P t := by
  -- texts without parentheses are put together from their characters
  have all : ∀ s : Text, (∀ c ∈ s, Identifier.isMember c = true ∨ c = '[' ∨ c = ']') → P s := by
    intro s chars
    induction s with
    | nil => exact nil
    | cons c s ih =>
      exact append [c] s (char c (chars c List.mem_cons_self))
        (ih fun d member => chars d (List.mem_cons_of_mem c member))
  have behind : ∀ sizes : List Text, (∀ size ∈ sizes, IsPlainSize size) → P (sizes.flatMap bracketed) :=
    fun sizes plain => all _ fun c member =>
      (mem_flatMap_bracketed (fun size isSize => (plain size isSize).letters) member).imp isMember_of_isWordChar id
  induction isType with
  | elementary isName isFull areSizes =>
    refine append _ _ (all _ fun c member => .inl ?_) (behind _ areSizes)
    exact isMember_of_isWordChar
      (isWordChar_of_isElementaryName isName (ne_addressPayable isFull) c member)
  | tuple _ areSizes ih =>
    have whole := append _ _ (parens _ ih) (behind _ areSizes)
    simpa using whole

theorem mem_of_mem_joined {c : Char} {types : List Text} (member : c ∈ joined [','] types) :
    c = ',' ∨ ∃ t ∈ types, c ∈ t := by
  induction types with
  | nil => cases member
  | cons t types ih =>
    cases types with
    | nil => exact .inr ⟨t, List.mem_cons_self, by simpa [joined] using member⟩
    | cons next more =>
      rw [joined_cons_cons] at member
      rcases List.mem_append.1 member with inFirst | member
      · exact .inr ⟨t, List.mem_cons_self, inFirst⟩
      · rcases List.mem_cons.1 member with isComma | member
        · exact .inl isComma
        · rcases ih member with isComma | ⟨u, isType, inType⟩
          · exact .inl isComma
          · exact .inr ⟨u, List.mem_cons_of_mem t isType, inType⟩

/-- The spelling of a type consists of members, brackets, parentheses and commas. -/
theorem IsSignatureType.chars {t : Text} (isType : IsSignatureType IsPlainSize IsPlainSize t) :
    ∀ c ∈ t, Identifier.isMember c = true ∨ c ∈ "[](),".toList := by
  refine isType.compose
    (P := fun u => ∀ c ∈ u, Identifier.isMember c = true ∨ c ∈ "[](),".toList) (by simp) ?_ ?_ ?_
  · intro s t left right c member
    rcases List.mem_append.1 member with member | member
    · exact left c member
    · exact right c member
  · intro c kind d member
    rw [List.mem_singleton.1 member]
    rcases kind with isMember | rfl | rfl
    · exact .inl isMember
    · exact .inr (by decide)
    · exact .inr (by decide)
  · intro types inner c member
    rcases List.mem_cons.1 member with rfl | member
    · exact .inr (by decide)
    · rcases List.mem_append.1 member with inJoined | isClose
      · rcases mem_of_mem_joined inJoined with rfl | ⟨t, isType, inType⟩
        · exact .inr (by decide)
        · exact inner t isType c inType
      · rw [List.mem_singleton.1 isClose]
        exact .inr (by decide)

theorem IsSignatureType.solid {t : Text} (isType : IsSignatureType IsPlainSize IsPlainSize t) : IsSolid t := by
  have separators : ∀ c ∈ "[](),".toList, isBlank c = false := eq_false_of_all (by decide)
  intro c member
  rcases isType.chars c member with isMember | separator
  · exact isBlank_of_isMember isMember
  · exact separators c separator

theorem isQuote_of_isMember {c : Char} (member : Identifier.isMember c = true) :
    Literal.isQuote c = false := by
  apply Bool.eq_false_iff.2
  intro quote
  rw [isMember_of_isQuote quote] at member
  cases member

theorem IsSignatureType.noQuote {t : Text} (isType : IsSignatureType IsPlainSize IsPlainSize t) :
    ∀ c ∈ t, Literal.isQuote c = false := by
  have separators : ∀ c ∈ "[](),".toList, Literal.isQuote c = false :=
    eq_false_of_all (by decide)
  intro c member
  rcases isType.chars c member with isMember | separator
  · exact isQuote_of_isMember isMember
  · exact separators c separator

/-! ## Parentheses -/

/-- A text in front of the first piece. -/
def onFront (t : Text) : List Text → List Text
  | [] => [t]
  | piece :: more => (t ++ piece) :: more

theorem onFront_nil {pieces : List Text} (nonempty : pieces ≠ []) : onFront [] pieces = pieces := by
  cases pieces with
  | nil => exact absurd rfl nonempty
  | cons piece more => rfl

theorem onFront_onFront (s t : Text) (pieces : List Text) :
    onFront s (onFront t pieces) = onFront (s ++ t) pieces := by
  cases pieces with
  | nil => rfl
  | cons piece more => simp [onFront]

theorem onFirst_eq_onFront (c : Char) (pieces : List Text) : onFirst c pieces = onFront [c] pieces := by
  cases pieces <;> rfl

theorem segments_ne_nil (isSeparator : Char → Bool) (depth : Int) (s : Text) :
    segments isSeparator depth s ≠ [] := by
  cases s with
  | nil => exact List.cons_ne_nil _ _
  | cons c s =>
    rw [segments]
    split
    · exact List.cons_ne_nil _ _
    · exact onFirst_ne_nil _ _

/-- A text of which a list of parameters separates nothing: its parentheses are balanced, and its commas
stand inside of them. -/
def IsOpaque (t : Text) : Prop :=
  ∀ depth : Int, 0 ≤ depth → ∀ s, segments (· == ',') depth (t ++ s) =
    onFront t (segments (· == ',') depth s)

theorem isOpaque_nil : IsOpaque [] := fun _ _ _ =>
  (onFront_nil (segments_ne_nil _ _ _)).symm

theorem IsOpaque.append {s t : Text} (left : IsOpaque s) (right : IsOpaque t) : IsOpaque (s ++ t) := by
  intro depth inside u
  rw [List.append_assoc, left depth inside, right depth inside, onFront_onFront]

theorem isOpaque_char {c : Char} (flat : parenStep c = 0) (notComma : c ≠ ',') : IsOpaque [c] := by
  intro depth _ s
  rw [List.singleton_append, segments, if_neg (by simp [notComma]), flat, Int.add_zero,
    onFirst_eq_onFront]

theorem isOpaque_of_chars {t : Text} (flat : ∀ c ∈ t, parenStep c = 0 ∧ c ≠ ',') : IsOpaque t := by
  induction t with
  | nil => exact isOpaque_nil
  | cons c t ih =>
    obtain ⟨step, notComma⟩ := flat c List.mem_cons_self
    exact (isOpaque_char step notComma).append
      (ih fun d member => flat d (List.mem_cons_of_mem c member))

/-- Inside parentheses commas separate nothing. -/
theorem segments_joined_append {types : List Text} (opaques : ∀ t ∈ types, IsOpaque t) {depth : Int}
    (inside : 0 < depth) (s : Text) : segments (· == ',') depth (joined [','] types ++ s) =
      onFront (joined [','] types) (segments (· == ',') depth s) := by
  induction types with
  | nil => exact (onFront_nil (segments_ne_nil _ _ _)).symm
  | cons t types ih =>
    have first := opaques t List.mem_cons_self depth (Int.le_of_lt inside)
    cases types with
    | nil => simpa [joined] using first s
    | cons next more =>
      have others := ih fun u member => opaques u (List.mem_cons_of_mem t member)
      have outside : ¬(parenStep ',' = 0 ∧ (',' == ',') = true ∧ depth = 0) := by
        rintro ⟨_, _, rfl⟩
        exact absurd inside (by decide)
      have step : parenStep ',' = 0 := by decide
      rw [joined_cons_cons, List.append_assoc, first, List.singleton_append, List.cons_append,
        segments, if_neg outside, step, Int.add_zero, others, onFirst_eq_onFront, onFront_onFront,
        onFront_onFront, List.append_assoc, List.singleton_append]

theorem isOpaque_parens {types : List Text} (opaques : ∀ t ∈ types, IsOpaque t) :
    IsOpaque ('(' :: (joined [','] types ++ [')'])) := by
  intro depth inside s
  have opens : parenStep '(' = 1 := by decide
  have closes : parenStep ')' = -1 := by decide
  rw [List.cons_append, segments, if_neg (by simp [opens]), opens, List.append_assoc,
    segments_joined_append opaques (by omega), List.singleton_append, segments,
    if_neg (by simp [closes]), closes, Int.add_neg_cancel_right, onFirst_eq_onFront,
    onFirst_eq_onFront, onFront_onFront, onFront_onFront]
  rfl

theorem parenStep_of_isMember {c : Char} (member : Identifier.isMember c = true) :
    parenStep c = 0 := by
  have notOpen : c ≠ '(' := by rintro rfl; exact absurd member (by decide)
  have notClose : c ≠ ')' := by rintro rfl; exact absurd member (by decide)
  simp [parenStep, step, isOpenParen, isCloseParen, notOpen, notClose]

theorem parenStep_of_isBlank {c : Char} (blank : isBlank c = true) : parenStep c = 0 := by
  have notOpen : c ≠ '(' := by rintro rfl; exact absurd blank (by decide)
  have notClose : c ≠ ')' := by rintro rfl; exact absurd blank (by decide)
  simp [parenStep, step, isOpenParen, isCloseParen, notOpen, notClose]

theorem isOpaque_of_blanks {b : Text} (blanks : Blanks b) : IsOpaque b :=
  isOpaque_of_chars fun c member => ⟨parenStep_of_isBlank (blanks c member), by
    rintro rfl
    exact absurd (blanks ',' member) (by decide)⟩

theorem IsSignatureType.isOpaque {t : Text} (isType : IsSignatureType IsPlainSize IsPlainSize t) : IsOpaque t := by
  refine isType.compose isOpaque_nil (fun _ _ => IsOpaque.append) ?_ fun _ => isOpaque_parens
  intro c kind
  rcases kind with member | rfl | rfl
  · refine isOpaque_char (parenStep_of_isMember member) ?_
    rintro rfl
    exact absurd member (by decide)
  · exact isOpaque_char (by decide) (by decide)
  · exact isOpaque_char (by decide) (by decide)

/-- Opaque texts with commas between them are separated there. -/
theorem segments_joined {pieces : List Text} (nonempty : pieces ≠ [])
    (opaques : ∀ t ∈ pieces, IsOpaque t) :
    segments (· == ',') 0 (joined [','] pieces) = pieces := by
  induction pieces with
  | nil => exact absurd rfl nonempty
  | cons t pieces ih =>
    have first := opaques t List.mem_cons_self 0 (Int.le_refl 0)
    cases pieces with
    | nil =>
      have whole := first []
      simpa [joined, segments, onFront] using whole
    | cons next more =>
      have step : parenStep ',' = 0 := by decide
      rw [joined_cons_cons, first, List.singleton_append, segments, if_pos ⟨step, rfl, rfl⟩,
        ih (List.cons_ne_nil _ _) fun u member => opaques u (List.mem_cons_of_mem t member)]
      simp [onFront]

theorem splitCommas_joined {pieces : List Text} (opaques : ∀ t ∈ pieces, IsOpaque t) :
    splitCommas (joined [','] pieces) = (pieces.map trim).filter (· != []) := by
  unfold splitCommas splitTopLevel
  cases pieces with
  | nil => rfl
  | cons t pieces => rw [segments_joined (List.cons_ne_nil t pieces) opaques]

end ContractInterface
