import ContractInterface.Proofs.Clauses
import ContractInterface.Proofs.Success

/-! # The canonical type of a parameter

Reading the type in a signature as a parameter clause gives the text back, whatever decoration stands behind it
(`IsSignatureType.canonicalParam_eq`): its parentheses match from the outside in, and the dimensions behind them
are decimal.  Behind the name of an elementary type any words will do for sizes.
-/

namespace ContractInterface

open Text TypeSyntax Delimiter Signature

/-! ## Matching parentheses -/

section Matching

variable {depth : Int} (ms : List Mark)

theorem closeFrom?_open : closeFrom? isOpenParen isCloseParen depth (⟨'(', false⟩ :: ms) =
    (closeFrom? isOpenParen isCloseParen (depth + 1) ms).map (· + 1) := by
  have change : markStep isOpenParen isCloseParen ⟨'(', false⟩ = 1 := rfl
  simp [closeFrom?, change]

theorem closeFrom?_close (other : depth ≠ 1) :
    closeFrom? isOpenParen isCloseParen depth (⟨')', false⟩ :: ms) =
      (closeFrom? isOpenParen isCloseParen (depth - 1) ms).map (· + 1) := by
  have change : markStep isOpenParen isCloseParen ⟨')', false⟩ = -1 := rfl
  have goesOn : ¬ depth + -1 = 0 := by omega
  simp [closeFrom?, change, goesOn, Int.sub_eq_add_neg]

theorem closeFrom?_close_one : closeFrom? isOpenParen isCloseParen 1 (⟨')', false⟩ :: ms) = some 0 := by
  have change : markStep isOpenParen isCloseParen ⟨')', false⟩ = -1 := rfl
  simp [closeFrom?, change]

end Matching

/-- A text that a scan for a closing parenthesis passes over. -/
def IsBalanced (t : Text) : Prop :=
  ∀ depth : Int, 0 < depth → ∀ ms, closeFrom? isOpenParen isCloseParen depth (Literal.unquotedMarks t ++ ms) =
    (closeFrom? isOpenParen isCloseParen depth ms).map (· + t.length)

theorem isBalanced_nil : IsBalanced [] := by
  intro depth _ ms
  simp [Literal.unquotedMarks]

theorem IsBalanced.append {s t : Text} (left : IsBalanced s) (right : IsBalanced t) :
    IsBalanced (s ++ t) := by
  intro depth inside ms
  have marks : Literal.unquotedMarks (s ++ t) = Literal.unquotedMarks s ++ Literal.unquotedMarks t :=
    List.map_append
  rw [marks, List.append_assoc, left depth inside, right depth inside, Option.map_map, List.length_append]
  congr 1
  funext k
  simp only [Function.comp_apply]
  omega

theorem isBalanced_char {c : Char} (flat : parenStep c = 0) : IsBalanced [c] := by
  intro depth _ ms
  have change : markStep isOpenParen isCloseParen ⟨c, false⟩ = 0 := flat
  simp [Literal.unquotedMarks, closeFrom?, change]

theorem isBalanced_of_chars {t : Text} (flat : ∀ c ∈ t, parenStep c = 0) : IsBalanced t := by
  induction t with
  | nil => exact isBalanced_nil
  | cons c t ih =>
    exact (isBalanced_char (flat c List.mem_cons_self)).append
      (ih fun d member => flat d (List.mem_cons_of_mem c member))

theorem isBalanced_joined {types : List Text} (balanced : ∀ t ∈ types, IsBalanced t) :
    IsBalanced (joined [','] types) := by
  induction types with
  | nil => exact isBalanced_nil
  | cons t types ih =>
    have first := balanced t List.mem_cons_self
    cases types with
    | nil => simpa [joined] using first
    | cons next more =>
      rw [joined_cons_cons]
      exact first.append ((isBalanced_char (by decide)).append
        (ih fun u member => balanced u (List.mem_cons_of_mem t member)))

theorem IsBalanced.parens {t : Text} (balanced : IsBalanced t) : IsBalanced ('(' :: (t ++ [')'])) := by
  intro depth inside ms
  have marks : Literal.unquotedMarks ('(' :: (t ++ [')'])) ++ ms =
      ⟨'(', false⟩ :: (Literal.unquotedMarks t ++ ⟨')', false⟩ :: ms) := by
    simp [Literal.unquotedMarks]
  have back : depth + 1 - 1 = depth := by omega
  rw [marks, closeFrom?_open, balanced _ (by omega), closeFrom?_close _ (by omega), back,
    Option.map_map, Option.map_map]
  congr 1
  funext k
  simp only [Function.comp_apply, List.length_cons, List.length_append, List.length_nil]
  omega

theorem marks_append_of_noQuote {s : Text} (noQuote : ∀ c ∈ s, Literal.isQuote c = false) (t : Text) :
    Literal.marks (s ++ t) = Literal.unquotedMarks s ++ Literal.marks t := by
  unfold Literal.marks
  induction s with
  | nil => rfl
  | cons c s ih =>
    rw [List.cons_append, Literal.marksFrom, if_neg (by simp [noQuote c List.mem_cons_self]),
      ih fun d member => noQuote d (List.mem_cons_of_mem c member)]
    rfl

/-- A parenthesis in front of a balanced part is matched behind it. -/
theorem closeFrom?_parens {t : Text} (balanced : IsBalanced t) (ms : List Mark) :
    closeFrom? isOpenParen isCloseParen 0
      (⟨'(', false⟩ :: (Literal.unquotedMarks t ++ ⟨')', false⟩ :: ms)) = some (t.length + 1) := by
  have depth : (0 : Int) + 1 = 1 := by decide
  rw [closeFrom?_open, depth, balanced _ (by decide), closeFrom?_close_one]
  simp

theorem matchingPlainParen?_of_isBalanced {t : Text} (balanced : IsBalanced t) (s : Text) :
    matchingPlainParen? ('(' :: (t ++ ')' :: s)) = some (t.length + 1) := by
  have whole : Literal.unquotedMarks ('(' :: (t ++ ')' :: s)) =
      ⟨'(', false⟩ :: (Literal.unquotedMarks t ++ ⟨')', false⟩ :: Literal.unquotedMarks s) := by
    simp [Literal.unquotedMarks]
  unfold matchingPlainParen?
  rw [whole, closeFrom?_parens balanced]

/-- The parenthesis that a text starts with is matched behind a balanced part without literals. -/
theorem matchingParen?_of_isBalanced {t : Text} (balanced : IsBalanced t)
    (noQuote : ∀ c ∈ t, Literal.isQuote c = false) (s : Text) :
    matchingParen? ('(' :: (t ++ ')' :: s)) = some (t.length + 1) := by
  have behind : Literal.marks (')' :: s) = ⟨')', false⟩ :: Literal.marks s :=
    marks_append_of_noQuote (s := [')']) (by simp; decide) s
  have whole : Literal.marks ('(' :: (t ++ ')' :: s)) =
      ⟨'(', false⟩ :: (Literal.unquotedMarks t ++ ⟨')', false⟩ :: Literal.marks s) := by
    have front := marks_append_of_noQuote (s := ['(']) (by simp; decide) (t ++ ')' :: s)
    rw [marks_append_of_noQuote noQuote, behind] at front
    exact front
  unfold matchingParen?
  rw [whole, closeFrom?_parens balanced]

/-- What stands between two parentheses, if it is balanced and without literals. -/
theorem parenthesised?_of_isBalanced {t : Text} (balanced : IsBalanced t)
    (noQuote : ∀ c ∈ t, Literal.isQuote c = false) : parenthesised? ('(' :: (t ++ [')'])) = some (t, []) := by
  unfold parenthesised?
  rw [matchingParen?_of_isBalanced balanced noQuote []]
  simp

theorem IsSignatureType.isBalanced {t : Text} (isType : IsSignatureType IsPlainSize IsPlainSize t) :
    IsBalanced t := by
  refine isType.compose isBalanced_nil (fun _ _ => IsBalanced.append) ?_
    fun _ balanced => (isBalanced_joined balanced).parens
  intro c kind
  rcases kind with member | rfl | rfl
  · exact isBalanced_char (parenStep_of_isMember member)
  · exact isBalanced_char (by decide)
  · exact isBalanced_char (by decide)

/-! ## Shapes of clauses -/

theorem canonicalParam_of_plain {clause text : Text} (shape : clauseShape clause = .ok (.plain text)) :
    canonicalParam clause = canonicalPlain text := by
  rw [canonicalParam.eq_def]
  split
  · rename_i isShape
    rw [shape] at isShape
    cases isShape
  · rename_i isShape
    rw [shape] at isShape
    cases isShape
    rfl
  · rename_i isShape
    rw [shape] at isShape
    cases isShape

theorem canonicalParam_of_error {clause : Text} {cause : SignatureError}
    (shape : clauseShape clause = .error cause) : canonicalParam clause = .error cause := by
  rw [canonicalParam.eq_def]
  split
  · rename_i isShape
    rw [shape] at isShape
    cases isShape
    rfl
  · rename_i isShape
    rw [shape] at isShape
    cases isShape
  · rename_i isShape
    rw [shape] at isShape
    cases isShape

theorem canonicalParam_of_tuple {clause suffix : Text} {parts types : List Text}
    (shape : clauseShape clause = .ok (.tuple parts suffix))
    (inner : parts.map canonicalParam = types.map .ok) :
    canonicalParam clause = .ok ('(' :: joined [','] types ++ ')' :: suffix) := by
  rw [canonicalParam.eq_def]
  split
  · rename_i isShape
    rw [shape] at isShape
    cases isShape
  · rename_i isShape
    rw [shape] at isShape
    cases isShape
  -- the parts carry a proof of being parts, which the reading forgets
  · rename_i parts' suffix' isShape
    rw [shape] at isShape
    cases isShape
    have reads : parts.attach.mapM (fun part => canonicalParam part.1) = .ok types := by
      rw [mapM_eq_ok_iff, ← inner]
      exact List.attach_map_val
    exact bind_eq_ok_iff.2 ⟨types, reads, rfl⟩

theorem withoutTupleWord_paren (t : Text) : withoutTupleWord ('(' :: t) = '(' :: t := by
  have none_ : after? Abi.tupleType ('(' :: t) = none := rfl
  unfold withoutTupleWord
  rw [none_]

theorem withoutTupleWord_of_not_mem {s : Text} (noParen : '(' ∉ s) : withoutTupleWord s = s := by
  unfold withoutTupleWord
  split
  · rename_i rest isRest
    have inRest : '(' ∉ rest := fun member =>
      noParen (after?_eq_some.1 isRest ▸ List.mem_append_right _ member)
    rw [startsWith_eq_false (not_mem_trimStart inRest)]
    rfl
  · rfl

/-! ## Suffixes -/

theorem decimalDimension?_bracketed {size : Text} (decimal : ∀ c ∈ size, isDecimal c = true) (t : Text) :
    decimalDimension? (bracketed size ++ t) = some (size, t) := by
  have whole : bracketed size ++ t = '[' :: (size ++ ']' :: t) := by simp [bracketed]
  have solid : IsSolid size := fun c member => isBlank_of_isWordChar (isWordChar_of_isDecimal (decimal c member))
  have opened : trimStart ('[' :: (size ++ ']' :: t)) = '[' :: (size ++ ']' :: t) :=
    trimStart_of_first (by simp; decide)
  have start : trimStart (size ++ ']' :: t) = size ++ ']' :: t := trimStart_solid_append solid (by decide) t
  have inSize : (size ++ ']' :: t).takeWhile isDecimal = size := by
    rw [List.takeWhile_append_of_pos decimal, List.takeWhile_cons_of_neg (by decide), List.append_nil]
  have behind : (size ++ ']' :: t).dropWhile isDecimal = ']' :: t := by
    rw [List.dropWhile_append_of_pos decimal, List.dropWhile_cons_of_neg (by decide)]
  have close : trimStart (']' :: t) = ']' :: t := trimStart_of_first (by simp; decide)
  unfold decimalDimension?
  simp only [whole, opened, start, inSize, behind, close]

theorem decimalDimensions_append {sizes : List Text} (decimal : ∀ size ∈ sizes, ∀ c ∈ size, isDecimal c = true)
    {t : Text} (none_ : decimalDimension? t = none) :
    decimalDimensions (sizes.flatMap bracketed ++ t) = (sizes, t) := by
  induction sizes with
  | nil =>
    rw [List.flatMap_nil, List.nil_append, decimalDimensions.eq_def]
    split
    · rename_i found
      rw [none_] at found
      cases found
    · rfl
  | cons size sizes ih =>
    obtain ⟨first, others⟩ := List.forall_mem_cons.1 decimal
    have found := decimalDimension?_bracketed first (sizes.flatMap bracketed ++ t)
    rw [List.flatMap_cons, List.append_assoc, decimalDimensions.eq_def]
    split
    · rename_i found'
      rw [found] at found'
      cases found'
      rw [ih others]
    · rename_i missing
      rw [found] at missing
      cases missing

theorem tupleSuffix?_sizes {sizes : List Text} (decimal : ∀ size ∈ sizes, ∀ c ∈ size, isDecimal c = true)
    {name : Text} (plain : name = [] ∨ IsPlainWord name) :
    tupleSuffix? (sizes.flatMap bracketed ++ setOff name) = some (sizes.flatMap bracketed) := by
  have start := trimStart_setOff (plain.imp id IsPlainWord.identifier)
  have none_ : decimalDimension? (setOff name) = none := by
    unfold decimalDimension?
    rw [start]
    split
    · rcases plain with absurd_ | plain
      · cases absurd_
      · exact absurd (plain.letters '[' List.mem_cons_self) (by decide)
    · rfl
  have isName : name = [] ∨ Identifier.isIdentifier name = true := plain.imp id IsPlainWord.identifier
  unfold tupleSuffix?
  simp only [decimalDimensions_append decimal none_, start, isName, if_true]

/-! ## Signature types as parameters -/

theorem IsSignatureType.isBare {t : Text} (isType : IsSignatureType IsPlainSize IsPlainSize t) : IsBare t where
  nonempty := by
    cases isType with
    | elementary isName isFull _ =>
      have plain := isPlainWord_of_isElementaryName isName (ne_addressPayable isFull)
      exact List.append_ne_nil_of_left_ne_nil plain.nonempty _
    | tuple _ _ => exact List.cons_ne_nil _ _
  solid := isType.solid
  blankStorage_eq := isType.blankStorage_eq
  plainAddress_eq := isType.plainAddress_eq

theorem clauseShape_of_not_mem {clause : Text} (noParen : '(' ∉ normalized clause) :
    clauseShape clause = .ok (.plain (normalized clause)) := by
  unfold clauseShape
  simp only [withoutTupleWord_of_not_mem noParen, startsWith_eq_false noParen, isMapping_eq_false noParen,
    Bool.false_eq_true, if_false]

section Sized

variable {base : Text} (isWord : IsPlainWord base) {sizes : List Text} (plain : ∀ size ∈ sizes, IsPlainSize size)

include plain

theorem letters_of_isPlainSize : ∀ size ∈ sizes, ∀ c ∈ size, isWordChar c = true :=
  fun size isSize => (plain size isSize).letters

include isWord

theorem isTypeMember_of_mem_sized : ∀ c ∈ base ++ sizes.flatMap bracketed, Clause.isTypeMember c = true := by
  intro c member
  unfold Clause.isTypeMember
  rcases List.mem_append.1 member with inName | inBrackets
  · simp only [isMember_of_isWordChar (isWord.letters c inName), Bool.true_or]
  · rcases mem_flatMap_bracketed (letters_of_isPlainSize plain) inBrackets with letter | rfl | rfl
    · simp only [isMember_of_isWordChar letter, Bool.true_or]
    · rfl
    · rfl

theorem isBare_sized : IsBare (base ++ sizes.flatMap bracketed) where
  nonempty := List.append_ne_nil_of_left_ne_nil isWord.nonempty _
  solid c member := isBlank_of_isTypeMember (isTypeMember_of_mem_sized isWord plain c member)
  blankStorage_eq := by
    rw [fixed_append_sizes blankStorage_nil blankStorage_separator fun size isSize =>
      (plain size isSize).blankStorage_eq, isWord.blankStorage_eq]
  plainAddress_eq := by
    rw [fixed_append_sizes plainAddress_nil plainAddress_separator fun size isSize =>
      (plain size isSize).plainAddress_eq, isWord.plainAddress_eq]

theorem splitTrailing_sized : Dimension.splitTrailing (base ++ sizes.flatMap bracketed) = (base, sizes) := by
  refine splitTrailing_append_sizes (letters_of_isPlainSize plain) isWord.nonempty isWord.solid.isTrimmed ?_
  rintro c last rfl
  exact absurd (isWord.letters ']' (List.mem_of_mem_getLast? last)) (by decide)

theorem clause_sized {clause behind name : Text} (decorates : IsDecoration behind name)
    (isWritten : trim clause = base ++ sizes.flatMap bracketed ++ behind) :
    Clause.ofText clause = ⟨base ++ sizes.flatMap bracketed, name⟩ := by
  refine (isBare_sized isWord plain).clause_eq ?_ (isTypeMember_of_mem_sized isWord plain) (fun t => ?_) decorates
    isWritten
  · have starts := isWord.identifier
    cases base with
    | nil => cases starts
    | cons c s => exact ⟨c, s ++ sizes.flatMap bracketed, rfl, (Bool.and_eq_true_iff.1 starts).1⟩
  · have noBracket : '[' ∉ base := fun member => absurd (isWord.letters '[' member) (by decide)
    rw [List.append_assoc, tightened_append isWord.solid noBracket,
      tightened_sizes_append (letters_of_isPlainSize plain), List.append_assoc]

end Sized

/-- The canonical type of an elementary type with dimensions. -/
theorem canonicalParam_of_isElementaryName {base : Text} (isName : isElementaryName base = true)
    (other : base ≠ "address payable".toList) {sizes : List Text} (plain : ∀ size ∈ sizes, IsPlainSize size)
    {behind name : Text} (decorates : IsDecoration behind name) :
    canonicalParam (base ++ sizes.flatMap bracketed ++ behind) =
      .ok (canonicalName base ++ sizes.flatMap bracketed) := by
  have isWord := isPlainWord_of_isElementaryName isName other
  have bare := isBare_sized isWord plain
  have decorates' := isDecoration_setOff decorates.name_plain
  have isText : normalized (base ++ sizes.flatMap bracketed ++ behind) =
      base ++ sizes.flatMap bracketed ++ setOff name := bare.normalized_append decorates
  have noParen : '(' ∉ normalized (base ++ sizes.flatMap bracketed ++ behind) := by
    rw [isText, List.mem_append, not_or]
    exact ⟨fun member => absurd (isTypeMember_of_mem_sized isWord plain '(' member) (by decide),
      decorates'.not_mem (by decide) (by decide)⟩
  have clause := clause_sized isWord plain decorates' (bare.isTrimmed_append_setOff decorates.name_plain).trim_eq
  have isElementaryBase : isElementary base = true := by
    unfold isElementary
    rwa [spaced_solid isWord.solid]
  rw [canonicalParam_of_plain (clauseShape_of_not_mem noParen), isText]
  unfold canonicalPlain
  simp only [clause, splitTrailing_sized isWord plain, isElementaryBase, if_true]

section Tuples

variable {types : List Text} (areTypes : ∀ t ∈ types, IsSignatureType IsPlainSize IsPlainSize t)

include areTypes

theorem splitCommas_signatureTypes : splitCommas (joined [','] types) = types := by
  rw [splitCommas_joined fun t member => (areTypes t member).isOpaque]
  have trimmed : types.map trim = types := by
    rw [List.map_congr_left fun t member => (areTypes t member).solid.isTrimmed.trim_eq]
    exact List.map_id types
  rw [trimmed, List.filter_eq_self]
  exact fun t member => bne_iff_ne.2 (areTypes t member).isBare.nonempty

theorem noQuote_joined : ∀ c ∈ joined [','] types, Literal.isQuote c = false := by
  intro c member
  rcases mem_of_mem_joined member with rfl | ⟨t, isMember, inType⟩
  · decide
  · exact (areTypes t isMember).noQuote c inType

theorem isBalanced_signatureTypes : IsBalanced (joined [','] types) :=
  isBalanced_joined fun t member => (areTypes t member).isBalanced

/-- The closing parenthesis of a tuple is found, and nothing but dimensions and a name stands behind. -/
theorem clauseShape_tuple {sizes : List Text} (decimal : ∀ size ∈ sizes, ∀ c ∈ size, isDecimal c = true)
    {behind name : Text} (decorates : IsDecoration behind name) :
    clauseShape ('(' :: (joined [','] types ++ ')' :: sizes.flatMap bracketed) ++ behind) =
      .ok (.tuple types (sizes.flatMap bracketed)) := by
  have isType : IsSignatureType IsPlainSize IsPlainSize
      ('(' :: (joined [','] types ++ ')' :: sizes.flatMap bracketed)) :=
    .tuple areTypes fun size isSize => isPlainSize_of_isDecimal (decimal size isSize)
  have suffix := tupleSuffix?_sizes decimal decorates.name_plain
  generalize sizes.flatMap bracketed = brackets at isType suffix ⊢
  have text : normalized ('(' :: (joined [','] types ++ ')' :: brackets) ++ behind) =
      '(' :: (joined [','] types ++ ')' :: (brackets ++ setOff name)) := by
    rw [isType.isBare.normalized_append decorates]
    simp
  have close := matchingParen?_of_isBalanced (isBalanced_signatureTypes areTypes) (noQuote_joined areTypes)
    (brackets ++ setOff name)
  have opens : startsWith ['('] ('(' :: (joined [','] types ++ ')' :: (brackets ++ setOff name))) = true := rfl
  -- cutting at the closing parenthesis gives the list back and what follows it
  have content : (('(' :: (joined [','] types ++ ')' :: (brackets ++ setOff name))).take
      ((joined [','] types).length + 1)).drop 1 = joined [','] types := by simp
  have rest : ('(' :: (joined [','] types ++ ')' :: (brackets ++ setOff name))).drop
      ((joined [','] types).length + 1 + 1) = brackets ++ setOff name := by
    simp [List.drop_append]
  unfold clauseShape tupleShape
  simp only [text, withoutTupleWord_paren, opens, if_true, close, rest, suffix, content,
    splitCommas_signatureTypes areTypes]

end Tuples

/-- A size of decimal digits, of any script, or an empty one. -/
def IsDecimalWord (size : Text) : Prop :=
  ∀ c ∈ size, isDecimal c = true

theorem IsSignatureType.isPlain {t : Text} (isType : IsSignatureType IsPlainSize IsDecimalWord t) :
    IsSignatureType IsPlainSize IsPlainSize t :=
  isType.mono (fun _ => id) fun _ => isPlainSize_of_isDecimal

/-- The type in a signature as a parameter is its own canonical type, whatever decorates it. -/
theorem IsSignatureType.canonicalParam_eq {t : Text} (isType : IsSignatureType IsPlainSize IsDecimalWord t) :
    ∀ {behind name : Text}, IsDecoration behind name → canonicalParam (t ++ behind) = .ok t := by
  induction isType with
  | elementary isName isFull areSizes =>
    intro behind name decorates
    have reads := canonicalParam_of_isElementaryName isName (ne_addressPayable isFull) areSizes decorates
    rwa [isFull] at reads
  | @tuple types sizes areTypes areSizes ih =>
    intro behind name decorates
    -- inside the parentheses no type is decorated
    have inner : types.map canonicalParam = types.map .ok := by
      refine List.map_congr_left fun t member => ?_
      have reads := ih t member .nothing
      rwa [List.append_nil] at reads
    rw [canonicalParam_of_tuple (clauseShape_tuple (fun t member => (areTypes t member).isPlain) areSizes decorates)
      inner]
    simp

/-! ## Texts that are read as parameters -/

/-- A type text that is read as a parameter with a given canonical type, whatever decorates it, and that
separates nothing in a list. -/
structure ReadsAs (t canonical : Text) : Prop where
  bare : IsBare t
  isOpaque : IsOpaque t
  reads : ∀ {behind name : Text}, IsDecoration behind name → canonicalParam (t ++ behind) = .ok canonical

theorem IsSignatureType.readsAs {t : Text} (isType : IsSignatureType IsPlainSize IsDecimalWord t) : ReadsAs t t :=
  ⟨isType.isPlain.isBare, isType.isPlain.isOpaque, isType.canonicalParam_eq⟩

theorem IsCanonical.readsAs {t : Text} (canonical : IsCanonical t) : ReadsAs t t :=
  (canonical.isSignatureType.mono (fun _ isLength => isPlainSize_of_isDecimal isLength.isDecimal)
    fun _ => IsLength.isDecimal).readsAs

theorem flat_of_isTypeMember {c : Char} (member : Clause.isTypeMember c = true) :
    parenStep c = 0 ∧ c ≠ ',' := by
  have notOpen : c ≠ '(' := by rintro rfl; exact absurd member (by decide)
  have notClose : c ≠ ')' := by rintro rfl; exact absurd member (by decide)
  have notComma : c ≠ ',' := by rintro rfl; exact absurd member (by decide)
  exact ⟨by simp [parenStep, step, isOpenParen, isCloseParen, notOpen, notClose], notComma⟩

theorem readsAs_of_isElementaryName {base : Text} (isName : isElementaryName base = true)
    (other : base ≠ "address payable".toList) (lengths : List (Option Nat)) :
    ReadsAs (typeText [base] lengths) (canonicalName base ++ brackets lengths) where
  bare := isBare_typeText (List.cons_ne_nil base [])
    (by simpa using isPlainWord_of_isElementaryName isName other) lengths
  isOpaque := isOpaque_of_chars fun c member => flat_of_isTypeMember
    (isTypeMember_of_mem_typeText (by simpa using isPlainWord_of_isElementaryName isName other) lengths c
      member)
  reads decorates := by
    have reads := canonicalParam_of_isElementaryName isName other (@isPlainSize_of_mem lengths) decorates
    rw [flatMap_bracketed] at reads
    unfold typeText
    rwa [Registry.dotted_singleton]

end ContractInterface
