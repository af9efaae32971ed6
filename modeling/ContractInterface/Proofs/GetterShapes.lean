import ContractInterface.Proofs.MappingSpellings

/-! # The getters of nested types

Arrays and mappings nest in any order, and a getter calls for an index or a key at each level
(`Nesting.getter`).  The dimensions at the outside are read one by one, but a mapping is taken apart
together with the mappings that its value starts with.  So the getter that is found is the one called
for exactly if no dimension stands between two mappings, and nothing in a mapping is spelled as more than
one word or with a size that is no word (`exists_ofType_eq_iff`).
-/

namespace ContractInterface.Getter

open Text TypeSyntax Delimiter

/-! ## Nested types -/

/-- A type as a getter reaches through it. -/
inductive Nesting
  | name (name : Text)
  | array (element : Nesting) (size : Text)
  | mapping (key : Text) (value : Nesting)
deriving DecidableEq, Repr

namespace Nesting

/-- An index for every dimension and a key for every mapping, from the outside in. -/
def keys : Nesting → List Text
  | name _ => []
  | array element _ => indexType :: element.keys
  | mapping key value => key :: value.keys

/-- The name at the inside. -/
def base : Nesting → Text
  | name n => n
  | array element _ => element.base
  | mapping _ value => value.base

/-- The getter that a type calls for. -/
def getter (T : Nesting) : Getter :=
  ⟨T.keys, T.base⟩

def hasMapping : Nesting → Bool
  | name _ => false
  | array element _ => element.hasMapping
  | mapping _ _ => true

/-- Whether a text is one word. -/
def isOneWord (s : Text) : Bool :=
  s.all (!isBlank ·)

/-- Whether nothing is missed in the value of a mapping: it is one word, a mapping or an array of such
values without mappings. -/
def isDirect : Nesting → Bool
  | name n => isOneWord n
  | array element _ => !element.hasMapping
  | mapping _ _ => true

/-- Whether every level is read where it stands. -/
def isStraight : Nesting → Bool
  | name _ => true
  | array element size => element.isStraight && size.all isWordChar
  | mapping key value => isOneWord key && value.isDirect && value.isStraight

/-! ## What is read of a mapping -/

/-- The keys of the mappings, as they are read, without any indices. -/
def mappingKeys : Nesting → List Text
  | name _ => []
  | array element _ => element.mappingKeys
  | mapping key value => Mapping.withoutName key :: value.mappingKeys

/-- What is taken for the innermost value of a mapping with the given value. -/
def innermost : Nesting → Nesting
  | name n => name (Mapping.withoutName n)
  | array element size => if element.hasMapping then element.innermost else array element size
  | mapping _ value => value.innermost

theorem mappingKeys_of_flat {T : Nesting} (flat : T.hasMapping = false) : T.mappingKeys = [] := by
  induction T with
  | name n => rfl
  | array element size ih => exact ih flat
  | mapping key value => cases flat

theorem hasMapping_innermost (T : Nesting) : T.innermost.hasMapping = false := by
  induction T with
  | name n => rfl
  | array element size ih =>
    unfold innermost
    split
    · exact ih
    · rename_i flat
      exact Bool.eq_false_iff.2 flat
  | mapping key value ih => exact ih

theorem innermost_array_of_flat {T : Nesting} (flat : T.hasMapping = false) (size : Text) :
    (array T size).innermost = array T size := by
  rw [innermost, flat, if_neg Bool.false_ne_true]

/-- No level is found twice. -/
theorem length_keys_innermost_le (T : Nesting) :
    T.mappingKeys.length + T.innermost.keys.length ≤ T.keys.length := by
  induction T with
  | name n => exact Nat.le_refl _
  | array element size ih =>
    cases flat : element.hasMapping with
    | true =>
      simp only [mappingKeys, innermost, flat, if_true, keys, List.length_cons]
      omega
    | false => simp [mappingKeys, mappingKeys_of_flat flat, innermost_array_of_flat flat, keys]
  | mapping key value ih =>
    simp only [mappingKeys, innermost, keys, List.length_cons]
    omega

end Nesting

/-! ## Spellings -/

/-- The name of a type: a word, perhaps with dots, or two words as in `address payable`. -/
inductive IsTypeName : Text → Prop
  | oneWord {word : Text} (nonempty : word ≠ [])
      (members : ∀ c ∈ word, Registry.isReferenceMember c = true) : IsTypeName word
  | twoWords {word gap last : Text} (nonempty : word ≠ [])
      (members : ∀ c ∈ word, Registry.isReferenceMember c = true) (blanks : Blanks gap) (apart : gap ≠ [])
      (isName : Identifier.isIdentifier last = true) : IsTypeName (word ++ gap ++ last)

/-- A dimension as it stands behind a type, with blanks anywhere. -/
inductive IsDimension (size : Text) : Text → Prop
  | intro {before opened closed : Text} (before_blanks : Blanks before) (opened_blanks : Blanks opened)
      (members : ∀ c ∈ size, Identifier.isMember c = true) (closed_blanks : Blanks closed) :
      IsDimension size (before ++ '[' :: (opened ++ size ++ closed ++ [']']))

/-- `Spells T s` says that `s` spells `T`. -/
inductive Spells : Nesting → Text → Prop
  | name {n : Text} (isName : IsTypeName n) : Spells (.name n) n
  | array {T : Nesting} {s size behind : Text} (spells : Spells T s) (dimension : IsDimension size behind) :
      Spells (.array T size) (s ++ behind)
  | mapping {gap key left inner right : Text} {T : Nesting} (blanks : Blanks gap) (isName : IsTypeName key)
      (keyMember : Mapping.IsMember key [] left) (spells : Spells T inner)
      (valueMember : Mapping.IsMember inner [] right) :
      Spells (.mapping key T) (Mapping.written gap left right)

/-! ### Names -/

theorem isOneWord_iff {s : Text} : Nesting.isOneWord s = true ↔ IsSolid s := by
  simp [Nesting.isOneWord, IsSolid]

theorem isPlain_of_reference {word : Text} (nonempty : word ≠ [])
    (members : ∀ c ∈ word, Registry.isReferenceMember c = true) : Mapping.IsPlain word :=
  Mapping.isPlain_of_members nonempty fun c member => isTypeMember_of_isReferenceMember (members c member)

namespace IsTypeName

variable {n : Text}

theorem nonempty (isName : IsTypeName n) : n ≠ [] := by
  cases isName with
  | oneWord nonempty _ => exact nonempty
  | twoWords nonempty => simp [nonempty]

theorem isFlat (isName : IsTypeName n) : Mapping.IsFlat n := by
  cases isName with
  | oneWord nonempty members => exact (isPlain_of_reference nonempty members).flat
  | twoWords nonempty members blanks _ isName =>
    exact ((isPlain_of_reference nonempty members).flat.append (Mapping.isFlat_of_blanks blanks)).append
      (Mapping.isFlat_of_isIdentifier isName)

/-- A name starts and ends with a character of a reference. -/
theorem ends (isName : IsTypeName n) : (∀ c ∈ n.head?, Registry.isReferenceMember c = true) ∧
    ∀ c ∈ n.getLast?, Registry.isReferenceMember c = true := by
  cases isName with
  | oneWord _ members =>
    exact ⟨fun c first => members c (List.mem_of_mem_head? first),
      fun c last => members c (List.mem_of_mem_getLast? last)⟩
  | twoWords nonempty members _ _ isName =>
    constructor
    · intro c first
      rw [List.append_assoc, List.head?_append_of_ne_nil _ nonempty] at first
      exact members c (List.mem_of_mem_head? first)
    · intro c last
      rw [List.getLast?_append_of_ne_nil _ (ne_nil_of_isIdentifier isName)] at last
      have isMember := isMember_of_isIdentifier isName c (List.mem_of_mem_getLast? last)
      simp [Registry.isReferenceMember, isMember]

theorem isTrimmed (isName : IsTypeName n) : IsTrimmed n :=
  ⟨fun c first => isBlank_of_isTypeMember (isTypeMember_of_isReferenceMember (isName.ends.1 c first)),
    fun c last => isBlank_of_isTypeMember (isTypeMember_of_isReferenceMember (isName.ends.2 c last))⟩

/-- The last of two words is taken for the name of a key or value. -/
theorem withoutName_spec (isName : IsTypeName n) :
    IsTypeName (Mapping.withoutName n) ∧ (Mapping.withoutName n = n ↔ Nesting.isOneWord n = true) := by
  cases isName with
  | oneWord nonempty members =>
    have plain := isPlain_of_reference nonempty members
    rw [Mapping.withoutName_of_solid plain.solid plain.flat.noOpen]
    exact ⟨.oneWord nonempty members, iff_of_true rfl (isOneWord_iff.2 plain.solid)⟩
  | @twoWords word gap last nonempty members blanks apart isName =>
    have plain := isPlain_of_reference nonempty members
    rw [Mapping.withoutName_append plain.solid.isTrimmed nonempty plain.flat blanks apart isName]
    refine ⟨.oneWord nonempty members, iff_of_false ?_ ?_⟩
    · intro same
      have more := congrArg List.length same
      have long := List.length_pos_iff.2 apart
      simp only [List.length_append] at more
      omega
    · intro oneWord
      obtain ⟨c, inGap⟩ := List.exists_mem_of_ne_nil gap apart
      have visible := isOneWord_iff.1 oneWord c (by simp [inGap])
      rw [blanks c inGap] at visible
      cases visible

end IsTypeName

/-! ### Dimensions -/

theorem IsDimension.isFlat {size behind : Text} (dimension : IsDimension size behind) :
    Mapping.IsFlat behind := by
  cases dimension with
  | intro before_blanks opened_blanks members closed_blanks =>
    have inside : Mapping.IsFlat size := Mapping.isFlat_of_members fun c member => by
      simp [Clause.isTypeMember, members c member]
    have brackets : Mapping.IsFlat ['['] ∧ Mapping.IsFlat [']'] := by
      constructor <;> exact Mapping.isFlat_of_members (List.forall_mem_singleton.2 (by decide))
    exact (Mapping.isFlat_of_blanks before_blanks).append (brackets.1.append
      ((((Mapping.isFlat_of_blanks opened_blanks).append inside).append
        (Mapping.isFlat_of_blanks closed_blanks)).append brackets.2))

theorem IsDimension.getLast? {size behind : Text} (dimension : IsDimension size behind) (s : Text) :
    (s ++ behind).getLast? = some ']' := by
  cases dimension with
  | intro => simp [List.getLast?_cons]

/-- The dimension at the end is read if its size holds nothing but word characters. -/
theorem IsDimension.trailing?_append {size behind : Text} (dimension : IsDimension size behind) {s : Text}
    (last : ∀ c ∈ s.getLast?, isBlank c = false) : Dimension.trailing? (s ++ behind) =
      if size.all isWordChar then some (s, size) else none := by
  cases dimension with
  | @intro before opened closed before_blanks opened_blanks members closed_blanks =>
    have solid : IsSolid size := fun c member => isBlank_of_isMember (members c member)
    have reversed : (s ++ (before ++ '[' :: (opened ++ size ++ closed ++ [']']))).reverse =
        ']' :: (closed.reverse ++ (size.reverse ++ (opened.reverse ++ '[' :: (before.reverse ++ s.reverse)))) := by
      simp
    obtain ⟨gap, gap_blanks, start⟩ := exists_trimStart_around closed_blanks.reverse solid.reverse
      opened_blanks.reverse (show isBlank '[' = false by decide) (before.reverse ++ s.reverse)
    have edge := noBlank_isWordChar.edge gap_blanks (show isWordChar '[' = false by decide)
      (before.reverse ++ s.reverse)
    rw [Dimension.trailing?_eq, reversed]
    simp only [after?, if_true, Option.bind_some, start, takeWhile_append_of_head? edge,
      dropWhile_append_of_head? edge]
    split
    · rename_i isWord
      have letters : ∀ c ∈ size.reverse, isWordChar c = true := fun c member =>
        List.all_eq_true.1 isWord c (List.mem_reverse.1 member)
      have opens : trimStart (gap ++ '[' :: (before.reverse ++ s.reverse)) =
          '[' :: (before.reverse ++ s.reverse) := by
        rw [trimStart_blanks gap_blanks]
        exact trimStart_of_first (by simp; decide)
      have front : trimStart (before.reverse ++ s.reverse) = s.reverse := by
        rw [trimStart_blanks before_blanks.reverse]
        exact trimStart_of_first (by rwa [List.head?_reverse])
      rw [List.dropWhile_eq_nil_iff.2 letters, List.takeWhile_eq_self_iff.2 letters, List.nil_append, opens]
      simp only [after?, if_true, Option.map_some, front, List.reverse_reverse]
    · rename_i noWord
      -- read from its end, the size stops in front of its last character that is none of a word
      obtain ⟨c, more, left⟩ : ∃ c more, size.reverse.dropWhile isWordChar = c :: more := by
        refine List.exists_cons_of_ne_nil fun empty => noWord (List.all_eq_true.2 fun c member => ?_)
        exact List.dropWhile_eq_nil_iff.1 empty c (List.mem_reverse.2 member)
      have inLeft : c ∈ size.reverse.dropWhile isWordChar := left ▸ List.mem_cons_self
      have inSize : c ∈ size := List.mem_reverse.1 (List.dropWhile_subset _ inLeft)
      have other : ¬ '[' = c := by
        rintro rfl
        exact absurd (members '[' inSize) (by decide)
      rw [left, List.cons_append, trimStart_of_first (by simpa using solid c inSize)]
      simp only [after?, if_neg other, Option.map_none]

/-! ### Spelled types -/

namespace Spells

variable {T : Nesting} {s : Text}

theorem nonempty (spells : Spells T s) : s ≠ [] := by
  induction spells with
  | name isName => exact isName.nonempty
  | array _ _ ih => simp [ih]
  | mapping => simp [Mapping.written]

theorem isBalanced (spells : Spells T s) : IsBalanced s := by
  induction spells with
  | name isName => exact isName.isFlat.isBalanced
  | array _ dimension ih => exact ih.append dimension.isFlat.isBalanced
  | mapping blanks isName keyMember _ valueMember ih =>
    exact Mapping.IsWritten.isBalanced_written
      ⟨blanks, (keyMember.isFlat isName.isFlat).isPassed, valueMember.isBalanced ih⟩

theorem isWritten {gap key left right : Text} (blanks : Blanks gap) (isName : IsTypeName key)
    (keyMember : Mapping.IsMember key [] left) (spells : Spells T s)
    (valueMember : Mapping.IsMember s [] right) : Mapping.IsWritten gap left right :=
  ⟨blanks, (keyMember.isFlat isName.isFlat).isPassed, valueMember.isBalanced spells.isBalanced⟩

theorem isTrimmed (spells : Spells T s) : IsTrimmed s := by
  induction spells with
  | name isName => exact isName.isTrimmed
  | @array T s size behind spells dimension ih =>
    refine ⟨ih.first_append spells.nonempty behind, fun c last => ?_⟩
    rw [dimension.getLast?] at last
    cases last
    decide
  | mapping => exact Mapping.isTrimmed_written ..

theorem isFlat (spells : Spells T s) (flat : T.hasMapping = false) : Mapping.IsFlat s := by
  induction spells with
  | name isName => exact isName.isFlat
  | array _ dimension ih => exact (ih flat).append dimension.isFlat
  | mapping => cases flat

theorem isMapping_around (spells : Spells T s) (nested : T.hasMapping = true) {before : Text}
    (before_blanks : Blanks before) (behind : Text) : isMapping (trim (before ++ s ++ behind)) = true := by
  induction spells generalizing behind with
  | name => cases nested
  | @array _ _ _ dimension _ _ ih =>
    have whole := ih nested (dimension ++ behind)
    simpa only [List.append_assoc] using whole
  | mapping blanks =>
    rw [List.append_assoc, trim_blanks_append before_blanks, Mapping.trim_written_append]
    exact Mapping.isMapping_written_append blanks ..

/-- All mappings of a type give their keys, whatever stands between and behind them. -/
theorem keys_around (spells : Spells T s) {before behind : Text} (before_blanks : Blanks before)
    (noOpen : '(' ∉ behind) : Mapping.keys (before ++ s ++ behind) = T.mappingKeys := by
  induction spells generalizing before behind with
  | name isName =>
    refine Mapping.keys_of_noOpen ?_
    simp only [List.mem_append, not_or]
    exact ⟨⟨(Mapping.isFlat_of_blanks before_blanks).noOpen, isName.isFlat.noOpen⟩, noOpen⟩
  | @array T s size dimension spells isDimension ih =>
    have noOpen' : '(' ∉ dimension ++ behind := by
      rw [List.mem_append, not_or]
      exact ⟨isDimension.isFlat.noOpen, noOpen⟩
    have element := ih before_blanks noOpen'
    rw [← List.append_assoc before, List.append_assoc _ dimension]
    exact element
  | mapping blanks isName keyMember spells valueMember ih =>
    obtain ⟨inFront, label, inFront_blanks, noOpen', all⟩ :=
      (spells.isWritten blanks isName keyMember valueMember).exists_keys_around valueMember before_blanks noOpen
    rw [all, Mapping.withoutName_of_trim_eq keyMember.trim_eq, ih inFront_blanks noOpen']
    rfl

/-- A value without mappings is read as it is spelled, up to the last of two words. -/
theorem withoutName_of_flat (spells : Spells T s) (flat : T.hasMapping = false) {right : Text}
    (valueMember : Mapping.IsMember s [] right) : Spells T.innermost (Mapping.withoutName right) := by
  rw [Mapping.withoutName_of_trim_eq valueMember.trim_eq]
  have trimmed := spells.isTrimmed
  have noOpen := (spells.isFlat flat).noOpen
  cases spells with
  | name isName => exact .name isName.withoutName_spec.1
  | @array T _ _ _ spells dimension =>
    have flat' : T.hasMapping = false := flat
    rw [Mapping.withoutName_of_last (dimension.getLast? _) (by decide) (by decide) trimmed.first noOpen,
      Nesting.innermost_array_of_flat flat']
    exact .array spells dimension
  | mapping => cases flat

/-- The innermost value is what the mappings of a type come to, whatever stands between and behind
them. -/
theorem finalValue_around (spells : Spells T s) (nested : T.hasMapping = true) {before : Text}
    (before_blanks : Blanks before) (behind : Text) :
    Spells T.innermost (Mapping.finalValue (before ++ s ++ behind)) := by
  induction spells generalizing before behind with
  | name => cases nested
  | @array T s size dimension spells _ ih =>
    have nested' : T.hasMapping = true := nested
    have element := ih nested' before_blanks (dimension ++ behind)
    rw [Nesting.innermost, nested', if_pos rfl, ← List.append_assoc before, List.append_assoc _ dimension]
    exact element
  | @mapping gap key left inner right T blanks isName keyMember spells valueMember ih =>
    have isWritten := spells.isWritten blanks isName keyMember valueMember
    rw [List.append_assoc, Mapping.finalValue_of_trim_eq (trim_blanks_append before_blanks _),
      isWritten.finalValue_append (valueMember.ne_nil spells.nonempty)]
    -- a mapping is read as it stands, and any other value first loses what is taken for its name
    cases flat : T.hasMapping with
    | false =>
      have value := spells.withoutName_of_flat flat valueMember
      rwa [Mapping.finalValue_of_noOpen (value.isFlat T.hasMapping_innermost).noOpen, value.isTrimmed.trim_eq]
    | true =>
      obtain ⟨inFront, label, rfl, inFront_blanks, -⟩ := valueMember.exists_around
      have mapping := spells.isMapping_around flat inFront_blanks label
      have same : Mapping.withoutName (inFront ++ inner ++ label) = trim (inFront ++ inner ++ label) := by
        unfold Mapping.withoutName
        simp only [mapping, if_true]
      rw [same, Mapping.finalValue_of_trim_eq (trim_trim _)]
      exact ih flat inFront_blanks label

end Spells

/-! ## Getters -/

theorem endsWith_of_getLast? {c : Char} {s : Text} {d : Char} (last : s.getLast? = some d) :
    endsWith [c] s = (c == d) := by
  obtain ⟨front, rfl⟩ := List.getLast?_eq_some_iff.1 last
  simp [endsWith, List.isSuffixOf, List.isPrefixOf]

section Reading

variable {T : Nesting} {s : Text}

/-- A dimension at the end is an index, if it is read at all. -/
theorem ofTrimmed_array (spells : Spells T s) {size behind : Text} (dimension : IsDimension size behind) :
    ofTrimmed (s ++ behind) = if size.all isWordChar
      then (do return (← ofTrimmed s).after [indexType]) else .ok ⟨[], s ++ behind⟩ := by
  have ends : endsWith [']'] (s ++ behind) = true := by
    rw [endsWith_of_getLast? (dimension.getLast? s)]
    rfl
  rw [ofTrimmed_of_other (by simp [ends]), dimension.trailing?_append spells.isTrimmed.last]
  by_cases isWord : size.all isWordChar
  · simp only [if_pos isWord, if_neg spells.nonempty, spells.isTrimmed.trim_eq]
  · simp only [if_neg isWord]

theorem ofTrimmed_written {gap left right : Text} (isWritten : Mapping.IsWritten gap left right)
    (nonempty : right ≠ []) : ofTrimmed (Mapping.written gap left right) = do
      return (← ofTrimmed (Mapping.finalValue (Mapping.written gap left right))).after
        (Mapping.keys (Mapping.written gap left right)) := by
  have mapping := Mapping.isMapping_written_append isWritten.blanks left right []
  rw [List.append_nil] at mapping
  have ends : endsWith [']'] (Mapping.written gap left right) = false := by
    rw [endsWith_of_getLast? (Mapping.getLast?_written ..)]
    rfl
  rw [ofTrimmed_of_mapping ⟨mapping, ends⟩, if_pos (isWritten.length_finalValue_lt nonempty)]

theorem ofTrimmed_name {n : Text} (isName : IsTypeName n) : ofTrimmed n = .ok ⟨[], n⟩ := by
  have plain := isMapping_eq_false isName.isFlat.noOpen
  have none_ : Dimension.trailing? n = none := by
    have first := isName.ends.2
    rw [← List.head?_reverse] at first
    rw [Dimension.trailing?_eq]
    cases reversed : n.reverse with
    | nil => rfl
    | cons c more =>
      have other : ¬ ']' = c := by
        rintro rfl
        exact absurd (first ']' (by rw [reversed]; rfl)) (by decide)
      rw [after?, if_neg other]
      rfl
  rw [ofTrimmed_of_other (by simp [plain]), none_]

/-- The dimensions of a type without mappings are read from the outside in, up to a size that is no
word. -/
theorem ofTrimmed_of_flat (spells : Spells T s) (flat : T.hasMapping = false) : ∃ g, ofTrimmed s = .ok g ∧
    (T.isStraight = true ∧ g = T.getter ∨ T.isStraight = false ∧ g.keys.length < T.keys.length) := by
  induction spells with
  | name isName => exact ⟨_, ofTrimmed_name isName, .inl ⟨rfl, rfl⟩⟩
  | @array T s size behind spells dimension ih =>
    obtain ⟨g, reads, result⟩ := ih flat
    rw [ofTrimmed_array spells dimension]
    cases isWord : size.all isWordChar with
    | true =>
      refine ⟨g.after [indexType], by rw [if_pos rfl, reads]; rfl, ?_⟩
      rcases result with ⟨straight, rfl⟩ | ⟨crooked, fewer⟩
      · exact .inl ⟨by simp [Nesting.isStraight, straight, isWord], rfl⟩
      · exact .inr ⟨by simp [Nesting.isStraight, crooked], Nat.succ_lt_succ fewer⟩
    | false =>
      exact ⟨_, if_neg Bool.false_ne_true, .inr ⟨by simp [Nesting.isStraight, isWord], Nat.zero_lt_succ _⟩⟩
  | mapping => cases flat

/-- The mappings and the innermost value give the getter of a type that is the value of a mapping exactly
if nothing in it is missed. -/
theorem innermost_iff (spells : Spells T s) :
    (T.mappingKeys ++ T.innermost.keys = T.keys ∧ T.innermost.base = T.base ∧ T.innermost.isStraight = true) ↔
      T.isDirect = true ∧ T.isStraight = true := by
  induction spells with
  | name isName =>
    simp only [Nesting.mappingKeys, Nesting.innermost, Nesting.keys, Nesting.base, Nesting.isStraight,
      Nesting.isDirect, List.append_nil, true_and, and_true]
    exact isName.withoutName_spec.2
  | @array T s size behind spells dimension ih =>
    cases flat : T.hasMapping with
    | true =>
      -- the index is among the keys that are called for, but not among those that are found
      have found := T.length_keys_innermost_le
      refine iff_of_false ?_ (by simp [Nesting.isDirect, flat])
      rintro ⟨same, -⟩
      have sameLength := congrArg List.length same
      rw [Nesting.innermost, if_pos flat] at sameLength
      simp only [Nesting.mappingKeys, Nesting.keys, List.length_append, List.length_cons] at sameLength
      omega
    | false =>
      have noKeys : (Nesting.array T size).mappingKeys = [] := Nesting.mappingKeys_of_flat flat
      rw [Nesting.innermost_array_of_flat flat, noKeys]
      simp [Nesting.isDirect, flat]
  | @mapping gap key left inner right T blanks isName keyMember spells valueMember ih =>
    have direct : (Nesting.mapping key T).isDirect = true := rfl
    rw [direct]
    simp only [Nesting.mappingKeys, Nesting.innermost, Nesting.keys, Nesting.base, Nesting.isStraight,
      List.cons_append, List.cons.injEq, isName.withoutName_spec.2, Bool.and_eq_true, true_and, and_assoc, ih]

/-- The getter of a type is the one that it calls for exactly if every level is read where it stands. -/
theorem exists_ofTrimmed_iff (spells : Spells T s) :
    ∃ g, ofTrimmed s = .ok g ∧ (g = T.getter ↔ T.isStraight = true) := by
  induction spells with
  | name isName => exact ⟨_, ofTrimmed_name isName, iff_of_true rfl rfl⟩
  | @array T s size behind spells dimension ih =>
    obtain ⟨g, reads, result⟩ := ih
    rw [ofTrimmed_array spells dimension]
    cases isWord : size.all isWordChar with
    | true =>
      refine ⟨g.after [indexType], by rw [if_pos rfl, reads]; rfl, ?_⟩
      have same : g.after [indexType] = (Nesting.array T size).getter ↔ g = T.getter := by
        cases g
        simp [after, Nesting.getter, Nesting.keys, Nesting.base]
      rw [same, result]
      simp [Nesting.isStraight, isWord]
    | false =>
      refine ⟨_, if_neg Bool.false_ne_true, iff_of_false ?_ (by simp [Nesting.isStraight, isWord])⟩
      intro same
      cases congrArg Getter.keys same
  | @mapping gap key left inner right T blanks isName keyMember spells valueMember ih =>
    have isWritten := spells.isWritten blanks isName keyMember valueMember
    have whole := Spells.mapping blanks isName keyMember spells valueMember
    -- all mappings are taken off at once, so the type that is left to read has dimensions only
    have allKeys : Mapping.keys ([] ++ Mapping.written gap left right ++ []) =
        (Nesting.mapping key T).mappingKeys := whole.keys_around blanks_nil List.not_mem_nil
    have final : Spells T.innermost (Mapping.finalValue ([] ++ Mapping.written gap left right ++ [])) :=
      whole.finalValue_around rfl blanks_nil []
    rw [List.nil_append, List.append_nil] at allKeys final
    obtain ⟨g, reads, result⟩ := ofTrimmed_of_flat final T.hasMapping_innermost
    have value := innermost_iff spells
    have found := T.length_keys_innermost_le
    refine ⟨g.after (Nesting.mapping key T).mappingKeys, ?_, ?_⟩
    · rw [ofTrimmed_written isWritten (valueMember.ne_nil spells.nonempty), reads, allKeys]
      rfl
    have same : g.after (Nesting.mapping key T).mappingKeys = (Nesting.mapping key T).getter ↔
        Mapping.withoutName key = key ∧ T.mappingKeys ++ g.keys = T.keys ∧ g.value = T.base := by
      simp [after, Nesting.getter, Nesting.keys, Nesting.base, Nesting.mappingKeys, and_assoc]
    rw [same, isName.withoutName_spec.2, Nesting.isStraight, Bool.and_eq_true, Bool.and_eq_true, and_assoc,
      ← value]
    refine and_congr_right fun _ => ?_
    rcases result with ⟨straight, rfl⟩ | ⟨crooked, fewer⟩
    · simp [Nesting.getter, straight]
    · refine iff_of_false ?_ ?_
      · rintro ⟨sameKeys, -⟩
        have sameLength := congrArg List.length sameKeys
        rw [List.length_append] at sameLength
        omega
      · rintro ⟨-, -, straight⟩
        rw [crooked] at straight
        cases straight

/-- Every spelled type has a getter.  It is the one that the type calls for exactly if every level is read
where it stands. -/
theorem exists_ofType_eq_iff (spells : Spells T s) :
    ∃ g, ofType s = .ok g ∧ (g = T.getter ↔ T.isStraight = true) := by
  unfold ofType
  rw [spells.isTrimmed.trim_eq]
  exact exists_ofTrimmed_iff spells

end Reading

theorem exists_ofType_array_of_mapping :
    let T := Nesting.array
      (.mapping "Pool.Id".toList (.array (.array (.name "uint256".toList) "N".toList) [])) "3".toList
    let s := "mapping(Pool.Id => uint256[N] [])[3]".toList
    Spells T s ∧ ∃ g, ofType s = .ok g ∧ (g = T.getter ↔ T.isStraight = true) := by
  have space : Blanks [' '] := blanks_singleton (by decide)
  have id : IsTypeName "Pool.Id".toList := .oneWord (by decide) (List.all_eq_true.1 (by decide +kernel))
  have number : IsTypeName "uint256".toList := .oneWord (by decide) (List.all_eq_true.1 (by decide +kernel))
  have constant : IsDimension "N".toList "[N]".toList :=
    .intro blanks_nil blanks_nil (List.all_eq_true.1 (by decide +kernel)) blanks_nil
  have unsized : IsDimension [] " []".toList := .intro space blanks_nil (List.forall_mem_nil _) blanks_nil
  have three : IsDimension "3".toList "[3]".toList :=
    .intro blanks_nil blanks_nil (List.all_eq_true.1 (by decide +kernel)) blanks_nil
  have values : Spells (.array (.array (.name "uint256".toList) "N".toList) []) "uint256[N] []".toList :=
    .array (.array (.name number) constant) unsized
  have mapping : Spells (.mapping "Pool.Id".toList (.array (.array (.name "uint256".toList) "N".toList) []))
      "mapping(Pool.Id => uint256[N] [])".toList :=
    .mapping blanks_nil id (.unnamed blanks_nil space) values (.unnamed space blanks_nil)
  have whole := Spells.array mapping three
  exact ⟨whole, exists_ofType_eq_iff whole⟩

/-- An array between two mappings: the index is not among the keys. -/
theorem ofType_array_between_mappings :
    let T := Nesting.mapping "address".toList
      (.array (.mapping "bytes32".toList (.name "bool".toList)) [])
    let s := "mapping(address => mapping(bytes32 => bool)[])".toList
    Spells T s ∧ ofType s = .ok ⟨["address".toList, "bytes32".toList], "bool".toList⟩ ∧
      T.getter = ⟨["address".toList, "uint256".toList, "bytes32".toList], "bool".toList⟩ := by
  have space : Blanks [' '] := blanks_singleton (by decide)
  have address : IsTypeName "address".toList :=
    .oneWord (by decide) (List.all_eq_true.1 (by decide +kernel))
  have bytes : IsTypeName "bytes32".toList := .oneWord (by decide) (List.all_eq_true.1 (by decide +kernel))
  have bool : IsTypeName "bool".toList := .oneWord (by decide) (List.all_eq_true.1 (by decide +kernel))
  have unsized : IsDimension [] "[]".toList :=
    .intro blanks_nil blanks_nil (List.forall_mem_nil _) blanks_nil
  have inner : Spells (.mapping "bytes32".toList (.name "bool".toList)) "mapping(bytes32 => bool)".toList :=
    .mapping blanks_nil bytes (.unnamed blanks_nil space) (.name bool) (.unnamed space blanks_nil)
  have array : Spells (.array (.mapping "bytes32".toList (.name "bool".toList)) [])
      "mapping(bytes32 => bool)[]".toList := .array inner unsized
  have outer : Mapping.IsMember "mapping(bytes32 => bool)[]".toList []
      " mapping(bytes32 => bool)[]".toList := .unnamed space blanks_nil
  exact ⟨.mapping blanks_nil address (.unnamed blanks_nil space) array outer, by decide +kernel,
    by decide +kernel⟩

end ContractInterface.Getter
