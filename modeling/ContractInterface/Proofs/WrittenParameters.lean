import ContractInterface.Proofs.BalancedTexts
import ContractInterface.Proofs.MappingSpellings

/-! # Parameters as they are written

A parameter is a dotted name with dimensions, or a mapping, and behind it storage locations and perhaps a
name (`IsParameter`).  Blanks set the parts off from each other, and may stand anywhere around a bracket.

What stands behind the type is read off step by step (`IsTail`): locations vanish, dimensions lose their
blanks, and a name is left behind a space.  A list of parameters is cut at the commas between them, since all
others stand in parentheses.  So a list that is written reads back as its types and names
(`clauses_of_parameters`).
-/

namespace ContractInterface

open Text TypeSyntax Delimiter

/-! ## What stands behind a type -/

/-- What stands behind a type: dimensions of the given sizes, then the name unless that is empty, and storage
locations anywhere between and behind them. -/
inductive IsTail : Text → List Text → Text → Prop
  | blanks {b : Text} (blanks : Blanks b) : IsTail b [] []
  | location {b place t name : Text} {sizes : List Text} (blanks : Blanks b) (apart : b ≠ [])
      (isPlace : place ∈ storageLocations) (behind : IsTail t sizes name) :
      IsTail (b ++ (place ++ t)) sizes name
  | dimension {b opened size closed t name : Text} {sizes : List Text} (blanks : Blanks b)
      (opened_blanks : Blanks opened) (letters : ∀ c ∈ size, isWordChar c = true)
      (notPlace : size ∉ storageLocations) (closed_blanks : Blanks closed) (behind : IsTail t sizes name) :
      IsTail (b ++ '[' :: (opened ++ (size ++ (closed ++ ']' :: t)))) (size :: sizes) name
  | named {b name t : Text} (blanks : Blanks b) (apart : b ≠ [])
      (isName : Identifier.isIdentifier name = true) (unlocated : IsUnlocated name) (behind : IsTail t [] []) :
      IsTail (b ++ (name ++ t)) [] name

namespace IsTail

variable {t name : Text} {sizes : List Text}

/-- No word goes on into what stands behind a type. -/
theorem edge (tail : IsTail t sizes name) : ∀ c ∈ t.head?, Identifier.isMember c = false := by
  cases tail with
  | blanks blanks => exact fun c first => noBlank_isMember c (blanks c (List.mem_of_mem_head? first))
  | location blanks apart | named blanks apart =>
    exact fun c first => noBlank_isMember c (isBlank_of_head?_blanks blanks apart _ c first)
  | dimension blanks => exact noBlank_isMember.edge blanks (by decide) _

theorem wordEdge (tail : IsTail t sizes name) : ∀ c ∈ t.head?, isWordChar c = false := fun c first =>
  (Bool.or_eq_false_iff.1 (tail.edge c first)).1

theorem chars (tail : IsTail t sizes name) :
    ∀ c ∈ t, isBlank c = true ∨ Identifier.isMember c = true ∨ c = '[' ∨ c = ']' := by
  induction tail with
  | blanks blanks => exact fun c member => .inl (blanks c member)
  | location blanks _ isPlace _ ih =>
    obtain ⟨_, _, _, letters⟩ := isWordChar_of_storageLocations _ isPlace
    intro c member
    rcases List.mem_append.1 member with inBlanks | member
    · exact .inl (blanks c inBlanks)
    · rcases List.mem_append.1 member with inPlace | inRest
      · exact .inr (.inl (isMember_of_isWordChar (List.all_eq_true.1 letters c inPlace)))
      · exact ih c inRest
  | dimension blanks opened_blanks letters _ closed_blanks _ ih =>
    intro c member
    simp only [List.mem_append, List.mem_cons] at member
    rcases member with inBlanks | rfl | inOpened | inSize | inClosed | rfl | inRest
    · exact .inl (blanks c inBlanks)
    · exact .inr (.inr (.inl rfl))
    · exact .inl (opened_blanks c inOpened)
    · exact .inr (.inl (isMember_of_isWordChar (letters c inSize)))
    · exact .inl (closed_blanks c inClosed)
    · exact .inr (.inr (.inr rfl))
    · exact ih c inRest
  | named blanks _ isName _ _ ih =>
    intro c member
    rcases List.mem_append.1 member with inBlanks | member
    · exact .inl (blanks c inBlanks)
    · rcases List.mem_append.1 member with inName | inRest
      · exact .inr (.inl (isMember_of_isIdentifier isName c inName))
      · exact ih c inRest

theorem isTypeMember_of_mem_sizes (tail : IsTail t sizes name) :
    ∀ c ∈ sizes.flatMap bracketed, Clause.isTypeMember c = true := by
  induction tail with
  | blanks => exact fun _ member => nomatch member
  | location _ _ _ _ ih => exact ih
  | dimension _ _ letters _ _ _ ih =>
    intro c member
    simp only [List.flatMap_cons, bracketed, List.mem_append, List.mem_cons, List.not_mem_nil, or_false] at member
    rcases member with ((rfl | inSize) | rfl) | inRest
    · decide
    · exact isTypeMember_of_isReferenceMember
        (by simp [Registry.isReferenceMember, Identifier.isMember, letters c inSize])
    · decide
    · exact ih c inRest
  | named => exact fun _ member => nomatch member

theorem isName (tail : IsTail t sizes name) : name = [] ∨ Identifier.isIdentifier name = true := by
  induction tail with
  | blanks => exact .inl rfl
  | location _ _ _ _ ih => exact ih
  | dimension _ _ _ _ _ _ ih => exact ih
  | named _ _ isName => exact .inr isName

/-- Without locations and dimensions a name is left between blanks. -/
theorem exists_blanks (tail : IsTail t [] name) : ∃ before behind, blankStorage t = before ++ (name ++ behind) ∧
    Blanks before ∧ (name ≠ [] → before ≠ []) ∧ Blanks behind := by
  generalize none_ : ([] : List Text) = sizes at tail
  induction tail with
  | @blanks b blanks =>
    refine ⟨b, [], ?_, blanks, fun absurd_ => absurd rfl absurd_, blanks_nil⟩
    rw [← List.append_nil b, blankStorage_blanks_append blanks, blankStorage_nil]
    simp
  | @location b place t name sizes blanks apart isPlace behind ih =>
    obtain ⟨before, after, isRest, before_blanks, _, after_blanks⟩ := ih none_
    refine ⟨b ++ (' ' :: before), after, ?_, ?_, fun _ => by simp, after_blanks⟩
    · rw [blankStorage_blanks_append blanks, blankStorage_place_append isPlace behind.wordEdge, isRest]
      simp
    · exact blanks.append ((blanks_singleton (c := ' ') (by decide)).append before_blanks)
  | dimension => cases none_
  | @named b name t blanks apart isName unlocated behind ih =>
    obtain ⟨before, after, isRest, before_blanks, _, after_blanks⟩ := ih rfl
    refine ⟨b, before ++ after, ?_, blanks, fun _ => apart, before_blanks.append after_blanks⟩
    rw [blankStorage_blanks_append blanks, blankStorage_append behind.wordEdge, unlocated.blankStorage_eq, isRest]
    simp

theorem trimEnd_collapsed_eq (tail : IsTail t [] name) {b : Text} (blanks : Blanks b) :
    trimEnd (collapsed (b ++ blankStorage t)) = setOff name := by
  obtain ⟨before, behind, isRest, before_blanks, apart, behind_blanks⟩ := tail.exists_blanks
  rw [isRest]
  rcases tail.isName with rfl | isName
  · have nothing : Blanks (b ++ (before ++ ([] ++ behind))) := blanks.append (before_blanks.append behind_blanks)
    rw [collapsed_blanks nothing]
    exact trimEnd_blanks (blanks_gap _) []
  · have nonempty := ne_nil_of_isIdentifier isName
    have solid : IsSolid name := Mapping.isSolid_of_isIdentifier isName
    have first := solid.isTrimmed.first_append nonempty behind
    have last : ∀ c ∈ (setOff name).getLast?, isBlank c = false := by
      intro c isLast
      rw [setOff, if_neg nonempty, List.getLast?_cons_of_ne_nil nonempty] at isLast
      exact solid.isTrimmed.last c isLast
    -- all blanks in front of the name collapse to the one space that sets it off
    have space : gap (b ++ before) = [' '] := if_neg (by simp [apart nonempty])
    have name_ : [' '] ++ name = setOff name := (if_neg nonempty).symm
    rw [← List.append_assoc, collapsed_blanks_append (blanks.append before_blanks) first, space,
      collapsed_solid_append solid, collapsed_blanks behind_blanks, ← List.append_assoc, name_,
      trimEnd_blanks (blanks_gap behind), trimEnd_of_last last]

/-- A size is no storage location, so a dimension keeps its place. -/
theorem blankStorage_dimension {b opened size closed : Text} (blanks : Blanks b) (opened_blanks : Blanks opened)
    (letters : ∀ c ∈ size, isWordChar c = true) (notPlace : size ∉ storageLocations)
    (closed_blanks : Blanks closed) (t : Text) :
    blankStorage (b ++ '[' :: (opened ++ (size ++ (closed ++ ']' :: t)))) =
      b ++ '[' :: (opened ++ (size ++ (closed ++ ']' :: blankStorage t))) := by
  have kept : blankStorage size = size := by
    by_cases empty : size = []
    · rw [empty, blankStorage_nil]
    · rw [blankStorage_word empty letters, if_neg notPlace]
  rw [blankStorage_blanks_append blanks, blankStorage_cons (by decide), blankStorage_blanks_append opened_blanks,
    blankStorage_append (noBlank_isWordChar.edge closed_blanks (by decide) t), kept,
    blankStorage_blanks_append closed_blanks, blankStorage_cons (by decide)]

/-- The blanks around a size are collapsed on both sides of it, or together if there is no size. -/
theorem exists_collapsed_around {opened size closed : Text} (opened_blanks : Blanks opened)
    (letters : ∀ c ∈ size, isWordChar c = true) (closed_blanks : Blanks closed) :
    ∃ o c, collapsed (opened ++ (size ++ closed)) = o ++ (size ++ c) ∧ Blanks o ∧ Blanks c := by
  by_cases empty : size = []
  · refine ⟨gap (opened ++ closed), [], ?_, blanks_gap _, blanks_nil⟩
    rw [empty, List.nil_append, collapsed_blanks (opened_blanks.append closed_blanks)]
    simp
  · have solid : IsSolid size := fun c member => isBlank_of_isWordChar (letters c member)
    refine ⟨gap opened, gap closed, ?_, blanks_gap _, blanks_gap _⟩
    rw [collapsed_blanks_append opened_blanks (solid.isTrimmed.first_append empty closed),
      collapsed_solid_append solid, collapsed_blanks closed_blanks]

/-- What is left of a text behind a type: dimensions without blanks, and a name behind a space. -/
theorem tightened_eq (tail : IsTail t sizes name) {b : Text} (blanks : Blanks b) :
    Dimension.tightened (trimEnd (collapsed (b ++ blankStorage t))) = sizes.flatMap bracketed ++ setOff name := by
  induction tail generalizing b with
  | blanks inner_blanks =>
    rw [(IsTail.blanks inner_blanks).trimEnd_collapsed_eq blanks, tightened_setOff (.inl rfl)]
    rfl
  | named inner_blanks apart isName unlocated behind _ =>
    rw [(IsTail.named inner_blanks apart isName unlocated behind).trimEnd_collapsed_eq blanks,
      tightened_setOff (.inr isName)]
    rfl
  | @location b' place t name sizes inner_blanks apart isPlace behind ih =>
    -- the location becomes one more blank in front of the rest
    have cut : b ++ blankStorage (b' ++ (place ++ t)) = (b ++ b' ++ [' ']) ++ blankStorage t := by
      rw [blankStorage_blanks_append inner_blanks, blankStorage_place_append isPlace behind.wordEdge]
      simp
    rw [cut]
    exact ih ((blanks.append inner_blanks).append (blanks_singleton (by decide)))
  | @dimension b' opened size closed t name sizes inner_blanks opened_blanks letters notPlace closed_blanks _ ih =>
    obtain ⟨o, c, around, o_blanks, c_blanks⟩ := exists_collapsed_around opened_blanks letters closed_blanks
    have cut : b ++ (b' ++ '[' :: (opened ++ (size ++ (closed ++ ']' :: blankStorage t)))) =
        (b ++ b') ++ '[' :: ((opened ++ (size ++ closed)) ++ ']' :: blankStorage t) := by
      simp
    -- the brackets can be seen, so they cut the text into parts that are collapsed on their own
    have left : trimEnd (collapsed (b ++ (b' ++ '[' :: (opened ++ (size ++ (closed ++ ']' :: blankStorage t)))))) =
        gap (b ++ b') ++ '[' :: (o ++ (size ++ (c ++ ']' :: trimEnd (collapsed (blankStorage t))))) := by
      rw [cut, collapsed_append_cons (by decide), collapsed_append_cons (by decide), around,
        collapsed_blanks (blanks.append inner_blanks), trimEnd_append_cons (by decide),
        trimEnd_append_cons (by decide)]
      simp
    have rest := ih blanks_nil
    rw [List.nil_append] at rest
    rw [blankStorage_dimension inner_blanks opened_blanks letters notPlace closed_blanks, left,
      tightened_written (blanks_gap _) o_blanks letters c_blanks, rest, List.flatMap_cons, List.append_assoc]

/-- Without dimensions only the name is left of what stands behind a type. -/
theorem withoutStorage_eq (tail : IsTail t [] name) : withoutStorage t = name := by
  obtain ⟨before, behind, isRest, before_blanks, _, behind_blanks⟩ := tail.exists_blanks
  rw [withoutStorage, spaced, isRest, words_blanks before_blanks, words_append_blanks behind_blanks]
  rcases tail.isName with rfl | isName
  · rfl
  · exact spaced_solid (Mapping.isSolid_of_isIdentifier isName)

section Dotted

variable {b : Text} {parts : List Text} (tail : IsTail t sizes name) (blanks : Blanks b)
  (identifiers : ∀ part ∈ parts, Identifier.isIdentifier part = true)

include tail blanks identifiers

/-- Without a parenthesis a text is no mapping. -/
theorem split?_dotted : Mapping.split? (trim (b ++ (Registry.dotted parts ++ t))) = none := by
  have noOpen : '(' ∉ b ++ (Registry.dotted parts ++ t) := by
    simp only [List.mem_append, not_or]
    refine ⟨fun member => absurd (blanks '(' member) (by decide), fun member => ?_, fun member => ?_⟩
    · exact absurd (Registry.isReferenceMember_of_mem_dotted identifiers '(' member) (by decide)
    · rcases tail.chars '(' member with isBlank_ | isMember | same | same
      · exact absurd isBlank_ (by decide)
      · exact absurd isMember (by decide)
      · cases same
      · cases same
  apply Mapping.split?_of_not_isMapping
  rw [trim_trim, isMapping_eq_false fun member => noOpen (trim_subset _ member)]

/-- Of a dotted name and what stands behind it the type is left without blanks, and the name behind a space. -/
theorem tightened_dotted (nonempty : parts ≠ []) (unlocated : IsUnlocated (Registry.dotted parts)) :
    Dimension.tightened (withoutStorage (trim (b ++ (Registry.dotted parts ++ t)))) =
      (Registry.dotted parts ++ sizes.flatMap bracketed) ++ setOff name := by
  have solid := isSolid_of_identifiers identifiers
  have noBracket : '[' ∉ Registry.dotted parts := fun member =>
    absurd (Registry.isReferenceMember_of_mem_dotted identifiers '[' member) (by decide)
  have named : Registry.dotted parts ≠ [] := by
    obtain ⟨c, u, isName, _⟩ := Registry.exists_first_of_identifiers nonempty identifiers
    exact isName ▸ List.cons_ne_nil c u
  have visible := solid.isTrimmed.first_append named
  have dimensions := tail.tightened_eq blanks_nil
  rw [List.nil_append] at dimensions
  rw [withoutStorage_trim, withoutStorage, blankStorage_blanks_append blanks, blankStorage_append tail.wordEdge,
    unlocated.blankStorage_eq, spaced_eq_trim_collapsed, collapsed_blanks_append blanks (visible _),
    collapsed_solid_append solid, trim_blanks_append (blanks_gap b), trim, trimStart_of_first (visible _),
    trimEnd_append_of_last named solid.isTrimmed.last, tightened_append solid noBracket, dimensions,
    List.append_assoc]

end Dotted

end IsTail

/-! ## Parameters -/

/-- A parameter as it is written, and what it declares. -/
inductive IsParameter : Text → Clause → Prop
  | simple {b t name : Text} {parts sizes : List Text} (blanks : Blanks b) (nonempty : parts ≠ [])
      (identifiers : ∀ part ∈ parts, Identifier.isIdentifier part = true)
      (unlocated : IsUnlocated (Registry.dotted parts)) (tail : IsTail t sizes name) :
      IsParameter (b ++ (Registry.dotted parts ++ t)) ⟨Registry.dotted parts ++ sizes.flatMap bracketed, name⟩
  | mapping {b gap inner t name : Text} (blanks : Blanks b) (gap_blanks : Blanks gap)
      (nested : IsNested (Literal.unquotedMarks inner)) (tail : IsTail t [] name) :
      IsParameter (b ++ (Mapping.head gap ++ '(' :: (inner ++ ')' :: t)))
        ⟨Mapping.head gap ++ '(' :: (inner ++ [')']), name⟩

namespace IsParameter

variable {s : Text} {clause : Clause}

theorem isOpaque (parameter : IsParameter s clause) : IsOpaque s := by
  have name : ∀ {u : Text}, (∀ c ∈ u, Clause.isTypeMember c = true) → IsOpaque u := fun members =>
    isOpaque_of_chars fun c member => ⟨(flat_of_isTypeMember (members c member)).1,
      by rintro rfl; exact absurd (members ',' member) (by decide)⟩
  have behind : ∀ {t name : Text} {sizes : List Text}, IsTail t sizes name → IsOpaque t := by
    intro t name sizes tail
    refine isOpaque_of_chars fun c member => ?_
    rcases tail.chars c member with isBlank_ | isMember | rfl | rfl
    · exact ⟨parenStep_of_isBlank isBlank_, by rintro rfl; exact absurd isBlank_ (by decide)⟩
    · exact ⟨parenStep_of_isMember isMember, by rintro rfl; exact absurd isMember (by decide)⟩
    · decide
    · decide
  cases parameter with
  | simple blanks _ identifiers _ tail =>
    exact (isOpaque_of_blanks blanks).append ((name fun c member => isTypeMember_of_isReferenceMember
      (Registry.isReferenceMember_of_mem_dotted identifiers c member)).append (behind tail))
  | @mapping b gap inner t _ blanks gap_blanks nested tail =>
    have cut : b ++ (Mapping.head gap ++ '(' :: (inner ++ ')' :: t)) =
        b ++ ("mapping".toList ++ (gap ++ ('(' :: (inner ++ [')']) ++ t))) := by
      unfold Mapping.head
      rw [List.append_assoc, List.cons_append, List.append_assoc, List.singleton_append]
    rw [cut]
    have letters : "mapping".toList.all Clause.isTypeMember = true := by decide
    exact (isOpaque_of_blanks blanks).append ((name (List.all_eq_true.1 letters)).append
      ((isOpaque_of_blanks gap_blanks).append ((isOpaque_parens_of_isNested nested).append (behind tail))))

theorem trim_ne_nil (parameter : IsParameter s clause) : trim s ≠ [] := by
  have seen : ∀ {c : Char}, isBlank c = false → c ∈ s → trim s ≠ [] := fun visible member =>
    List.ne_nil_of_mem (mem_trim visible member)
  cases parameter with
  | simple _ nonempty identifiers _ _ =>
    obtain ⟨c, u, isName, starts⟩ := Registry.exists_first_of_identifiers nonempty identifiers
    refine seen (isBlank_of_isMember (Identifier.isStart_isMember starts)) ?_
    rw [isName]
    simp
  | mapping => exact seen (c := '(') (by decide) (by simp)

/-- A parameter reads back as what it declares. -/
theorem ofText_eq (parameter : IsParameter s clause) (unpaid : ¬PaysAddress s) :
    Clause.ofText (trim s) = clause := by
  have kept : plainAddress (trim s) = trim s := by
    refine plainAddress_eq_self fun pays => unpaid ?_
    obtain ⟨behind, blanks, whole⟩ := exists_blanks_trim s
    rw [← whole, List.append_assoc]
    exact pays.append (fun c last => isWordChar_of_isBlank (blanks_takeWhile s c (List.mem_of_mem_getLast? last)))
      fun c first => isWordChar_of_isBlank (blanks c (List.mem_of_mem_head? first))
  unfold Clause.ofText
  simp only [trim_trim, kept]
  -- a simple clause is read without blanks around its dots and brackets, a mapping as it is written
  cases parameter with
  | @simple b t name parts sizes blanks nonempty identifiers unlocated tail =>
    obtain ⟨c, u, isName, starts⟩ := Registry.exists_first_of_identifiers nonempty identifiers
    have type : ∀ d ∈ u ++ sizes.flatMap bracketed, Clause.isTypeMember d = true := by
      intro d member
      rcases List.mem_append.1 member with inName | inSizes
      · refine isTypeMember_of_isReferenceMember (Registry.isReferenceMember_of_mem_dotted identifiers d ?_)
        rw [isName]
        exact List.mem_cons_of_mem c inName
      · exact tail.isTypeMember_of_mem_sizes d inSizes
    have isClause := plain?_append_setOff starts type tail.isName
    rw [← List.cons_append, ← isName] at isClause
    simp only [tail.split?_dotted blanks identifiers, tail.tightened_dotted blanks identifiers nonempty unlocated,
      isClause, Option.getD_some]
  | @mapping b gap inner t name blanks gap_blanks nested tail =>
    have trimmed : trim (b ++ (Mapping.head gap ++ '(' :: (inner ++ ')' :: t))) =
        Mapping.head gap ++ '(' :: (inner ++ ')' :: trimEnd t) := by
      rw [trim_blanks_append blanks, Mapping.trim_head_append]
    simp only [trimmed, Mapping.split?_head_append gap_blanks (isBalanced_of_isNested nested), Mapping.trim_trimEnd,
      withoutStorage_trim, tail.withoutStorage_eq]
    rcases tail.isName with rfl | isName
    · rfl
    · have found := leading?_identifier_append (t := []) isName (fun _ first => nomatch first)
      rw [List.append_nil] at found
      simp [found]

end IsParameter

/-- A list of parameters with commas between them reads back as what they declare, in order. -/
theorem clauses_of_parameters {pieces : List Text} {clauses : List Clause}
    (written : List.Forall₂ IsParameter pieces clauses) (unpaid : ∀ piece ∈ pieces, ¬PaysAddress piece) :
    (splitCommas (joined [','] pieces)).map Clause.ofText = clauses := by
  have opaques : ∀ piece ∈ pieces, IsOpaque piece ∧ trim piece ≠ [] := by
    clear unpaid
    induction written with
    | nil => exact fun _ member => nomatch member
    | cons first _ ih =>
      exact List.forall_mem_cons.2 ⟨⟨first.isOpaque, first.trim_ne_nil⟩, ih⟩
  have kept : (pieces.map trim).filter (· != []) = pieces.map trim := by
    rw [List.filter_eq_self]
    intro part member
    obtain ⟨piece, isPiece, rfl⟩ := List.mem_map.1 member
    exact bne_iff_ne.2 (opaques piece isPiece).2
  rw [splitCommas_joined fun piece member => (opaques piece member).1, kept, List.map_map]
  clear opaques kept
  induction written with
  | nil => rfl
  | cons first _ ih =>
    obtain ⟨unpaidFirst, unpaidRest⟩ := List.forall_mem_cons.1 unpaid
    rw [List.map_cons, ih unpaidRest, Function.comp_apply, first.ofText_eq unpaidFirst]

/-- Locations and blanks are dropped, and a mapping stays as it is spelled. -/
theorem clauses_of_parameters_mixed :
    (splitCommas ("uint256[ 2 ] memory [] values, IERC20.Kind ,mapping (address=>\n" ++
      "mapping(uint256 => bool)) storage seen,T calldata").toList).map Clause.ofText =
      [⟨"uint256[2][]".toList, "values".toList⟩, ⟨"IERC20.Kind".toList, []⟩,
        ⟨"mapping (address=>\nmapping(uint256 => bool))".toList, "seen".toList⟩, ⟨"T".toList, []⟩] := by
  have space : Blanks [' '] := blanks_singleton (by decide)
  have two : ∀ c ∈ ['2'], isWordChar c = true := List.forall_mem_singleton.2 (by decide)
  have unlocated : ∀ {s : Text}, (∀ place ∈ storageLocations, ¬place <:+: s) → IsUnlocated s :=
    fun absent place isPlace ⟨_, _, isRun⟩ => absent place isPlace isRun.isInfix
  have named : IsTail " values".toList [] "values".toList :=
    @IsTail.named [' '] "values".toList [] space (by decide) (by decide +kernel) (unlocated (by decide +kernel))
      (.blanks blanks_nil)
  have values : IsParameter "uint256[ 2 ] memory [] values".toList ⟨"uint256[2][]".toList, "values".toList⟩ :=
    @IsParameter.simple [] "[ 2 ] memory [] values".toList "values".toList ["uint256".toList] [['2'], []] blanks_nil
      (by decide) (by decide +kernel) (unlocated (by decide +kernel))
      (@IsTail.dimension [] [' '] ['2'] [' '] _ _ _ blanks_nil space two (by decide) space
        (@IsTail.location [' '] "memory".toList _ _ _ space (by decide) (by decide)
          (@IsTail.dimension [' '] [] [] [] _ _ _ space blanks_nil (fun _ member => nomatch member) (by decide)
            blanks_nil named)))
  have kind : IsParameter " IERC20.Kind ".toList ⟨"IERC20.Kind".toList, []⟩ :=
    @IsParameter.simple [' '] [' '] [] ["IERC20".toList, "Kind".toList] [] space (by decide) (by decide +kernel)
      (unlocated (by decide +kernel)) (.blanks space)
  have seen : IsParameter "mapping (address=>\nmapping(uint256 => bool)) storage seen".toList
      ⟨"mapping (address=>\nmapping(uint256 => bool))".toList, "seen".toList⟩ :=
    @IsParameter.mapping [] [' '] "address=>\nmapping(uint256 => bool)".toList " storage seen".toList "seen".toList
      blanks_nil space (by decide +kernel)
      (@IsTail.location [' '] "storage".toList _ _ _ space (by decide) (by decide)
        (@IsTail.named [' '] "seen".toList [] space (by decide) (by decide +kernel)
          (unlocated (by decide +kernel)) (.blanks blanks_nil)))
  have located : IsParameter "T calldata".toList ⟨"T".toList, []⟩ :=
    @IsParameter.simple [] " calldata".toList [] [['T']] [] blanks_nil (by decide) (by decide +kernel)
      (unlocated (by decide +kernel))
      (@IsTail.location [' '] "calldata".toList [] _ _ space (by decide) (by decide) (.blanks blanks_nil))
  have spelled : ("uint256[ 2 ] memory [] values, IERC20.Kind ,mapping (address=>\n" ++
      "mapping(uint256 => bool)) storage seen,T calldata").toList =
      joined [','] ["uint256[ 2 ] memory [] values".toList, " IERC20.Kind ".toList,
        "mapping (address=>\nmapping(uint256 => bool)) storage seen".toList, "T calldata".toList] := by
    decide +kernel
  have absent : ∀ piece ∈ ["uint256[ 2 ] memory [] values".toList, " IERC20.Kind ".toList,
      "mapping (address=>\nmapping(uint256 => bool)) storage seen".toList, "T calldata".toList],
      ¬"payable".toList <:+: piece := by
    decide +kernel
  rw [spelled]
  exact clauses_of_parameters (.cons values (.cons kind (.cons seen (.cons located .nil))))
    fun piece member pays => absent piece member pays.isInfix

end ContractInterface
