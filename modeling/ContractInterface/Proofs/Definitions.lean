import ContractInterface.Proofs.Heads
import ContractInterface.Proofs.ParameterLists

/-! # Definitions as they are written

A function definition is read back from its text: from its head up to the parenthesis that closes its
parameters (`FunctionHead.IsWritten`), respaced (`definitionText`), its name and its parameters are found
again.  So the signature of the definition is spelled by the types that are read from the
parameters (`Registry.ofDefinition_definition`).
-/

namespace ContractInterface

open Text TypeSyntax Delimiter Signature

/-! ## Heads -/

namespace FunctionHead

/-- A head is spelled by the word and the text that it was read from. -/
theorem lead_append_fromParen {word rest : Text} {head : FunctionHead} (isHead : ofWord? word rest = some head) :
    head.lead ++ head.fromParen = word ++ rest := by
  have within := fromParen_suffix isHead
  obtain ⟨_, name, behind, _, _, rfl⟩ := ofWord?_eq_some_iff.1 isHead
  rw [List.append_assoc, List.suffix_iff_eq_append.1 within]

/-- A function head as it is written: the keyword, blanks, the name, and blanks in front of the
parenthesis. -/
structure IsWritten (head : FunctionHead) (front back : Text) : Prop where
  lead : head.lead = "function".toList ++ (front ++ (head.name ++ back))
  blanks : Blanks front
  apart : front ≠ []
  blanksBehind : Blanks back
  identifier : Identifier.isIdentifier head.name = true
  opens : ∃ s, head.fromParen = '(' :: s

theorem exists_isWritten {word rest : Text} {head : FunctionHead} (isHead : ofWord? word rest = some head) :
    ∃ front back, head.IsWritten front back := by
  have whole := lead_append_fromParen isHead
  obtain ⟨rfl, name, behind, isName, opens, rfl⟩ := ofWord?_eq_some_iff.1 isHead
  obtain ⟨front, isRest, blanks, apart, identifier⟩ := exists_blanks_of_afterBlanks? isName
  obtain ⟨s, isSuffix⟩ := List.isPrefixOf_iff_prefix.1 opens
  refine ⟨front, behind.takeWhile isBlank, ?_, blanks, apart, blanks_takeWhile behind, identifier, s,
    isSuffix.symm⟩
  -- the lead is all that stands in front of the parenthesis
  refine List.append_cancel_right (whole.trans ?_)
  rw [isRest, List.append_assoc, List.append_assoc, List.append_assoc, takeWhile_append_trimStart]

theorem exists_isWritten_of_mem {s : Text} {found : Nat × FunctionHead} (member : found ∈ ofText s) :
    ∃ front back, found.2.IsWritten front back := by
  obtain ⟨_, word, rest, taken, _, _, isRead⟩ := exists_read_of_mem_locate member
  obtain ⟨head, isHead, same⟩ := Option.map_eq_some_iff.1 isRead
  cases same
  exact exists_isWritten isHead

end FunctionHead

/-! ## Parameter lists -/

/-- What stands between parentheses stands in front of the closing one. -/
theorem eq_of_parenthesised? {s content behind : Text}
    (found : parenthesised? ('(' :: s) = some (content, behind)) : s = content ++ ')' :: behind := by
  obtain ⟨close, isClose, same⟩ := Option.map_eq_some_iff.1 found
  cases same
  obtain ⟨m, isMark, _, closes⟩ := exists_of_closeFrom? isClose
  have isChar : ('(' :: s)[close]? = some ')' := by
    have chars := congrArg (Option.map Mark.char) isMark
    rw [← List.getElem?_map, Literal.map_char_marks, Option.map_some] at chars
    rw [chars, eq_of_beq closes]
  cases close with
  | zero => exact absurd (Option.some.inj isChar) (by decide)
  | succ k =>
    have isClosing : s[k]? = some ')' := by simpa using isChar
    obtain ⟨inside, here⟩ := List.getElem?_eq_some_iff.1 isClosing
    have rest := List.drop_eq_getElem_cons inside
    rw [here] at rest
    simp only [List.take_succ_cons, List.drop_succ_cons, List.drop_zero]
    rw [← rest, List.take_append_drop]

theorem mem_of_mem_collapsed {c : Char} {s : Text} (member : c ∈ collapsed s) : c ∈ s ∨ c = ' ' := by
  induction s with
  | nil => cases member
  | cons d s ih =>
    rw [collapsed] at member
    split at member
    · split at member
      · exact (ih member).imp (List.mem_cons_of_mem d) id
      · rcases List.mem_cons.1 member with rfl | member
        · exact .inr rfl
        · exact (ih member).imp (List.mem_cons_of_mem d) id
    · rcases List.mem_cons.1 member with rfl | member
      · exact .inl List.mem_cons_self
      · exact (ih member).imp (List.mem_cons_of_mem d) id

/-- A list of written clauses has neither parentheses nor literals in it. -/
theorem Registry.isQuiet_of_isWrittenClause {r : Registry} {params : Text}
    (written : ∀ clause ∈ splitCommas params, r.IsWrittenClause clause) : ∀ c ∈ params, isQuiet c = true := by
  intro c member
  rw [← joined_segments 0 params] at member
  rcases mem_of_mem_joined member with rfl | ⟨piece, isPiece, inPiece⟩
  · decide
  · obtain ⟨behind, blanks, whole⟩ := exists_blanks_trim piece
    rw [← whole] at inPiece
    rcases List.mem_append.1 inPiece with inFront | inBehind
    · rcases List.mem_append.1 inFront with inBlanks | inClause
      · exact isQuiet_of_isBlank (blanks_takeWhile piece c inBlanks)
      · have isClause : trim piece ∈ splitCommas params := List.mem_filter.2
          ⟨List.mem_map_of_mem isPiece, bne_iff_ne.2 (List.ne_nil_of_mem inClause)⟩
        obtain ⟨type, decoration, name, isType, decorates, _, same⟩ := (written _ isClause).spelled
        rw [same] at inClause
        rcases List.mem_append.1 inClause with inType | inDecoration
        · exact isQuiet_of_isTypeMember (isType.isTypeMember c inType)
        · exact decorates.isQuiet c inDecoration
    · exact isQuiet_of_isBlank (blanks c inBehind)

theorem isQuiet_collapsed {s : Text} (quiet : ∀ c ∈ s, isQuiet c = true) :
    ∀ c ∈ collapsed s, isQuiet c = true := by
  intro c member
  rcases mem_of_mem_collapsed member with inText | rfl
  · exact quiet c inText
  · decide

/-- Parentheses around a text without parentheses and literals are found again. -/
theorem parenthesised?_of_isQuiet {s : Text} (quiet : ∀ c ∈ s, isQuiet c = true) :
    parenthesised? ('(' :: (s ++ [')'])) = some (s, []) :=
  parenthesised?_of_isBalanced (isBalanced_of_chars fun c member => parenStep_of_isQuiet (quiet c member))
    fun c member => isQuote_of_isQuiet (quiet c member)

/-! ## Definitions -/

/-- The text of a definition, respaced: its name and its parameters. -/
def definitionText (name back params : Text) : Text :=
  "function".toList ++ (' ' :: (name ++ (gap back ++ '(' :: (params ++ [')']))))

theorem definitionText_eq_concat (name back params : Text) : definitionText name back params =
    ("function".toList ++ (' ' :: (name ++ (gap back ++ '(' :: params)))) ++ [')'] := by
  unfold definitionText
  -- the letters of the keyword do not matter
  generalize "function".toList = keyword
  simp only [List.append_assoc, List.cons_append]

theorem firstChar_definitionText (name back params : Text) :
    (definitionText name back params).head? = some 'f' := by
  have nonempty : "function".toList ≠ [] := by decide
  have first : "function".toList.head? = some 'f' := by decide
  unfold definitionText
  rw [List.head?_append_of_ne_nil _ nonempty, first]

theorem getLast?_definitionText (name back params : Text) :
    (definitionText name back params).getLast? = some ')' := by
  rw [definitionText_eq_concat, List.getLast?_concat]

theorem isTrimmed_definitionText (name back params : Text) : IsTrimmed (definitionText name back params) := by
  refine ⟨fun c isFirst => ?_, fun c isLast => ?_⟩
  · rw [firstChar_definitionText, Option.mem_some] at isFirst
    subst isFirst
    decide
  · rw [getLast?_definitionText, Option.mem_some] at isLast
    subst isLast
    decide

theorem FunctionHead.IsWritten.spaced_eq {head : FunctionHead} {front back : Text}
    (written : head.IsWritten front back) (params : Text) :
    spaced (head.lead ++ '(' :: (params ++ [')'])) = definitionText head.name back (collapsed params) := by
  have keyword : IsSolid "function".toList := eq_false_of_all (by decide)
  have name : IsSolid head.name := fun c member =>
    isBlank_of_isMember (isMember_of_isIdentifier written.identifier c member)
  have edge := name.isTrimmed.first_append (ne_nil_of_isIdentifier written.identifier)
    (back ++ '(' :: (params ++ [')']))
  have space : gap front = [' '] := if_neg written.apart
  have close : collapsed [')'] = [')'] := collapsed_solid (eq_false_of_all (by decide))
  -- piece by piece: keyword, blanks, name, blanks, parenthesis
  have respaced : collapsed (head.lead ++ '(' :: (params ++ [')'])) =
      definitionText head.name back (collapsed params) := by
    rw [written.lead]
    simp only [List.append_assoc]
    rw [collapsed_solid_append keyword, collapsed_blanks_append written.blanks edge,
      collapsed_solid_append name, collapsed_blanks_append written.blanksBehind (by simp; decide),
      collapsed_cons (by decide), collapsed_append_cons (by decide), collapsed_nil, space]
    rfl
  rw [spaced_eq_trim_collapsed, respaced, (isTrimmed_definitionText _ _ _).trim_eq]

/-- The head of a definition is read back from its text. -/
theorem head?_definitionText {name : Text} (identifier : Identifier.isIdentifier name = true)
    (back params : Text) :
    head? (definitionText name back params) = some (name, '(' :: (params ++ [')'])) := by
  have keyword : after? "function".toList (definitionText name back params) =
      some (' ' :: (name ++ (gap back ++ '(' :: (params ++ [')'])))) := after?_eq_some.2 rfl
  have name_ : IsSolid name := fun c member =>
    isBlank_of_isMember (isMember_of_isIdentifier identifier c member)
  have start : trimStart (' ' :: (name ++ (gap back ++ '(' :: (params ++ [')'])))) =
      name ++ (gap back ++ '(' :: (params ++ [')'])) := by
    have skipped := trimStart_blanks (b := [' ']) (blanks_singleton (by decide))
      (name ++ (gap back ++ '(' :: (params ++ [')'])))
    exact skipped.trans
      (trimStart_of_first (name_.isTrimmed.first_append (ne_nil_of_isIdentifier identifier) _))
  -- the name ends at a space or at the parenthesis
  have edge : ∀ c ∈ (gap back ++ '(' :: (params ++ [')'])).head?, Identifier.isMember c = false := by
    unfold gap
    split <;> simp <;> decide
  have paren : trimStart (gap back ++ '(' :: (params ++ [')'])) = '(' :: (params ++ [')']) :=
    (trimStart_blanks (blanks_gap back) _).trans (trimStart_of_first (by simp; decide))
  have opens : startsWith ['('] ('(' :: (params ++ [')'])) = true := rfl
  have blank : (' ' :: (name ++ (gap back ++ '(' :: (params ++ [')'])))).head?.any isBlank = true := rfl
  have found : nameAndParen? (name ++ (gap back ++ '(' :: (params ++ [')']))) =
      some (name, '(' :: (params ++ [')'])) := by
    unfold nameAndParen?
    simp only [leading?_identifier_append identifier edge, paren, opens, if_true]
  unfold head?
  simp only [keyword, blank, if_true, start, found, Option.some_or]

/-- A definition that is respaced is its own statement: it is trimmed, and no semicolon ends it. -/
theorem statementText_of_spaced {s name back params : Text}
    (isText : spaced s = definitionText name back params) :
    statementText (spaced s) = definitionText name back params := by
  have kept : ((definitionText name back params).reverse.dropWhile (· == ';')).reverse =
      definitionText name back params := by
    conv => rhs; rw [← (definitionText name back params).reverse_reverse]
    rw [definitionText_eq_concat, List.reverse_concat, List.dropWhile_cons_of_neg (by decide)]
  unfold statementText
  rw [spaced_spaced, isText, kept, (isTrimmed_definitionText _ _ _).trim_eq]

/-- A head whose parameter list closes has a definition, its text up to the closing parenthesis. -/
theorem FunctionHead.IsWritten.definition?_eq {head : FunctionHead} {front back params behind : Text}
    (written : head.IsWritten front back) (closes : parenthesised? head.fromParen = some (params, behind)) :
    FunctionHeader.definition? head = some (definitionText head.name back (collapsed params)) := by
  obtain ⟨s, isParen⟩ := written.opens
  rw [isParen] at closes
  have whole : '(' :: s = ('(' :: (params ++ [')'])) ++ behind := by
    rw [eq_of_parenthesised? closes]
    simp
  obtain ⟨close, isClose, same⟩ := Option.map_eq_some_iff.1 closes
  have isBehind : ('(' :: s).drop (close + 1) = behind := (Prod.mk.inj same).2
  have taken : ('(' :: s).take (close + 1) = '(' :: (params ++ [')']) := by
    -- both cuts of the text have the same rest
    have halves := ('(' :: s).take_append_drop (close + 1)
    rw [isBehind, whole] at halves
    rw [whole]
    exact List.append_cancel_right halves
  unfold FunctionHeader.definition?
  rw [isParen, isClose, Option.map_some, taken, written.spaced_eq]

namespace Registry

variable {r : Registry}

theorem IsTellable.substitute_eq (tellable : r.IsTellable) (s : Text) :
    r.substitute s = .ok (substituted r.spelling r.typeNames s) := by
  refine substitute_eq_ok (fun name member => ?_) s
  obtain ⟨d, describes⟩ := tellable.described name member
  exact ⟨d.canonical, by rw [canonicalType, describes]; rfl⟩

/-- The signature of a definition is spelled by the descriptors of its parameters. -/
theorem ofDefinition_definition (tellable : r.IsTellable) {head : FunctionHead} {front back params : Text}
    (head_ : head.IsWritten front back) (written : ∀ clause ∈ splitCommas params, r.IsWrittenClause clause)
    {inputs : List Param} (resolves : paramsOfList r params = .ok inputs)
    (elementary : ∀ p ∈ inputs, p.descriptor.isResolved = true ∧ p.descriptor.hasElementaryLeaves = true) :
    ofDefinition (definitionText head.name back (collapsed params)) (some r) =
      .ok (spell head.name (inputs.map fun p => p.descriptor.canonical)) := by
  have statement := statementText_of_spaced (head_.spaced_eq params)
  rw [head_.spaced_eq params] at statement
  have list := parenthesised?_of_isQuiet (isQuiet_collapsed (isQuiet_of_isWrittenClause written))
  have types := mapM_canonicalParam_eq tellable written resolves elementary
  unfold respelled at types
  unfold ofDefinition
  simp only [statement, head?_definitionText head_.identifier, list, substituteWith,
    tellable.substitute_eq]
  exact bind_eq_ok_iff.2 ⟨_, rfl, bind_eq_ok_iff.2 ⟨_, congrArg _ types, rfl⟩⟩

end Registry

end ContractInterface
