import ContractInterface.Declaration.StateVariable
import ContractInterface.Proofs.Parens
import ContractInterface.Proofs.Spelling
import ContractInterface.Proofs.Words

/-! # What a state variable's declaration can hold

A declaration is a type, modifiers and a name, so a character that stands in none of these rejects
it wherever it stands behind the type (`declared?_eq_none`).  Such a character is foreign: taking off
the dimensions of a type or reading decorations leaves it in place.  An opening parenthesis is foreign
too, unless it belongs to a list or to a mapping, and then it is closed (`closes_of_declared?`).

Whatever follows a declaration, with a foreign character in between it is a declaration no more
(`declared?_append_eq_none`).
-/

namespace ContractInterface

open Text TypeSyntax Delimiter

/-- A character that is part of no word and no dimension of a declaration. -/
structure IsForeign (c : Char) : Prop where
  visible : isBlank c = false
  notMember : Identifier.isMember c = false
  notBracket : c ≠ '[' ∧ c ≠ ']'

theorem IsForeign.notWord {c : Char} (foreign : IsForeign c) : isWordChar c = false := by
  have notMember := foreign.notMember
  unfold Identifier.isMember at notMember
  exact (Bool.or_eq_false_iff.1 notMember).1

theorem isForeign_equals : IsForeign '=' :=
  ⟨by decide, by decide, by decide⟩

theorem isForeign_openParen : IsForeign '(' :=
  ⟨by decide, by decide, by decide⟩

theorem mem_trimStart {c : Char} {s : Text} (visible : isBlank c = false) (member : c ∈ s) :
    c ∈ trimStart s := by
  rw [← takeWhile_append_trimStart s] at member
  rcases List.mem_append.1 member with blank | member
  · simp [blanks_takeWhile s c blank] at visible
  · exact member

theorem mem_dropWhile {p : Char → Bool} {c : Char} {s : Text} (outside : p c = false)
    (member : c ∈ s) : c ∈ s.dropWhile p := by
  rw [← List.takeWhile_append_dropWhile (p := p) (l := s)] at member
  rcases List.mem_append.1 member with taken | member
  · have inside := List.all_eq_true.1 List.all_takeWhile c taken
    simp [inside] at outside
  · exact member

theorem mem_trim {c : Char} {s : Text} (visible : isBlank c = false) (member : c ∈ s) :
    c ∈ trim s := by
  have started := mem_trimStart visible member
  unfold trim trimEnd
  rw [List.mem_reverse]
  exact mem_dropWhile visible (List.mem_reverse.2 started)

theorem trimEnd_append_cons {c : Char} (visible : isBlank c = false) (s t : Text) :
    trimEnd (s ++ c :: t) = s ++ c :: trimEnd t := by
  have reversed : (s ++ c :: t).reverse = t.reverse ++ c :: s.reverse := by
    simp
  have end_ : (t.reverse ++ c :: s.reverse).dropWhile isBlank = t.reverse.dropWhile isBlank ++ c :: s.reverse :=
    dropWhile_append_of_head? (by simpa using visible)
  unfold trimEnd
  rw [reversed, end_]
  simp

theorem trimEnd_append_of_last {s : Text} (nonempty : s ≠ []) (last : ∀ c ∈ s.getLast?, isBlank c = false)
    (t : Text) : trimEnd (s ++ t) = s ++ trimEnd t := by
  obtain ⟨front, c, rfl⟩ := (List.eq_nil_or_concat s).resolve_left nonempty
  rw [List.concat_eq_append] at last ⊢
  rw [List.append_assoc, List.singleton_append, trimEnd_append_cons (last c (by simp)), List.append_assoc]
  rfl

/-- Trimming leaves what stands around a visible character apart. -/
theorem trim_append_cons {c : Char} (visible : isBlank c = false) (s t : Text) :
    trim (s ++ c :: t) = trimStart s ++ c :: trimEnd t := by
  have start : trimStart (s ++ c :: t) = trimStart s ++ c :: t :=
    dropWhile_append_of_head? (by simpa using visible)
  unfold trim
  rw [start, trimEnd_append_cons visible]

/-! ## Decorations of a concatenation -/

/-- A text that goes on neither a word nor a list: it starts with no word character, and with no
parenthesis that is closed. -/
structure IsUnlisted (t : Text) : Prop where
  edge : ∀ c ∈ t.head?, isWordChar c = false
  noList : ∀ inner, trimStart t = '(' :: inner → ')' ∉ inner

/-- A text that no decoration in front of it reaches into: neither a word nor a list that is closed
stands at its start. -/
structure StandsApart (t : Text) : Prop extends StartsNoWord t where
  noList : ∀ inner, trimStart t = '(' :: inner → ')' ∉ inner

theorem StandsApart.isUnlisted {t : Text} (apart : StandsApart t) : IsUnlisted t :=
  ⟨apart.edge, apart.noList⟩

theorem IsForeign.standsApart {c : Char} (foreign : IsForeign c) {t : Text}
    (noList : c = '(' → ')' ∉ t) : StandsApart (c :: t) := by
  have start : trimStart (c :: t) = c :: t :=
    trimStart_of_first (by simpa using foreign.visible)
  refine ⟨startsNoWord_cons foreign.visible foreign.notWord t, fun inner isList => ?_⟩
  rw [start] at isList
  cases isList
  exact noList rfl

theorem standsApart_of_blanks {b : Text} (blanks : Blanks b) : StandsApart b := by
  have nothing : trimStart b = [] := trimStart_eq_nil blanks
  exact ⟨startsNoWord_of_blanks blanks, by simp [nothing]⟩

theorem dropWhile_eq_nil_of_unclosed {s : Text} (unclosed : ')' ∉ s) : s.dropWhile (· ≠ ')') = [] :=
  List.dropWhile_eq_nil_iff.2 fun c member => by
    have other : c ≠ ')' := fun isClose => unclosed (isClose ▸ member)
    simpa using other

theorem IsUnlisted.listLength?_eq_none {t : Text} (apart : IsUnlisted t) : StateVariable.listLength? t = none := by
  unfold StateVariable.listLength?
  split
  · rename_i inner isList
    rw [dropWhile_eq_nil_of_unclosed (apart.noList inner isList)]
  · rfl

theorem listLength?_append {s t : Text} (apart : IsUnlisted t)
    (closes : ∀ inner, trimStart s = '(' :: inner → ')' ∈ inner ∨ ')' ∉ t) :
    StateVariable.listLength? (s ++ t) = StateVariable.listLength? s := by
  unfold StateVariable.listLength?
  rw [trimStart_append]
  cases split : trimStart s with
  | nil =>
    rw [if_pos rfl]
    split
    · rename_i inner isList
      rw [dropWhile_eq_nil_of_unclosed (apart.noList inner isList)]
    · rfl
  | cons d inner =>
    rw [if_neg (List.cons_ne_nil _ _)]
    by_cases isParen : d = '('
    · subst isParen
      simp only [List.cons_append, List.dropWhile_append]
      -- a list that `s` leaves open is not closed by `t` either
      rcases closes inner split with inside | outside
      · have close : ')' ∈ inner.dropWhile (· ≠ ')') := mem_dropWhile (by decide) inside
        obtain ⟨e, behind, left⟩ := List.exists_cons_of_ne_nil (List.ne_nil_of_mem close)
        simp only [left, List.isEmpty_cons, Bool.false_eq_true, if_false, List.cons_append,
          List.length_append, Option.some.injEq]
        omega
      · cases left : inner.dropWhile (· ≠ ')') with
        | nil => simp only [List.isEmpty_nil, if_true, dropWhile_eq_nil_of_unclosed outside]
        | cons e behind =>
          simp only [List.isEmpty_cons, Bool.false_eq_true, if_false, List.cons_append,
            List.length_append, Option.some.injEq]
          omega
    · simp only [List.cons_append]
      split <;> simp_all

theorem listLength?_le {s : Text} {n : Nat} (found : StateVariable.listLength? s = some n) :
    n ≤ s.length := by
  unfold StateVariable.listLength? at found
  split at found
  · split at found
    · cases found
      omega
    · cases found
  · cases found

/-- Override lists are read as if nothing followed, if none of them is left open there. -/
theorem withoutOverrideLists_append {s t : Text} (apart : IsUnlisted t)
    (closes : ∀ rest inner, rest <:+ s → trimStart rest = '(' :: inner → ')' ∈ inner ∨ ')' ∉ t) :
    StateVariable.withoutOverrideLists (s ++ t) =
      StateVariable.withoutOverrideLists s ++ StateVariable.withoutOverrideLists t := by
  refine replacing_append apart.edge ⟨?_, ?_⟩
  · intro run rest suffix _ _
    rw [listLength?_append apart fun inner =>
      closes rest inner ((List.suffix_append run rest).trans suffix)]
  · intro run rest value taken _ found
    split at found
    · obtain ⟨n, found, isPair⟩ := Option.map_eq_some_iff.1 found
      cases isPair
      exact listLength?_le found
    · cases found

theorem withoutOverrideLists_subset (s : Text) : StateVariable.withoutOverrideLists s ⊆ s := by
  refine replacing_subset (fun run rest replacement taken found => ?_) s
  split at found
  · obtain ⟨n, _, isPair⟩ := Option.map_eq_some_iff.1 found
    cases isPair
    exact List.Subset.refl run
  · cases found

/-- A foreign character starts no decoration. -/
theorem withoutOverrideLists_cons {c : Char} (foreign : IsForeign c) (s : Text) :
    StateVariable.withoutOverrideLists (c :: s) = c :: StateVariable.withoutOverrideLists s :=
  replacing_cons_of_not_mem foreign.notWord s

/-! ## Foreign characters behind a type -/

theorem mem_of_leading? {c : Char} (foreign : IsForeign c) {s size rest : Text}
    (found : Dimension.leading? s = some (size, rest)) (member : c ∈ s) : c ∈ rest := by
  unfold Dimension.leading? at found
  split at found
  · rename_i inner
    have inside : c ∈ inner := by
      rcases List.mem_cons.1 member with rfl | inside
      · exact absurd rfl foreign.notBracket.1
      · exact inside
    have behind : c ∈ trimStart ((trimStart inner).dropWhile isWordChar) :=
      mem_trimStart foreign.visible
        (mem_dropWhile foreign.notWord (mem_trimStart foreign.visible inside))
    split at found
    · rename_i last isLast
      cases found
      rw [isLast] at behind
      rcases List.mem_cons.1 behind with rfl | behind
      · exact absurd rfl foreign.notBracket.2
      · exact behind
    · cases found
  · cases found

theorem mem_splitLeading {c : Char} (foreign : IsForeign c) {s : Text} (member : c ∈ s) :
    c ∈ (Dimension.splitLeading s).2 := by
  fun_induction Dimension.splitLeading s with
  | case1 s size rest found ih =>
    exact ih (mem_of_leading? foreign found (mem_trimStart foreign.visible member))
  | case2 s _ => exact member

theorem mem_of_simpleType? {c : Char} (foreign : IsForeign c) (notDot : c ≠ '.')
    {s type behind : Text} (found : StateVariable.simpleType? s = some (type, behind))
    (member : c ∈ s) : c ∈ behind := by
  cases s with
  | nil => cases found
  | cons d s =>
    simp only [StateVariable.simpleType?] at found
    split at found
    · rename_i starts
      split at found
      · cases found
        have notMember : StateVariable.isSimpleTypeMember c = false := by
          simp [StateVariable.isSimpleTypeMember, foreign.notMember, notDot]
        -- a foreign character is no member of the type, so it stands behind the members and the dimensions
        have inside : c ∈ s := by
          rcases List.mem_cons.1 member with rfl | inside
          · have known := Identifier.isStart_isMember starts
            rw [foreign.notMember] at known
            cases known
          · exact inside
        exact mem_trimStart foreign.visible
          (mem_splitLeading foreign (mem_dropWhile notMember inside))
      · cases found
    · cases found

/-! ## Mapping types -/

/-- What closes a mapping is a closing parenthesis in it. -/
theorem closeIndex?_spec {s : Text} {k : Nat} (found : Mapping.closeIndex? s = some k) :
    s[k]? = some ')' := by
  obtain ⟨j, foundInner, place⟩ := Option.map_eq_some_iff.1 found
  subst place
  obtain ⟨m, isMark, _, closes⟩ := exists_of_closeFrom? foundInner
  unfold Literal.unquotedMarks at isMark
  rw [List.getElem?_map, List.getElem?_drop] at isMark
  obtain ⟨c, isChar, rfl⟩ := Option.map_eq_some_iff.1 isMark
  rw [isChar]
  simpa [isCloseParen] using closes

theorem closeIndex?_append {s : Text} {k : Nat} (found : Mapping.closeIndex? s = some k)
    (t : Text) : Mapping.closeIndex? (s ++ t) = some k := by
  obtain ⟨j, foundInner, place⟩ := Option.map_eq_some_iff.1 found
  have nonempty : s.drop (Mapping.openIndex s) ≠ [] := by
    intro empty
    rw [empty] at foundInner
    cases foundInner
  have inside : Mapping.openIndex s < s.length := by
    simpa using nonempty
  have same : Mapping.openIndex (s ++ t) = Mapping.openIndex s := by
    unfold Mapping.openIndex at inside ⊢
    rw [List.findIdx_append, if_pos inside]
  unfold Mapping.closeIndex?
  rw [same, List.drop_append_of_le_length (Nat.le_of_lt inside)]
  have foundLonger : matchingPlainParen? (s.drop (Mapping.openIndex s) ++ t) = some j := by
    unfold matchingPlainParen? Literal.unquotedMarks at foundInner ⊢
    rw [List.map_append]
    exact closeFrom?_append foundInner _
  rw [foundLonger]
  exact congrArg some place

/-- What stands apart makes no mapping of what it stands behind, unless it is a list. -/
theorem isMapping_append {t : Text} (apart : StandsApart t)
    (noOpen : ∀ c ∈ (trimStart t).head?, c ≠ '(') (s : Text) : isMapping (s ++ t) = isMapping s := by
  have isWord : "mapping".toList.all isWordChar = true := by decide
  have other : ∀ u : Text, (∀ c ∈ u.head?, isWordChar c = false) →
      ∀ c ∈ u.head?, c ∉ "mapping".toList := by
    intro u plain c first member
    have known := List.all_eq_true.1 isWord c member
    rw [plain c first] at known
    cases known
  have nothing : after? "mapping".toList (trimStart t) = none := by
    have alone := after?_append (other _ apart.noWord) []
    exact alone
  unfold isMapping
  rw [trimStart_append]
  -- `t` could be reached behind nothing, or behind the word `mapping` alone
  cases start : trimStart s with
  | nil =>
    rw [if_pos rfl, nothing]
    rfl
  | cons d u =>
    rw [if_neg (List.cons_ne_nil _ _), after?_append (other t apart.edge)]
    cases after? "mapping".toList (d :: u) with
    | none => rfl
    | some rest =>
      simp only [Option.map_some, trimStart_append]
      cases trimStart rest with
      | nil =>
        rw [if_pos rfl]
        cases behind : trimStart t with
        | nil => rfl
        | cons e w =>
          have notOpen := noOpen e (by rw [behind]; rfl)
          simp [startsWith, List.isPrefixOf, Ne.symm notOpen]
      | cons e w =>
        rw [if_neg (List.cons_ne_nil _ _)]
        rfl

/-- A foreign character that no closing parenthesis follows lies behind a mapping type. -/
theorem mem_of_mappingType?_of_unclosed {c : Char} (foreign : IsForeign c) {s t : Text}
    (unclosed : ')' ∉ c :: t) {type behind : Text}
    (found : StateVariable.mappingType? (s ++ c :: t) = some (type, behind)) : c ∈ behind := by
  have trimmed := trim_append_cons foreign.visible s t
  have unclosed' : ')' ∉ c :: trimEnd t := by
    intro member
    apply unclosed
    rcases List.mem_cons.1 member with rfl | member
    · exact List.mem_cons_self
    · refine List.mem_cons_of_mem c ?_
      rw [← trimEnd_append_blanksBehind t]
      exact List.mem_append_left _ member
  obtain ⟨mapping, rest, isSplit, _, _, rfl⟩ := StateVariable.mappingType?_eq_some_iff.1 found
  obtain ⟨_, k, closes, _, rfl⟩ := Mapping.split?_eq_some_iff.1 isSplit
  rw [trimmed] at closes ⊢
  have bracket := closeIndex?_spec closes
  -- the mapping ends in front of the character, since only there a parenthesis closes
  have inFront : k < (trimStart s).length := by
    apply Nat.lt_of_not_le
    intro later
    rw [List.getElem?_append_right later] at bracket
    exact unclosed' (List.mem_of_getElem? bracket)
  have inRest : c ∈ (trimStart s ++ c :: trimEnd t).drop (k + 1) := by
    rw [List.drop_append_of_le_length inFront]
    exact List.mem_append_right _ List.mem_cons_self
  exact mem_splitLeading foreign (mem_trim foreign.visible inRest)

/-- A foreign character behind a mapping type stays there. -/
theorem mem_of_mappingType?_append {c : Char} (foreign : IsForeign c) {s b t : Text}
    {type behind type' behind' : Text}
    (found : StateVariable.mappingType? s = some (type, behind))
    (found' : StateVariable.mappingType? (s ++ b ++ c :: t) = some (type', behind')) :
    c ∈ behind' := by
  obtain ⟨_, _, isSplit, _⟩ := StateVariable.mappingType?_eq_some_iff.1 found
  obtain ⟨isMap, k, closes, _⟩ := Mapping.split?_eq_some_iff.1 isSplit
  obtain ⟨_, _, isSplit', _, _, rfl⟩ := StateVariable.mappingType?_eq_some_iff.1 found'
  obtain ⟨_, k', closes', _, rfl⟩ := Mapping.split?_eq_some_iff.1 isSplit'
  have nonempty : trimStart s ≠ [] := by
    intro empty
    unfold trim at isMap
    rw [empty] at isMap
    exact absurd isMap (by decide)
  have front : trim s ++ blanksBehind (trimStart s) = trimStart s :=
    trimEnd_append_blanksBehind (trimStart s)
  have trimmed : trim (s ++ b ++ c :: t) =
      trim s ++ (blanksBehind (trimStart s) ++ (b ++ c :: trimEnd t)) := by
    rw [trim_append_cons foreign.visible, trimStart_append, if_neg nonempty,
      ← List.append_assoc, front, List.append_assoc]
  have inFront : k < (trim s).length := by
    have bracket := closeIndex?_spec closes
    exact (List.getElem?_eq_some_iff.1 bracket).1
  -- the mapping is closed where it was, whatever follows
  obtain rfl : k = k' := by
    rw [trimmed, closeIndex?_append closes] at closes'
    exact Option.some.inj closes'
  have inRest : c ∈ (trim (s ++ b ++ c :: t)).drop (k + 1) := by
    rw [trimmed, List.drop_append_of_le_length inFront]
    simp
  exact mem_splitLeading foreign (mem_trim foreign.visible inRest)

/-! ## Words behind a type -/

theorem isMember_of_mem_modifiers {word : Text} (modifier : word ∈ Keyword.variableModifiers) :
    ∀ c ∈ word, Identifier.isMember c = true := by
  intro c member
  refine Identifier.isStart_isMember ?_
  have all : Keyword.variableModifiers.all (·.all Identifier.isStart) = true := by decide
  exact List.all_eq_true.1 (List.all_eq_true.1 all word modifier) c member

/-- Words with a character that no identifier has are no modifiers and name. -/
theorem nameAndVisibility?_eq_none {c : Char} {s : Text} (visible : isBlank c = false)
    (notMember : Identifier.isMember c = false) (member : c ∈ s) :
    StateVariable.nameAndVisibility? (words s) = none := by
  obtain ⟨word, inWords, inWord⟩ := exists_mem_words member visible
  unfold StateVariable.nameAndVisibility?
  split
  · rename_i name isLast
    rw [if_neg]
    intro accepted
    simp only [Bool.and_eq_true, List.all_eq_true] at accepted
    obtain ⟨⟨identifier, _⟩, modifiers⟩ := accepted
    -- the character stands in a word, and every word is the name or one of the modifiers
    have parts : word ∈ (words s).dropLast ∨ word = name := by
      obtain ⟨front, whole⟩ := List.getLast?_eq_some_iff.1 isLast
      rw [whole] at inWords ⊢
      simpa using inWords
    have known : Identifier.isMember c = true := by
      rcases parts with modifier | rfl
      · have listed := modifiers word modifier
        exact isMember_of_mem_modifiers (by simpa using listed) c inWord
      · exact isMember_of_isIdentifier identifier c inWord
    rw [notMember] at known
    cases known
  · rfl

/-! ## Accepted declarations -/

namespace StateVariable

/-- The type, name and visibility that a text declares, whatever it starts with. -/
def declared? (s : Text) : Option (Text × Text × Visibility) := do
  let (type, behind) ← splitType? (plainAddress (withoutOverrideLists s))
  let (name, visibility) ← nameAndVisibility? (words behind)
  return (type, name, visibility)

theorem exists_of_declared? {s : Text} (accepted : declared? s ≠ none) :
    ∃ type behind, splitType? (plainAddress (withoutOverrideLists s)) = some (type, behind) ∧
      nameAndVisibility? (words behind) ≠ none := by
  unfold declared? at accepted
  cases isSplit : splitType? (plainAddress (withoutOverrideLists s)) with
  | none => simp [isSplit] at accepted
  | some pair =>
    refine ⟨pair.1, pair.2, rfl, fun rejected => accepted ?_⟩
    simp [isSplit, rejected]

/-- What a statement that declares a variable is made of: a type and words, and the last of these is the
name. -/
theorem exists_of_ofStatement? {s : Text} {index : Nat} {v : StateVariable}
    (declares : ofStatement? s index = some v) :
    v.index = index ∧ ∃ behind,
      splitType? (plainAddress (withoutOverrideLists (trim (declarationPart (trim s))))) =
        some (v.type, behind) ∧ nameAndVisibility? (words behind) = some (v.name, v.visibility) := by
  unfold ofStatement? at declares
  cases starts : Identifier.leading? (trim s) with
  | none => simp [starts] at declares
  | some first =>
    by_cases other : Keyword.otherStatements.contains first.1 = true
    · simp only [starts, Option.bind_eq_bind, Option.bind_some, if_pos other] at declares
      cases declares
    · simp only [starts, Option.bind_eq_bind, Option.bind_some, if_neg other] at declares
      obtain ⟨⟨type, behind⟩, isSplit, declares⟩ := Option.bind_eq_some_iff.1 declares
      obtain ⟨⟨name, visibility⟩, isName, declares⟩ := Option.bind_eq_some_iff.1 declares
      cases declares
      exact ⟨rfl, behind, isSplit, isName⟩

theorem isIdentifier_of_nameAndVisibility? {ws : List Text} {name : Text} {visibility : Visibility}
    (found : nameAndVisibility? ws = some (name, visibility)) : Identifier.isIdentifier name = true := by
  unfold nameAndVisibility? at found
  split at found
  · split at found
    · rename_i conditions
      cases found
      simp only [Bool.and_eq_true] at conditions
      exact conditions.1.1
    · cases found
  · cases found

theorem isIdentifier_name {s : Text} {index : Nat} {v : StateVariable}
    (declares : ofStatement? s index = some v) : Identifier.isIdentifier v.name = true := by
  obtain ⟨_, behind, _, isName⟩ := exists_of_ofStatement? declares
  exact isIdentifier_of_nameAndVisibility? isName

/-- A foreign character behind a declaration's type rejects it. -/
theorem declared?_eq_none {c : Char} (foreign : IsForeign c) {s : Text}
    (behindType : ∀ type behind, splitType? (plainAddress (withoutOverrideLists s)) =
      some (type, behind) → c ∈ behind) : declared? s = none := by
  apply Classical.byContradiction
  intro accepted
  obtain ⟨type, behind, isSplit, names⟩ := exists_of_declared? accepted
  exact names (nameAndVisibility?_eq_none foreign.visible foreign.notMember
    (behindType type behind isSplit))

/-- A declaration holds no foreign character that no closing parenthesis follows. -/
theorem declared?_eq_none_of_unclosed {c : Char} (foreign : IsForeign c) (notDot : c ≠ '.')
    {s t : Text} (unclosed : ')' ∉ c :: t) : declared? (s ++ c :: t) = none := by
  refine declared?_eq_none foreign fun type behind isSplit => ?_
  have noList : c = '(' → ')' ∉ t := fun _ member => unclosed (List.mem_cons_of_mem c member)
  rw [withoutOverrideLists_append (foreign.standsApart noList).isUnlisted (fun _ _ _ _ => .inr unclosed),
    withoutOverrideLists_cons foreign] at isSplit
  have inner : ')' ∉ withoutOverrideLists t := fun member =>
    unclosed (List.mem_cons_of_mem c (withoutOverrideLists_subset t member))
  rw [plainAddress_append (foreign.standsApart fun _ => inner).isUnpaid,
    plainAddress_cons foreign.notWord] at isSplit
  have unclosed' : ')' ∉ c :: plainAddress (withoutOverrideLists t) := by
    intro member
    rcases List.mem_cons.1 member with rfl | member
    · exact unclosed List.mem_cons_self
    · exact inner (plainAddress_subset _ member)
  -- a mapping is not closed behind the character, and a simple type ends in front of it
  unfold splitType? at isSplit
  split at isSplit
  · exact mem_of_mappingType?_of_unclosed foreign unclosed' isSplit
  · exact mem_of_simpleType? foreign notDot isSplit
      (List.mem_append_right _ List.mem_cons_self)

/-- In a declaration a closing parenthesis follows every opening one. -/
theorem closes_of_declared? {s t : Text} (accepted : declared? (s ++ '(' :: t) ≠ none) :
    ')' ∈ t := by
  apply Classical.byContradiction
  intro unclosed
  refine accepted (declared?_eq_none_of_unclosed isForeign_openParen (by decide) ?_)
  intro member
  rcases List.mem_cons.1 member with isParen | member
  · exact absurd isParen (by decide)
  · exact unclosed member

theorem closes_of_suffix {s rest inner : Text} (accepted : declared? s ≠ none) (suffix : rest <:+ s)
    (isList : trimStart rest = '(' :: inner) : ')' ∈ inner := by
  obtain ⟨front, whole⟩ := suffix
  rw [← takeWhile_append_trimStart rest, isList, ← List.append_assoc] at whole
  rw [← whole] at accepted
  exact closes_of_declared? accepted

theorem closes_of_suffix_blanks {s b rest inner : Text} (blanks : Blanks b)
    (accepted : declared? s ≠ none) (suffix : rest <:+ s ++ b)
    (isList : trimStart rest = '(' :: inner) : ')' ∈ inner := by
  have noParen : '(' ∉ b := fun member => absurd (blanks '(' member) (by decide)
  obtain ⟨front, whole⟩ := suffix
  -- the list opens in `s`, since `b` has no parenthesis
  rcases List.append_eq_append_iff.1 whole with ⟨mid, isFront, isRest⟩ | ⟨mid, isS, isRest⟩
  · subst isRest
    rw [trimStart_append] at isList
    split at isList
    · have member : '(' ∈ trimStart b := by rw [isList]; exact List.mem_cons_self
      exact absurd ((List.dropWhile_sublist _).subset member) noParen
    · rename_i nonempty
      obtain ⟨d, rest', isStart⟩ := List.exists_cons_of_ne_nil nonempty
      rw [isStart] at isList
      cases isList
      exact List.mem_append_left _ (closes_of_suffix accepted ⟨front, isFront.symm⟩ isStart)
  · have member : '(' ∈ rest := by
      rw [← takeWhile_append_trimStart rest, isList]
      simp
    exact absurd (isRest ▸ List.mem_append_right mid member) noParen

/-- With a foreign character behind it, whatever follows, a declaration is none. -/
theorem declared?_append_eq_none {c : Char} (foreign : IsForeign c) (notDot : c ≠ '.')
    (notOpen : c ≠ '(') {s b : Text} (blanks : Blanks b) (accepted : declared? s ≠ none)
    (t : Text) : declared? (s ++ b ++ c :: t) = none := by
  have noClose : ')' ∉ b := fun member => absurd (blanks ')' member) (by decide)
  have apart : ∀ u, StandsApart (c :: u) := fun u =>
    foreign.standsApart fun isParen => absurd isParen notOpen
  have visible : ∀ u, trimStart (c :: u) = c :: u := fun u =>
    trimStart_of_first (by simpa using foreign.visible)
  have blanks' : Blanks (withoutOverrideLists b) := fun d member =>
    blanks d (withoutOverrideLists_subset b member)
  have blanks'' : Blanks (plainAddress (withoutOverrideLists b)) := fun d member =>
    blanks' d (plainAddress_subset _ member)
  obtain ⟨type, behind, isSplit, _⟩ := exists_of_declared? accepted
  refine declared?_eq_none foreign fun type' behind' isSplit' => ?_
  rw [withoutOverrideLists_append (apart t).isUnlisted
      (fun _ _ suffix isList => .inl (closes_of_suffix_blanks blanks accepted suffix isList)),
    withoutOverrideLists_append (standsApart_of_blanks blanks).isUnlisted (fun _ _ _ _ => .inr noClose),
    withoutOverrideLists_cons foreign, plainAddress_append (apart _).isUnpaid,
    plainAddress_append (startsNoWord_of_blanks blanks').isUnpaid, plainAddress_cons foreign.notWord] at isSplit'
  -- the foreign character is left over behind the type, where no declarator holds it
  unfold splitType? at isSplit isSplit'
  split at isSplit'
  · rename_i isMap
    rw [isMapping_append (apart _) (by simpa [visible] using notOpen),
      isMapping_append (standsApart_of_blanks blanks'') (by simp [trimStart_eq_nil blanks''])]
      at isMap
    rw [if_pos isMap] at isSplit
    exact mem_of_mappingType?_append foreign isSplit isSplit'
  · exact mem_of_simpleType? foreign notDot isSplit'
      (List.mem_append_right _ List.mem_cons_self)

/-! ## Statements -/

/-- The type, name and visibility of a state variable. -/
def face (v : StateVariable) : Text × Text × Visibility :=
  (v.type, v.name, v.visibility)

/-- Whether a text starts with a word that a declaration can start with. -/
def startsDeclaration (s : Text) : Bool :=
  match Identifier.leading? s with
  | some (first, _) => !Keyword.otherStatements.contains first
  | none => false

/-- What a statement declares does not depend on where it stands. -/
theorem face_ofStatement? (s : Text) (index : Nat) :
    (ofStatement? s index).map face =
      if startsDeclaration (trim s) then declared? (trim (declarationPart (trim s))) else none := by
  unfold ofStatement? startsDeclaration declared?
  cases starts : Identifier.leading? (trim s) with
  | none => simp [starts]
  | some pair =>
    by_cases other : pair.1 ∈ Keyword.otherStatements
    · simp [starts, other]
    · cases isSplit :
          splitType? (plainAddress (withoutOverrideLists (trim (declarationPart (trim s))))) with
      | none => simp [starts, isSplit]
      | some split =>
        cases names : nameAndVisibility? (words split.2) with
        | none => simp [starts, isSplit, names]
        | some name => simp [starts, other, isSplit, names, face]

end StateVariable

end ContractInterface
