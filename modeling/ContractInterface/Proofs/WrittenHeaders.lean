import ContractInterface.Proofs.BalancedTexts
import ContractInterface.Proofs.Blocks
import ContractInterface.Proofs.CollapsedScans
import ContractInterface.Proofs.Positions
import ContractInterface.Proofs.References

/-! # Function headers as they are written

Behind its parameter list a header is written as parts with blanks between them (`SpellsParts`): words with
a meaning of their own, and modifiers, some of them with a list in parentheses.

The end of the header is looked for over all of these: a list is passed over whatever its literals, braces
and semicolons are (`isCovered_parens`).  Then each part is read on its own (`WrittenPart.parts_text_append`),
so what the header says does not depend on the order of its parts (`FunctionHeader.filter_ofText_text`).
-/

namespace ContractInterface

open Text Literal Delimiter

namespace FunctionHeader

/-! ## Up to the end of a header -/

theorem lengthFrom_append_of_inside {depth : Int} {ms : List Mark}
    (inside : ∀ front, front <+: ms → 0 < depth + depthAlong isOpenParen isCloseParen front) (ns : List Mark) :
    lengthFrom depth (ms ++ ns) =
      ms.length + lengthFrom (depth + depthAlong isOpenParen isCloseParen ms) ns := by
  induction ms generalizing depth with
  | nil => simp
  | cons m ms ih =>
    have here := inside [] List.nil_prefix
    rw [depthAlong_nil, Int.add_zero] at here
    have later : ∀ front, front <+: ms → 0 < depth + markStep isOpenParen isCloseParen m +
        depthAlong isOpenParen isCloseParen front := by
      intro front isFront
      have whole := inside (m :: front) (List.cons_prefix_cons.2 ⟨rfl, isFront⟩)
      rwa [depthAlong_cons, ← Int.add_assoc] at whole
    have goesOn : ¬(¬m.quoted = true ∧ (m.char = '{' ∨ m.char = ';') ∧ depth ≤ 0) := fun ends =>
      absurd ends.2.2 (Int.not_le.2 here)
    rw [List.cons_append, lengthFrom, if_neg goesOn, ih later, depthAlong_cons, ← Int.add_assoc, List.length_cons]
    omega

/-- A text that a header goes on over, from outside all lists to outside all lists. -/
structure IsCovered (t : Text) : Prop where
  closed : IsTerminated t
  goesOn : ∀ ns, lengthFrom 0 (marks t ++ ns) = t.length + lengthFrom 0 ns

theorem isCovered_nil : IsCovered [] :=
  ⟨rfl, fun ns => by simp [marks, marksFrom]⟩

theorem IsCovered.append {s t : Text} (left : IsCovered s) (right : IsCovered t) : IsCovered (s ++ t) where
  closed := left.closed.append right.closed
  goesOn ns := by
    rw [marks_append left.closed, List.append_assoc, left.goesOn, right.goesOn, List.length_append, Nat.add_assoc]

theorem isCovered_char {c : Char} (unquoted : isQuote c = false) (flat : parenStep c = 0)
    (goesOn : c ≠ '{' ∧ c ≠ ';') : IsCovered [c] where
  closed := isTerminated_of_noQuote (by simpa using unquoted)
  goesOn ns := by
    have mark : marks [c] = [⟨c, false⟩] := by simp [marks, marksFrom, unquoted]
    have step : markStep isOpenParen isCloseParen ⟨c, false⟩ = 0 := flat
    rw [mark, List.singleton_append, lengthFrom, if_neg (by simp [goesOn.1, goesOn.2]), step, Int.add_zero,
      List.length_singleton, Nat.add_comm]

theorem isCovered_of_chars {t : Text} (chars : ∀ c ∈ t, isBlank c = true ∨ Registry.isReferenceMember c = true) :
    IsCovered t := by
  induction t with
  | nil => exact isCovered_nil
  | cons c t ih =>
    refine IsCovered.append (s := [c]) ?_ (ih fun d member => chars d (List.mem_cons_of_mem c member))
    rcases chars c List.mem_cons_self with blank | isMember
    · refine isCovered_char (Segment.isQuote_of_isBlank blank) (parenStep_of_isBlank blank) ⟨?_, ?_⟩ <;>
        rintro rfl <;> exact absurd blank (by decide)
    · refine isCovered_char ?_ (flat_of_isTypeMember (isTypeMember_of_isReferenceMember isMember)).1 ⟨?_, ?_⟩
      · rcases Bool.or_eq_true_iff.1 isMember with isMember | dot
        · exact isQuote_of_isMember isMember
        · rw [eq_of_beq dot]
          decide
      · rintro rfl
        exact absurd isMember (by decide)
      · rintro rfl
        exact absurd isMember (by decide)

theorem isCovered_parens {t : Text} (closed : IsTerminated t) (nested : IsNested (marks t)) :
    IsCovered ('(' :: (t ++ [')'])) where
  closed := by
    have opened : IsTerminated ['('] := rfl
    have ended : IsTerminated [')'] := rfl
    exact opened.append (closed.append ended)
  goesOn ns := by
    have opened : marks ('(' :: (t ++ [')'])) = ⟨'(', false⟩ :: (marks t ++ [⟨')', false⟩]) := by
      have first := marks_append_of_noQuote (s := ['(']) (by simp; decide) (t ++ [')'])
      rw [marks_append closed] at first
      exact first
    -- behind the opening parenthesis the scan stays inside until `t` has passed
    have inside : ∀ front, front <+: marks t → 0 < (1 : Int) + depthAlong isOpenParen isCloseParen front := by
      intro front isFront
      have above := nested.above front isFront
      omega
    have opens : markStep isOpenParen isCloseParen ⟨'(', false⟩ = 1 := by decide
    have closes : markStep isOpenParen isCloseParen ⟨')', false⟩ = -1 := by decide
    rw [opened, List.cons_append, lengthFrom, if_neg (by simp), opens, List.append_assoc, Int.zero_add,
      lengthFrom_append_of_inside inside, nested.level, Int.add_zero, List.singleton_append, lengthFrom,
      if_neg (by simp), closes, length_marks, List.length_cons, List.length_append, List.length_singleton]
    have level : (1 : Int) + -1 = 0 := by decide
    rw [level]
    omega

/-- A header ends at the first brace or semicolon behind what it goes on over. -/
theorem behindParams_append_of_isCovered {t : Text} (covered : IsCovered t) {last : Char}
    (ends : last = '{' ∨ last = ';') (after : Text) : behindParams (t ++ last :: after) = t := by
  have unquoted : isQuote last = false := by
    rcases ends with rfl | rfl <;> decide
  have stops : lengthFrom 0 (marks (last :: after)) = 0 := by
    rw [marks, marksFrom, if_neg (by simp [unquoted]), lengthFrom, if_pos (by simp [ends])]
  unfold behindParams
  rw [marks_append covered.closed, covered.goesOn, stops, Nat.add_zero, List.take_left]

/-! ## The parts of a header -/

theorem parts_blanks_append {b : Text} (blanks : Blanks b) (s : Text) : parts (b ++ s) = parts s := by
  induction b with
  | nil => rfl
  | cons c b ih =>
    have blank := blanks c List.mem_cons_self
    have notOpen : c ≠ '(' := by
      rintro rfl
      exact absurd blank (by decide)
    rw [List.cons_append, parts_other notOpen (by simp [noBlank_isStart c blank]),
      ih fun d member => blanks d (List.mem_cons_of_mem c member)]

theorem parts_identifier_append {name s : Text} (isName : Identifier.isIdentifier name = true)
    (edge : ∀ c ∈ s.head?, Identifier.isMember c = false) : parts (name ++ s) = .word name :: parts s := by
  cases name with
  | nil => cases isName
  | cons c name =>
    obtain ⟨starts, members⟩ := Bool.and_eq_true_iff.1 isName
    rw [List.all_eq_true] at members
    rw [List.cons_append, parts_word starts, takeWhile_append_of_head? edge, dropWhile_append_of_head? edge,
      List.takeWhile_eq_self_iff.2 members, List.dropWhile_eq_nil_iff.2 members, List.nil_append]

theorem parts_dotted_append {names : List Text} (identifiers : ∀ name ∈ names, Identifier.isIdentifier name = true)
    {s : Text} (edge : ∀ c ∈ s.head?, Identifier.isMember c = false) :
    parts (Registry.dotted names ++ s) = names.map .word ++ parts s := by
  cases names with
  | nil => rfl
  | cons name more =>
    induction more generalizing name with
    | nil =>
      rw [Registry.dotted_singleton, parts_identifier_append (identifiers name List.mem_cons_self) edge]
      rfl
    | cons next more ih =>
      obtain ⟨isName, others⟩ := List.forall_mem_cons.1 identifiers
      have dot : ∀ c ∈ ('.' :: (Registry.dotted (next :: more) ++ s)).head?, Identifier.isMember c = false := by
        simp
        decide
      rw [Registry.dotted_cons_cons, List.append_assoc, List.cons_append, parts_identifier_append isName dot,
        parts_other (by decide) (by decide), ih next others]
      rfl

theorem parts_parens_append {content : Text} (closed : IsTerminated content) (nested : IsNested (marks content))
    (s : Text) : parts ('(' :: (content ++ ')' :: s)) = .arguments content :: parts s := by
  rw [parts_closed (matchingParen?_of_isNested closed nested s), Nat.add_sub_cancel, List.take_left]
  have behind : (content ++ ')' :: s).drop (content.length + 1) = s := by
    rw [← List.singleton_append, ← List.append_assoc]
    exact List.drop_left' (by simp)
  rw [behind]

end FunctionHeader

/-! ## Written parts -/

/-- A list in parentheses, with blanks in front. -/
structure WrittenList where
  gap : Text
  content : Text
  blanks : Blanks gap
  closed : IsTerminated content
  nested : IsNested (marks content)

/-- The text of a list. -/
def WrittenList.text (l : WrittenList) : Text :=
  l.gap ++ '(' :: (l.content ++ [')'])

/-- A part of a header.  No name in a modifier's dotted name has a meaning of its own. -/
inductive WrittenPart where
  | visibility (v : Visibility)
  | mutability (m : Mutability)
  | virtual
  | override (list : Option WrittenList)
  | invocation (names : List Text) (list : Option WrittenList)
      (identifiers : ∀ name ∈ names, Identifier.isIdentifier name = true)
      (plain : ∀ name ∈ names, Visibility.ofWord? name = none ∧ Mutability.ofWord? name = none ∧
        name ≠ "returns".toList)
  | returns (list : WrittenList)

namespace WrittenPart

/-- The dotted name of a part. -/
def names : WrittenPart → List Text
  | .visibility v => [v.keyword]
  | .mutability m => [m.keyword]
  | .virtual => ["virtual".toList]
  | .override _ => ["override".toList]
  | .invocation names _ _ _ => names
  | .returns _ => ["returns".toList]

/-- The list of a part. -/
def list? : WrittenPart → Option WrittenList
  | .override list => list
  | .invocation _ list _ _ => list
  | .returns list => some list
  | _ => none

/-- The visibility that a part names. -/
def visibility? : WrittenPart → Option Visibility
  | .visibility v => some v
  | _ => none

/-- The mutability that a part names. -/
def mutability? : WrittenPart → Option Mutability
  | .mutability m => some m
  | _ => none

/-- The results that a part lists. -/
def results? : WrittenPart → Option Text
  | .returns list => some list.content
  | _ => none

/-- The text of a part. -/
def text (p : WrittenPart) : Text :=
  Registry.dotted p.names ++ (p.list?.map WrittenList.text).getD []

/-- What a part is read as. -/
def pieces (p : WrittenPart) : List HeaderPart :=
  p.names.map .word ++ p.list?.toList.map (.arguments ·.content)

variable (p : WrittenPart)

theorem isIdentifier_names : ∀ name ∈ p.names, Identifier.isIdentifier name = true := by
  cases p with
  | visibility v => cases v <;> decide +kernel
  | mutability m => cases m <;> decide +kernel
  | virtual => decide +kernel
  | override =>
    show ∀ name ∈ ["override".toList], Identifier.isIdentifier name = true
    decide +kernel
  | invocation _ _ identifiers _ => exact identifiers
  | returns =>
    show ∀ name ∈ ["returns".toList], Identifier.isIdentifier name = true
    decide +kernel

theorem isCovered_text : FunctionHeader.IsCovered p.text := by
  have name := FunctionHeader.isCovered_of_chars fun c member =>
    .inr (Registry.isReferenceMember_of_mem_dotted p.isIdentifier_names c member)
  refine name.append ?_
  cases p.list? with
  | none => exact FunctionHeader.isCovered_nil
  | some l =>
    exact (FunctionHeader.isCovered_of_chars fun c member => .inl (l.blanks c member)).append
      (FunctionHeader.isCovered_parens l.closed l.nested)

/-- A part is read on its own. -/
theorem parts_text_append {s : Text} (apart : ∀ c ∈ s.head?, isBlank c = true) :
    FunctionHeader.parts (p.text ++ s) = p.pieces ++ FunctionHeader.parts s := by
  unfold text pieces
  rw [List.append_assoc]
  cases p.list? with
  | none =>
    rw [Option.map_none, Option.getD_none, List.nil_append, FunctionHeader.parts_dotted_append p.isIdentifier_names
      fun c first => noBlank_isMember c (apart c first)]
    simp
  | some l =>
    have cut : l.text ++ s = l.gap ++ '(' :: (l.content ++ ')' :: s) := by
      simp only [WrittenList.text, List.append_assoc, List.cons_append, List.nil_append]
    rw [Option.map_some, Option.getD_some, cut, FunctionHeader.parts_dotted_append p.isIdentifier_names
      (noBlank_isMember.edge l.blanks (by decide) _), FunctionHeader.parts_blanks_append l.blanks,
      FunctionHeader.parts_parens_append l.closed l.nested]
    simp

/-- The words of a part name its visibility and its mutability. -/
theorem findSome?_names : p.names.findSome? Visibility.ofWord? = p.visibility? ∧
    p.names.findSome? Mutability.ofWord? = p.mutability? := by
  cases p with
  | visibility v => cases v <;> decide
  | mutability m => cases m <;> decide
  | virtual => decide
  | override => exact ⟨rfl, rfl⟩
  | invocation _ _ _ plain =>
    exact ⟨List.findSome?_eq_none_iff.2 fun name member => (plain name member).1,
      List.findSome?_eq_none_iff.2 fun name member => (plain name member).2.1⟩
  | returns => exact ⟨rfl, rfl⟩

theorem ne_returns_of_mem_names (noResults : p.results? = none) : ∀ name ∈ p.names, name ≠ "returns".toList := by
  cases p with
  | visibility v => cases v <;> decide
  | mutability m => cases m <;> decide
  | virtual => decide
  | override =>
    show ∀ name ∈ ["override".toList], name ≠ "returns".toList
    decide
  | invocation _ _ _ plain => exact fun name member => (plain name member).2.2
  | returns => cases noResults

end WrittenPart

/-- The text of parts that blanks set off from each other, with blanks behind the last one. -/
inductive SpellsParts : List WrittenPart → Text → Prop
  | nil {b : Text} (blanks : Blanks b) : SpellsParts [] b
  | cons {gap t : Text} {p : WrittenPart} {ps : List WrittenPart} (blanks : Blanks gap)
      (apart : ∀ c ∈ t.head?, isBlank c = true) (behind : SpellsParts ps t) :
      SpellsParts (p :: ps) (gap ++ (p.text ++ t))

namespace SpellsParts

variable {ps : List WrittenPart} {t : Text}

theorem isCovered (spells : SpellsParts ps t) : FunctionHeader.IsCovered t := by
  have blank : ∀ {b : Text}, Blanks b → FunctionHeader.IsCovered b := fun blanks =>
    FunctionHeader.isCovered_of_chars fun c member => .inl (blanks c member)
  induction spells with
  | nil blanks => exact blank blanks
  | cons blanks _ _ ih => exact (blank blanks).append ((WrittenPart.isCovered_text _).append ih)

theorem parts_eq (spells : SpellsParts ps t) : FunctionHeader.parts t = ps.flatMap WrittenPart.pieces := by
  induction spells with
  | @nil b blanks =>
    rw [← List.append_nil b, FunctionHeader.parts_blanks_append blanks, FunctionHeader.parts]
    rfl
  | @cons gap t p ps blanks apart _ ih =>
    rw [FunctionHeader.parts_blanks_append blanks, p.parts_text_append apart, ih, List.flatMap_cons]

end SpellsParts

/-- Parts with the same blanks in front of each. -/
theorem spellsParts_flatMap {gap : Text} (blanks : Blanks gap) (apart : gap ≠ []) (ps : List WrittenPart) :
    SpellsParts ps (ps.flatMap fun p => gap ++ p.text) := by
  induction ps with
  | nil => exact .nil blanks_nil
  | cons p ps ih =>
    rw [List.flatMap_cons, List.append_assoc]
    refine .cons blanks ?_ ih
    cases ps with
    | nil => exact fun _ first => nomatch first
    | cons q ps =>
      rw [List.flatMap_cons, List.append_assoc]
      exact isBlank_of_head?_blanks blanks apart _

/-! ## What the parts say -/

namespace FunctionHeader

theorem wordsOf_append (ps qs : List HeaderPart) : wordsOf (ps ++ qs) = wordsOf ps ++ wordsOf qs :=
  List.filterMap_append

theorem wordsOf_pieces (ps : List WrittenPart) :
    wordsOf (ps.flatMap WrittenPart.pieces) = ps.flatMap WrittenPart.names := by
  induction ps with
  | nil => rfl
  | cons p ps ih =>
    have names : wordsOf (p.names.map .word) = p.names := by
      simp [wordsOf, List.filterMap_map]
    have list : wordsOf (p.list?.toList.map (.arguments ·.content)) = [] := by
      cases p.list? <;> rfl
    rw [List.flatMap_cons, List.flatMap_cons, wordsOf_append, ih, WrittenPart.pieces, wordsOf_append, names, list,
      List.append_nil]

/-- What the words of parts name is what the parts name, if that holds of each part. -/
theorem findSome?_flatMap_names {α : Type} {ofWord? : Text → Option α} {ofPart? : WrittenPart → Option α}
    (same : ∀ p, p.names.findSome? ofWord? = ofPart? p) (ps : List WrittenPart) :
    (ps.flatMap WrittenPart.names).findSome? ofWord? = ps.findSome? ofPart? := by
  induction ps with
  | nil => rfl
  | cons p ps ih =>
    rw [List.flatMap_cons, List.findSome?_append, same, ih, List.findSome?_cons]
    cases ofPart? p <;> rfl

theorem returnsAfter?_words {last : Text} (other : last ≠ "returns".toList) {names : List Text}
    (others : ∀ name ∈ names, name ≠ "returns".toList) : ∃ last', last' ≠ "returns".toList ∧
      ∀ ps, returnsAfter? last (names.map .word ++ ps) = returnsAfter? last' ps := by
  induction names generalizing last with
  | nil => exact ⟨last, other, fun _ => rfl⟩
  | cons name names ih =>
    obtain ⟨isOther, rest⟩ := List.forall_mem_cons.1 others
    exact ih isOther rest

/-- Whatever parts stand in front of it, the result list is the first one behind `returns`. -/
theorem returnsAfter?_pieces (ps : List WrittenPart) {last : Text} (other : last ≠ "returns".toList) :
    returnsAfter? last (ps.flatMap WrittenPart.pieces) = ps.findSome? WrittenPart.results? := by
  induction ps generalizing last with
  | nil => rfl
  | cons p ps ih =>
    rw [List.flatMap_cons, List.findSome?_cons]
    cases results : p.results? with
    | some content =>
      cases p with
      | returns list =>
        cases results
        rfl
      | visibility | mutability | virtual | override | invocation => cases results
    | none =>
      -- another part ends in a word that is not `returns`, so its list, if it has one, is passed over
      obtain ⟨last', other', behind⟩ := returnsAfter?_words other (p.ne_returns_of_mem_names results)
      rw [WrittenPart.pieces, List.append_assoc, behind]
      cases p.list? with
      | none => exact ih other'
      | some l =>
        show returnsAfter? last' (.arguments l.content :: ps.flatMap WrittenPart.pieces) = _
        rw [returnsAfter?, if_neg other']
        exact ih other'

end FunctionHeader

/-! ## Written headers -/

/-- A function as it is written in a text, up to the brace or semicolon behind its header. -/
structure WrittenHeader where
  before : Text
  front : Text
  name : Text
  back : Text
  params : Text
  parts : List WrittenPart
  behind : Text
  last : Char
  after : Text
  setOff : ∀ c ∈ before.getLast?, isBlank c = true
  front_blanks : Blanks front
  apart : front ≠ []
  isName : Identifier.isIdentifier name = true
  back_blanks : Blanks back
  closed : IsTerminated params
  nested : IsNested (marks params)
  spells : SpellsParts parts behind
  ends : last = '{' ∨ last = ';'

namespace WrittenHeader

variable (h : WrittenHeader)

/-- The head of a function, up to its parenthesis. -/
def lead : Text :=
  "function".toList ++ (h.front ++ (h.name ++ h.back))

/-- The text from the parenthesis on. -/
def fromParen : Text :=
  '(' :: (h.params ++ ')' :: (h.behind ++ h.last :: h.after))

/-- The whole text. -/
def text : Text :=
  h.before ++ (h.lead ++ h.fromParen)

/-- The head of the function. -/
def head : FunctionHead :=
  ⟨h.name, h.lead, h.fromParen⟩

theorem trimStart_back_append : trimStart (h.back ++ h.fromParen) = h.fromParen := by
  rw [trimStart_blanks h.back_blanks]
  exact trimStart_of_first (by simp [fromParen]; decide)

/-- The keyword at the front of a text is read with the head behind it. -/
theorem read?_function : FunctionHead.read? "function".toList (h.front ++ (h.name ++ (h.back ++ h.fromParen))) =
    some (h.head, (h.front ++ (h.name ++ h.back)).length + 1) := by
  have edge : ∀ c ∈ (h.back ++ h.fromParen).head?, Identifier.isMember c = false :=
    noBlank_isMember.edge h.back_blanks (by decide) _
  have opens : startsWith ['('] h.fromParen = true := rfl
  have cut : h.front ++ (h.name ++ (h.back ++ h.fromParen)) = (h.front ++ (h.name ++ h.back)) ++ h.fromParen := by
    simp only [List.append_assoc]
  have length : (h.front ++ (h.name ++ (h.back ++ h.fromParen))).length - h.fromParen.length =
      (h.front ++ (h.name ++ h.back)).length := by
    rw [cut, List.length_append, Nat.add_sub_cancel]
  have found : FunctionHead.ofWord? "function".toList (h.front ++ (h.name ++ (h.back ++ h.fromParen))) =
      some h.head := by
    rw [FunctionHead.ofWord?, if_pos rfl, afterBlanks?_identifier_append h.front_blanks h.apart h.isName edge]
    simp only [h.trimStart_back_append, opens, if_true, length]
    rw [cut, List.take_left]
    rfl
  rw [FunctionHead.read?, found, Option.map_some, head, length]

theorem lead_append (s : Text) :
    h.lead ++ s = "function".toList ++ (h.front ++ (h.name ++ (h.back ++ s))) := by
  unfold lead
  rw [List.append_assoc, List.append_assoc, List.append_assoc]

theorem exists_spans : ∃ text more, spans isWordChar FunctionHead.read? (h.lead ++ h.fromParen) =
    .found text h.head :: more := by
  have letters : "function".toList.all isWordChar = true := by decide
  have edge : ∀ c ∈ (h.front ++ (h.name ++ (h.back ++ h.fromParen))).head?, isWordChar c = false :=
    fun c first => isWordChar_of_isBlank (isBlank_of_head?_blanks h.front_blanks h.apart _ c first)
  have found : spans isWordChar FunctionHead.read? _ = _ :=
    spans_run_append (by decide) (List.all_eq_true.1 letters) edge
  rw [h.read?_function] at found
  exact ⟨_, _, h.lead_append h.fromParen ▸ found⟩

/-- No head goes on into a blank and the keyword behind it: the name that it would read is `function`, and no
parenthesis follows that. -/
theorem endsFunctionHead {c : Char} (blank : isBlank c = true) : EndsFunctionHead (c :: (h.lead ++ h.fromParen)) := by
  have start : trimStart (c :: (h.lead ++ h.fromParen)) = h.lead ++ h.fromParen := by
    rw [trimStart, List.dropWhile_cons_of_pos blank]
    rfl
  have edge : ∀ d ∈ (h.front ++ (h.name ++ (h.back ++ h.fromParen))).head?, Identifier.isMember d = false :=
    fun d first => noBlank_isMember d (isBlank_of_head?_blanks h.front_blanks h.apart _ d first)
  have leads : Identifier.leading? (h.lead ++ h.fromParen) =
      some ("function".toList, h.front ++ (h.name ++ (h.back ++ h.fromParen))) := by
    have isFunction : Identifier.isIdentifier "function".toList = true := by decide +kernel
    rw [lead_append]
    exact leading?_identifier_append isFunction edge
  refine ⟨by simpa using noBlank_isMember c blank, by rw [start]; rfl, ?_⟩
  intro name behind found
  rw [start, leads] at found
  cases found
  rw [trimStart_blanks h.front_blanks]
  have isName := h.isName
  -- behind the keyword stands the name of the function, which starts with no parenthesis
  cases isCons : h.name with
  | nil =>
    rw [isCons] at isName
    cases isName
  | cons d name =>
    rw [isCons] at isName
    have starts := (Bool.and_eq_true_iff.1 isName).1
    have visible := isBlank_of_isMember (Identifier.isStart_isMember starts)
    rw [List.cons_append, trimStart_of_first (by simpa using visible)]
    have notParen : '(' ≠ d := by
      rintro rfl
      cases starts
    simp [startsWith, List.isPrefixOf, notParen]

theorem mem_ofText : (h.before.length, h.head) ∈ FunctionHead.ofText h.text := by
  obtain ⟨text, more, isFound⟩ := h.exists_spans
  unfold FunctionHead.ofText locate
  rw [WrittenHeader.text]
  rcases List.eq_nil_or_concat h.before with none_ | ⟨front, c, isConcat⟩
  · rw [none_, List.nil_append, isFound]
    exact List.mem_cons_self
  · rw [List.concat_eq_append] at isConcat
    have blank : isBlank c = true := h.setOff c (by rw [isConcat]; simp)
    have plain : isWordChar c = false := isWordChar_of_isBlank blank
    rw [isConcat, List.append_assoc, List.singleton_append,
      spans_append_ext (by simpa using plain) (extends_functionHead (h.endsFunctionHead blank) front),
      spans_cons_of_not_mem plain, isFound, locateFrom_append, flatMap_text_map_spans, locateFrom,
      locateFrom]
    refine List.mem_append_right _ ?_
    have place : 0 + front.length + [c].length = (front ++ [c]).length := by
      rw [Nat.zero_add, List.length_append]
    rw [place]
    exact List.mem_cons_self

/-- What a header says, part by part. -/
theorem ofHead?_head : FunctionHeader.ofHead? h.before.length h.head =
    some ⟨h.name, h.params, h.parts.findSome? WrittenPart.results?, h.before.length,
      (h.parts.findSome? WrittenPart.visibility?).getD .publicly,
      (h.parts.findSome? WrittenPart.mutability?).getD .nonpayable⟩ := by
  have params : parenthesised? h.head.fromParen = some (h.params, h.behind ++ h.last :: h.after) :=
    parenthesised?_of_isNested h.closed h.nested _
  have words : FunctionHeader.wordsOf (FunctionHeader.parts h.behind) = h.parts.flatMap WrittenPart.names := by
    rw [h.spells.parts_eq, FunctionHeader.wordsOf_pieces]
  have returns : FunctionHeader.returns? (FunctionHeader.parts h.behind) = h.parts.findSome? WrittenPart.results? := by
    rw [h.spells.parts_eq]
    exact FunctionHeader.returnsAfter?_pieces h.parts (by decide)
  have visibility := FunctionHeader.findSome?_flatMap_names (fun p => p.findSome?_names.1) h.parts
  have mutability := FunctionHeader.findSome?_flatMap_names (fun p => p.findSome?_names.2) h.parts
  rw [FunctionHeader.ofHead?, params, Option.map_some]
  simp only [FunctionHeader.behindParams_append_of_isCovered h.spells.isCovered h.ends, returns, words,
    FunctionHeader.visibilityOf, FunctionHeader.mutabilityOf, visibility, mutability]
  rfl

end WrittenHeader

namespace FunctionHeader

theorem filter_eq_singleton {fs : List FunctionHeader} (ordered : fs.Pairwise fun f g => f.index < g.index)
    {f : FunctionHeader} (member : f ∈ fs) : fs.filter (·.index = f.index) = [f] := by
  obtain ⟨front, behind, rfl⟩ := List.append_of_mem member
  obtain ⟨_, others, before⟩ := List.pairwise_append.1 ordered
  have noneBefore : front.filter (·.index = f.index) = [] := by
    refine List.filter_eq_nil_iff.2 fun g isBefore => ?_
    have earlier := before g isBefore f List.mem_cons_self
    simp only [decide_eq_true_eq]
    omega
  have noneBehind : behind.filter (·.index = f.index) = [] := by
    refine List.filter_eq_nil_iff.2 fun g isBehind => ?_
    have later := (List.pairwise_cons.1 others).1 g isBehind
    simp only [decide_eq_true_eq]
    omega
  rw [List.filter_append, noneBefore, List.nil_append, List.filter_cons_of_pos (by simp), noneBehind]

/-- Where a function is written one header is read.  It has the lists as they are spelled, and what its parts
name wherever they stand; if they name a visibility or a mutability more than once, it has the first. -/
theorem filter_ofText_text (h : WrittenHeader) : (ofText h.text).filter (·.index = h.before.length) =
    [⟨h.name, h.params, h.parts.findSome? WrittenPart.results?, h.before.length,
      (h.parts.findSome? WrittenPart.visibility?).getD .publicly,
      (h.parts.findSome? WrittenPart.mutability?).getD .nonpayable⟩] :=
  filter_eq_singleton (pairwise_ofText h.text) (List.mem_filterMap.2 ⟨_, h.mem_ofText, h.ofHead?_head⟩)

/-- The parts of a header, with a literal among them that looks like the end of the header. -/
def partsOfDeposit : List WrittenPart :=
  [.mutability .payable,
    .invocation ["Access".toList, "only".toList]
      (some ⟨[], "S(\x7b\x7d), \"a);\x7b\"".toList, blanks_nil, rfl, by decide +kernel⟩) (by decide +kernel)
      (by decide +kernel),
    .returns ⟨[' '], "bool ok".toList, blanks_space, rfl, by decide +kernel⟩,
    .override (some ⟨[], "A, B".toList, blanks_nil, rfl, by decide +kernel⟩), .visibility .externally]

/-- A function with these parts, one on each line. -/
def deposit : WrittenHeader where
  before := "contract C \x7b\n  ".toList
  front := [' ']
  name := "deposit".toList
  back := []
  params := "uint256[] memory amounts, string memory note".toList
  parts := partsOfDeposit
  behind := partsOfDeposit.flatMap fun p => ['\n', ' '] ++ p.text
  last := '{'
  after := "\x7d\x7d".toList
  setOff := by
    intro c isLast
    have blank : "contract C \x7b\n  ".toList.getLast? = some ' ' := by decide
    cases Option.some.inj (blank.symm.trans isLast)
    decide
  front_blanks := blanks_space
  apart := space_ne_nil
  isName := by decide +kernel
  back_blanks := blanks_nil
  closed := rfl
  nested := by decide +kernel
  spells := spellsParts_flatMap ((blanks_singleton (c := '\n') (by decide)).append blanks_space)
    (List.cons_ne_nil _ _) partsOfDeposit
  ends := .inl rfl

theorem filter_ofText_text_deposit :
    (ofText ("contract C \x7b\n  function deposit(uint256[] memory amounts, string memory note)\n payable\n " ++
      "Access.only(S(\x7b\x7d), \"a);\x7b\")\n returns (bool ok)\n override(A, B)\n external\x7b\x7d\x7d").toList).filter
      (·.index = 15) =
    [⟨"deposit".toList, "uint256[] memory amounts, string memory note".toList, some "bool ok".toList, 15,
      .externally, .payable⟩] := by
  have spelled : ("contract C \x7b\n  function deposit(uint256[] memory amounts, string memory note)\n payable\n " ++
      "Access.only(S(\x7b\x7d), \"a);\x7b\")\n returns (bool ok)\n override(A, B)\n external\x7b\x7d\x7d").toList =
      deposit.text := by
    decide +kernel
  rw [spelled]
  exact filter_ofText_text deposit

end FunctionHeader

end ContractInterface
