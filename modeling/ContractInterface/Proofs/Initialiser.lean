import ContractInterface.Declaration.Extraction
import ContractInterface.Proofs.Declarator
import ContractInterface.Proofs.Segments

/-! # State variables and their initialisers

Giving an initialiser to a statement replaces this one statement by one other and leaves the rest as
it is (`exists_texts_initialised`): an initialiser without a brace becomes part of the statement, and
behind one with braces only its tail is left, because a brace starts a new segment.

The first kind of initialiser is cut off again at the equals sign, which takes parentheses that balance
in front of it (`face_initialised`).  The second kind loses the variable, unless the tail happens
to declare it once more.  `face_reportedVariables_initialised_iff` puts both together.
-/

namespace ContractInterface

open Text Literal Delimiter

namespace Segment

/-- How many blocks are open behind some segments when `depth` are open before them; none if they
close more than that. -/
def openBlocks (depth : Nat) : List Segment → Option Nat
  | [] => some depth
  | segment :: more =>
    match segment.boundary, depth with
    | .opening, depth => openBlocks (depth + 1) more
    | .closing, 0 => none
    | .closing, outer + 1 => openBlocks outer more
    | .semicolon, depth => openBlocks depth more

end Segment

/-- A text that can initialise a state variable: its literals and blocks are closed, and it holds no
semicolon. -/
structure IsInitialiser (s : Text) : Prop where
  visible : ∃ c ∈ s, isBlank c = false
  closed : IsTerminated s
  noSemicolon : ∀ segment ∈ Segment.ofText s, segment.boundary ≠ .semicolon
  balanced : Segment.openBlocks 0 (Segment.ofText s) = some 0

namespace Statement

/-- A source text in which a statement has got an initialiser. -/
def initialised (statement : Statement) (initialiser source : Text) : Text :=
  source.take (statement.index + statement.text.length) ++ [' ', '=', ' '] ++ initialiser ++
    source.drop (statement.index + statement.text.length)

/-- The text that stands for a statement once it has an initialiser. -/
def replacement (statement initialiser : Text) : Text :=
  if Segment.ofText initialiser = [] then statement ++ ' ' :: '=' :: ' ' :: initialiser
  else Segment.tail initialiser

/-- Segments that close no block but their own leave the blocks around them as they were. -/
theorem exists_blocksAfter_balanced {depth : Nat} {inner : List Bool} (outer : List Bool)
    {xs : List Segment} (balanced : Segment.openBlocks inner.length xs = some depth) :
    ∃ opened, opened.length = depth ∧ blocksAfter (inner ++ outer) xs = opened ++ outer := by
  -- `inner` are the blocks that the segments have opened so far and must close themselves
  induction xs generalizing inner with
  | nil =>
    cases balanced
    exact ⟨inner, rfl, rfl⟩
  | cons x xs ih =>
    cases isBoundary : x.boundary with
    | opening =>
      simp only [Segment.openBlocks, isBoundary] at balanced
      simp only [blocksAfter, isBoundary]
      rw [← List.cons_append]
      exact ih balanced
    | closing =>
      cases inner with
      | nil => simp [Segment.openBlocks, isBoundary] at balanced
      | cons _ inner =>
        simp only [Segment.openBlocks, isBoundary, List.length_cons] at balanced
        simp only [blocksAfter, isBoundary, List.cons_append, List.tail_cons]
        exact ih balanced
    | semicolon =>
      simp only [Segment.openBlocks, isBoundary] at balanced
      simp only [blocksAfter, isBoundary]
      exact ih balanced

/-- Closed blocks leave no block open. -/
theorem blocksAfter_balanced (outer : List Bool) {xs : List Segment}
    (balanced : Segment.openBlocks 0 xs = some 0) : blocksAfter outer xs = outer := by
  have keeps : ∃ opened, opened.length = 0 ∧ blocksAfter ([] ++ outer) xs = opened ++ outer :=
    exists_blocksAfter_balanced outer balanced
  obtain ⟨opened, noneOpened, blocksEq⟩ := keeps
  rw [List.length_eq_zero_iff.1 noneOpened] at blocksEq
  exact blocksEq

/-- Without a semicolon no statement ends. -/
theorem among_eq_nil_of_noSemicolon (start : Nat) (blocks : List Bool) {xs : List Segment}
    (noSemicolon : ∀ x ∈ xs, x.boundary ≠ .semicolon) : among start blocks xs = [] := by
  induction xs generalizing start blocks with
  | nil => rfl
  | cons x xs ih =>
    obtain ⟨first, others⟩ := List.forall_mem_cons.1 noSemicolon
    cases isBoundary : x.boundary with
    | opening =>
      simp only [among, isBoundary]
      exact ih _ _ others
    | closing =>
      simp only [among, isBoundary]
      exact ih _ _ others
    | semicolon => exact absurd isBoundary first

/-- The statements of an initialised declaration and what follows it. -/
theorem map_text_among_initialised {start : Nat} {blocks : List Bool} {front initialiser b : Text}
    {more : List Segment} (isInitialiser : IsInitialiser initialiser) (blanks : Blanks b)
    (visible : blocks.any id = false) :
    (among start blocks ((Segment.ofText initialiser ++
        ⟨Segment.tail initialiser ++ b, .semicolon⟩ :: more).modifyHead
          fun x => { x with text := front ++ x.text })).map Statement.text =
      (if Segment.ofText initialiser = [] then trim (front ++ initialiser)
        else trim (Segment.tail initialiser)) ::
        (among 0 blocks more).map Statement.text := by
  cases isCut : Segment.ofText initialiser with
  | nil =>
    have isTail : Segment.tail initialiser = initialiser := by
      have whole := Segment.spelling_append_tail initialiser
      rw [isCut] at whole
      exact whole
    rw [isTail, if_pos rfl, List.nil_append, List.modifyHead_cons]
    simp only [among, visible, Bool.false_eq_true, if_false, List.map_cons]
    rw [← List.append_assoc, trim_append_blanks blanks]
    exact congrArg _ (map_text_among _ _ _ _)
  | cons first inner =>
    have noSemicolon : ∀ x ∈ { first with text := front ++ first.text } :: inner,
        x.boundary ≠ .semicolon := by
      intro x member
      have known := isInitialiser.noSemicolon
      rw [isCut] at known
      rcases List.mem_cons.1 member with rfl | member
      · exact known first List.mem_cons_self
      · exact known x (List.mem_cons_of_mem first member)
    have balanced : Segment.openBlocks 0 ({ first with text := front ++ first.text } :: inner) =
        some 0 := by
      have known := isInitialiser.balanced
      rw [isCut] at known
      exact known
    -- the segments of the initialiser close the blocks they open, and none of them ends a statement
    rw [List.cons_append, List.modifyHead_cons, ← List.cons_append, among_append,
      among_eq_nil_of_noSemicolon start blocks noSemicolon, blocksAfter_balanced blocks balanced,
      if_neg (List.cons_ne_nil _ _)]
    simp only [List.nil_append, among, visible, Bool.false_eq_true, if_false, List.map_cons]
    rw [trim_append_blanks blanks]
    exact congrArg _ (map_text_among _ _ _ _)

/-- A statement stands behind the segments before its own, with blanks in front of its semicolon. -/
theorem exists_place {source : Text} {segsBefore segsBehind : List Segment} {segment : Segment}
    (isCut : Segment.ofText source = segsBefore ++ segment :: segsBehind)
    (isBoundary : segment.boundary = .semicolon) :
    ∃ b rest, Blanks b ∧
      source = Segment.spelling segsBefore ++
        (segment.text.takeWhile isBlank ++ trim segment.text) ++ (b ++ ';' :: rest) ∧
      (∀ x ∈ segsBefore, x.IsWhole) ∧
      IsTerminated (segment.text.takeWhile isBlank ++ trim segment.text) ∧
      Segment.Unbroken .outside (segment.text.takeWhile isBlank ++ trim segment.text) ∧
      Segment.ofText rest = segsBehind := by
  have isCut' : Segment.ofText source = (segsBefore ++ [segment]) ++ segsBehind := by
    rw [isCut]
    simp
  obtain ⟨rest, isSource, whole, following⟩ := Segment.exists_rest isCut'
  obtain ⟨b, blanks, isText⟩ := exists_blanks_trim segment.text
  have wholeSegment : segment.IsWhole := whole segment (by simp)
  refine ⟨b, rest, blanks, ?_, fun x inBefore => whole x (List.mem_append_left _ inBefore), ?_, ?_,
    following⟩
  · rw [isSource, Segment.spelling_append, Segment.spelling_cons, isBoundary]
    conv => lhs; rw [← isText]
    simp [Boundary.char]
  · have closed := wholeSegment.closed
    rw [← isText] at closed
    exact Segment.isTerminated_of_append_blanks blanks closed
  · have unbroken := wholeSegment.unbroken
    rw [← isText] at unbroken
    exact (Segment.unbroken_append.1 unbroken).1

/-- The segments of a source in which a statement has got an initialiser.  Those of the initialiser come
in the place of the statement's: the first goes on with the statement, and the last ends with the semicolon
that ended the statement. -/
theorem exists_segments_initialised {source initialiser : Text} {statement : Statement}
    {segsBefore segsBehind : List Segment} {segment : Segment}
    (isCut : Segment.ofText source = segsBefore ++ segment :: segsBehind)
    (isBoundary : segment.boundary = .semicolon)
    (isStatement : statement = ⟨0 + (Segment.spelling segsBefore).length +
      (segment.text.takeWhile isBlank).length, trim segment.text⟩)
    (isInitialiser : IsInitialiser initialiser) :
    ∃ b, Blanks b ∧ Segment.ofText (statement.initialised initialiser source) = segsBefore ++
      (Segment.ofText initialiser ++ ⟨Segment.tail initialiser ++ b, .semicolon⟩ ::
        segsBehind).modifyHead fun x => { x with
          text := segment.text.takeWhile isBlank ++ trim segment.text ++ [' ', '=', ' '] ++ x.text } := by
  obtain ⟨b, rest, blanks, isSource, wholeBefore, frontClosed, frontUnbroken, following⟩ :=
    exists_place isCut isBoundary
  refine ⟨b, blanks, ?_⟩
  have place : statement.index + statement.text.length = (Segment.spelling segsBefore ++
      (segment.text.takeWhile isBlank ++ trim segment.text)).length := by
    rw [isStatement]
    simp only [List.length_append]
    omega
  have isResult : statement.initialised initialiser source = Segment.spelling segsBefore ++
      ((segment.text.takeWhile isBlank ++ trim segment.text ++ [' ', '=', ' ']) ++
        (initialiser ++ b ++ ';' :: rest)) := by
    unfold initialised
    rw [place, isSource, List.take_left, List.drop_left]
    simp
  -- neither the statement nor the equals sign behind it ends a segment
  have goesOn : Segment.Unbroken .outside
      (segment.text.takeWhile isBlank ++ trim segment.text ++ [' ', '=', ' ']) := by
    refine Segment.unbroken_append.2 ⟨frontUnbroken, ?_⟩
    rw [show Reading.outside.after _ = .outside from frontClosed]
    show ∀ m ∈ Reading.outside.marks [' ', '=', ' '], Segment.boundary? m = none
    decide
  have isCutInitialiser : Segment.ofText (initialiser ++ b ++ ';' :: rest) =
      Segment.ofText initialiser ++ ⟨Segment.tail initialiser ++ b, .semicolon⟩ :: segsBehind := by
    rw [← following]
    exact Segment.ofText_append_boundary isInitialiser.closed (Segment.unbroken_blanks blanks _)
      (Segment.isTerminated_blanks blanks) .semicolon rest
  rw [isResult, Segment.ofText_spelling wholeBefore,
    Segment.ofText_append_of_unbroken goesOn (frontClosed.append rfl), isCutInitialiser]

/-- An initialiser replaces its statement and touches no other. -/
theorem exists_texts_initialised {source initialiser : Text} {statement : Statement}
    (member : statement ∈ ofText source) (isInitialiser : IsInitialiser initialiser) :
    ∃ before behind, (ofText source).map Statement.text = before ++ statement.text :: behind ∧
      (ofText (statement.initialised initialiser source)).map Statement.text =
        before ++ trim (replacement statement.text initialiser) :: behind := by
  obtain ⟨segsBefore, segment, segsBehind, isCut, isBoundary, visible, isStatement⟩ :=
    exists_segment_of_mem_among member
  -- both sources are cut into segments, which differ at this statement only
  obtain ⟨b, blanks, cuts⟩ := exists_segments_initialised isCut isBoundary isStatement isInitialiser
  refine ⟨(among 0 [] segsBefore).map Statement.text,
    (among 0 (blocksAfter [] segsBefore) segsBehind).map Statement.text, ?_, ?_⟩
  · unfold ofText
    rw [isCut, among_append, List.map_append]
    simp only [among, isBoundary, visible, Bool.false_eq_true, if_false, List.map_cons]
    rw [isStatement]
    exact congrArg _ (congrArg _ (map_text_among _ _ _ _))
  · unfold ofText
    rw [cuts, among_append, List.map_append,
      map_text_among_initialised isInitialiser blanks visible]
    unfold replacement
    rw [isStatement]
    split
    · have layout : trim (segment.text.takeWhile isBlank ++ trim segment.text ++ [' ', '=', ' '] ++
          initialiser) = trim (trim segment.text ++ ' ' :: '=' :: ' ' :: initialiser) := by
        rw [List.append_assoc, List.append_assoc]
        exact trim_blanks_append (blanks_takeWhile segment.text) _
      rw [layout]
    · rfl

end Statement

namespace StateVariable

/-! ## What an initialiser does to its own statement -/

/-- A declaration without an initialiser has none in front of another character either. -/
theorem declarationFrom_concat {depth : Int} {before : Option Char} {s : Text} {c : Char}
    (bare : declarationFrom depth before s = s) (last : s.getLast? ≠ some '=') (plain : c ≠ '=') :
    declarationFrom depth before (s ++ [c]) = s ++ [c] := by
  induction s generalizing depth before with
  | nil => simp [declarationFrom, plain]
  | cons d s ih =>
    simp only [declarationFrom] at bare
    split at bare
    · cases bare
    · rename_i uncut
      simp only [List.cons.injEq, true_and] at bare
      -- the new character is a neighbour of the last one only, and that is no equals sign
      have uncut' : ¬(d = '=' ∧ depth = 0 ∧ startsInitialiser before (s ++ [c]).head? = true) := by
        cases s with
        | nil =>
          intro cut
          exact last (by rw [cut.1]; rfl)
        | cons e s => exact uncut
      have last' : s.getLast? ≠ some '=' := by
        intro isLast
        apply last
        rw [List.getLast?_cons, isLast]
        rfl
      rw [List.cons_append, declarationFrom, if_neg uncut', ih bare last']

theorem declarationFrom_append {depth : Int} {before : Option Char} {s t : Text} {c : Char}
    (plain : c ≠ '=') :
    declarationFrom depth before (s ++ c :: t) =
      if declarationFrom depth before (s ++ [c]) = s ++ [c] then
        s ++ c :: declarationFrom (depth + depthOf (s ++ [c])) (some c) t
      else declarationFrom depth before (s ++ [c]) := by
  induction s generalizing depth before with
  | nil => simp [declarationFrom, plain]
  | cons d s ih =>
    have head : (s ++ c :: t).head? = (s ++ [c]).head? := by cases s <;> rfl
    simp only [List.cons_append, declarationFrom, head]
    split
    · simp
    · rw [ih]
      simp only [List.cons.injEq, true_and, depthOf_cons, Int.add_assoc]
      split <;> rfl

/-- Only at depth zero does an equals sign between blanks start an initialiser. -/
theorem declarationPart_initialised {s : Text} (bare : declarationPart s = s)
    (last : s.getLast? ≠ some '=') (t : Text) :
    ∃ behind, declarationPart (s ++ ' ' :: '=' :: ' ' :: t) =
      if depthOf s = 0 then s ++ [' '] else s ++ ' ' :: '=' :: behind := by
  have blank : parenStep ' ' = 0 := by decide
  have equals : parenStep '=' = 0 := by decide
  refine ⟨declarationFrom (depthOf s) (some '=') (' ' :: t), ?_⟩
  unfold declarationPart at bare ⊢
  rw [declarationFrom_append (by decide), if_pos (declarationFrom_concat bare last (by decide))]
  simp only [depthOf_append, depthOf_cons, depthOf_nil, blank, declarationFrom]
  by_cases balanced : depthOf s = 0
  · simp [balanced, startsInitialiser]
  · simp [balanced, equals]

theorem startsDeclaration_append {s : Text} (nonempty : s ≠ []) (t : Text) :
    startsDeclaration (s ++ ' ' :: t) = startsDeclaration s := by
  obtain ⟨c, s, rfl⟩ := List.exists_cons_of_ne_nil nonempty
  have edge : ∀ d ∈ (' ' :: t).head?, Identifier.isMember d = false := by
    intro d first
    cases first
    decide
  unfold startsDeclaration
  rw [List.cons_append]
  simp only [Identifier.leading?, takeWhile_append_of_head? edge]
  by_cases starts : Identifier.isStart c = true <;> simp [starts]

/-- An accepted declaration, from the text of its statement. -/
theorem accepted_of_ofStatement? {s : Text} {index : Nat} {v : StateVariable}
    (declares : ofStatement? s index = some v) (trimmed : trim s = s) (bare : declarationPart s = s) :
    startsDeclaration s = true ∧ declared? s = some (face v) := by
  have known := face_ofStatement? s index
  rw [declares, trimmed, bare, trimmed, Option.map_some] at known
  split at known
  · rename_i starts
    exact ⟨starts, known.symm⟩
  · cases known

/-- The initialiser is told apart from its declaration if the parentheses of the latter balance, and
otherwise nothing is declared. -/
theorem face_initialised {s initialiser : Text} {index : Nat} {v : StateVariable}
    (declares : ofStatement? s index = some v) (trimmed : trim s = s) (bare : declarationPart s = s)
    (visible : ∃ c ∈ initialiser, isBlank c = false) (index' : Nat) :
    (ofStatement? (s ++ ' ' :: '=' :: ' ' :: initialiser) index').map face =
      if depthOf s = 0 then some (face v) else none := by
  obtain ⟨starts, accepted⟩ := accepted_of_ofStatement? declares trimmed bare
  have accepted' : declared? s ≠ none := by
    rw [accepted]
    exact Option.some_ne_none _
  have nonempty : s ≠ [] := by
    rintro rfl
    cases starts
  have last : s.getLast? ≠ some '=' := by
    intro isLast
    obtain ⟨front, rfl⟩ := List.getLast?_eq_some_iff.1 isLast
    exact accepted' (declared?_eq_none_of_unclosed isForeign_equals (by decide) (by decide))
  have start : trimStart (s ++ [' ']) = s ++ [' '] := by
    have isTrimmed := isTrimmed_trim s
    rw [trimmed] at isTrimmed
    have first : (s ++ [' ']).head? = s.head? := by
      cases s with
      | nil => exact absurd rfl nonempty
      | cons c s => rfl
    refine trimStart_of_first ?_
    rw [first]
    exact isTrimmed.first
  -- trimming stops at the equals sign, so it leaves `s` and its space alone
  have layout : ∀ t, trim (s ++ ' ' :: '=' :: t) = s ++ ' ' :: '=' :: trimEnd t := by
    intro t
    have equals := trim_append_cons (c := '=') (by decide) (s ++ [' ']) t
    rw [start] at equals
    simpa using equals
  obtain ⟨behind, part⟩ := declarationPart_initialised bare last (trimEnd initialiser)
  have ends : trimEnd (' ' :: initialiser) = ' ' :: trimEnd initialiser :=
    trimEnd_append_of_visible (s := [' ']) visible
  rw [face_ofStatement?, layout, ends, startsDeclaration_append nonempty, if_pos starts, part]
  split
  · rw [trim_append_blanks (blanks_singleton (by decide)), trimmed, accepted]
  · have rejected := declared?_append_eq_none isForeign_equals (by decide) (by decide)
      (blanks_singleton (c := ' ') (by decide)) accepted' (trimEnd behind)
    rw [layout]
    simpa using rejected

/-! ## The variables of a source -/

/-- The faces among the texts of statements that the options report. -/
def reportedFaces (options : Options) (texts : List Text) : List (Text × Text × Visibility) :=
  (texts.filterMap fun text => (ofStatement? text 0).map face).filter fun found =>
    found.2.2 = .publicly || options.includePrivate

theorem face_ofStatement?_eq (s : Text) (index index' : Nat) :
    (ofStatement? s index).map face = (ofStatement? s index').map face := by
  rw [face_ofStatement?, face_ofStatement?]

theorem map_face_reportedVariables (options : Options) (source : Text) :
    (Candidate.reportedVariables options source).map face =
      reportedFaces options ((Statement.ofText source).map Statement.text) := by
  unfold Candidate.reportedVariables ofText reportedFaces
  induction Statement.ofText source with
  | nil => rfl
  | cons statement more ih =>
    have same := face_ofStatement?_eq statement.text statement.index 0
    rw [List.map_cons, List.filterMap_cons, List.filterMap_cons, ← same]
    cases ofStatement? statement.text statement.index with
    | none => exact ih
    | some v =>
      simp only [Option.map_some, List.filter_cons]
      rw [← ih]
      show List.map face (if _ then _ else _) =
        if (v.visibility = .publicly || options.includePrivate) = true then _ else _
      split <;> rfl

/-- Replacing one statement shows for some options, unless it declares the same. -/
theorem reportedFaces_replaced_iff {before behind : List Text} {s t : Text} :
    (∀ options, reportedFaces options (before ++ t :: behind) =
      reportedFaces options (before ++ s :: behind)) ↔
      (ofStatement? t 0).map face = (ofStatement? s 0).map face := by
  constructor
  · intro same
    -- with all declarations asked for, nothing hides whether one more or one less is made
    have reportsAll : ∀ texts, reportedFaces ⟨true, true⟩ texts =
        texts.filterMap fun text => (ofStatement? text 0).map face := fun texts =>
      List.filter_eq_self.2 (by simp)
    have all := same ⟨true, true⟩
    rw [reportsAll, reportsAll, List.filterMap_append, List.filterMap_append] at all
    have rest := List.append_cancel_left all
    rw [List.filterMap_cons, List.filterMap_cons] at rest
    have count := congrArg List.length rest
    cases left : (ofStatement? t 0).map face with
    | none =>
      cases right : (ofStatement? s 0).map face with
      | none => rfl
      | some _ => simp [left, right] at count
    | some _ =>
      cases right : (ofStatement? s 0).map face with
      | none => simp [left, right] at count
      | some _ => simpa [left, right] using rest
  · intro same options
    unfold reportedFaces
    simp only [List.filterMap_append, List.filterMap_cons, same]

/-- A statement that declares a variable without initialising it does so just as well with an
initialiser, and no other statement is lost or invented, in two cases only: the initialiser holds no
brace outside its literals and the parentheses in front of it balance; or the text behind its last
brace declares the same again. -/
theorem face_reportedVariables_initialised_iff {source initialiser : Text} {statement : Statement}
    {v : StateVariable} (member : statement ∈ Statement.ofText source)
    (declares : ofStatement? statement.text statement.index = some v)
    (bare : declarationPart statement.text = statement.text)
    (isInitialiser : IsInitialiser initialiser) :
    (∀ options, (Candidate.reportedVariables options
        (statement.initialised initialiser source)).map face =
      (Candidate.reportedVariables options source).map face) ↔
    if Segment.ofText initialiser = [] then depthOf statement.text = 0
    else (ofStatement? (Segment.tail initialiser) 0).map face = some (face v) := by
  have trimmed : trim statement.text = statement.text := by
    obtain ⟨_, _, _, _, _, _, isStatement⟩ := Statement.exists_segment_of_mem_among member
    rw [isStatement]
    exact trim_trim _
  have declares' : (ofStatement? statement.text 0).map face = some (face v) := by
    rw [face_ofStatement?_eq _ 0 statement.index, declares]
    rfl
  obtain ⟨before, behind, texts, texts'⟩ :=
    Statement.exists_texts_initialised member isInitialiser
  simp only [map_face_reportedVariables, texts, texts']
  rw [reportedFaces_replaced_iff, declares', face_ofStatement?, trim_trim, ← face_ofStatement? _ 0]
  unfold Statement.replacement
  split
  · rw [face_initialised declares trimmed bare isInitialiser.visible]
    split <;> simp_all
  · exact Iff.rfl

theorem face_reportedVariables_initialised_seven :
    (⟨0, "uint256 public x".toList⟩ : Statement) ∈ Statement.ofText "uint256 public x;".toList ∧
      IsInitialiser "7".toList ∧
      ∀ options, (Candidate.reportedVariables options
          (Statement.initialised ⟨0, "uint256 public x".toList⟩ "7".toList
            "uint256 public x;".toList)).map face =
        (Candidate.reportedVariables options "uint256 public x;".toList).map face := by
  have member : (⟨0, "uint256 public x".toList⟩ : Statement) ∈
      Statement.ofText "uint256 public x;".toList := by
    decide +kernel
  have isInitialiser : IsInitialiser "7".toList :=
    ⟨⟨'7', by decide, by decide⟩, rfl, by decide +kernel, by decide +kernel⟩
  have declares : ofStatement? "uint256 public x".toList 0 =
      some ⟨"uint256".toList, "x".toList, 0, .publicly⟩ := by
    decide +kernel
  have bare : declarationPart "uint256 public x".toList = "uint256 public x".toList := by
    decide +kernel
  refine ⟨member, isInitialiser, ?_⟩
  exact (face_reportedVariables_initialised_iff member declares bare isInitialiser).2
    (by decide +kernel)

/-- A struct literal with named arguments costs the variable that it initialises. -/
theorem face_reportedVariables_struct_literal :
    let source := "contract C { struct S { uint256 a; } S public s; uint256 public t; }".toList
    let statement : Statement := ⟨37, "S public s".toList⟩
    let initialiser := "S({a: 1})".toList
    statement ∈ Statement.ofText source ∧
      (ofStatement? statement.text statement.index).isSome ∧
      declarationPart statement.text = statement.text ∧ IsInitialiser initialiser ∧
      (Candidate.reportedVariables .default (statement.initialised initialiser source)).map face ≠
        (Candidate.reportedVariables .default source).map face := by
  refine ⟨by decide +kernel, by decide +kernel, by decide +kernel,
    ⟨⟨'S', by decide, by decide⟩, rfl, by decide +kernel, by decide +kernel⟩,
    by decide +kernel⟩

end StateVariable

end ContractInterface
