import ContractInterface.Proofs.Headers
import ContractInterface.Proofs.Initialiser
import ContractInterface.Proofs.Findings

/-! # Statements with a literal

A literal belongs to the segment in which it stands, and its content bounds nothing.  So it matters to
that segment only: to the block that the segment opens, or to the variable that it declares
(`exists_front_ofText`).  A declaration is not looked into behind the equals sign of its initialiser,
and in front of it a quote rejects the declaration unless a list is open there.
-/

namespace ContractInterface

open Text Literal TypeSyntax

/-! ## The segment of a literal -/

namespace Segment

/-- Whether a block keyword stands in a text. -/
def mentionsBlock (s : Text) : Bool :=
  (Identifier.identifiers s).any Keyword.opaqueBlocks.contains

theorem mentionsBlock_append {c : Char} (notMember : Identifier.isMember c = false) (s t : Text) :
    mentionsBlock (s ++ c :: t) = (mentionsBlock s || mentionsBlock t) := by
  unfold mentionsBlock
  rw [identifiers_append notMember, List.any_append]

theorem unbroken_enclosed {q : Char} (isQuoted : isQuote q = true) {content : Text}
    (plain : IsPlain content) : Unbroken .outside (enclosed q content []) := by
  intro m member
  rw [← marks_eq_marks, marks_enclosed isQuoted plain] at member
  rw [show marks [] = [] from rfl, List.append_nil] at member
  obtain ⟨c, _, rfl⟩ := List.mem_map.1 member
  rfl

/-- A segment that starts with `front` and a literal and goes on as `rest`. -/
def withLiteral (front : Text) (q : Char) (content : Text) (rest : Segment) : Segment :=
  ⟨front ++ enclosed q content rest.text, rest.boundary⟩

/-- A literal becomes part of the segment that is open in front of it. -/
theorem ofText_enclosed {s : Text} (terminated : IsTerminated s) {q : Char}
    (isQuoted : isQuote q = true) {content : Text} (plain : IsPlain content) (t : Text) :
    ofText (s ++ enclosed q content t) =
      ofText s ++ (ofText t).modifyHead (withLiteral (tail s) q content) := by
  -- the open segment and the literal hold no boundary, so they go on up to the first one in `t`
  have unbroken : Unbroken .outside (tail s ++ enclosed q content []) := by
    refine unbroken_append.2 ⟨unbroken_tail s, ?_⟩
    rw [show Reading.outside.after (tail s) = .outside from isTerminated_tail terminated]
    exact unbroken_enclosed isQuoted plain
  have closed : IsTerminated (tail s ++ enclosed q content []) :=
    (isTerminated_tail terminated).append (after_enclosed isQuoted plain [])
  have split : s ++ enclosed q content t =
      spelling (ofText s) ++ ((tail s ++ enclosed q content []) ++ t) := by
    rw [← List.append_assoc, ← List.append_assoc, spelling_append_tail]
    simp [enclosed]
  have joined : ∀ u, tail s ++ enclosed q content [] ++ u = tail s ++ enclosed q content u := by
    intro u
    simp [enclosed]
  rw [split, ofText_spelling (fun x member => isWhole_of_mem_ofText member),
    ofText_append_of_unbroken unbroken closed]
  simp only [joined]
  rfl

end Segment

/-! ## Statements that start further behind -/

namespace Statement

/-- A statement that starts further behind. -/
def shifted (n : Nat) (statement : Statement) : Statement :=
  { statement with index := statement.index + n }

theorem among_add (start n : Nat) (blocks : List Bool) (xs : List Segment) :
    among (start + n) blocks xs = (among start blocks xs).map (shifted n) := by
  have place : ∀ k : Nat, start + n + k = start + k + n := by
    intro k
    omega
  induction xs generalizing start blocks with
  | nil => rfl
  | cons x xs ih =>
    have next : start + n + x.text.length + 1 = start + x.text.length + 1 + n := by omega
    have place' : ∀ k : Nat, start + x.text.length + 1 + n + k =
        start + x.text.length + 1 + k + n := by
      intro k
      omega
    simp only [among, next]
    split
    · exact ih _ _ place'
    · exact ih _ _ place'
    · split
      · exact ih _ _ place'
      · rw [ih _ _ place', place]
        rfl

theorem index_le_of_mem_among {start : Nat} {blocks : List Bool} {xs : List Segment}
    {statement : Statement} (member : statement ∈ among start blocks xs) :
    statement.index ≤ start + (Segment.spelling xs).length := by
  obtain ⟨before, segment, behind, rfl, _, _, rfl⟩ := exists_segment_of_mem_among member
  have blanks := (List.takeWhile_sublist isBlank (l := segment.text)).length_le
  simp only [Segment.spelling_append, Segment.spelling_cons, List.length_append, List.length_cons]
  omega

end Statement

namespace StateVariable

theorem index_of_ofStatement? {s : Text} {index : Nat} {v : StateVariable}
    (declares : ofStatement? s index = some v) : v.index = index :=
  (exists_of_ofStatement? declares).1

/-- A variable is its face and its place. -/
def ofFace (index : Nat) (f : Text × Text × Visibility) : StateVariable :=
  ⟨f.1, f.2.1, index, f.2.2⟩

theorem ofStatement?_eq_ofFace (s : Text) (index : Nat) :
    ofStatement? s index = ((ofStatement? s 0).map face).map (ofFace index) := by
  rw [face_ofStatement?_eq s 0 index, Option.map_map]
  cases declares : ofStatement? s index with
  | none => rfl
  | some v =>
    have place := index_of_ofStatement? declares
    subst place
    rfl

theorem ofStatement?_eq_of_face {s s' : Text}
    (same : (ofStatement? s 0).map face = (ofStatement? s' 0).map face) (index : Nat) :
    ofStatement? s index = ofStatement? s' index := by
  rw [ofStatement?_eq_ofFace s, ofStatement?_eq_ofFace s', same]

theorem ofStatement?_add (s : Text) (index n : Nat) :
    ofStatement? s (index + n) = (ofStatement? s index).map (shifted n) := by
  rw [ofStatement?_eq_ofFace s (index + n), ofStatement?_eq_ofFace s index]
  simp only [Option.map_map]
  rfl

/-! ## The statement of a literal -/

theorem isForeign_of_isQuote {q : Char} (isQuoted : isQuote q = true) : IsForeign q where
  visible := isBlank_of_isQuote isQuoted
  notMember := isMember_of_isQuote isQuoted
  notBracket := by
    constructor <;> (rintro rfl; cases isQuoted)

/-- A quote rejects a declaration, unless it stands in a list or in a mapping. -/
theorem declared?_quote_eq_none {q : Char} (isQuoted : isQuote q = true) {s : Text}
    (noOpen : '(' ∉ s) (t : Text) : declared? (s ++ q :: t) = none := by
  have foreign := isForeign_of_isQuote isQuoted
  have notDot : q ≠ '.' := by rintro rfl; cases isQuoted
  have apart : ∀ u, StandsApart (q :: u) := fun u => foreign.standsApart fun isParen => by
    rw [isParen] at isQuoted
    cases isQuoted
  have closed : ∀ rest inner, rest <:+ s → trimStart rest = '(' :: inner →
      ')' ∈ inner ∨ ')' ∉ q :: t := by
    intro rest inner suffix isList
    have member : '(' ∈ trimStart rest := by rw [isList]; exact List.mem_cons_self
    exact absurd (suffix.subset ((List.dropWhile_sublist _).subset member)) noOpen
  have noOpen' : '(' ∉ plainAddress (withoutOverrideLists s) := fun member =>
    noOpen (withoutOverrideLists_subset s (plainAddress_subset _ member))
  have visible : ∀ u, trimStart (q :: u) = q :: u := fun u =>
    trimStart_of_first (by simpa using foreign.visible)
  have notOpen : ∀ u, ∀ c ∈ (trimStart (q :: u)).head?, c ≠ '(' := by
    intro u c first
    rw [visible] at first
    cases first
    rintro rfl
    cases isQuoted
  -- with no parenthesis in front there is no mapping, and the quotation mark stays behind a simple type
  refine declared?_eq_none foreign fun type behind isSplit => ?_
  rw [withoutOverrideLists_append (apart t).isUnlisted closed, withoutOverrideLists_cons foreign,
    plainAddress_append (apart _).isUnpaid, plainAddress_cons foreign.notWord] at isSplit
  unfold splitType? at isSplit
  rw [isMapping_append (apart _) (notOpen _), isMapping_eq_false noOpen', if_neg (by simp)] at isSplit
  exact mem_of_simpleType? foreign notDot isSplit (List.mem_append_right _ List.mem_cons_self)

theorem startsDeclaration_append_quote {q : Char} (isQuoted : isQuote q = true) (s t : Text) :
    startsDeclaration (s ++ q :: t) = startsDeclaration s := by
  unfold startsDeclaration
  rw [leading?_append (endsHeads_of_isQuote isQuoted)]
  cases Identifier.leading? s <;> rfl

/-- Whether a statement that goes on with a literal behind `front` declares the same whatever the
literal holds: it is no declaration, or the literal is part of its initialiser, or it stands where no
declaration goes on. -/
def hidesLiteral (front : Text) (q : Char) : Bool :=
  !startsDeclaration front || declarationPart (front ++ [q]) != front ++ [q] || !front.contains '('

theorem face_hidesLiteral {front : Text} {q : Char} (isQuoted : isQuote q = true)
    (trimmed : trimStart front = front) (hides : hidesLiteral front q = true) (t t' : Text) :
    (ofStatement? (front ++ q :: t) 0).map face = (ofStatement? (front ++ q :: t') 0).map face := by
  have visible := isBlank_of_isQuote isQuoted
  have notEquals : q ≠ '=' := by rintro rfl; cases isQuoted
  rw [face_ofStatement?, face_ofStatement?, trim_append_cons visible, trim_append_cons visible, trimmed,
    startsDeclaration_append_quote isQuoted, startsDeclaration_append_quote isQuoted]
  unfold hidesLiteral at hides
  by_cases starts : startsDeclaration front = true
  · rw [if_pos starts, if_pos starts]
    unfold declarationPart at hides ⊢
    -- the declaration ends in front of the literal, or it reaches the quotation mark and is refused for it
    by_cases bare : declarationFrom 0 none (front ++ [q]) = front ++ [q]
    · have noOpen : '(' ∉ trimStart front := by
        rw [trimmed]
        simpa [starts, bare] using hides
      have reachesQuote : ∀ u, declared? (trim (declarationFrom 0 none (front ++ q :: u))) = none := by
        intro u
        rw [declarationFrom_append notEquals, if_pos bare, trim_append_cons visible]
        exact declared?_quote_eq_none isQuoted noOpen _
      rw [reachesQuote, reachesQuote]
    · have endsBefore : ∀ u, declarationFrom 0 none (front ++ q :: u) =
          declarationFrom 0 none (front ++ [q]) := by
        intro u
        rw [declarationFrom_append notEquals, if_neg bare]
      rw [endsBefore (trimEnd t), endsBefore (trimEnd t')]
  · rw [if_neg starts, if_neg starts]

end StateVariable

/-! ## The variables around a literal -/

namespace StateVariable

/-- The variables that some statements declare. -/
def amongStatements (statements : List Statement) : List StateVariable :=
  statements.filterMap fun statement => ofStatement? statement.text statement.index

theorem amongStatements_append (xs ys : List Statement) :
    amongStatements (xs ++ ys) = amongStatements xs ++ amongStatements ys :=
  List.filterMap_append

theorem amongStatements_shifted (n : Nat) (statements : List Statement) :
    amongStatements (statements.map (Statement.shifted n)) =
      (amongStatements statements).map (shifted n) := by
  unfold amongStatements
  rw [List.filterMap_map, List.map_filterMap]
  congr 1
  funext statement
  exact ofStatement?_add _ _ _

theorem map_shifted_shifted (m n : Nat) (vs : List StateVariable) :
    (vs.map (shifted m)).map (shifted n) = vs.map (shifted (m + n)) := by
  rw [List.map_map]
  congr 1
  funext v
  simp only [Function.comp, shifted, Nat.add_assoc]

/-- The first segment leaves its blocks and its length to the others. -/
theorem amongStatements_cons (start : Nat) (blocks : List Bool) (x : Segment) (xs : List Segment) :
    amongStatements (Statement.among start blocks (x :: xs)) =
      amongStatements (Statement.among start blocks [x]) ++
        (amongStatements (Statement.among 0 (Statement.blocksAfter blocks [x]) xs)).map
          (shifted (start + x.text.length + 1)) := by
  have place : start + (Segment.spelling [x]).length = 0 + (start + x.text.length + 1) := by
    simp only [Segment.spelling_cons, Segment.spelling_nil, List.length_append, List.length_cons,
      List.length_nil]
    omega
  rw [← amongStatements_shifted, ← Statement.among_add, ← place, ← amongStatements_append,
    ← Statement.among_append]
  rfl

theorem index_le_of_mem_amongStatements {bound : Nat} {statements : List Statement}
    (within : ∀ statement ∈ statements, statement.index ≤ bound) :
    ∀ v ∈ amongStatements statements, v.index ≤ bound := by
  intro v member
  obtain ⟨statement, isStatement, declares⟩ := List.mem_filterMap.1 member
  rw [index_of_ofStatement? declares]
  exact within statement isStatement

end StateVariable

/-- Whether a segment does the same with one content of a literal as with the other, inside the given
blocks.  The segment starts with `front` and the literal and goes on as `rest`; inside an opaque block
it does nothing. -/
def Segment.readsAlike (blocks : List Bool) (front : Text) (q : Char) (content content' : Text)
    (rest : Segment) : Bool :=
  blocks.any id ||
    match rest.boundary with
    | .opening =>
      mentionsBlock front || mentionsBlock rest.text ||
        mentionsBlock content == mentionsBlock content'
    | .closing => true
    | .semicolon => StateVariable.hidesLiteral (trimStart front) q

section Alike

variable {blocks : List Bool} {front : Text} {q : Char} {content content' : Text} {rest : Segment}
  (isQuoted : isQuote q = true)
  (alike : Segment.readsAlike blocks front q content content' rest = true)

include isQuoted alike

theorem Statement.blocksAfter_withLiteral :
    blocksAfter blocks [rest.withLiteral front q content] =
      blocksAfter blocks [rest.withLiteral front q content'] := by
  have mentions : ∀ c, (rest.withLiteral front q c).opensOpaque =
      (Segment.mentionsBlock front || (Segment.mentionsBlock c || Segment.mentionsBlock rest.text)) := by
    intro c
    have notMember := isMember_of_isQuote isQuoted
    rw [← Segment.mentionsBlock_append notMember, ← Segment.mentionsBlock_append notMember]
    rfl
  have sameBoundary : ∀ c, (rest.withLiteral front q c).boundary = rest.boundary := fun _ => rfl
  -- only a brace that opens asks what the segment mentions
  cases isBoundary : rest.boundary with
  | opening =>
    simp only [blocksAfter, sameBoundary, isBoundary, mentions]
    simp only [Segment.readsAlike, isBoundary, Bool.or_eq_true, beq_iff_eq] at alike
    rcases alike with opaque_ | (inFront | behind) | same
    · rw [opaque_, Bool.true_or, Bool.true_or]
    · rw [inFront, Bool.true_or, Bool.true_or]
    · simp only [behind, Bool.or_true]
    · rw [same]
  | closing => simp only [blocksAfter, sameBoundary, isBoundary]
  | semicolon => simp only [blocksAfter, sameBoundary, isBoundary]

theorem StateVariable.amongStatements_withLiteral (start : Nat) :
    amongStatements (Statement.among start blocks [rest.withLiteral front q content]) =
      amongStatements (Statement.among start blocks [rest.withLiteral front q content']) := by
  have edge : ∀ u : Text, ∀ c ∈ (q :: u).head?, isBlank c = false := fun u => by
    simpa using isBlank_of_isQuote isQuoted
  unfold Segment.withLiteral
  cases isBoundary : rest.boundary with
  | opening => rfl
  | closing => rfl
  | semicolon =>
    simp only [Statement.among]
    by_cases opaque_ : blocks.any id = true
    · rw [if_pos opaque_, if_pos opaque_]
    · simp only [Segment.readsAlike, isBoundary, opaque_, Bool.false_or] at alike
      have trimmed : trimStart (trimStart front) = trimStart front :=
        trimStart_of_first (head?_trimStart front)
      have declares := ofStatement?_eq_of_face
        (face_hidesLiteral isQuoted trimmed alike (trimEnd (content ++ q :: rest.text))
          (trimEnd (content' ++ q :: rest.text)))
      rw [if_neg opaque_, if_neg opaque_]
      unfold enclosed amongStatements
      rw [takeWhile_append_of_head? (edge _), takeWhile_append_of_head? (edge _),
        trim_append_cons (isBlank_of_isQuote isQuoted), trim_append_cons (isBlank_of_isQuote isQuoted)]
      simp only [List.filterMap_cons, declares]

end Alike

/-- The statement of a literal starts in front of the literal. -/
theorem Statement.index_le_of_mem_withLiteral {start : Nat} {blocks : List Bool} {q : Char}
    (isQuoted : isQuote q = true) {front content : Text} {rest : Segment} {statement : Statement}
    (member : statement ∈ among start blocks [rest.withLiteral front q content]) :
    statement.index ≤ start + front.length := by
  have edge : ∀ c ∈ (enclosed q content rest.text).head?, isBlank c = false := by
    intro c first
    cases first
    exact isBlank_of_isQuote isQuoted
  have blanks := (List.takeWhile_sublist isBlank (l := front)).length_le
  unfold Segment.withLiteral at member
  cases isBoundary : rest.boundary with
  | opening =>
    rw [isBoundary] at member
    cases member
  | closing =>
    rw [isBoundary] at member
    cases member
  | semicolon =>
    rw [isBoundary] at member
    simp only [among] at member
    split at member
    · cases member
    · cases List.mem_singleton.1 member
      rw [takeWhile_append_of_head? edge]
      exact Nat.add_le_add_left blanks start

namespace StateVariable

/-- Where the first of some segments does the same with both contents of a literal in it, the variables up
to the literal's end do not depend on its content, and those behind it move along. -/
theorem exists_amongStatements_withLiteral {q : Char} (isQuoted : isQuote q = true) (start : Nat)
    {blocks : List Bool} {front content content' : Text} {xs : List Segment}
    (alike : xs.head?.all (Segment.readsAlike blocks front q content content') = true) :
    ∃ own behind : List StateVariable, (∀ v ∈ own, v.index ≤ start + front.length) ∧
      amongStatements (Statement.among start blocks (xs.modifyHead (Segment.withLiteral front q content))) =
        own ++ behind.map (shifted (start + front.length + content.length + 2)) ∧
      amongStatements (Statement.among start blocks (xs.modifyHead (Segment.withLiteral front q content'))) =
        own ++ behind.map (shifted (start + front.length + content'.length + 2)) := by
  cases xs with
  | nil => exact ⟨[], [], by simp, rfl, rfl⟩
  | cons x xs =>
    have alike' : x.readsAlike blocks front q content content' = true := alike
    have own := amongStatements_withLiteral isQuoted alike' start
    have ownBlocks := Statement.blocksAfter_withLiteral isQuoted alike'
    -- the only difference in length is that of the contents, which the indices behind the literal show
    have place : ∀ c : Text, start + (x.withLiteral front q c).text.length + 1 =
        x.text.length + 1 + (start + front.length + c.length + 2) := by
      intro c
      simp only [Segment.withLiteral, enclosed, List.length_append, List.length_cons]
      omega
    refine ⟨amongStatements (Statement.among start blocks [x.withLiteral front q content]),
      (amongStatements (Statement.among 0 (Statement.blocksAfter blocks
        [x.withLiteral front q content]) xs)).map (shifted (x.text.length + 1)),
      index_le_of_mem_amongStatements fun _ => Statement.index_le_of_mem_withLiteral isQuoted, ?_, ?_⟩
    · rw [List.modifyHead_cons, amongStatements_cons, place, map_shifted_shifted]
    · rw [List.modifyHead_cons, amongStatements_cons, place, map_shifted_shifted, own, ownBlocks]

/-- Where the segment that a literal stands in does the same with both contents, the variables in front
of the literal's end do not depend on its content, and those behind it move along. -/
theorem exists_front_ofText {s : Text} (terminated : IsTerminated s) {q : Char}
    (isQuoted : isQuote q = true) (t : Text) {content content' : Text}
    (plain : IsPlain content) (plain' : IsPlain content')
    (alike : (Segment.ofText t).head?.all (Segment.readsAlike
      (Statement.blocksAfter [] (Segment.ofText s)) (Segment.tail s) q content content') = true) :
    ∃ front behind : List StateVariable, (∀ v ∈ front, v.index ≤ s.length) ∧
      ofText (s ++ enclosed q content t) =
        front ++ behind.map (shifted (s.length + content.length + 2)) ∧
      ofText (s ++ enclosed q content' t) =
        front ++ behind.map (shifted (s.length + content'.length + 2)) := by
  have whole : (Segment.spelling (Segment.ofText s)).length + (Segment.tail s).length = s.length := by
    rw [← List.length_append, Segment.spelling_append_tail]
  -- the segments of `s` stay as they are, and the first one behind them takes the literal
  have cut : ∀ c, IsPlain c → ofText (s ++ enclosed q c t) =
      amongStatements (Statement.among 0 [] (Segment.ofText s ++
        (Segment.ofText t).modifyHead (Segment.withLiteral (Segment.tail s) q c))) := by
    intro c isPlain
    rw [← Segment.ofText_enclosed terminated isQuoted isPlain]
    rfl
  obtain ⟨own, behind, within, left, right⟩ := exists_amongStatements_withLiteral isQuoted
    (0 + (Segment.spelling (Segment.ofText s)).length) alike
  rw [Nat.zero_add, whole] at within
  refine ⟨amongStatements (Statement.among 0 [] (Segment.ofText s)) ++ own, behind, ?_, ?_, ?_⟩
  · intro v member
    rcases List.mem_append.1 member with before | isOwn
    · have inFront := index_le_of_mem_amongStatements (fun _ => Statement.index_le_of_mem_among) v before
      omega
    · exact within v isOwn
  · rw [cut content plain, Statement.among_append, amongStatements_append, left, List.append_assoc,
      Nat.zero_add, whole]
  · rw [cut content' plain', Statement.among_append, amongStatements_append, right, List.append_assoc,
      Nat.zero_add, whole]

end StateVariable

end ContractInterface
