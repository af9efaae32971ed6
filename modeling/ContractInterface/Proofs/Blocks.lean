import ContractInterface.Proofs.Positions
import Mathlib.Data.List.Forall2

/-! # Opaque blocks

A block keyword in front of a brace makes the block opaque, wherever in the segment it stands.  While
reading is inside an opaque block every block is opaque, so no statement ends there
(`among_of_opaque`), and behind it the same blocks are open as in front of it.

What an opaque block encloses is therefore not seen: the statements of a source are those in front of the
block and those behind it, and the body of the block only moves the latter
(`forall₂_isOutside_withBlock`).
-/

namespace ContractInterface

open Text Literal

/-! ## Heads and bodies of blocks -/

/-- A word stands in a text as a whole: it is no part of a longer word. -/
def StandsIn (word s : Text) : Prop :=
  ∃ before behind, s = before ++ word ++ behind ∧
    (∀ c ∈ before.getLast?, Identifier.isMember c = false) ∧
    ∀ c ∈ behind.head?, Identifier.isMember c = false

/-- A text that stands in front of the brace of an opaque block. -/
structure IsOpaqueHead (head : Text) : Prop where
  setOff : ∃ c ∈ head.head?, isBlank c = true
  plain : ∀ c ∈ head, isQuote c = false ∧ c ≠ '{' ∧ c ≠ '}' ∧ c ≠ ';'
  keyword : ∃ word ∈ Keyword.opaqueBlocks, StandsIn word head

/-- A text that closes the literals and the blocks that it opens, and no others. -/
structure IsBody (body : Text) : Prop where
  closed : IsTerminated body
  balanced : Segment.openBlocks 0 (Segment.ofText body) = some 0

/-- A block with text in front of it and behind it. -/
def withBlock (front head body behind : Text) : Text :=
  front ++ head ++ '{' :: (body ++ '}' :: behind)

/-- The index of the first character behind a block. -/
def blockEnd (front head body : Text) : Nat :=
  front.length + head.length + body.length + 2

theorem isTerminated_of_noQuote {s : Text} (noQuote : ∀ c ∈ s, isQuote c = false) :
    IsTerminated s := by
  unfold IsTerminated
  induction s with
  | nil => rfl
  | cons c s ih =>
    obtain ⟨first, others⟩ := List.forall_mem_cons.1 noQuote
    rw [Reading.after_cons, Reading.next, first]
    exact ih others

namespace Segment

theorem unbroken_of_plain {s : Text}
    (plain : ∀ c ∈ s, isQuote c = false ∧ c ≠ '{' ∧ c ≠ '}' ∧ c ≠ ';') : Unbroken .outside s := by
  induction s with
  | nil => exact unbroken_nil _
  | cons c s ih =>
    obtain ⟨⟨noQuote, notOpening, notClosing, notSemicolon⟩, others⟩ := List.forall_mem_cons.1 plain
    refine unbroken_cons.2 ⟨?_, ?_⟩
    · simp [boundary?, Reading.isQuoted, noQuote, notOpening, notClosing, notSemicolon]
    · rw [Reading.next, noQuote]
      exact ih others

/-- A word that stands in a text behind a blank does so whatever is in front of the blank. -/
theorem mentionsBlock_append_head {head : Text} (isHead : IsOpaqueHead head) (front : Text) :
    mentionsBlock (front ++ head) = true := by
  obtain ⟨first, isFirst, blank⟩ := isHead.setOff
  obtain ⟨word, isKeyword, before, behind, rfl, edge, edge'⟩ := isHead.keyword
  have identifier : Identifier.isIdentifier word = true := by
    have all : ∀ word ∈ Keyword.opaqueBlocks, Identifier.isIdentifier word = true := by decide
    exact all word isKeyword
  -- the blank is no part of the word, so there is a character in front of it that ends all others
  rcases List.eq_nil_or_concat before with rfl | ⟨before, c, rfl⟩
  · obtain ⟨c, word, rfl⟩ := List.exists_cons_of_ne_nil (ne_nil_of_isIdentifier identifier)
    cases isFirst
    rw [isBlank_of_isMember (isMember_of_isIdentifier identifier first List.mem_cons_self)] at blank
    cases blank
  · have notMember : Identifier.isMember c = false := edge c (by simp)
    have split : front ++ (before.concat c ++ word ++ behind) =
        (front ++ before) ++ c :: (word ++ behind) := by simp
    have isRead : Identifier.identifiers (word ++ behind) = word :: Identifier.identifiers behind :=
      identifiers_of_leading? (leading?_identifier_append identifier edge')
    rw [split, mentionsBlock_append notMember, Bool.or_eq_true_iff]
    right
    unfold mentionsBlock
    rw [isRead, List.any_cons, List.contains_iff_mem.2 isKeyword, Bool.true_or]

/-- The segments of a text with a block: those in front of it, the one that opens it, those of its body,
the one that closes it, and those behind it. -/
theorem ofText_withBlock {front head body : Text} (closed : IsTerminated front)
    (isHead : IsOpaqueHead head) (isBody : IsBody body) (behind : Text) :
    ofText (withBlock front head body behind) =
      ofText front ++ ⟨tail front ++ head, .opening⟩ ::
        (ofText body ++ ⟨tail body, .closing⟩ :: ofText behind) := by
  have opens := ofText_append_boundary closed (unbroken_of_plain isHead.plain)
    (isTerminated_of_noQuote fun c member => (isHead.plain c member).1) .opening
    (body ++ '}' :: behind)
  have closes := ofText_append_boundary isBody.closed (unbroken_nil _) rfl .closing behind
  rw [List.append_nil, List.append_nil] at closes
  exact opens.trans (by rw [← closes]; rfl)

end Segment

namespace Statement

/-! ## The statements of a source with a block -/

/-- In an opaque block no statement ends, as long as the block is not closed. -/
theorem among_of_opaque (start : Nat) {depth : Nat} {inner outer : List Bool} {xs : List Segment}
    (isOpaque : outer.any id = true)
    (balanced : Segment.openBlocks inner.length xs = some depth) :
    among start (inner ++ outer) xs = [] := by
  have within : (inner ++ outer).any id = true := by
    rw [List.any_append, isOpaque, Bool.or_true]
  -- `outer` is never reached, since no more blocks are closed than `inner` and `xs` open
  induction xs generalizing start inner with
  | nil => rfl
  | cons x xs ih =>
    cases isBoundary : x.boundary with
    | opening =>
      simp only [Segment.openBlocks, isBoundary] at balanced
      simp only [among, isBoundary]
      rw [← List.cons_append]
      exact ih _ balanced (by simp [within])
    | closing =>
      cases inner with
      | nil => simp [Segment.openBlocks, isBoundary] at balanced
      | cons _ inner =>
        simp only [Segment.openBlocks, isBoundary, List.length_cons] at balanced
        simp only [among, isBoundary, List.cons_append, List.tail_cons]
        exact ih _ balanced (by rw [List.any_append, isOpaque, Bool.or_true])
    | semicolon =>
      simp only [Segment.openBlocks, isBoundary] at balanced
      simp only [among, isBoundary, within, if_true]
      exact ih _ balanced within

section Block

variable {front head body : Text} (closed : IsTerminated front) (isHead : IsOpaqueHead head)

include closed isHead

/-- The statements of a source with an opaque block are those in front of it, and those behind it as they
follow what is open in front of it. -/
theorem ofText_withBlock (isBody : IsBody body) (behind : Text) :
    ofText (withBlock front head body behind) = ofText front ++
      (among 0 (blocksAfter [] (Segment.ofText front)) (Segment.ofText behind)).map
        (shifted (blockEnd front head body)) := by
  have isOpaque : (⟨Segment.tail front ++ head, .opening⟩ : Segment).opensOpaque = true :=
    Segment.mentionsBlock_append_head isHead _
  have place : 0 + (Segment.spelling (Segment.ofText front)).length +
      (Segment.tail front ++ head).length + 1 +
      (Segment.spelling (Segment.ofText body)).length + (Segment.tail body).length + 1 =
      0 + blockEnd front head body := by
    have inFront := congrArg List.length (Segment.spelling_append_tail front)
    have inBody := congrArg List.length (Segment.spelling_append_tail body)
    rw [List.length_append] at inFront inBody
    rw [List.length_append]
    unfold blockEnd
    omega
  have hidden : ∀ start blocks, among start ([] ++ true :: blocks) (Segment.ofText body) = [] :=
    fun start blocks => among_of_opaque start rfl isBody.balanced
  simp only [List.nil_append] at hidden
  unfold ofText
  rw [Segment.ofText_withBlock closed isHead isBody, among_append]
  simp only [among, isOpaque, Bool.or_true]
  rw [among_append, hidden, blocksAfter_balanced _ isBody.balanced]
  simp only [among, List.tail_cons, List.nil_append]
  rw [place, among_add]

/-- A statement of two sources that differ in the body of the block that opens at `opening`: it starts in
front of the block and stays there, or behind it and is moved by as much as the body is longer. -/
structure IsOutside (opening length length' : Nat) (statement statement' : Statement) : Prop where
  text : statement'.text = statement.text
  place : (statement.index < opening ∧ statement'.index = statement.index) ∨
    (opening + length + 2 ≤ statement.index ∧
      statement'.index + length = statement.index + length')

/-- Whatever an opaque block encloses, the statements of the source are the same.  None starts in the
block, and those behind it are moved. -/
theorem forall₂_isOutside_withBlock {body' : Text} (isBody : IsBody body) (isBody' : IsBody body')
    (behind : Text) :
    List.Forall₂ (IsOutside (front.length + head.length) body.length body'.length)
      (ofText (withBlock front head body behind)) (ofText (withBlock front head body' behind)) := by
  rw [ofText_withBlock closed isHead isBody behind, ofText_withBlock closed isHead isBody' behind]
  have stays : List.Forall₂ (IsOutside (front.length + head.length) body.length body'.length)
      (ofText front) (ofText front) := by
    refine List.forall₂_same.2 fun statement member => ⟨rfl, .inl ⟨?_, rfl⟩⟩
    have within := index_le_of_mem_among member
    have whole := congrArg List.length (Segment.spelling_append_tail front)
    rw [List.length_append] at whole
    have visible : 0 < head.length := by
      obtain ⟨c, isFirst, _⟩ := isHead.setOff
      exact List.length_pos_of_mem (List.mem_of_mem_head? isFirst)
    omega
  refine List.rel_append stays ?_
  refine List.forall₂_map_left_iff.2 (List.forall₂_map_right_iff.2 (List.forall₂_same.2 ?_))
  refine fun statement _ => ⟨rfl, .inr ⟨Nat.le_add_left _ _, ?_⟩⟩
  simp only [shifted, blockEnd]
  omega

end Block

/-- A body with a block, a literal and a declaration in it can as well be left out. -/
theorem forall₂_isOutside_function :
    let front := "contract C \x7b uint a; ".toList
    let head := " function f() view ".toList
    let body := "uint b; if (a == b) \x7b emit E(\"\x7d;\"); \x7d".toList
    let behind := " uint c; \x7d".toList
    IsTerminated front ∧ IsOpaqueHead head ∧ IsBody body ∧ IsBody [] ∧
      List.Forall₂ (IsOutside (front.length + head.length) body.length ([] : Text).length)
        (ofText (withBlock front head body behind)) (ofText (withBlock front head [] behind)) := by
  intro front head body behind
  have closed : IsTerminated front := by
    unfold IsTerminated
    decide +kernel
  have plain : (head.all fun c => !isQuote c && c != '{' && c != '}' && c != ';') = true := by decide
  have isHead : IsOpaqueHead head := by
    refine ⟨⟨' ', rfl, by decide⟩, fun c member => ?_, "function".toList, by decide, " ".toList,
      " f() view ".toList, rfl, fun c isLast => ?_, fun c isFirst => ?_⟩
    · simpa [and_assoc] using List.all_eq_true.1 plain c member
    · cases isLast
      rfl
    · cases isFirst
      rfl
  have isBody : IsBody body := by
    refine ⟨?_, by decide +kernel⟩
    unfold IsTerminated
    decide +kernel
  have isBody' : IsBody [] := ⟨rfl, rfl⟩
  exact ⟨closed, isHead, isBody, isBody', forall₂_isOutside_withBlock closed isHead isBody isBody' behind⟩

end Statement

end ContractInterface
