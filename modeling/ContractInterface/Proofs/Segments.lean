import ContractInterface.Declaration.Statement
import ContractInterface.Proofs.Layout
import ContractInterface.Proofs.Reading

/-! # Segments and statements of a concatenation

Cutting a text into segments loses nothing but what stands behind the last boundary
(`exists_tail`), and a boundary separates: what was cut off before it and what is cut off behind it
do not depend on each other (`ofText_spelling`).

The statements among segments need no more of the earlier segments than their length and the blocks
they leave open (`among_append`), and of the length only the indexes depend (`map_text_among`).
-/

namespace ContractInterface

open Text Literal

/-- The character of a boundary. -/
def Boundary.char : Boundary → Char
  | .opening => '{'
  | .closing => '}'
  | .semicolon => ';'

namespace Segment

/-- A text without a boundary in it, when it is read from the given state on. -/
def Unbroken (r : Reading) (s : Text) : Prop :=
  ∀ m ∈ r.marks s, boundary? m = none

/-- A segment that reads as such: its text holds no boundary and closes its literals. -/
structure IsWhole (segment : Segment) : Prop where
  unbroken : Unbroken .outside segment.text
  closed : IsTerminated segment.text

/-- The source text of some segments. -/
def spelling (segments : List Segment) : Text :=
  segments.flatMap fun segment => segment.text ++ [segment.boundary.char]

@[simp] theorem spelling_nil : spelling [] = [] := rfl

@[simp] theorem spelling_cons (segment : Segment) (more : List Segment) :
    spelling (segment :: more) = segment.text ++ segment.boundary.char :: spelling more := by
  simp [spelling]

@[simp] theorem spelling_append (xs ys : List Segment) :
    spelling (xs ++ ys) = spelling xs ++ spelling ys := by
  simp [spelling]

theorem boundary?_char (b : Boundary) : boundary? ⟨b.char, false⟩ = some b := by
  cases b <;> rfl

theorem isQuote_char (b : Boundary) : isQuote b.char = false := by
  cases b <;> decide

theorem char_of_boundary? {m : Mark} {b : Boundary} (bounds : boundary? m = some b) :
    m.quoted = false ∧ m.char = b.char := by
  unfold boundary? at bounds
  split at bounds
  · cases bounds
  · rename_i unquoted
    refine ⟨by simpa using unquoted, ?_⟩
    split at bounds
    · cases bounds
      assumption
    · split at bounds
      · cases bounds
        assumption
      · split at bounds
        · cases bounds
          assumption
        · cases bounds

theorem unbroken_nil (r : Reading) : Unbroken r [] := fun _ member => nomatch member

theorem unbroken_cons {r : Reading} {c : Char} {s : Text} :
    Unbroken r (c :: s) ↔ boundary? ⟨c, r.isQuoted c⟩ = none ∧ Unbroken (r.next c) s := by
  simp [Unbroken]

theorem unbroken_append {r : Reading} {s t : Text} :
    Unbroken r (s ++ t) ↔ Unbroken r s ∧ Unbroken (r.after s) t := by
  simp only [Unbroken, Reading.marks_append, List.mem_append]
  constructor
  · intro whole
    exact ⟨fun m member => whole m (.inl member), fun m member => whole m (.inr member)⟩
  · rintro ⟨left, right⟩ m (member | member)
    · exact left m member
    · exact right m member

/-! ## Cutting -/

theorem cut_eq_nil_iff {ms : List Mark} : cut ms = [] ↔ ∀ m ∈ ms, boundary? m = none := by
  induction ms with
  | nil => simp [cut]
  | cons m more ih =>
    simp only [cut, List.forall_mem_cons, ← ih]
    split
    · simp_all
    · rename_i open_
      simp only [open_, true_and]
      split <;> simp_all

theorem cut_append_boundary {r : Reading} {s : Text} (unbroken : Unbroken r s)
    (closed : r.after s = .outside) (b : Boundary) (rest : Text) :
    cut (r.marks (s ++ b.char :: rest)) = ⟨s, b⟩ :: cut (marks rest) := by
  induction s generalizing r with
  | nil =>
    have outside : r = .outside := closed
    subst outside
    simp [cut, Reading.isQuoted, Reading.next, isQuote_char, boundary?_char, marks_eq_marks]
  | cons c s ih =>
    obtain ⟨first, others⟩ := unbroken_cons.1 unbroken
    simp only [List.cons_append, Reading.marks_cons, cut, first]
    rw [ih others closed]

theorem exists_rest_of_cut {r : Reading} {s : Text} {segment : Segment} {more : List Segment}
    (isCut : cut (r.marks s) = segment :: more) :
    ∃ rest, s = segment.text ++ segment.boundary.char :: rest ∧ Unbroken r segment.text ∧
      r.after segment.text = .outside ∧ ofText rest = more := by
  induction s generalizing r segment with
  | nil => cases isCut
  | cons c s ih =>
    rw [Reading.marks_cons, cut] at isCut
    split at isCut
    · rename_i b bounds
      cases isCut
      obtain ⟨unquoted, isChar⟩ := char_of_boundary? bounds
      -- a quoted character bounds nothing, so the reading stands outside here
      have outside : r = .outside := by
        cases r with
        | outside => rfl
        | inside _ => cases unquoted
        | escaped _ => cases unquoted
      subst outside
      have isBoundary : c = b.char := isChar
      refine ⟨s, by rw [isBoundary]; rfl, unbroken_nil _, rfl, ?_⟩
      unfold ofText
      rw [marks_eq_marks, isBoundary]
      simp [Reading.next, isQuote_char]
    · rename_i inner
      split at isCut
      · cases isCut
      · rename_i first others isCut'
        cases isCut
        obtain ⟨rest, whole, unbroken, closed, following⟩ := ih isCut'
        exact ⟨rest, by rw [whole]; rfl, unbroken_cons.2 ⟨inner, unbroken⟩, closed, following⟩

/-! ## Segments of a text -/

theorem ofText_eq_nil_iff {s : Text} : ofText s = [] ↔ Unbroken .outside s := by
  unfold ofText Unbroken
  rw [marks_eq_marks]
  exact cut_eq_nil_iff

theorem IsWhole.ofText_append {segment : Segment} (whole : segment.IsWhole) (rest : Text) :
    ofText (segment.text ++ segment.boundary.char :: rest) = segment :: ofText rest := by
  unfold ofText
  rw [marks_eq_marks (_ ++ _)]
  exact cut_append_boundary whole.unbroken whole.closed segment.boundary rest

/-- Whole segments are cut off as they are. -/
theorem ofText_spelling {xs : List Segment} (whole : ∀ x ∈ xs, x.IsWhole) (rest : Text) :
    ofText (spelling xs ++ rest) = xs ++ ofText rest := by
  induction xs with
  | nil => rfl
  | cons x xs ih =>
    have others := ih fun y member => whole y (List.mem_cons_of_mem x member)
    rw [spelling_cons, List.append_assoc, List.cons_append,
      (whole x List.mem_cons_self).ofText_append, others]
    rfl

/-- What some first segments are cut from stands in front of what the others are cut from. -/
theorem exists_rest {s : Text} {xs ys : List Segment} (cuts : ofText s = xs ++ ys) :
    ∃ rest, s = spelling xs ++ rest ∧ (∀ x ∈ xs, x.IsWhole) ∧ ofText rest = ys := by
  induction xs generalizing s with
  | nil => exact ⟨s, rfl, by simp, cuts⟩
  | cons x xs ih =>
    unfold ofText at cuts
    rw [marks_eq_marks] at cuts
    obtain ⟨rest, split, unbroken, closed, following⟩ := exists_rest_of_cut cuts
    obtain ⟨last, split', whole, ends⟩ := ih following
    refine ⟨last, ?_, ?_, ends⟩
    · rw [split, split', spelling_cons, List.append_assoc, List.cons_append]
    · intro y member
      rcases List.mem_cons.1 member with rfl | member
      · exact ⟨unbroken, closed⟩
      · exact whole y member

/-- A text is its segments and a stretch without a boundary behind them. -/
theorem exists_tail (s : Text) :
    ∃ tail, s = spelling (ofText s) ++ tail ∧ (∀ x ∈ ofText s, x.IsWhole) ∧
      Unbroken .outside tail := by
  obtain ⟨tail, split, whole, ends⟩ := exists_rest (s := s) (List.append_nil (ofText s)).symm
  exact ⟨tail, split, whole, ofText_eq_nil_iff.1 ends⟩

/-! ## Blanks and segments -/

theorem isQuote_of_isBlank {c : Char} (blank : isBlank c = true) : isQuote c = false := by
  apply Bool.eq_false_iff.2
  intro quote
  rcases Bool.or_eq_true_iff.1 quote with double | single
  · rw [eq_of_beq double] at blank
    exact absurd blank (by decide)
  · rw [eq_of_beq single] at blank
    exact absurd blank (by decide)

theorem boundary?_of_isBlank {c : Char} (blank : isBlank c = true) (quoted : Bool) :
    boundary? ⟨c, quoted⟩ = none := by
  cases bounds : boundary? ⟨c, quoted⟩ with
  | none => rfl
  | some b =>
    have isChar : c = b.char := (char_of_boundary? bounds).2
    rw [isChar] at blank
    cases b <;> exact absurd blank (by decide)

theorem unbroken_blanks {b : Text} (blanks : Blanks b) (r : Reading) : Unbroken r b := by
  intro m member
  have inText : m.char ∈ b := by
    rw [← Reading.map_char_marks r b]
    exact List.mem_map_of_mem member
  exact boundary?_of_isBlank (blanks m.char inText) m.quoted

/-- Blanks close no literal. -/
theorem eq_outside_of_after_blanks {b : Text} (blanks : Blanks b) {r : Reading}
    (known : ∀ quote ∈ r.quote?, isQuote quote = true) (ends : r.after b = .outside) :
    r = .outside := by
  induction b generalizing r with
  | nil => exact ends
  | cons c b ih =>
    have blank := blanks c List.mem_cons_self
    have following := ih (fun d member => blanks d (List.mem_cons_of_mem c member))
      (Reading.isQuote_of_next known c) ends
    -- a blank is no quotation mark, so it leaves an open literal open
    cases r with
    | outside => rfl
    | inside quote =>
      simp only [Reading.next] at following
      split at following
      · cases following
      · split at following
        · rename_i isClose
          have opens := known quote rfl
          rw [← isClose, isQuote_of_isBlank blank] at opens
          cases opens
        · cases following
    | escaped quote => cases following

theorem isTerminated_of_append_blanks {s b : Text} (blanks : Blanks b) (closed : IsTerminated (s ++ b)) :
    IsTerminated s := by
  unfold IsTerminated at closed ⊢
  rw [Reading.after_append] at closed
  exact eq_outside_of_after_blanks blanks (Reading.isQuote_of_after (by simp [Reading.quote?]) s)
    closed

theorem isTerminated_blanks {b : Text} (blanks : Blanks b) : IsTerminated b := by
  unfold IsTerminated
  induction b with
  | nil => rfl
  | cons c b ih =>
    rw [Reading.after_cons, Reading.next, isQuote_of_isBlank (blanks c List.mem_cons_self)]
    exact ih fun d member => blanks d (List.mem_cons_of_mem c member)

/-- Text without a boundary belongs to the first segment behind it. -/
theorem cut_append_of_unbroken {front : Text} {r : Reading} (unbroken : Unbroken r front) (s : Text) :
    cut (r.marks (front ++ s)) =
      (cut ((r.after front).marks s)).modifyHead fun x => { x with text := front ++ x.text } := by
  induction front generalizing r with
  | nil =>
    rw [List.nil_append, Reading.after_nil]
    cases cut (r.marks s) <;> rfl
  | cons c front ih =>
    obtain ⟨plain, others⟩ := unbroken_cons.1 unbroken
    rw [List.cons_append, Reading.marks_cons, cut, plain, ih others, Reading.after_cons]
    cases cut (((r.next c).after front).marks s) <;> rfl

/-- Text in front of a source text belongs to its first segment. -/
theorem ofText_append_of_unbroken {front : Text} (unbroken : Unbroken .outside front)
    (closed : IsTerminated front) (s : Text) :
    ofText (front ++ s) = (ofText s).modifyHead fun x => { x with text := front ++ x.text } := by
  have whole := cut_append_of_unbroken unbroken s
  rw [show Reading.outside.after front = .outside from closed, ← marks_eq_marks, ← marks_eq_marks] at whole
  exact whole

/-! ## The text behind the last boundary -/

/-- What stands behind the last boundary of a text. -/
def tail (s : Text) : Text :=
  s.drop (spelling (ofText s)).length

theorem spelling_append_tail (s : Text) : spelling (ofText s) ++ tail s = s := by
  obtain ⟨rest, split, _, _⟩ := exists_tail s
  have isPrefix : spelling (ofText s) <+: s := ⟨rest, split.symm⟩
  exact List.prefix_iff_eq_append.1 isPrefix

theorem unbroken_tail (s : Text) : Unbroken .outside (tail s) := by
  obtain ⟨rest, split, _, unbroken⟩ := exists_tail s
  have same : tail s = rest := List.append_cancel_left ((spelling_append_tail s).trans split)
  rw [same]
  exact unbroken

theorem isWhole_of_mem_ofText {s : Text} {segment : Segment} (member : segment ∈ ofText s) :
    segment.IsWhole := by
  obtain ⟨_, _, whole, _⟩ := exists_tail s
  exact whole segment member

theorem isTerminated_spelling {xs : List Segment} (whole : ∀ x ∈ xs, x.IsWhole) :
    IsTerminated (spelling xs) := by
  induction xs with
  | nil => rfl
  | cons x xs ih =>
    have others := ih fun y member => whole y (List.mem_cons_of_mem x member)
    have first := (whole x List.mem_cons_self).closed
    rw [spelling_cons]
    refine first.append ?_
    unfold IsTerminated at others ⊢
    rw [Reading.after_cons]
    simpa [Reading.next, isQuote_char] using others

theorem isTerminated_tail {s : Text} (closed : IsTerminated s) : IsTerminated (tail s) := by
  have front := isTerminated_spelling fun x (member : x ∈ ofText s) => isWhole_of_mem_ofText member
  unfold IsTerminated at closed front ⊢
  rw [← spelling_append_tail s, Reading.after_append, front] at closed
  exact closed

/-- A boundary ends what stands behind the last boundary of a text. -/
theorem ofText_append_boundary {s front : Text} (closed : IsTerminated s)
    (unbroken : Unbroken .outside front) (closedFront : IsTerminated front) (b : Boundary)
    (rest : Text) :
    ofText (s ++ front ++ b.char :: rest) = ofText s ++ ⟨tail s ++ front, b⟩ :: ofText rest := by
  have closedTail := isTerminated_tail closed
  have last : (⟨tail s ++ front, b⟩ : Segment).IsWhole := by
    refine ⟨unbroken_append.2 ⟨unbroken_tail s, ?_⟩, closedTail.append closedFront⟩
    rwa [show Reading.outside.after (tail s) = .outside from closedTail]
  have split : s ++ front ++ b.char :: rest =
      spelling (ofText s) ++ ((tail s ++ front) ++ b.char :: rest) := by
    simp only [← List.append_assoc, spelling_append_tail]
  rw [split, ofText_spelling (fun x member => isWhole_of_mem_ofText member)]
  exact congrArg _ (last.ofText_append rest)

end Segment

namespace Statement

/-- The blocks that are open behind some segments. -/
def blocksAfter : List Bool → List Segment → List Bool
  | blocks, [] => blocks
  | blocks, segment :: more =>
    match segment.boundary with
    | .opening => blocksAfter ((blocks.any id || segment.opensOpaque) :: blocks) more
    | .closing => blocksAfter blocks.tail more
    | .semicolon => blocksAfter blocks more

theorem among_append (start : Nat) (blocks : List Bool) (xs ys : List Segment) :
    among start blocks (xs ++ ys) =
      among start blocks xs ++
        among (start + (Segment.spelling xs).length) (blocksAfter blocks xs) ys := by
  induction xs generalizing start blocks with
  | nil => rfl
  | cons x xs ih =>
    have place : start + x.text.length + 1 + (Segment.spelling xs).length =
        start + (Segment.spelling (x :: xs)).length := by
      simp only [Segment.spelling_cons, List.length_append, List.length_cons]
      omega
    cases isBoundary : x.boundary with
    | opening => simp only [List.cons_append, among, blocksAfter, isBoundary, ih, place]
    | closing => simp only [List.cons_append, among, blocksAfter, isBoundary, ih, place]
    | semicolon =>
      simp only [List.cons_append, among, blocksAfter, isBoundary, ih, place]
      split <;> rfl

/-- Where the first segment starts matters to the indexes only. -/
theorem map_text_among (start start' : Nat) (blocks : List Bool) (xs : List Segment) :
    (among start blocks xs).map Statement.text = (among start' blocks xs).map Statement.text := by
  induction xs generalizing start start' blocks with
  | nil => rfl
  | cons x xs ih =>
    simp only [among]
    split
    · exact ih _ _ _
    · exact ih _ _ _
    · split
      · exact ih _ _ _
      · simp only [List.map_cons, List.cons.injEq, true_and]
        exact ih _ _ _

/-- A statement is the trimmed text of a segment that ends in a semicolon outside all opaque
blocks. -/
theorem exists_segment_of_mem_among {start : Nat} {blocks : List Bool} {xs : List Segment}
    {statement : Statement} (member : statement ∈ among start blocks xs) :
    ∃ before segment behind, xs = before ++ segment :: behind ∧ segment.boundary = .semicolon ∧
      (blocksAfter blocks before).any id = false ∧
      statement = ⟨start + (Segment.spelling before).length +
        (segment.text.takeWhile isBlank).length, trim segment.text⟩ := by
  induction xs generalizing start blocks with
  | nil => cases member
  | cons x xs ih =>
    -- a statement of the segments behind `x`, whatever `x` makes of the open blocks
    have step : ∀ start' blocks', start' = start + x.text.length + 1 →
        statement ∈ among start' blocks' xs →
        (∀ more, blocksAfter blocks (x :: more) = blocksAfter blocks' more) →
        ∃ before segment behind, x :: xs = before ++ segment :: behind ∧
          segment.boundary = .semicolon ∧ (blocksAfter blocks before).any id = false ∧
          statement = ⟨start + (Segment.spelling before).length +
            (segment.text.takeWhile isBlank).length, trim segment.text⟩ := by
      intro start' blocks' place member' blocksEq
      obtain ⟨before, segment, behind, split, ends, visible, rfl⟩ := ih member'
      refine ⟨x :: before, segment, behind, by rw [split]; rfl, ends, ?_, ?_⟩
      · rw [blocksEq]
        exact visible
      · simp only [Segment.spelling_cons, List.length_append, List.length_cons, place]
        congr 1
        omega
    simp only [among] at member
    split at member <;> rename_i isBoundary
    · exact step _ _ rfl member fun more => by simp only [blocksAfter, isBoundary]
    · exact step _ _ rfl member fun more => by simp only [blocksAfter, isBoundary]
    · split at member
      · exact step _ _ rfl member fun more => by simp only [blocksAfter, isBoundary]
      · rename_i visible
        rcases List.mem_cons.1 member with rfl | member
        · exact ⟨[], x, xs, rfl, isBoundary, by simpa [blocksAfter] using visible, rfl⟩
        · exact step _ _ rfl member fun more => by simp only [blocksAfter, isBoundary]

end Statement

end ContractInterface
