import ContractInterface.Proofs.CollapsedTypes

/-! # Statements with their blanks collapsed

A text and its collapsed form are cut into segments that differ in their gaps only, with the same
boundaries (`Segment.map_levelled_cut`), so the same blocks are opaque and the statements correspond
(`Statement.forall₂_ofText_of_alike`).  A statement declares the same variable however wide its gaps are,
its type spelled with the gaps that it has (`StateVariable.face_of_alike`).
-/

namespace ContractInterface

open Text TypeSyntax Literal Delimiter

namespace StateVariable

/-! ## Declarations -/

/-- Two neighbours of a character that are equal or both blank. -/
def IsSameNeighbour (before before' : Option Char) : Prop :=
  before = before' ∨ before.any isBlank = true ∧ before'.any isBlank = true

theorem not_mem_of_isBlank {c : Char} (blank : isBlank c = true) {s : Text} (solid : IsSolid s) :
    s.contains c = false := by
  apply Bool.eq_false_iff.2
  intro member
  rw [solid c (by simpa using member)] at blank
  cases blank

/-- Whether an equals sign starts an initialiser is the same beside all blanks. -/
theorem startsInitialiser_congr {before before' behind behind' : Option Char}
    (front : IsSameNeighbour before before') (back : IsSameNeighbour behind behind') :
    startsInitialiser before behind = startsInitialiser before' behind' := by
  have notBefore : ∀ c, isBlank c = true → "=!<>".toList.contains c = false := fun c blank =>
    not_mem_of_isBlank blank (isSolid_of_all (by decide))
  have notBehind : ∀ c, isBlank c = true → "=>".toList.contains c = false := fun c blank =>
    not_mem_of_isBlank blank (isSolid_of_all (by decide))
  -- the two neighbours are exchanged one after the other
  have left : ∀ a, startsInitialiser before a = startsInitialiser before' a := by
    intro a
    rcases front with rfl | ⟨blank, blank'⟩
    · rfl
    · cases before with
      | none => cases blank
      | some c =>
        cases before' with
        | none => cases blank'
        | some d =>
          cases a with
          | none => rfl
          | some a => simp only [startsInitialiser, notBefore c blank, notBefore d blank']
  rw [left]
  rcases back with rfl | ⟨blank, blank'⟩
  · rfl
  · cases behind with
    | none => cases blank
    | some c =>
      cases behind' with
      | none => cases blank'
      | some d =>
        cases before' with
        | none => rfl
        | some b => simp only [startsInitialiser, notBehind c blank, notBehind d blank']

theorem isSameNeighbour_head? (s : Text) : IsSameNeighbour (collapsed s).head? s.head? := by
  cases s with
  | nil => exact .inl rfl
  | cons c s =>
    cases blank : isBlank c with
    | true =>
      rw [collapsed_of_isBlank blank]
      exact .inr ⟨by simp [isBlank], blank⟩
    | false =>
      rw [collapsed_cons blank]
      exact .inl rfl

theorem declarationFrom_blanks_append {b : Text} (blanks : Blanks b) (depth : Int) (before : Option Char)
    (s : Text) : declarationFrom depth before (b ++ s) =
      b ++ declarationFrom depth (b.getLast?.or before) s := by
  induction b generalizing before with
  | nil => rfl
  | cons c b ih =>
    have blank := blanks c List.mem_cons_self
    have notEquals : c ≠ '=' := by rintro rfl; cases blank
    have last : b.getLast?.or (some c) = (c :: b).getLast?.or before := by
      rw [List.getLast?_cons]
      cases b.getLast? <;> rfl
    rw [List.cons_append, declarationFrom, if_neg fun starts => notEquals starts.1,
      parenStep_of_isBlank blank, Int.add_zero, ih fun d member => blanks d (List.mem_cons_of_mem c member),
      last]
    rfl

theorem alike_declarationFrom (depth : Int) {before before' : Option Char}
    (same : IsSameNeighbour before before') (s : Text) :
    Alike (declarationFrom depth before (collapsed s)) (declarationFrom depth before' s) := by
  induction s using runs_induction generalizing depth before before' with
  | nil => rfl
  | visible c s visible ih =>
    rw [collapsed_cons visible, declarationFrom, declarationFrom,
      startsInitialiser_congr same (isSameNeighbour_head? s)]
    split
    · rfl
    · exact (ih _ (.inl rfl)).cons c
  | blanks b s nonempty blanks edge ih =>
    have space : Blanks [' '] := blanks_singleton (by decide)
    have wide : Alike [' '] b := alike_of_blanks (by simp) nonempty space blanks
    rw [collapsed_run nonempty blanks edge, declarationFrom_blanks_append blanks, ← List.singleton_append,
      declarationFrom_blanks_append space]
    refine wide.append (ih _ (.inr ⟨by simp [isBlank], ?_⟩))
    obtain ⟨front, last, rfl⟩ := (List.eq_nil_or_concat b).resolve_left nonempty
    simpa using blanks last (by simp)

theorem alike_declarationPart (s : Text) : Alike (declarationPart (collapsed s)) (declarationPart s) :=
  alike_declarationFrom 0 (.inl rfl) s

theorem noBlank_isSimpleTypeMember : NoBlank isSimpleTypeMember :=
  Registry.noBlank_isReferenceMember

theorem simpleType?_collapsed (s : Text) :
    simpleType? (collapsed s) = (simpleType? s).map fun found => (found.1, collapsed found.2) := by
  cases s with
  | nil => rfl
  | cons c s =>
    cases blank : isBlank c with
    | true =>
      simp [collapsed_of_isBlank blank, simpleType?, noBlank_isStart c blank, noBlank_isStart.space]
    | false =>
      rw [collapsed_cons blank, simpleType?, simpleType?]
      simp only [takeWhile_collapsed noBlank_isSimpleTypeMember,
        dropWhile_collapsed noBlank_isSimpleTypeMember, Dimension.splitLeading_collapsed, head?_collapsed,
        trimStart_collapsed]
      split
      · split <;> rfl
      · rfl

/-- A type and the text behind it, with their gaps collapsed. -/
def levelledSplit (found : Text × Text) : Text × Text :=
  (collapsed found.1, collapsed found.2)

theorem mappingType?_collapsed (s : Text) :
    (mappingType? (collapsed s)).map levelledSplit = (mappingType? s).map levelledSplit := by
  unfold mappingType?
  rw [Mapping.split?_collapsed]
  cases Mapping.split? s with
  | none => rfl
  | some parts =>
    have arrows : holds Mapping.arrow (collapsed parts.1) = holds Mapping.arrow parts.1 :=
      @holds_collapsed '=' ['>'] Mapping.isSolid_arrow parts.1
    simp only [Option.map_some, arrows, Dimension.splitLeading_collapsed]
    split
    · have type : Alike (collapsed parts.1 ++ (Dimension.splitLeading parts.2).1.flatMap bracketed)
          (parts.1 ++ (Dimension.splitLeading parts.2).1.flatMap bracketed) := alike_collapsed_append _ _
      simp only [Option.map_some, levelledSplit, collapsed_collapsed]
      rw [show collapsed _ = collapsed _ from type]
    · rfl

theorem splitType?_collapsed (s : Text) :
    (splitType? (collapsed s)).map levelledSplit = (splitType? s).map levelledSplit := by
  unfold splitType?
  rw [isMapping_collapsed]
  split
  · exact mappingType?_collapsed s
  · rw [simpleType?_collapsed, Option.map_map]
    congr 1
    funext found
    exact congrArg (collapsed found.1, ·) (collapsed_collapsed found.2)

/-- What a declaration says, with the gaps of the type collapsed. -/
def levelledFace (face : Text × Text × Visibility) : Text × Text × Visibility :=
  (collapsed face.1, face.2)

/-- What a type and the words behind it declare. -/
def declaredBy (found : Text × Text) : Option (Text × Text × Visibility) :=
  (nameAndVisibility? (words found.2)).map fun named => (found.1, named)

theorem declared?_eq_bind (s : Text) :
    declared? s = (splitType? (plainAddress (withoutOverrideLists s))).bind declaredBy := by
  unfold declared?
  cases splitType? (plainAddress (withoutOverrideLists s)) with
  | none => rfl
  | some found =>
    simp only [Option.bind_eq_bind, Option.bind_some, declaredBy]
    cases nameAndVisibility? (words found.2) <;> rfl

theorem levelledFace_declaredBy (found : Text × Text) :
    (declaredBy found).map levelledFace = declaredBy (levelledSplit found) := by
  unfold declaredBy levelledSplit
  rw [words_collapsed, Option.map_map]
  rfl

theorem declared?_of_alike {s t : Text} (alike : Alike s t) :
    (declared? s).map levelledFace = (declared? t).map levelledFace := by
  have addresses := (alike.map alike_withoutOverrideLists).map alike_plainAddress
  have split := addresses.eq (f := fun d => (splitType? d).map levelledSplit) splitType?_collapsed
  have levelled : ∀ d, ((splitType? d).bind declaredBy).map levelledFace =
      ((splitType? d).map levelledSplit).bind declaredBy := by
    intro d
    cases splitType? d with
    | none => rfl
    | some found => exact levelledFace_declaredBy found
  rw [declared?_eq_bind, declared?_eq_bind, levelled, levelled, split]

theorem startsDeclaration_collapsed (s : Text) : startsDeclaration (collapsed s) = startsDeclaration s := by
  unfold startsDeclaration
  rw [Identifier.leading?_collapsed]
  cases Identifier.leading? s <;> rfl

/-- What a statement declares shows its gaps in the type only. -/
theorem face_of_alike {s t : Text} (alike : Alike s t) (index index' : Nat) :
    ((ofStatement? s index).map face).map levelledFace =
      ((ofStatement? t index').map face).map levelledFace := by
  have starts := alike.trim.eq startsDeclaration_collapsed
  rw [face_ofStatement?, face_ofStatement?, starts]
  split
  · exact declared?_of_alike (alike.trim.map alike_declarationPart).trim
  · rfl

end StateVariable

/-! ## Segments -/

namespace Segment

/-- A segment with its gaps collapsed. -/
def levelled (segment : Segment) : Segment :=
  { segment with text := collapsed segment.text }

theorem alike_of_levelled {x y : Segment} (same : x.levelled = y.levelled) : Alike x.text y.text :=
  congrArg (fun z : Segment => z.text) same

theorem boundary_of_levelled {x y : Segment} (same : x.levelled = y.levelled) : x.boundary = y.boundary := by
  have levelled_ : x.levelled.boundary = y.levelled.boundary := by rw [same]
  exact levelled_

theorem map_levelled_prepend {front front' : Text} (alike : Alike front front') {xs ys : List Segment}
    (same : xs.map levelled = ys.map levelled) :
    (xs.modifyHead fun x => { x with text := front ++ x.text }).map levelled =
      (ys.modifyHead fun x => { x with text := front' ++ x.text }).map levelled := by
  cases xs with
  | nil =>
    cases ys with
    | nil => rfl
    | cons y ys => cases same
  | cons x xs =>
    cases ys with
    | nil => cases same
    | cons y ys =>
      obtain ⟨first, others⟩ := List.cons.inj same
      simp only [List.modifyHead_cons, List.map_cons, others, List.cons.injEq, and_true, levelled,
        boundary_of_levelled first]
      rw [show collapsed _ = collapsed _ from alike.append (alike_of_levelled first)]

/-- A text and its collapsed form are cut at the same boundaries. -/
theorem map_levelled_cut {r : Reading} (known : ∀ quote ∈ r.quote?, isQuote quote = true) (s : Text) :
    (cut (r.marks (collapsed s))).map levelled = (cut (r.marks s)).map levelled := by
  induction s using runs_induction generalizing r with
  | nil => rfl
  | visible c s visible ih =>
    have others := ih (Reading.isQuote_of_next known c)
    rw [collapsed_cons visible, Reading.marks_cons, Reading.marks_cons, cut, cut]
    cases boundary? ⟨c, r.isQuoted c⟩ with
    | some boundary => simp only [List.map_cons, others]
    | none =>
      have front := map_levelled_prepend (show Alike [c] [c] from rfl) others
      revert front
      cases cut ((r.next c).marks (collapsed s)) <;> cases cut ((r.next c).marks s) <;> exact id
  | blanks b s nonempty blanks edge ih =>
    have space : Blanks [' '] := blanks_singleton (by decide)
    rw [collapsed_run nonempty blanks edge, cut_append_of_unbroken (unbroken_blanks blanks r),
      ← List.singleton_append, cut_append_of_unbroken (unbroken_blanks space r),
      Reading.after_blanks nonempty blanks known]
    exact map_levelled_prepend (alike_of_blanks (by simp) nonempty space blanks)
      (ih (Reading.isQuote_of_next known ' '))

theorem map_levelled_ofText_collapsed (s : Text) :
    (ofText (collapsed s)).map levelled = (ofText s).map levelled := by
  unfold ofText
  rw [marks_eq_marks, marks_eq_marks]
  exact map_levelled_cut (by simp [Reading.quote?]) s

theorem opensOpaque_of_levelled {x y : Segment} (same : x.levelled = y.levelled) :
    x.opensOpaque = y.opensOpaque := by
  unfold opensOpaque
  rw [(alike_of_levelled same).eq Identifier.identifiers_collapsed]

end Segment

namespace Statement

/-- Two statements in two texts that differ in their gaps only and stand at corresponding places. -/
structure Corresponds (s t : Text) (statement statement' : Statement) : Prop where
  text : Alike statement.text statement'.text
  place : inkBefore s statement.index = inkBefore t statement'.index

theorem inkBefore_leading (front text rest : Text) :
    inkBefore (front ++ (text ++ rest)) (front.length + (text.takeWhile isBlank).length) =
      (ink front).length := by
  have nothing : ink (text.takeWhile isBlank) = [] :=
    List.filter_eq_nil_iff.2 fun c member => by simp [blanks_takeWhile text c member]
  have leading : (text ++ rest).take (text.takeWhile isBlank).length = text.takeWhile isBlank := by
    have whole := congrArg (List.take (text.takeWhile isBlank).length)
      (congrArg (· ++ rest) (takeWhile_append_trimStart text))
    rw [← whole, List.append_assoc, List.take_left]
  rw [inkBefore, List.take_length_add_append, leading, ink_append, nothing, List.append_nil]

theorem forall₂_among {xs ys : List Segment} (same : xs.map Segment.levelled = ys.map Segment.levelled)
    {front front' : Text} (ink_ : (ink front).length = (ink front').length) (blocks : List Bool)
    (tail tail' : Text) :
    List.Forall₂ (Corresponds (front ++ (Segment.spelling xs ++ tail))
        (front' ++ (Segment.spelling ys ++ tail')))
      (among front.length blocks xs) (among front'.length blocks ys) := by
  induction xs generalizing ys front front' blocks with
  | nil =>
    cases ys with
    | nil => exact .nil
    | cons y ys => cases same
  | cons x xs ih =>
    cases ys with
    | nil => cases same
    | cons y ys =>
      obtain ⟨first, others⟩ := List.cons.inj same
      have text := Segment.alike_of_levelled first
      have boundary := Segment.boundary_of_levelled first
      have opens := Segment.opensOpaque_of_levelled first
      -- whatever becomes of the blocks, the rest starts behind the same visible characters
      have step : ∀ blocks, List.Forall₂ (Corresponds (front ++ (Segment.spelling (x :: xs) ++ tail))
          (front' ++ (Segment.spelling (y :: ys) ++ tail')))
          (among (front.length + x.text.length + 1) blocks xs)
          (among (front'.length + y.text.length + 1) blocks ys) := by
        intro blocks
        have inkText : ink x.text = ink y.text := text.eq ink_collapsed
        have inkHere : (ink (front ++ (x.text ++ [x.boundary.char]))).length =
            (ink (front' ++ (y.text ++ [y.boundary.char]))).length := by
          simp only [ink_append, List.length_append, ink_, inkText, boundary]
        have next := ih others inkHere blocks
        simpa [Segment.spelling_cons, Nat.add_assoc] using next
      simp only [among, boundary, opens]
      split
      · exact step _
      · exact step _
      · split
        · exact step _
        · refine .cons ⟨text.trim, ?_⟩ (step _)
          rw [Segment.spelling_cons, Segment.spelling_cons, List.append_assoc, List.append_assoc]
          exact (inkBefore_leading _ _ _).trans (ink_.trans (inkBefore_leading _ _ _).symm)

theorem forall₂_ofText_of_alike {s t : Text} (alike : Alike s t) :
    List.Forall₂ (Corresponds s t) (ofText s) (ofText t) := by
  have same := alike.eq (f := fun s => (Segment.ofText s).map Segment.levelled)
    Segment.map_levelled_ofText_collapsed
  have start : (ink []).length = (ink []).length := rfl
  have whole := forall₂_among same start [] (Segment.tail s) (Segment.tail t)
  rwa [Segment.spelling_append_tail, Segment.spelling_append_tail] at whole

end Statement

end ContractInterface
