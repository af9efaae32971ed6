import ContractInterface.Proofs.CanonicalTexts
import ContractInterface.Proofs.Collapsing
import ContractInterface.Proofs.Parens
import ContractInterface.Proofs.Segments

/-! # Scanning a text with its blanks collapsed

A place in a text and a place in its collapsed form correspond if the same visible characters stand in
front of them.  What a scanner finds at a visible character of a text, it finds at the corresponding
place of the collapsed form: a matching parenthesis (`closeFrom?_collapsed`), an arrow
(`findAtDepth?_collapsed`), the brace that closes a body (`balanced?_braces_collapsed`).
-/

namespace ContractInterface

open Text Literal Delimiter

/-! ## Places -/

namespace Text

/-- The characters of a text that can be seen. -/
def ink (s : Text) : Text :=
  s.filter (!isBlank ·)

@[simp] theorem ink_append (s t : Text) : ink (s ++ t) = ink s ++ ink t :=
  List.filter_append s t

theorem ink_cons_of_blank {c : Char} (blank : isBlank c = true) (s : Text) : ink (c :: s) = ink s :=
  List.filter_cons_of_neg (by simp [blank])

theorem ink_cons_of_visible {c : Char} (visible : isBlank c = false) (s : Text) :
    ink (c :: s) = c :: ink s :=
  List.filter_cons_of_pos (by simp [visible])

theorem ink_collapsed (s : Text) : ink (collapsed s) = ink s := by
  fun_induction collapsed s with
  | case1 => rfl
  | case2 c s blank _ ih => rw [ih, ink_cons_of_blank blank]
  | case3 c s blank _ ih => rw [ink_cons_of_blank (by decide), ih, ink_cons_of_blank blank]
  | case4 c s visible ih =>
    have visible' : isBlank c = false := by simpa using visible
    rw [ink_cons_of_visible visible', ih, ink_cons_of_visible visible']

/-- The number of visible characters in front of a place. -/
def inkBefore (s : Text) (place : Nat) : Nat :=
  (ink (s.take place)).length

/-- A visible character stands at a place. -/
def ShowsAt (s : Text) (place : Nat) : Prop :=
  ∃ c, s[place]? = some c ∧ isBlank c = false

theorem inkBefore_succ_of_blank {c : Char} (blank : isBlank c = true) (s : Text) (place : Nat) :
    inkBefore (c :: s) (place + 1) = inkBefore s place :=
  congrArg List.length (ink_cons_of_blank blank _)

theorem inkBefore_succ_of_visible {c : Char} (visible : isBlank c = false) (s : Text) (place : Nat) :
    inkBefore (c :: s) (place + 1) = inkBefore s place + 1 :=
  congrArg List.length (ink_cons_of_visible visible _)

/-- A visible character is told by what how many stand in front of it. -/
theorem eq_of_inkBefore {s : Text} {i j : Nat} (shows : ShowsAt s i) (shows' : ShowsAt s j)
    (same : inkBefore s i = inkBefore s j) : i = j := by
  induction s generalizing i j with
  | nil =>
    obtain ⟨c, none_, _⟩ := shows
    cases none_
  | cons c s ih =>
    -- a visible first character stands in front of every later place
    have first : ∀ k, ShowsAt (c :: s) 0 → inkBefore (c :: s) 0 ≠ inkBefore (c :: s) (k + 1) := by
      rintro k ⟨d, isFirst, visible⟩ equal
      cases isFirst
      rw [inkBefore_succ_of_visible visible] at equal
      cases equal
    cases i with
    | zero =>
      cases j with
      | zero => rfl
      | succ j => exact absurd same (first j shows)
    | succ i =>
      cases j with
      | zero => exact absurd same.symm (first i shows')
      | succ j =>
        refine congrArg (· + 1) (ih shows shows' ?_)
        cases blank : isBlank c with
        | true => rwa [inkBefore_succ_of_blank blank, inkBefore_succ_of_blank blank] at same
        | false =>
          rw [inkBefore_succ_of_visible blank, inkBefore_succ_of_visible blank] at same
          exact Nat.succ.inj same

theorem ShowsAt.lt_length {s : Text} {place : Nat} (shows : ShowsAt s place) : place < s.length := by
  obtain ⟨c, stands, _⟩ := shows
  exact (List.getElem?_eq_some_iff.1 stands).1

theorem ShowsAt.split {s : Text} {place : Nat} (shows : ShowsAt s place) :
    ∃ c, isBlank c = false ∧ s[place]? = some c ∧ s = s.take place ++ c :: s.drop (place + 1) := by
  obtain ⟨c, stands, visible⟩ := shows
  refine ⟨c, visible, stands, ?_⟩
  obtain ⟨within, isAt⟩ := List.getElem?_eq_some_iff.1 stands
  rw [← isAt, List.getElem_cons_drop, List.take_append_drop]

/-- The place in the collapsed form of a text that corresponds to a place. -/
def collapsedPlace (s : Text) (place : Nat) : Nat :=
  (collapsed (s.take place)).length

section Places

variable {s : Text} {place : Nat} (shows : ShowsAt s place)

include shows

theorem collapsed_split : ∃ c, isBlank c = false ∧
    collapsed s = collapsed (s.take place) ++ c :: collapsed (s.drop (place + 1)) := by
  obtain ⟨c, visible, _, split⟩ := shows.split
  refine ⟨c, visible, ?_⟩
  conv_lhs => rw [split]
  exact collapsed_append_cons visible _ _

theorem take_collapsedPlace : (collapsed s).take (collapsedPlace s place) = collapsed (s.take place) := by
  obtain ⟨c, _, split⟩ := collapsed_split shows
  rw [split]
  exact List.take_left

theorem take_collapsedPlace_succ :
    (collapsed s).take (collapsedPlace s place + 1) = collapsed (s.take (place + 1)) := by
  obtain ⟨c, visible, stands, split⟩ := shows.split
  have whole := collapsed_append_cons visible (s.take place) (s.drop (place + 1))
  rw [← split] at whole
  have front : s.take (place + 1) = s.take place ++ [c] := by
    rw [List.take_add_one, stands, Option.toList_some]
  rw [front, collapsed_append_cons visible, collapsed_nil, whole, ← List.singleton_append,
    ← List.append_assoc]
  exact List.take_left' (by simp [collapsedPlace])

theorem drop_collapsedPlace_succ :
    (collapsed s).drop (collapsedPlace s place + 1) = collapsed (s.drop (place + 1)) := by
  obtain ⟨c, _, split⟩ := collapsed_split shows
  rw [split, ← List.singleton_append, ← List.append_assoc]
  exact List.drop_left' (by simp [collapsedPlace])

theorem collapsedPlace_succ : collapsedPlace s (place + 1) = collapsedPlace s place + 1 := by
  obtain ⟨c, visible, stands, _⟩ := shows.split
  unfold collapsedPlace
  rw [List.take_add_one, stands, Option.toList_some, collapsed_append_cons visible]
  simp

theorem showsAt_collapsedPlace : ShowsAt (collapsed s) (collapsedPlace s place) := by
  obtain ⟨c, visible, split⟩ := collapsed_split shows
  refine ⟨c, ?_, visible⟩
  rw [split, List.getElem?_append_right (by simp [collapsedPlace])]
  simp [collapsedPlace]

theorem eq_collapsedPlace {place' : Nat} (shows' : ShowsAt (collapsed s) place')
    (same : inkBefore (collapsed s) place' = inkBefore s place) : place' = collapsedPlace s place := by
  refine eq_of_inkBefore shows' (showsAt_collapsedPlace shows) ?_
  rw [same]
  unfold inkBefore
  rw [take_collapsedPlace shows, ink_collapsed]

end Places

/-- What is found at visible places, with as many visible characters in front, is found at
corresponding places. -/
theorem eq_map_collapsedPlace {s : Text} {found found' : Option Nat}
    (shows : ∀ place ∈ found, ShowsAt s place) (shows' : ∀ place ∈ found', ShowsAt (collapsed s) place)
    (same : found'.map (inkBefore (collapsed s)) = found.map (inkBefore s)) :
    found' = found.map (collapsedPlace s) := by
  cases found with
  | none => exact Option.map_eq_none_iff.1 same
  | some place =>
    obtain ⟨place', isFound, ink_⟩ := Option.map_eq_some_iff.1 same
    subst isFound
    exact congrArg some (eq_collapsedPlace (shows place rfl) (shows' place' rfl) ink_)

end Text

/-! ## Marks -/

namespace Literal

/-- The marks that can be seen. -/
def inkMarks (ms : List Mark) : List Mark :=
  ms.filter (!isBlank ·.char)

theorem inkMarks_unquotedMarks_collapsed (s : Text) :
    inkMarks (unquotedMarks (collapsed s)) = inkMarks (unquotedMarks s) := by
  have seen : ∀ t : Text, inkMarks (unquotedMarks t) = (ink t).map (⟨·, false⟩) := fun t => by
    unfold inkMarks unquotedMarks ink
    rw [List.filter_map]
    rfl
  rw [seen, seen, ink_collapsed]

theorem Reading.inkMarks_blanks {b : Text} (blanks : Blanks b) (r : Reading) :
    inkMarks (r.marks b) = [] := by
  refine List.filter_eq_nil_iff.2 fun m member => ?_
  have inText : m.char ∈ b := by
    rw [← Reading.map_char_marks r b]
    exact List.mem_map_of_mem member
  simp [blanks m.char inText]

theorem Reading.next_of_isBlank {r : Reading} (known : ∀ quote ∈ r.quote?, isQuote quote = true)
    {c : Char} (blank : isBlank c = true) : r.next c = r.next ' ' := by
  have notEscape : c ≠ '\\' := by rintro rfl; cases blank
  cases r with
  | outside =>
    simp only [next, Segment.isQuote_of_isBlank blank]
    rfl
  | inside quote =>
    have opens := known quote rfl
    have notQuote : c ≠ quote := by
      rintro rfl
      rw [Segment.isQuote_of_isBlank blank] at opens
      cases opens
    have notSpace : ' ' ≠ quote := by
      rintro rfl
      cases opens
    simp only [next, if_neg notEscape, if_neg notQuote, if_neg notSpace]
    rfl
  | escaped quote => rfl

theorem Reading.next_next_space {r : Reading} (known : ∀ quote ∈ r.quote?, isQuote quote = true) :
    (r.next ' ').next ' ' = r.next ' ' := by
  cases r with
  | outside => rfl
  | inside quote =>
    have notSpace : ' ' ≠ quote := by
      rintro rfl
      cases known ' ' rfl
    simp [next, notSpace]
  | escaped quote =>
    have notSpace : ' ' ≠ quote := by
      rintro rfl
      cases known ' ' rfl
    simp [next, notSpace]

/-- Blanks side by side are read as one. -/
theorem Reading.after_blanks {b : Text} (nonempty : b ≠ []) (blanks : Blanks b) {r : Reading}
    (known : ∀ quote ∈ r.quote?, isQuote quote = true) : r.after b = r.next ' ' := by
  induction b generalizing r with
  | nil => exact absurd rfl nonempty
  | cons c b ih =>
    rw [Reading.after_cons, Reading.next_of_isBlank known (blanks c List.mem_cons_self)]
    cases b with
    | nil => rfl
    | cons d b =>
      rw [ih (List.cons_ne_nil _ _) (fun e member => blanks e (List.mem_cons_of_mem c member))
        (Reading.isQuote_of_next known ' '), Reading.next_next_space known]

theorem Reading.inkMarks_collapsed {r : Reading} (known : ∀ quote ∈ r.quote?, isQuote quote = true)
    (s : Text) : inkMarks (r.marks (collapsed s)) = inkMarks (r.marks s) := by
  induction s using runs_induction generalizing r with
  | nil => rfl
  | visible c s visible ih =>
    unfold inkMarks at *
    rw [collapsed_cons visible, Reading.marks_cons, Reading.marks_cons, List.filter_cons,
      List.filter_cons, ih (Reading.isQuote_of_next known c)]
  | blanks b s nonempty blanks edge ih =>
    have none_ := Reading.inkMarks_blanks blanks r
    have none_' := Reading.inkMarks_blanks (blanks_singleton (c := ' ') (by decide)) r
    rw [collapsed_run nonempty blanks edge, Reading.marks_append, Reading.after_blanks nonempty blanks known]
    unfold inkMarks at *
    rw [List.filter_append, none_, List.nil_append, ← ih (Reading.isQuote_of_next known ' ')]
    rw [← List.singleton_append, Reading.marks_append, List.filter_append, none_', List.nil_append]
    rfl

theorem inkMarks_marks_collapsed (s : Text) : inkMarks (marks (collapsed s)) = inkMarks (marks s) := by
  rw [marks_eq_marks, marks_eq_marks]
  exact Reading.inkMarks_collapsed (by simp [Reading.quote?]) s

end Literal

/-! ## Delimiters -/

namespace Delimiter

section Matching

variable {isOpen isClose : Char → Bool} (noOpen : NoBlank isOpen) (noClose : NoBlank isClose)

include noOpen noClose

/-- Only the marks that can be seen count. -/
theorem closeFrom?_inkMarks (depth : Int) (ms : List Mark) :
    closeFrom? isOpen isClose depth (inkMarks ms) =
      (closeFrom? isOpen isClose depth ms).map fun k => (inkMarks (ms.take k)).length := by
  unfold inkMarks
  induction ms generalizing depth with
  | nil => rfl
  | cons m more ih =>
    -- a blank is no delimiter, so leaving it out changes the place of the match but not the depth
    cases blank : isBlank m.char with
    | true =>
      have flat : markStep isOpen isClose m = 0 := by
        simp [markStep, step, noOpen _ blank, noClose _ blank]
      rw [List.filter_cons_of_neg (by simp [blank]), ih, closeFrom?]
      simp only [flat, Int.add_zero, reduceCtorEq, Int.reduceNeg, false_and, if_false]
      rw [Option.map_map]
      congr 1
      funext k
      simp [blank]
    | false =>
      rw [List.filter_cons_of_pos (by simp [blank]), closeFrom?, closeFrom?]
      split
      · rfl
      · rw [ih, Option.map_map, Option.map_map]
        congr 1
        funext k
        simp [blank]

omit noOpen in
theorem showsAt_of_closeFrom? {depth : Int} {ms : List Mark} {k : Nat}
    (found : closeFrom? isOpen isClose depth ms = some k) : ShowsAt (ms.map Mark.char) k := by
  obtain ⟨m, isAt, _, closes⟩ := exists_of_closeFrom? found
  exact ⟨m.char, by rw [List.getElem?_map, isAt]; rfl, noClose.visible closes⟩

/-- In the collapsed form of a text the matching delimiter stands at the corresponding place. -/
theorem closeFrom?_collapsed {s : Text} {ms ms' : List Mark} (chars : ms.map Mark.char = s)
    (chars' : ms'.map Mark.char = collapsed s) (same : inkMarks ms' = inkMarks ms) (depth : Int) :
    closeFrom? isOpen isClose depth ms' =
      (closeFrom? isOpen isClose depth ms).map (collapsedPlace s) := by
  have seen := closeFrom?_inkMarks noOpen noClose depth ms'
  rw [same, closeFrom?_inkMarks noOpen noClose depth ms] at seen
  have inFront : ∀ (ns : List Mark) k, (inkMarks (ns.take k)).length =
      inkBefore (ns.map Mark.char) k := fun ns k => by
    unfold inkMarks inkBefore ink
    rw [← List.map_take, List.filter_map, List.length_map]
    rfl
  simp only [inFront] at seen
  refine eq_map_collapsedPlace (fun k found => ?_) (fun k found => ?_) ?_
  · rw [← chars]
    exact showsAt_of_closeFrom? noClose found
  · rw [← chars']
    exact showsAt_of_closeFrom? noClose found
  · rw [← chars', ← chars]
    exact seen.symm

end Matching

theorem noBlank_isOpenParen : NoBlank isOpenParen :=
  noBlank_beq (c := '(') (by decide)

theorem noBlank_isCloseParen : NoBlank isCloseParen :=
  noBlank_beq (c := ')') (by decide)

theorem matchingParen?_collapsed (s : Text) :
    matchingParen? (collapsed s) = (matchingParen? s).map (collapsedPlace s) :=
  closeFrom?_collapsed noBlank_isOpenParen noBlank_isCloseParen (map_char_marks s)
    (map_char_marks (collapsed s)) (inkMarks_marks_collapsed s) 0

theorem showsAt_of_matchingParen? {s : Text} {k : Nat} (found : matchingParen? s = some k) :
    ShowsAt s k := by
  have shows := showsAt_of_closeFrom? noBlank_isCloseParen found
  rwa [map_char_marks] at shows

theorem map_char_unquotedMarks (s : Text) : (unquotedMarks s).map Mark.char = s := by
  unfold unquotedMarks
  rw [List.map_map]
  exact List.map_id s

theorem matchingPlainParen?_collapsed (s : Text) :
    matchingPlainParen? (collapsed s) = (matchingPlainParen? s).map (collapsedPlace s) :=
  closeFrom?_collapsed noBlank_isOpenParen noBlank_isCloseParen (map_char_unquotedMarks s)
    (map_char_unquotedMarks (collapsed s)) (inkMarks_unquotedMarks_collapsed s) 0

/-- What stands between the first character of a text and a visible place. -/
theorem content_collapsed {c : Char} (visible : isBlank c = false) {s : Text} {place : Nat}
    (shows : ShowsAt (c :: s) place) :
    ((collapsed (c :: s)).take (collapsedPlace (c :: s) place)).drop 1 =
      collapsed (((c :: s).take place).drop 1) := by
  rw [take_collapsedPlace shows]
  cases place with
  | zero => rfl
  | succ place =>
    rw [List.take_succ_cons, collapsed_cons visible]
    rfl

theorem parenthesised?_collapsed {s : Text} (starts : startsWith ['('] s = true) :
    parenthesised? (collapsed s) =
      (parenthesised? s).map fun found => (collapsed found.1, collapsed found.2) := by
  cases s with
  | nil => cases starts
  | cons c s =>
    have visible : isBlank c = false := by
      have isOpen : '(' = c := by simpa [startsWith, List.isPrefixOf] using starts
      rw [← isOpen]
      decide
    unfold parenthesised?
    rw [matchingParen?_collapsed]
    cases found : matchingParen? (c :: s) with
    | none => rfl
    | some k =>
      have shows := showsAt_of_matchingParen? found
      simp only [Option.map_some, content_collapsed visible shows, drop_collapsedPlace_succ shows]

theorem balanced?_braces_collapsed (s : Text) :
    (balanced? ['{'] ['}'] (collapsed s)).map Prod.fst =
      (balanced? ['{'] ['}'] s).map fun found => collapsed found.1 := by
  have noBrace : ∀ q : Char, isBlank q = false → NoBlank fun c => [c] == [q] := fun q visible c blank => by
    refine beq_eq_false_iff_ne.2 fun same => ?_
    rw [(List.cons.inj same).1, visible] at blank
    cases blank
  -- what is scanned must start with the brace, so a text with blanks in front of it is refused
  cases s with
  | nil => rfl
  | cons c s =>
    cases blank : isBlank c with
    | true =>
      have other : [c] ≠ ['{'] := fun same => by
        rw [(List.cons.inj same).1] at blank
        cases blank
      rw [collapsed_of_isBlank blank, balanced?, balanced?, if_neg (by decide), if_neg other]
      rfl
    | false =>
      have matches_ := closeFrom?_collapsed (noBrace '{' (by decide)) (noBrace '}' (by decide))
        (map_char_unquotedMarks (c :: s)) (map_char_unquotedMarks (collapsed (c :: s)))
        (inkMarks_unquotedMarks_collapsed (c :: s)) 0
      have content := @content_collapsed c blank s
      rw [collapsed_cons blank] at matches_ content ⊢
      rw [balanced?, balanced?]
      split
      · simp only [List.cons.injEq, Char.reduceEq, and_true, false_and, if_false, matches_]
        cases found : closeFrom? (fun c => [c] == ['{']) (fun c => [c] == ['}']) 0
            (unquotedMarks (c :: s)) with
        | none => rfl
        | some k =>
          have shows := showsAt_of_closeFrom? (noBrace '}' (by decide)) found
          rw [map_char_unquotedMarks] at shows
          simp only [Option.map_some, content shows]
      · rfl

/-! ## Needles and separators -/

section Needles

variable {h : Char} {needle : Text} (solid : IsSolid (h :: needle))

include solid

theorem findAtDepth?_blank_cons {c : Char} (blank : isBlank c = true) {depth : Int} (inside : 0 ≤ depth)
    (target : Int) (s : Text) : findAtDepth? (h :: needle) target depth (c :: s) =
      (findAtDepth? (h :: needle) target depth s).map (· + 1) := by
  rw [findAtDepth?]
  simp only [parenStep_of_isBlank blank, Int.add_zero, startsWith_of_isBlank solid blank, and_false,
    Bool.false_eq_true, if_false, if_neg (Int.not_lt.2 inside)]

theorem map_inkBefore_findAtDepth? (target : Int) {depth : Int} (inside : 0 ≤ depth) (s : Text) :
    (findAtDepth? (h :: needle) target depth (collapsed s)).map (inkBefore (collapsed s)) =
      (findAtDepth? (h :: needle) target depth s).map (inkBefore s) := by
  have passes : ∀ {c : Char}, isBlank c = true → ∀ t {depth : Int}, 0 ≤ depth →
      (findAtDepth? (h :: needle) target depth (c :: t)).map (inkBefore (c :: t)) =
        (findAtDepth? (h :: needle) target depth t).map (inkBefore t) := by
    intro c blank t depth inside
    rw [findAtDepth?_blank_cons solid blank inside, Option.map_map]
    congr 1
    funext place
    exact inkBefore_succ_of_blank blank t place
  have starts := startsWith_collapsed solid
  -- places are compared by the visible characters in front of them, which passing a blank does not change
  fun_induction collapsed s generalizing depth with
  | case1 => rfl
  | case2 c s blank _ ih => rw [ih inside, passes blank s inside]
  | case3 c s blank _ ih => rw [passes (by decide) _ inside, ih inside, passes blank s inside]
  | case4 c s visible ih =>
    have visible' : isBlank c = false := by simpa using visible
    have front := starts (c :: s)
    rw [collapsed_cons visible'] at front
    rw [findAtDepth?, findAtDepth?, front]
    split
    · rfl
    · rename_i goesOn
      split
      · rfl
      · have others := ih (Int.not_lt.1 goesOn)
        have behind : ∀ t : Text, inkBefore (c :: t) ∘ (· + 1) = (· + 1) ∘ inkBefore t := fun t => by
          funext place
          exact inkBefore_succ_of_visible visible' t place
        rw [Option.map_map, Option.map_map, behind, behind, ← Option.map_map, ← Option.map_map, others]

omit solid in
/-- A needle stands where it is found. -/
theorem exists_of_findAtDepth? {target depth : Int} {s : Text} {k : Nat}
    (found : findAtDepth? (h :: needle) target depth s = some k) :
    ∃ rest, s.drop k = h :: needle ++ rest := by
  induction s generalizing depth k with
  | nil => cases found
  | cons c s ih =>
    rw [findAtDepth?] at found
    split at found
    · cases found
    · split at found
      · rename_i isHere
        cases found
        obtain ⟨rest, whole⟩ := List.isPrefixOf_iff_prefix.1 isHere.2
        exact ⟨rest, whole.symm⟩
      · obtain ⟨j, found', rfl⟩ := Option.map_eq_some_iff.1 found
        exact ih found'

theorem showsAt_of_findAtDepth? {target depth : Int} {s : Text} {k : Nat}
    (found : findAtDepth? (h :: needle) target depth s = some k) : ShowsAt s k := by
  obtain ⟨rest, behind⟩ := exists_of_findAtDepth? found
  refine ⟨h, ?_, solid h List.mem_cons_self⟩
  rw [← List.head?_drop, behind]
  rfl

theorem findAtDepth?_collapsed (target : Int) {depth : Int} (inside : 0 ≤ depth) (s : Text) :
    findAtDepth? (h :: needle) target depth (collapsed s) =
      (findAtDepth? (h :: needle) target depth s).map (collapsedPlace s) :=
  eq_map_collapsedPlace (fun _ found => showsAt_of_findAtDepth? solid found)
    (fun _ found => showsAt_of_findAtDepth? solid found) (map_inkBefore_findAtDepth? solid target inside s)

end Needles

theorem map_collapsed_onFront {t t' : Text} {pieces pieces' : List Text} (alike : Alike t t')
    (same : pieces.map collapsed = pieces'.map collapsed) :
    (onFront t pieces).map collapsed = (onFront t' pieces').map collapsed := by
  cases pieces with
  | nil =>
    cases pieces' with
    | nil => exact congrArg ([·]) alike
    | cons _ _ => cases same
  | cons piece more =>
    cases pieces' with
    | nil => cases same
    | cons piece' more' =>
      obtain ⟨first, others⟩ := List.cons.inj same
      have joined_ : Alike (t ++ piece) (t' ++ piece') := alike.append first
      simp only [onFront, List.map_cons, others, List.cons.injEq, and_true]
      exact joined_

section Separators

variable {isSeparator : Char → Bool} (noBlank : NoBlank isSeparator)

include noBlank

theorem segments_blanks_append {b : Text} (blanks : Blanks b) (depth : Int) (s : Text) :
    segments isSeparator depth (b ++ s) = onFront b (segments isSeparator depth s) := by
  induction b with
  | nil => exact (onFront_nil (segments_ne_nil _ _ _)).symm
  | cons c b ih =>
    have blank := blanks c List.mem_cons_self
    rw [List.cons_append, segments, if_neg (by simp [noBlank c blank]), parenStep_of_isBlank blank,
      Int.add_zero, ih fun d member => blanks d (List.mem_cons_of_mem c member), onFirst_eq_onFront,
      onFront_onFront]
    rfl

/-- The segments of the collapsed form of a text are those of the text, apart from their gaps. -/
theorem map_collapsed_segments (depth : Int) (s : Text) :
    (segments isSeparator depth (collapsed s)).map collapsed =
      (segments isSeparator depth s).map collapsed := by
  induction s using runs_induction generalizing depth with
  | nil => rfl
  | visible c s visible ih =>
    rw [collapsed_cons visible, segments, segments]
    split
    · rw [List.map_cons, List.map_cons, ih]
    · rw [onFirst_eq_onFront, onFirst_eq_onFront]
      exact map_collapsed_onFront rfl (ih _)
  | blanks b s nonempty blanks edge ih =>
    have space : Blanks [' '] := blanks_singleton (by decide)
    have wide : Alike [' '] b := alike_of_blanks (by simp) nonempty space blanks
    rw [collapsed_run nonempty blanks edge, segments_blanks_append noBlank blanks,
      ← List.singleton_append, segments_blanks_append noBlank space]
    exact map_collapsed_onFront wide (ih depth)

theorem splitTopLevel_collapsed (s : Text) :
    (splitTopLevel isSeparator (collapsed s)).map collapsed =
      (splitTopLevel isSeparator s).map collapsed := by
  have pieces : ∀ t, (splitTopLevel isSeparator t).map collapsed =
      (((segments isSeparator 0 t).map collapsed).map trim).filter (· != []) := by
    intro t
    unfold splitTopLevel
    induction segments isSeparator 0 t with
    | nil => rfl
    | cons piece more ih =>
      have empty : (collapsed (trim piece) != []) = (trim piece != []) := by
        rw [Bool.eq_iff_iff, bne_iff_ne, bne_iff_ne, ne_eq, collapsed_eq_nil_iff]
      simp only [List.map_cons, List.filter_cons, trim_collapsed, empty] at ih ⊢
      split
      · rw [List.map_cons, ih]
      · exact ih
  rw [pieces, pieces, map_collapsed_segments noBlank]

end Separators

end Delimiter

end ContractInterface
