import ContractInterface.Proofs.Heads
import ContractInterface.Proofs.Parens
import ContractInterface.Proofs.Findings
import Mathlib.Data.List.Basic

/-! # Function headers with a literal

A header reads literals as literals when it looks for its end and for the end of its argument lists.
A literal in an argument list that is not the result list is therefore not looked into: what the header
says does not depend on its content (`parts_enclosed`).
-/

namespace ContractInterface

open Text Literal Delimiter

/-! ## Scanning over a literal -/

section Scanning

variable {isOpen isClose : Char → Bool}

theorem closeFrom?_quoted (depth : Int) (s : Text) (ns : List Mark) :
    closeFrom? isOpen isClose depth (s.map (⟨·, true⟩) ++ ns) =
      (closeFrom? isOpen isClose depth ns).map (· + s.length) := by
  induction s with
  | nil => simp
  | cons c s ih =>
    simp only [List.map_cons, List.cons_append, closeFrom?, markStep, if_true, Int.add_zero]
    rw [if_neg (by simp), ih, Option.map_map]
    congr 1

/-- What a scan that finds no match hands on is the depth it has reached. -/
theorem exists_depth_of_closeFrom? {depth : Int} {ms : List Mark}
    (missing : closeFrom? isOpen isClose depth ms = none) :
    ∃ depth', ∀ ns, closeFrom? isOpen isClose depth (ms ++ ns) =
      (closeFrom? isOpen isClose depth' ns).map (· + ms.length) := by
  induction ms generalizing depth with
  | nil => exact ⟨depth, fun ns => by simp⟩
  | cons m more ih =>
    simp only [closeFrom?] at missing
    split at missing
    · cases missing
    · rename_i open_
      obtain ⟨depth', rest⟩ := ih (Option.map_eq_none_iff.1 missing)
      refine ⟨depth', fun ns => ?_⟩
      simp only [List.cons_append, closeFrom?]
      rw [if_neg open_, rest, Option.map_map]
      congr 1

end Scanning

theorem matchingParen?_append {s : Text} {k : Nat} (found : matchingParen? s = some k) (t : Text) :
    matchingParen? (s ++ t) = some k := by
  unfold matchingParen? at found ⊢
  rw [marks_eq_marks] at found ⊢
  rw [Reading.marks_append]
  exact closeFrom?_append found _

/-- Behind a terminated text without a match, the match does not depend on what a literal holds. -/
theorem matchingParen?_enclosed {s t : Text} (missing : matchingParen? s = none)
    (terminated : IsTerminated s) {quote : Char} (isQuoted : isQuote quote = true) :
    ∃ found : Option Nat, ∀ content, IsPlain content →
      matchingParen? (s ++ enclosed quote content t) =
        found.map (· + (s.length + content.length + 2)) := by
  obtain ⟨depth, rest⟩ := exists_depth_of_closeFrom? missing
  refine ⟨closeFrom? isOpenParen isCloseParen depth (marks t), fun content plain => ?_⟩
  unfold matchingParen?
  rw [marks_append terminated, rest, marks_enclosed isQuoted plain, closeFrom?_quoted,
    Option.map_map]
  congr 1
  funext k
  simp only [Function.comp, List.length_cons, List.length_append, length_marks, List.length_nil]
  omega

theorem parenthesised?_append {s params behind : Text}
    (found : parenthesised? s = some (params, behind)) (t : Text) :
    parenthesised? (s ++ t) = some (params, behind ++ t) := by
  obtain ⟨k, closes, same⟩ := Option.map_eq_some_iff.1 found
  cases same
  have inside := matchingParen?_lt closes
  unfold parenthesised?
  rw [matchingParen?_append closes, Option.map_some, List.take_append_of_le_length (by omega),
    List.drop_append_of_le_length (by omega)]

namespace FunctionHeader

/-! ## The end of a header -/

theorem lengthFrom_append_of_lt {depth : Int} {ms : List Mark}
    (ends : lengthFrom depth ms < ms.length) (ns : List Mark) :
    lengthFrom depth (ms ++ ns) = lengthFrom depth ms := by
  induction ms generalizing depth with
  | nil => simp at ends
  | cons m more ih =>
    simp only [lengthFrom, List.cons_append] at ends ⊢
    split at ends
    · rename_i isEnd
      rw [if_pos isEnd, if_pos isEnd]
    · rename_i inner
      rw [if_neg inner, if_neg inner, ih (Nat.lt_of_succ_lt_succ ends)]

theorem lengthFrom_le (depth : Int) (ms : List Mark) : lengthFrom depth ms ≤ ms.length := by
  induction ms generalizing depth with
  | nil => exact Nat.le_refl _
  | cons m more ih =>
    simp only [lengthFrom]
    split
    · exact Nat.zero_le _
    · exact Nat.succ_le_succ (ih _)

theorem exists_depth_of_lengthFrom {depth : Int} {ms : List Mark}
    (goesOn : lengthFrom depth ms = ms.length) :
    ∃ depth', ∀ ns, lengthFrom depth (ms ++ ns) = ms.length + lengthFrom depth' ns := by
  induction ms generalizing depth with
  | nil => exact ⟨depth, fun ns => by simp⟩
  | cons m more ih =>
    simp only [lengthFrom] at goesOn
    split at goesOn
    · simp at goesOn
    · rename_i inner
      obtain ⟨depth', rest⟩ := ih (Nat.succ.inj goesOn)
      refine ⟨depth', fun ns => ?_⟩
      simp only [List.cons_append, lengthFrom]
      rw [if_neg inner, rest, List.length_cons]
      omega

theorem lengthFrom_quoted (depth : Int) (s : Text) (ns : List Mark) :
    lengthFrom depth (s.map (⟨·, true⟩) ++ ns) = s.length + lengthFrom depth ns := by
  induction s with
  | nil => simp
  | cons c s ih =>
    simp only [List.map_cons, List.cons_append, lengthFrom, markStep, not_true, false_and, if_false,
      if_true, Int.add_zero, ih, List.length_cons]
    omega

theorem behindParams_append_of_lt {s : Text} (ends : (behindParams s).length < s.length) (t : Text) :
    behindParams (s ++ t) = behindParams s := by
  unfold behindParams at ends ⊢
  have within := lengthFrom_le 0 (marks s)
  rw [length_marks] at within
  rw [List.length_take, Nat.min_eq_left within] at ends
  have ends' : lengthFrom 0 (marks s) < (marks s).length := by
    rw [length_marks]
    exact ends
  rw [marks_eq_marks (s ++ t), Reading.marks_append, ← marks_eq_marks,
    lengthFrom_append_of_lt ends', List.take_append_of_le_length within]

theorem behindParams_enclosed {s t : Text} (goesOn : ¬(behindParams s).length < s.length)
    (terminated : IsTerminated s) {quote : Char} (isQuoted : isQuote quote = true) :
    ∃ count, ∀ content, IsPlain content →
      behindParams (s ++ enclosed quote content t) = s ++ enclosed quote content (t.take count) := by
  -- no end was found in `s`, so the scan goes on behind it at some depth, and past the literal at the same
  have whole : lengthFrom 0 (marks s) = (marks s).length := by
    have within := lengthFrom_le 0 (marks s)
    unfold behindParams at goesOn
    rw [List.length_take] at goesOn
    rw [length_marks] at within ⊢
    omega
  obtain ⟨depth, rest⟩ := exists_depth_of_lengthFrom whole
  refine ⟨lengthFrom depth (marks t), fun content plain => ?_⟩
  unfold behindParams
  rw [marks_append terminated, rest, marks_enclosed isQuoted plain, lengthFrom_quoted, length_marks]
  have literal : (quote :: (content ++ [quote])).length = content.length + 2 := by simp
  rw [List.take_append, List.take_of_length_le (by omega), literal]
  have rest' : s.length + (content.length + 2 + lengthFrom depth (marks t)) - s.length =
      (content.length + 1 + lengthFrom depth (marks t)) + 1 := by omega
  rw [rest', enclosed, List.take_succ_cons, List.take_append, List.take_of_length_le (by omega)]
  have last : content.length + 1 + lengthFrom depth (marks t) - content.length =
      lengthFrom depth (marks t) + 1 := by omega
  rw [last, List.take_succ_cons]
  rfl

/-! ## The parts of a header -/

/-- Whether a text behind a parameter list leaves an argument list open that is not the result list.
The result list is the first one whose nearest word before it is `returns`; `found` tells whether it
has been met, and `last` is the nearest word so far. -/
def leavesListOpen (found : Bool) (last : Text) (s : Text) : Bool :=
  match s with
  | [] => false
  | c :: s =>
    if c = '(' then
      match matchingParen? (c :: s) with
      | some close => leavesListOpen (found || last == "returns".toList) last (s.drop close)
      | none =>
        decide (Reading.outside.after (c :: s) = .outside) && (found || last != "returns".toList)
    else if Identifier.isStart c then
      leavesListOpen found (c :: s.takeWhile Identifier.isMember) (s.dropWhile Identifier.isMember)
    else leavesListOpen found last s
termination_by s.length
decreasing_by
  · simp only [List.length_drop, List.length_cons]
    omega
  · have := length_dropWhile_le Identifier.isMember s
    simp only [List.length_cons]
    omega
  · simp

/-- Header parts that say the same: their words agree, and so do their result lists unless one has
been found before. -/
structure SaySame (found : Bool) (last : Text) (ps ps' : List HeaderPart) : Prop where
  words : wordsOf ps = wordsOf ps'
  returns : found = false → returnsAfter? last ps = returnsAfter? last ps'

theorem SaySame.word {found : Bool} {last word : Text} {ps ps' : List HeaderPart}
    (same : SaySame found word ps ps') : SaySame found last (.word word :: ps) (.word word :: ps') where
  words := congrArg (word :: ·) same.words
  returns := same.returns

theorem SaySame.arguments {found : Bool} {last content : Text} {ps ps' : List HeaderPart}
    (same : SaySame (found || last == "returns".toList) last ps ps') :
    SaySame found last (.arguments content :: ps) (.arguments content :: ps') where
  words := same.words
  returns := by
    intro notFound
    have rest := same.returns
    unfold returnsAfter?
    by_cases isResults : last = "returns".toList
    · rw [if_pos isResults, if_pos isResults]
    · rw [if_neg isResults, if_neg isResults]
      exact rest (by rw [notFound, Bool.false_or]; exact beq_false_of_ne isResults)

/-- The content of an argument list that is not the result list does not matter. -/
theorem SaySame.of_arguments {found : Bool} {last : Text}
    (noResults : (found || last != "returns".toList) = true) (content content' : Text)
    (ps : List HeaderPart) :
    SaySame found last (.arguments content :: ps) (.arguments content' :: ps) where
  words := rfl
  returns := by
    intro notFound
    have other : last ≠ "returns".toList := by simpa [notFound] using noResults
    unfold returnsAfter?
    rw [if_neg other, if_neg other]

theorem parts_word {c : Char} (starts : Identifier.isStart c = true) (s : Text) :
    parts (c :: s) =
      .word (c :: s.takeWhile Identifier.isMember) :: parts (s.dropWhile Identifier.isMember) := by
  have notOpen : c ≠ '(' := by
    rintro rfl
    cases starts
  rw [parts, if_neg notOpen, if_pos starts]

theorem parts_other {c : Char} (notOpen : c ≠ '(') (plain : ¬Identifier.isStart c = true)
    (s : Text) : parts (c :: s) = parts s := by
  rw [parts, if_neg notOpen, if_neg plain]

theorem parts_closed {s : Text} {close : Nat} (closes : matchingParen? ('(' :: s) = some close) :
    parts ('(' :: s) = .arguments (s.take (close - 1)) :: parts (s.drop close) := by
  rw [parts, if_pos rfl]
  simp only [closes]

theorem parts_unclosed {s : Text} (unclosed : matchingParen? ('(' :: s) = none) :
    parts ('(' :: s) = [] := by
  rw [parts, if_pos rfl]
  simp only [unclosed]

theorem drop_enclosed (s : Text) (quote : Char) (content t : Text) (n : Nat) :
    (s ++ enclosed quote content t).drop (s.length + content.length + 2 + n) = t.drop n := by
  have place : s.length + content.length + 2 + n = s.length + (content.length + (n + 1) + 1) := by
    omega
  rw [place, List.drop_length_add_append, enclosed, List.drop_succ_cons,
    List.drop_length_add_append, List.drop_succ_cons]

/-- An argument list that is closed is read alike whatever follows. -/
theorem parts_closed_append {s : Text} {close : Nat} (closes : matchingParen? ('(' :: s) = some close)
    (t : Text) :
    parts ('(' :: (s ++ t)) = .arguments (s.take (close - 1)) :: parts (s.drop close ++ t) := by
  have within := matchingParen?_lt closes
  rw [List.length_cons] at within
  have closes' : matchingParen? ('(' :: (s ++ t)) = some close := matchingParen?_append closes t
  rw [parts_closed closes', List.take_append_of_le_length (by omega),
    List.drop_append_of_le_length (by omega)]

/-- An argument list that is open in front of a literal is never closed, or it is closed behind the
literal, and then only its content holds that of the literal. -/
theorem parts_unclosed_enclosed {s : Text} (unclosed : matchingParen? ('(' :: s) = none)
    (terminated : IsTerminated ('(' :: s)) {quote : Char} (isQuoted : isQuote quote = true) (t : Text) :
    (∀ content, IsPlain content → parts ('(' :: (s ++ enclosed quote content t)) = []) ∨
      ∃ behind, ∀ content, IsPlain content → ∃ inner,
        parts ('(' :: (s ++ enclosed quote content t)) = .arguments inner :: behind := by
  obtain ⟨close?, closes⟩ := matchingParen?_enclosed (t := t) unclosed terminated isQuoted
  -- whether and where the list closes behind the literal does not depend on the content
  cases close? with
  | none => exact .inl fun content plain => parts_unclosed (closes content plain)
  | some k =>
    refine .inr ⟨parts (t.drop (k + 1)), fun content plain => ?_⟩
    have place : k + ((('(' :: s).length + content.length) + 2) =
        s.length + content.length + 2 + (k + 1) := by
      simp only [List.length_cons]
      omega
    have closes' : matchingParen? ('(' :: (s ++ enclosed quote content t)) =
        some (s.length + content.length + 2 + (k + 1)) := by
      rw [← place]
      exact closes content plain
    have whole := parts_closed closes'
    rw [drop_enclosed] at whole
    exact ⟨_, whole⟩

/-- What is said around an open argument list does not depend on what a literal in it holds. -/
theorem parts_enclosed {found : Bool} {last s t : Text} (hidden : leavesListOpen found last s = true)
    {quote : Char} (isQuoted : isQuote quote = true) {content content' : Text}
    (plain : IsPlain content) (plain' : IsPlain content') :
    SaySame found last (parts (s ++ enclosed quote content t))
      (parts (s ++ enclosed quote content' t)) := by
  have edge : ∀ u : Text, ∀ c ∈ (enclosed quote u t).head?, Identifier.isMember c = false := by
    intro u c first
    cases first
    exact isMember_of_isQuote isQuoted
  -- up to the list that is left open both texts are read alike; from there on it takes in the literal
  fun_induction leavesListOpen found last s with
  | case1 => cases hidden
  | case2 found last s close closes ih =>
    rw [List.cons_append, List.cons_append, parts_closed_append closes, parts_closed_append closes]
    exact (ih hidden).arguments
  | case3 found last s unclosed =>
    obtain ⟨terminated, noResults⟩ := Bool.and_eq_true_iff.1 hidden
    have terminated' : Reading.outside.after ('(' :: s) = .outside := of_decide_eq_true terminated
    rw [List.cons_append, List.cons_append]
    rcases parts_unclosed_enclosed unclosed terminated' isQuoted t with nothing | ⟨behind, closes⟩
    · rw [nothing content plain, nothing content' plain']
      exact ⟨rfl, fun _ => rfl⟩
    · obtain ⟨inner, whole⟩ := closes content plain
      obtain ⟨inner', whole'⟩ := closes content' plain'
      rw [whole, whole']
      exact .of_arguments noResults inner inner' behind
  | case4 found last c s notOpen starts ih =>
    rw [List.cons_append, List.cons_append, parts_word starts, parts_word starts,
      takeWhile_append_of_head? (edge _), takeWhile_append_of_head? (edge _),
      dropWhile_append_of_head? (edge _), dropWhile_append_of_head? (edge _)]
    exact (ih hidden).word
  | case5 found last c s notOpen plainChar ih =>
    rw [List.cons_append, List.cons_append, parts_other notOpen plainChar,
      parts_other notOpen plainChar]
    exact ih hidden

/-! ## The headers around a literal -/

/-- Whether a header whose text breaks off does not depend on the content of a literal that follows
there: it has ended, or it leaves an argument list open that is not the result list. -/
def isSettled (head : FunctionHead) : Bool :=
  match parenthesised? head.fromParen with
  | some (_, behind) =>
    decide ((behindParams behind).length < behind.length) ||
      (decide (Reading.outside.after behind = .outside) && leavesListOpen false [] behind)
  | none => false

theorem ofHead?_enclosed {head : FunctionHead} (settled : isSettled head = true) {quote : Char}
    (isQuoted : isQuote quote = true) {content content' : Text} (plain : IsPlain content)
    (plain' : IsPlain content') (index : Nat) (t : Text) :
    ofHead? index { head with fromParen := head.fromParen ++ enclosed quote content t } =
      ofHead? index { head with fromParen := head.fromParen ++ enclosed quote content' t } := by
  unfold isSettled at settled
  split at settled
  · rename_i params behind opens
    unfold ofHead?
    rw [parenthesised?_append opens, parenthesised?_append opens]
    simp only [Option.map_some, Option.some.injEq, FunctionHeader.mk.injEq, true_and]
    by_cases ends : (behindParams behind).length < behind.length
    · rw [behindParams_append_of_lt ends, behindParams_append_of_lt ends]
      exact ⟨rfl, rfl, rfl⟩
    · rw [decide_eq_false ends, Bool.false_or] at settled
      obtain ⟨isTerminated, hidden⟩ := Bool.and_eq_true_iff.1 settled
      have terminated : Reading.outside.after behind = .outside := of_decide_eq_true isTerminated
      obtain ⟨count, header⟩ := behindParams_enclosed (t := t) ends terminated isQuoted
      have same := parts_enclosed (t := t.take count) hidden isQuoted plain plain'
      rw [header content plain, header content' plain']
      exact ⟨same.returns rfl, congrArg visibilityOf same.words, congrArg mutabilityOf same.words⟩
  · cases settled

theorem ofHead?_add (index n : Nat) (head : FunctionHead) :
    ofHead? (index + n) head = (ofHead? index head).map (shifted n) := by
  unfold ofHead?
  rw [Option.map_map]
  rfl

theorem map_atStart_ofHead? (index : Nat) (head : FunctionHead) :
    (ofHead? index head).map atStart = ofHead? 0 head := by
  unfold ofHead?
  rw [Option.map_map]
  rfl

theorem index_of_ofHead? {index : Nat} {head : FunctionHead} {f : FunctionHeader}
    (found : ofHead? index head = some f) : f.index = index := by
  obtain ⟨_, _, same⟩ := Option.map_eq_some_iff.1 found
  rw [← same]

/-- The headers whose heads stand in a content, apart from where they start.  A header reads on into
what follows the content. -/
def headersIn (behind content : Text) : List FunctionHeader :=
  (FunctionHead.ofText content).filterMap fun found =>
    ofHead? 0 { found.2 with fromParen := found.2.fromParen ++ behind }

/-- Around a literal the headers in front of it do not depend on its content, and those behind it move
along. -/
theorem exists_front_ofText {s : Text} (settled : (FunctionHead.ofText s).all (isSettled ·.2) = true)
    {quote : Char} (isQuoted : isQuote quote = true) (t : Text) :
    ∃ front : List FunctionHeader, (∀ f ∈ front, f.index ≤ s.length) ∧
      ∀ content, IsPlain content → ∃ inner : List FunctionHeader,
        inner.map atStart = headersIn (quote :: t) content ∧
        (∀ f ∈ inner, ∃ i ≤ content.length, f.index = s.length + (i + 1)) ∧
        ofText (s ++ enclosed quote content t) =
          front ++ inner ++ (ofText t).map (shifted (s.length + content.length + 2)) := by
  refine ⟨(FunctionHead.ofText s).filterMap fun found => ofHead? found.1
    { found.2 with fromParen := found.2.fromParen ++ enclosed quote [] t }, ?_, ?_⟩
  · intro f member
    obtain ⟨found, isFound, isHeader⟩ := List.mem_filterMap.1 member
    rw [index_of_ofHead? isHeader]
    exact le_length_of_mem_locate isFound
  · intro content plain
    have plain' : IsPlain [] := ⟨by simp, by simp, by simp⟩
    refine ⟨(FunctionHead.ofText content).filterMap fun found => ofHead? (found.1 + (s.length + 1))
      { found.2 with fromParen := found.2.fromParen ++ quote :: t }, ?_, ?_, ?_⟩
    · rw [List.map_filterMap]
      exact List.filterMap_congr fun found _ => map_atStart_ofHead? _ _
    · intro f member
      obtain ⟨found, isFound, isHeader⟩ := List.mem_filterMap.1 member
      refine ⟨found.1, le_length_of_mem_locate isFound, ?_⟩
      rw [index_of_ofHead? isHeader]
      omega
    · -- the heads of the whole text stand in front of the literal, in it or behind it
      have heads : FunctionHead.ofText (s ++ enclosed quote content t) = _ :=
        stopsAtQuotes_functionHead.locate_literal isQuoted s content t
      unfold ofText
      rw [heads, List.filterMap_append, List.filterMap_append, List.filterMap_map,
        List.filterMap_map, List.filterMap_map]
      congr 1
      · congr 1
        refine List.filterMap_congr fun found member => ?_
        exact ofHead?_enclosed (List.all_eq_true.1 settled found member) isQuoted plain plain' _ _
      · rw [List.map_filterMap]
        exact List.filterMap_congr fun found _ => ofHead?_add _ _ _

end FunctionHeader

end ContractInterface
