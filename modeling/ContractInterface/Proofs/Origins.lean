import ContractInterface.Proofs.Definitions
import ContractInterface.Proofs.Findings
import ContractInterface.Proofs.Outcomes
import Mathlib.Order.Fin.Basic
import Mathlib.Order.Monotone.Basic

/-! # Where declarations stand in the source

Taking the comments out of a source keeps some of its characters, in their order (`keptAt`), and all of
its line breaks (`count_strip`).  So every place of the text that is left has a place in the source that it
comes from (`Comment.origin`), on the line with the same number.

The text from the index of a candidate on starts with the statement or the head that the candidate was read
from (`Candidate.startsAt_index`), so the line of a declaration or a diagnostic is the one in the source on
which its candidate starts (`exists_origin`).
-/

namespace ContractInterface

namespace Comment

/-! ## Places that a filter keeps -/

section Kept

variable {α : Type}

/-- The place in a list of the member that stands at a given place once the others are left out. -/
def keptAt (keeps : α → Bool) : List α → Nat → Nat
  | [], place => place
  | x :: xs, place =>
    if keeps x then
      match place with
      | 0 => 0
      | place + 1 => keptAt keeps xs place + 1
    else keptAt keeps xs place + 1

theorem strictMono_keptAt (keeps : α → Bool) (xs : List α) : StrictMono (keptAt keeps xs) := by
  induction xs with
  | nil => exact strictMono_id
  | cons x xs ih =>
    intro i j less
    by_cases kept : keeps x = true
    · cases j with
      | zero => cases less
      | succ j =>
        cases i with
        | zero => simp [keptAt, kept]
        | succ i => simpa [keptAt, kept] using ih (Nat.lt_of_succ_lt_succ less)
    · simpa [keptAt, kept] using ih less

/-- What stands at a kept place, and what is kept of all in front of it. -/
theorem getElem?_keptAt (keeps : α → Bool) (xs : List α) (place : Nat) :
    xs[keptAt keeps xs place]? = (xs.filter keeps)[place]? ∧
      (xs.take (keptAt keeps xs place)).filter keeps = (xs.filter keeps).take place := by
  induction xs generalizing place with
  | nil => exact ⟨rfl, by simp⟩
  | cons x xs ih =>
    by_cases kept : keeps x = true
    · cases place with
      | zero => simp [keptAt, kept]
      | succ place => simpa [keptAt, kept] using ih place
    · simpa [keptAt, kept] using ih place

end Kept

/-- The place in a source text of the character that stands at a place of the text without comments. -/
def origin (source : Text) (place : Nat) : Nat :=
  keptAt stays (regions source) place

theorem getElem?_origin (source : Text) (place : Nat) :
    source[origin source place]? = (strip source)[place]? := by
  have kept := (getElem?_keptAt stays (regions source) place).1
  have chars := congrArg (Option.map Prod.fst) kept
  rw [← List.getElem?_map, ← List.getElem?_map, map_fst_regions] at chars
  exact chars

/-- Every line break stays. -/
theorem count_filter_stays (rs : List (Char × Region)) :
    ((rs.filter stays).map Prod.fst).count '\n' = (rs.map Prod.fst).count '\n' := by
  simp only [List.count, List.countP_map, List.countP_filter]
  refine List.countP_congr fun r _ => ?_
  by_cases breaks : r.1 = '\n' <;> simp [stays, breaks]

theorem count_strip (source : Text) : (strip source).count '\n' = source.count '\n' := by
  have kept := count_filter_stays (regions source)
  rwa [map_fst_regions] at kept

/-- The lines of a source are those of the text without comments. -/
theorem lineAt_origin (source : Text) (place : Nat) :
    lineAt source (origin source place) = lineAt (strip source) place := by
  have front := congrArg (List.map Prod.fst) (getElem?_keptAt stays (regions source) place).2
  have same := count_filter_stays ((regions source).take (origin source place))
  rw [origin, front, List.map_take, List.map_take, map_fst_regions] at same
  exact congrArg (· + 1) same.symm

end Comment

open Text Comment

/-! ## Where candidates start -/

/-- The text of a source without comments from an index on starts with a candidate. -/
inductive Candidate.StartsAt (cleaned : Text) (index : Nat) : Candidate → Prop where
  /-- A variable starts with the first character of its statement, which a semicolon ends. -/
  | ofStatement {v : StateVariable} {statement blanks rest : Text}
      (declares : StateVariable.ofStatement? statement index = some v) (visible : statement ≠ [])
      (trimmed : IsTrimmed statement) (ends : Blanks blanks)
      (isText : cleaned.drop index = statement ++ (blanks ++ ';' :: rest)) :
      StartsAt cleaned index (.variable v)
  /-- A function starts with its keyword. -/
  | ofHead {f : FunctionHeader} {head : FunctionHead} {front back : Text}
      (isHeader : FunctionHeader.ofHead? index head = some f) (written : head.IsWritten front back)
      (isText : cleaned.drop index = head.lead ++ head.fromParen) : StartsAt cleaned index (.function f)

theorem Statement.exists_text_of_mem {cleaned : Text} {statement : Statement}
    (member : statement ∈ Statement.ofText cleaned) :
    IsTrimmed statement.text ∧ ∃ blanks rest, Blanks blanks ∧
      cleaned.drop statement.index = statement.text ++ (blanks ++ ';' :: rest) := by
  obtain ⟨before, segment, behind, cuts, ends, _, rfl⟩ := exists_segment_of_mem_among member
  obtain ⟨rest, whole, _, isRest⟩ := Segment.exists_rest cuts
  have isNext : Segment.ofText rest = [segment] ++ behind := isRest
  obtain ⟨rest', own, _, _⟩ := Segment.exists_rest isNext
  rw [Segment.spelling_cons, Segment.spelling_nil, ends] at own
  obtain ⟨blanks, isBlanks, text⟩ := exists_blanks_trim segment.text
  refine ⟨isTrimmed_trim _, blanks, rest', isBlanks, ?_⟩
  have front : cleaned = (Segment.spelling before ++ segment.text.takeWhile isBlank) ++
      (trim segment.text ++ (blanks ++ ';' :: rest')) := by
    rw [whole, own]
    conv_lhs => rw [← text]
    simp [Boundary.char]
  conv_lhs => rw [front]
  rw [List.drop_left' (by simp)]

theorem FunctionHead.drop_eq_of_mem {cleaned : Text} {found : Nat × FunctionHead}
    (member : found ∈ FunctionHead.ofText cleaned) :
    cleaned.drop found.1 = found.2.lead ++ found.2.fromParen := by
  obtain ⟨front, run, rest, taken, rfl, place, isRead⟩ := exists_read_of_mem_locate member
  obtain ⟨head, isHead, same⟩ := Option.map_eq_some_iff.1 isRead
  cases same
  rw [place, List.drop_left, lead_append_fromParen isHead]

theorem Candidate.startsAt_of_mem_found {cleaned : Text} {c : Candidate} (member : c ∈ found cleaned) :
    c.StartsAt cleaned c.index := by
  rcases List.mem_append.1 member with isVariable | isFunction
  · obtain ⟨v, isFound, rfl⟩ := List.mem_map.1 isVariable
    obtain ⟨statement, isStatement, declares⟩ := List.mem_filterMap.1 isFound
    obtain ⟨trimmed, blanks, rest, ends, isText⟩ := Statement.exists_text_of_mem isStatement
    have place : v.index = statement.index := StateVariable.index_of_ofStatement? declares
    have visible : statement.text ≠ [] := by
      intro empty
      rw [empty] at declares
      cases declares
    rw [← place] at declares isText
    exact .ofStatement declares visible trimmed ends isText
  · obtain ⟨f, isFound, rfl⟩ := List.mem_map.1 isFunction
    obtain ⟨⟨place, head⟩, isHead, isHeader⟩ := List.mem_filterMap.1 isFound
    obtain ⟨front, back, written⟩ := FunctionHead.exists_isWritten_of_mem isHead
    cases FunctionHeader.index_of_ofHead? isHeader
    exact .ofHead isHeader written (FunctionHead.drop_eq_of_mem isHead)

theorem Candidate.startsAt_index {options : Options} {cleaned : Text} {c : Candidate}
    (member : c ∈ Candidate.all options cleaned) : c.StartsAt cleaned c.index := by
  rw [all_eq_filter_found] at member
  exact startsAt_of_mem_found (List.mem_of_mem_filter member)

theorem Candidate.StartsAt.lt_length {cleaned : Text} {index : Nat} {c : Candidate}
    (starts : c.StartsAt cleaned index) : index < cleaned.length := by
  apply Nat.lt_of_not_le
  intro beyond
  cases starts with
  | ofStatement _ visible _ _ isText =>
    rw [List.drop_eq_nil_of_le beyond] at isText
    exact visible (List.append_eq_nil_iff.1 isText.symm).1
  | ofHead _ written isText =>
    rw [List.drop_eq_nil_of_le beyond, written.lead] at isText
    cases isText

theorem exists_dropped_of_mem_diagnostics {options : Options} {shared : Option Registry} {source : Text}
    {e : Extraction} (succeeds : extract options shared source = .ok e) {g : Diagnostic}
    (member : g ∈ e.diagnostics) :
    ∃ c ∈ Candidate.all options (strip source),
      c.outcome options (registryOf (strip source) shared) (strip source) = .ok (.dropped g) := by
  obtain ⟨outcomes, ends, whole⟩ := bind_eq_ok_iff.1 succeeds
  cases pure_eq_ok_iff.1 whole
  obtain ⟨o, isOutcome, drops⟩ := List.mem_filterMap.1 member
  obtain ⟨c, isFirst, gives⟩ := exists_of_mem_mapM ends isOutcome
  refine ⟨c, mem_of_mem_firstOfEachName isFirst, ?_⟩
  cases o with
  | dropped g' =>
    cases drops
    exact gives
  | declared d => cases drops
  | passedOver => cases drops

/-- The places of the text without comments are places of the source, in order, with the same characters
and lines; and the line of every declaration and every diagnostic is that of the place in the source at
which its candidate starts. -/
theorem exists_origin (source : Text) :
    ∃ φ : Fin (strip source).length → Fin source.length, StrictMono φ ∧
      (∀ j, (strip source)[j] = source[φ j] ∧ lineAt (strip source) j = lineAt source (φ j)) ∧
      (strip source).count '\n' = source.count '\n' ∧
      ∀ options shared e, extract options shared source = .ok e →
        (∀ d ∈ e.declarations, ∃ c ∈ Candidate.all options (strip source), ∃ j : Fin (strip source).length,
          c.outcome options (registryOf (strip source) shared) (strip source) = .ok (.declared d) ∧
            c.StartsAt (strip source) j ∧ d.line = lineAt source (φ j)) ∧
        ∀ g ∈ e.diagnostics, ∃ c ∈ Candidate.all options (strip source), ∃ j : Fin (strip source).length,
          c.outcome options (registryOf (strip source) shared) (strip source) = .ok (.dropped g) ∧
            c.StartsAt (strip source) j ∧ g.line = some (lineAt source (φ j)) := by
  have inside (j : Fin (strip source).length) : origin source j < source.length := by
    have stands := getElem?_origin source j
    rw [List.getElem?_eq_getElem j.isLt] at stands
    exact (List.getElem?_eq_some_iff.1 stands).1
  refine ⟨fun j => ⟨origin source j, inside j⟩, fun i j less => strictMono_keptAt _ _ less,
    fun j => ⟨?_, (lineAt_origin source j).symm⟩, count_strip source,
    fun options shared e succeeds => ⟨fun d member => ?_, fun g member => ?_⟩⟩
  · have stands := getElem?_origin source j
    rw [List.getElem?_eq_getElem j.isLt] at stands
    exact ((List.getElem?_eq_some_iff.1 stands).2).symm
  · obtain ⟨c, isCandidate, gives⟩ := exists_candidate_of_declared succeeds member
    have starts := Candidate.startsAt_index isCandidate
    refine ⟨c, isCandidate, ⟨c.index, starts.lt_length⟩, gives, starts, ?_⟩
    cases isAccounted_of_outcome gives with
    | declared _ _ line => exact line.trans (lineAt_origin source c.index).symm
  · obtain ⟨c, isCandidate, gives⟩ := exists_dropped_of_mem_diagnostics succeeds member
    have starts := Candidate.startsAt_index isCandidate
    refine ⟨c, isCandidate, ⟨c.index, starts.lt_length⟩, gives, starts, ?_⟩
    cases isAccounted_of_outcome gives with
    | dropped _ line => exact line.trans (congrArg some (lineAt_origin source c.index).symm)

end ContractInterface
