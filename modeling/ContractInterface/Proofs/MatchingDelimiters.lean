import ContractInterface.Proofs.BalancedTexts
import ContractInterface.Proofs.LiteralEnds

/-! # Matching delimiters

The match of an opening delimiter is where what is opened from it on is closed for the first time
(`IsMatch`).  It is defined by counting delimiters between two indices, those outside of the literals that a
scan jumps over (`skippedFrom`), and `matchFrom?` and `contentFrom?` find it wherever there is one
(`finds_match_iff`).

The scan itself adds up depths along marks.  The marks tell which indices lie outside of the skipped
literals (`getElem?_marks_drop`), and a depth is the difference of two counts (`depthAlong_eq_count`).
-/

namespace ContractInterface

open Text

/-! ## Skipped literals -/

namespace Literal

/-- The literals that a scan meets from an index on if it goes on behind each of them: where they open, and
the indices just past them. -/
def skippedFrom (s : Text) (start : Nat) : List (Nat × Nat) :=
  match _h : end? s start with
  | none => []
  | some behind =>
    if s[start]?.any isQuote then (start, behind) :: skippedFrom s behind
    else skippedFrom s (start + 1)
termination_by s.length - start
decreasing_by
  all_goals
    have inside : start < s.length := by
      refine Nat.lt_of_not_le fun outside => ?_
      rw [end?_eq_none_iff.2 outside] at _h
      cases _h
    have := lt_of_end? _h
    omega

/-- No literal of a list covers an index. -/
def IsOutside (literals : List (Nat × Nat)) (index : Nat) : Prop :=
  ∀ l ∈ literals, ¬ (l.1 ≤ index ∧ index < l.2)

instance (literals : List (Nat × Nat)) (index : Nat) : Decidable (IsOutside literals index) :=
  inferInstanceAs (Decidable (∀ l ∈ literals, _))

theorem isOutside_cons {l : Nat × Nat} {literals : List (Nat × Nat)} {index : Nat} :
    IsOutside (l :: literals) index ↔ ¬ (l.1 ≤ index ∧ index < l.2) ∧ IsOutside literals index :=
  List.forall_mem_cons

theorem le_of_mem_skippedFrom {s : Text} {start : Nat} {l : Nat × Nat} (member : l ∈ skippedFrom s start) :
    start ≤ l.1 := by
  fun_induction skippedFrom s start with
  | case1 => cases member
  | case2 start behind ends _ ih =>
    rcases List.mem_cons.1 member with rfl | later
    · exact Nat.le_refl _
    · exact Nat.le_trans (Nat.le_of_lt (lt_of_end? ends)) (ih later)
  | case3 start _ _ _ ih => exact Nat.le_of_succ_le (ih member)

/-- What comes before a scan is not skipped by it. -/
theorem isOutside_of_lt {s : Text} {start index : Nat} (before : index < start) :
    IsOutside (skippedFrom s start) index :=
  fun _ member covered => absurd (le_of_mem_skippedFrom member) (by omega)

/-- All marks of a literal are quoted, and behind it reading starts anew. -/
theorem marksFrom_literal (quote : Char) (t : Text) :
    marksFrom (some quote) t =
      (t.take (lengthBehind quote t)).map (⟨·, true⟩) ++ marks (t.drop (lengthBehind quote t)) := by
  fun_induction lengthBehind quote t with
  | case1 d t ih => rw [marksFrom, ih]; rfl
  | case2 t single => rw [marksFrom.eq_3 _ _ _ single, if_pos rfl]; rfl
  | case3 c t single stays_ ih => rw [marksFrom.eq_3 _ _ _ single, if_neg stays_, ih]; rfl
  | case4 => rfl

/-- All of a literal is quoted, and behind it reading starts anew. -/
theorem marks_drop_literal {s : Text} {start : Nat} {quote : Char} (opens : s[start]? = some quote)
    (isQuoted : isQuote quote = true) {behind : Nat} (ends : end? s start = some behind) :
    marks (s.drop start) =
      ((s.drop start).take (behind - start)).map (⟨·, true⟩) ++ marks (s.drop behind) := by
  obtain ⟨inside, rfl⟩ := List.getElem?_eq_some_iff.1 opens
  cases (end?_eq opens).symm.trans ends
  have size : start + 1 + lengthBehind s[start] (s.drop (start + 1)) - start =
      lengthBehind s[start] (s.drop (start + 1)) + 1 := by omega
  have later : s.drop (start + 1 + lengthBehind s[start] (s.drop (start + 1))) =
      (s.drop (start + 1)).drop (lengthBehind s[start] (s.drop (start + 1))) := List.drop_drop.symm
  rw [size, later, List.drop_eq_getElem_cons inside, List.take_succ_cons, List.map_cons, List.cons_append,
    ← marksFrom_literal, marks, marksFrom, if_pos isQuoted]

theorem marks_drop_plain {s : Text} {start : Nat} {c : Char} (here : s[start]? = some c)
    (plain : ¬ isQuote c = true) : marks (s.drop start) = ⟨c, false⟩ :: marks (s.drop (start + 1)) := by
  obtain ⟨inside, rfl⟩ := List.getElem?_eq_some_iff.1 here
  rw [List.drop_eq_getElem_cons inside, marks, marksFrom, if_neg plain]
  rfl

/-- The marks of a text from an index on tell which indices lie outside of the skipped literals. -/
theorem getElem?_marks_drop (s : Text) (start n : Nat) : (marks (s.drop start))[n]? =
    s[start + n]?.map fun c => ⟨c, !decide (IsOutside (skippedFrom s start) (start + n))⟩ := by
  fun_induction skippedFrom s start generalizing n with
  | case1 start none_ =>
    have outside := end?_eq_none_iff.1 none_
    have absent : s[start + n]? = none := List.getElem?_eq_none (by omega)
    rw [List.drop_eq_nil_of_le outside, absent]
    rfl
  | case2 start behind ends opens ih =>
    -- marks up to the end of the literal are quoted, and behind it the scan is the one from there on
    obtain ⟨quote, here, isQuoted⟩ := Option.any_eq_true _ _ |>.1 opens
    have advances := lt_of_end? ends
    have size : (((s.drop start).take (behind - start)).map (Mark.mk · true)).length = behind - start := by
      have within := end?_le_length ends
      rw [List.length_map, List.length_take, List.length_drop]
      omega
    rw [marks_drop_literal here isQuoted ends]
    by_cases covered : start + n < behind
    · have skipped : ¬ IsOutside ((start, behind) :: skippedFrom s behind) (start + n) :=
        fun outside => outside _ List.mem_cons_self ⟨Nat.le_add_right .., covered⟩
      rw [List.getElem?_append_left (by omega), List.getElem?_map, List.getElem?_take_of_lt (by omega),
        List.getElem?_drop, decide_eq_false skipped]
      rfl
    · have same : start + n = behind + (n - (behind - start)) := by omega
      have outside : IsOutside ((start, behind) :: skippedFrom s behind) (start + n) ↔
          IsOutside (skippedFrom s behind) (start + n) :=
        isOutside_cons.trans (and_iff_right fun within => covered within.2)
      rw [List.getElem?_append_right (by omega), size, ih, ← same]
      simp only [outside]
  | case3 start behind ends opens ih =>
    obtain ⟨c, here⟩ : ∃ c, s[start]? = some c := by
      cases here : s[start]? with
      | none =>
        rw [end?_eq_none_iff.2 (List.getElem?_eq_none_iff.1 here)] at ends
        cases ends
      | some c => exact ⟨c, rfl⟩
    have plain : ¬ isQuote c = true := by simpa [here] using opens
    rw [marks_drop_plain here plain]
    cases n with
    | zero =>
      have outside := isOutside_of_lt (s := s) (Nat.lt_succ_self start)
      simp [here, outside]
    | succ n =>
      rw [List.getElem?_cons_succ, ih, Nat.add_right_comm, Nat.add_assoc]

end Literal

namespace Delimiter

open Literal

/-! ## Scans -/

section Scans

variable {isOpen isClose : Char → Bool}

theorem neg_one_le_markStep (m : Mark) : -1 ≤ markStep isOpen isClose m := by
  unfold markStep step
  split
  · decide
  · split
    · decide
    · split <;> decide

/-- A scan that does not end at the first mark goes on at the depth behind it. -/
theorem closeFrom?_cons_eq_some_succ {depth : Int} {m : Mark} {ms : List Mark} {n : Nat}
    (goesOn : ¬ (markStep isOpen isClose m = -1 ∧ depth + markStep isOpen isClose m = 0)) :
    closeFrom? isOpen isClose depth (m :: ms) = some (n + 1) ↔
      closeFrom? isOpen isClose (depth + markStep isOpen isClose m) ms = some n := by
  rw [closeFrom?, if_neg goesOn]
  simp

/-- From inside, a scan ends where the depth comes to zero for the first time, at a delimiter that
closes. -/
theorem closeFrom?_eq_some_iff {depth : Int} (inside : 0 < depth) {ms : List Mark} {n : Nat} :
    closeFrom? isOpen isClose depth ms = some n ↔
      (∃ m, ms[n]? = some m ∧ markStep isOpen isClose m = -1) ∧
        depth + depthAlong isOpen isClose (ms.take (n + 1)) = 0 ∧
        ∀ k ≤ n, 0 < depth + depthAlong isOpen isClose (ms.take k) := by
  induction ms generalizing depth n with
  | nil => simp [closeFrom?]
  | cons m ms ih =>
    have least : -1 ≤ markStep isOpen isClose m := neg_one_le_markStep m
    by_cases ends : markStep isOpen isClose m = -1 ∧ depth + markStep isOpen isClose m = 0
    · rw [closeFrom?, if_pos ends]
      cases n with
      | zero => simpa [ends.1, inside] using ends.2
      | succ n =>
        refine iff_of_false (by simp) ?_
        rintro ⟨-, -, positive⟩
        -- the depth is zero behind the first mark, so the scan goes no further
        have first := positive 1 (Nat.succ_le_succ (Nat.zero_le n))
        simp only [List.take_succ_cons, List.take_zero, depthAlong_cons, depthAlong_nil] at first
        omega
    · -- a step goes down by one at most, so the depth stays positive and the hypothesis applies to it
      have inside' : 0 < depth + markStep isOpen isClose m := by omega
      cases n with
      | zero =>
        refine iff_of_false (by simp [closeFrom?, ends]) ?_
        rintro ⟨⟨m', here, closes⟩, level, -⟩
        cases here
        exact ends ⟨closes, by simpa using level⟩
      | succ n =>
        rw [closeFrom?_cons_eq_some_succ ends, ih inside', List.getElem?_cons_succ, List.take_succ_cons,
          depthAlong_cons, Int.add_assoc]
        refine and_congr_right fun _ => and_congr_right fun _ => ?_
        constructor
        · intro positive k le
          cases k with
          | zero => simpa using inside
          | succ k =>
            rw [List.take_succ_cons, depthAlong_cons, ← Int.add_assoc]
            exact positive k (Nat.le_of_succ_le_succ le)
        · intro positive k le
          have later := positive (k + 1) (Nat.succ_le_succ le)
          rwa [List.take_succ_cons, depthAlong_cons, ← Int.add_assoc] at later

/-- Behind a mark that opens, a scan from the outside is one from the inside. -/
theorem closeFrom?_cons_eq_some_iff {m : Mark} (opens : markStep isOpen isClose m = 1) {ms : List Mark}
    {n : Nat} : closeFrom? isOpen isClose 0 (m :: ms) = some n ↔
      (∃ m', (m :: ms)[n]? = some m' ∧ markStep isOpen isClose m' = -1) ∧
        depthAlong isOpen isClose ((m :: ms).take (n + 1)) = 0 ∧
        ∀ k, 0 < k → k ≤ n → 0 < depthAlong isOpen isClose ((m :: ms).take k) := by
  have goesOn : ¬ (markStep isOpen isClose m = -1 ∧ 0 + markStep isOpen isClose m = 0) := by omega
  cases n with
  | zero =>
    refine iff_of_false (by simp [closeFrom?, opens]) ?_
    rintro ⟨⟨m', here, closes⟩, -⟩
    cases here
    omega
  | succ n =>
    rw [closeFrom?_cons_eq_some_succ goesOn, opens, closeFrom?_eq_some_iff (by decide),
      List.getElem?_cons_succ, List.take_succ_cons, depthAlong_cons, opens]
    refine and_congr_right fun _ => and_congr_right fun _ => ?_
    -- the condition at the opening mark itself holds, so places are moved by one
    constructor
    · intro positive k pos le
      obtain ⟨k, rfl⟩ := Nat.exists_eq_add_of_le' pos
      rw [List.take_succ_cons, depthAlong_cons, opens]
      exact positive k (Nat.le_of_succ_le_succ le)
    · intro positive k le
      have later := positive (k + 1) (Nat.succ_pos k) (Nat.succ_le_succ le)
      rwa [List.take_succ_cons, depthAlong_cons, opens] at later

end Scans

/-! ## Counts -/

section Counts

variable {opening closing : Char}

theorem markStep_eq (opening closing : Char) (m : Mark) :
    markStep (· == opening) (· == closing) m =
      if m = ⟨opening, false⟩ then 1 else if m = ⟨closing, false⟩ then -1 else 0 := by
  obtain ⟨c, quoted⟩ := m
  cases quoted <;> simp [markStep, step]

theorem markStep_eq_neg_one_iff (distinct : opening ≠ closing) (m : Mark) :
    markStep (· == opening) (· == closing) m = -1 ↔ m = ⟨closing, false⟩ := by
  rw [markStep_eq]
  by_cases opens : m = ⟨opening, false⟩
  · simp [opens, distinct]
  · by_cases closes : m = ⟨closing, false⟩ <;> simp [opens, closes, distinct.symm]

/-- A depth is the difference of two counts. -/
theorem depthAlong_eq_count (distinct : opening ≠ closing) (ms : List Mark) :
    depthAlong (· == opening) (· == closing) ms =
      (ms.count ⟨opening, false⟩ : Int) - ms.count ⟨closing, false⟩ := by
  induction ms with
  | nil => rfl
  | cons m ms ih =>
    rw [depthAlong_cons, ih, markStep_eq, List.count_cons, List.count_cons]
    by_cases opens : m = ⟨opening, false⟩
    · subst opens
      simp [distinct]
      omega
    · by_cases closes : m = ⟨closing, false⟩
      · subst closes
        simp [Ne.symm distinct]
        omega
      · simp [opens, closes]

/-- How often a character stands between two indices outside of some literals. -/
def number (literals : List (Nat × Nat)) (c : Char) (s : Text) (first behind : Nat) : Nat :=
  (List.range' first (behind - first)).countP fun index => s[index]? = some c ∧ IsOutside literals index

/-- Marks tell of a text from an index on which characters stand outside of some literals. -/
def Tells (ms : List Mark) (literals : List (Nat × Nat)) (s : Text) (first : Nat) : Prop :=
  ∀ n, ms[n]? = s[first + n]?.map fun c => ⟨c, !decide (IsOutside literals (first + n))⟩

variable {ms : List Mark} {literals : List (Nat × Nat)} {s : Text} {first : Nat}

theorem Tells.getElem?_eq_some_iff (tells : Tells ms literals s first) {c : Char} {n : Nat} :
    ms[n]? = some ⟨c, false⟩ ↔ s[first + n]? = some c ∧ IsOutside literals (first + n) := by
  rw [tells, Option.map_eq_some_iff]
  simp

theorem Tells.count_take (tells : Tells ms literals s first) (c : Char) (n : Nat) :
    (ms.take n).count ⟨c, false⟩ = number literals c s first (first + n) := by
  unfold number
  rw [Nat.add_sub_cancel_left]
  induction n with
  | zero => simp
  | succ n ih =>
    rw [List.take_add_one, List.count_append, ih, List.range'_concat, List.countP_append, Nat.one_mul]
    congr 1
    have here := tells.getElem?_eq_some_iff (c := c) (n := n)
    by_cases shown : ms[n]? = some ⟨c, false⟩
    · simp [shown, here.1 shown]
    · cases isMark : ms[n]? with
      | none => simp [← here, isMark]
      | some m =>
        have other : m ≠ ⟨c, false⟩ := fun same => shown (isMark.trans (congrArg some same))
        simp [← here, isMark, other]

end Counts

/-! ## Matches -/

/-- The delimiter at `last` closes what is opened at `first`.  What is counted stands outside of some
literals. -/
structure IsMatch (literals : List (Nat × Nat)) (opening closing : Char) (s : Text) (first last : Nat) :
    Prop where
  behind : first ≤ last
  closes : s[last]? = some closing ∧ IsOutside literals last
  balanced : number literals opening s first (last + 1) = number literals closing s first (last + 1)
  nested : ∀ index, first < index → index ≤ last →
    number literals closing s first index < number literals opening s first index

section Matches

variable {opening closing : Char} {ms : List Mark} {literals : List (Nat × Nat)} {s : Text} {first : Nat}

/-- A scan of the marks from an opening delimiter on ends at its match. -/
theorem Tells.closeFrom?_iff (tells : Tells ms literals s first) (distinct : opening ≠ closing)
    (opens : s[first]? = some opening) (outside : IsOutside literals first) {last : Nat} :
    (closeFrom? (· == opening) (· == closing) 0 ms).map (first + ·) = some last ↔
      IsMatch literals opening closing s first last := by
  -- the depth is the difference of the two numbers, so the scan can be told in numbers alone
  have depth (n : Nat) : depthAlong (· == opening) (· == closing) (ms.take n) =
      (number literals opening s first (first + n) : Int) - number literals closing s first (first + n) := by
    rw [depthAlong_eq_count distinct, tells.count_take, tells.count_take]
  have scan (n : Nat) : closeFrom? (· == opening) (· == closing) 0 ms = some n ↔
      (s[first + n]? = some closing ∧ IsOutside literals (first + n)) ∧
        number literals opening s first (first + n + 1) = number literals closing s first (first + n + 1) ∧
        ∀ k, 0 < k → k ≤ n →
          number literals closing s first (first + k) < number literals opening s first (first + k) := by
    obtain ⟨ms', rfl⟩ : ∃ ms', ms = ⟨opening, false⟩ :: ms' :=
      List.head?_eq_some_iff.1 (List.head?_eq_getElem? ▸ tells.getElem?_eq_some_iff.2 ⟨opens, outside⟩)
    rw [closeFrom?_cons_eq_some_iff (by simp [markStep_eq])]
    simp only [markStep_eq_neg_one_iff distinct, exists_eq_right, tells.getElem?_eq_some_iff, depth]
    refine and_congr_right fun _ => and_congr ?_ (forall_congr' fun k => imp_congr_right fun _ =>
      imp_congr_right fun _ => ?_)
    · rw [Int.sub_eq_zero, Int.natCast_inj, Nat.add_assoc]
    · rw [Int.sub_pos, Int.ofNat_lt]
  rw [Option.map_eq_some_iff]
  constructor
  · rintro ⟨n, found, rfl⟩
    obtain ⟨closes, balanced, nested⟩ := (scan n).1 found
    refine ⟨Nat.le_add_right .., closes, balanced, fun index after within => ?_⟩
    obtain ⟨k, rfl⟩ := Nat.exists_eq_add_of_le (Nat.le_of_lt after)
    exact nested k (by omega) (by omega)
  · rintro ⟨behind, closes, balanced, nested⟩
    obtain ⟨n, rfl⟩ := Nat.exists_eq_add_of_le behind
    exact ⟨n, (scan n).2 ⟨closes, balanced, fun k pos le => nested _ (by omega) (by omega)⟩, rfl⟩

theorem tells_marks (s : Text) (first : Nat) : Tells (marks (s.drop first)) (skippedFrom s first) s first :=
  getElem?_marks_drop s first

/-- Without recognised literals every character counts. -/
theorem tells_unquotedMarks (s : Text) (first : Nat) : Tells (unquotedMarks (s.drop first)) [] s first := by
  intro n
  have outside : IsOutside [] (first + n) := List.forall_mem_nil _
  rw [unquotedMarks, List.getElem?_map, List.getElem?_drop, decide_eq_true outside]
  rfl

end Matches

/-- The match of the parenthesis at an index. -/
def matchFrom? (skipsLiterals : Bool) (s : Text) (first : Nat) : Option Nat :=
  (if skipsLiterals then matchingParen? (s.drop first) else matchingPlainParen? (s.drop first)).map
    (first + ·)

/-- The content behind the delimiter at an index, and the index of its match. -/
def contentFrom? (opening closing : Char) (s : Text) (first : Nat) : Option (Text × Nat) :=
  (balanced? [opening] [closing] (s.drop first)).map fun (content, close) => (content, first + close)

section Positions

variable {s : Text} {first : Nat}

/-- A quote opens no parentheses, so the literals that are skipped from there on start behind it. -/
theorem isOutside_first {c : Char} (here : s[first]? = some c) (plain : isQuote c = false) :
    IsOutside (skippedFrom s first) first := by
  have mark := (tells_marks s first).getElem?_eq_some_iff (c := c) (n := 0)
  refine (mark.1 ?_).2
  rw [marks_drop_plain here (by simp [plain])]
  rfl

theorem matchFrom?_eq_some_iff (opens : s[first]? = some '(') (skipsLiterals : Bool) (last : Nat) :
    matchFrom? skipsLiterals s first = some last ↔
      IsMatch (if skipsLiterals then skippedFrom s first else []) '(' ')' s first last := by
  cases skipsLiterals with
  | true =>
    exact (tells_marks s first).closeFrom?_iff (by decide) opens (isOutside_first opens rfl)
  | false =>
    exact (tells_unquotedMarks s first).closeFrom?_iff (by decide) opens (List.forall_mem_nil _)

theorem contentFrom?_eq {opening : Char} (opens : s[first]? = some opening) (closing : Char) :
    contentFrom? opening closing s first =
      (if opening = '(' ∧ closing = ')' then matchFrom? true s first
        else (closeFrom? (· == opening) (· == closing) 0 (unquotedMarks (s.drop first))).map (first + ·)).map
        fun last => ((s.take last).drop (first + 1), last) := by
  obtain ⟨inside, rfl⟩ := List.getElem?_eq_some_iff.1 opens
  have single (c : Char) : ([·] == [c]) = (· == c) := by
    funext d
    simp
  have slice (n : Nat) : ((s.drop first).take n).drop 1 = (s.take (first + n)).drop (first + 1) := by
    rw [List.take_drop, List.drop_drop]
  have isHead : s.drop first = s[first] :: s.drop (first + 1) := List.drop_eq_getElem_cons inside
  have found : balanced? [s[first]] [closing] (s.drop first) =
      (if s[first] = '(' ∧ closing = ')' then matchingParen? (s.drop first)
        else closeFrom? (· == s[first]) (· == closing) 0 (unquotedMarks (s.drop first))).map
        fun close => (((s.drop first).take close).drop 1, close) := by
    rw [isHead, balanced?, if_pos rfl]
    simp only [single, List.cons.injEq, and_true]
  rw [contentFrom?, found]
  unfold matchFrom?
  split <;> simp only [Option.map_map, Function.comp_def, slice, if_true]

theorem contentFrom?_eq_some_iff {opening closing : Char} (distinct : opening ≠ closing)
    (opens : s[first]? = some opening) (content : Text) (last : Nat) :
    contentFrom? opening closing s first = some (content, last) ↔
      IsMatch (if opening = '(' ∧ closing = ')' then skippedFrom s first else []) opening closing s first
        last ∧ content = (s.take last).drop (first + 1) := by
  have matches_ : (if opening = '(' ∧ closing = ')' then matchFrom? true s first
      else (closeFrom? (· == opening) (· == closing) 0 (unquotedMarks (s.drop first))).map (first + ·)) =
        some last ↔ IsMatch (if opening = '(' ∧ closing = ')' then skippedFrom s first else []) opening
          closing s first last := by
    split
    · rename_i parens
      obtain ⟨rfl, rfl⟩ := parens
      exact matchFrom?_eq_some_iff opens true last
    · exact (tells_unquotedMarks s first).closeFrom?_iff distinct opens (List.forall_mem_nil _)
  rw [contentFrom?_eq opens, Option.map_eq_some_iff, ← matches_]
  constructor
  · rintro ⟨last, found, same⟩
    cases same
    exact ⟨found, rfl⟩
  · rintro ⟨found, rfl⟩
    exact ⟨last, found, rfl⟩

end Positions

/-- A parenthesis is matched exactly by its match, and so is any other opening delimiter.  Literals are
skipped between parentheses only, and there on request. -/
theorem finds_match_iff (s : Text) (first : Nat) :
    (s[first]? = some '(' → ∀ skipsLiterals : Bool,
      let literals := if skipsLiterals then skippedFrom s first else []
      (∀ last, matchFrom? skipsLiterals s first = some last ↔ IsMatch literals '(' ')' s first last) ∧
        (matchFrom? skipsLiterals s first = none ↔ ∀ last, ¬ IsMatch literals '(' ')' s first last)) ∧
    ∀ opening closing : Char, opening ≠ closing → s[first]? = some opening →
      let literals := if opening = '(' ∧ closing = ')' then skippedFrom s first else []
      (∀ content last, contentFrom? opening closing s first = some (content, last) ↔
        IsMatch literals opening closing s first last ∧ content = (s.take last).drop (first + 1)) ∧
        (contentFrom? opening closing s first = none ↔
          ∀ last, ¬ IsMatch literals opening closing s first last) := by
  constructor
  · intro opens skipsLiterals
    have found := matchFrom?_eq_some_iff opens skipsLiterals
    refine ⟨found, ?_⟩
    rw [Option.eq_none_iff_forall_ne_some]
    exact forall_congr' fun last => not_congr (found last)
  · intro opening closing distinct opens
    have found := contentFrom?_eq_some_iff distinct opens
    refine ⟨found, ?_⟩
    rw [Option.eq_none_iff_forall_ne_some, Prod.forall]
    constructor
    · intro absent last isMatch
      exact absent _ last ((found _ last).2 ⟨isMatch, rfl⟩)
    · intro noMatch content last isFound
      exact noMatch last ((found content last).1 isFound).1

/-- A parenthesis in a literal is the match where literals are not skipped, and a brace in one always is. -/
theorem finds_match_in_call :
    let s := "f(a, ')', (b)) \x7b '\x7d' \x7d".toList
    s[1]? = some '(' ∧ IsMatch (skippedFrom s 1) '(' ')' s 1 13 ∧ IsMatch [] '(' ')' s 1 6 ∧
      s[15]? = some '{' ∧ IsMatch [] '{' '}' s 15 18 := by
  intro s
  have parens := (finds_match_iff s 1).1 (by decide)
  have braces := (finds_match_iff s 15).2 '{' '}' (by decide) (by decide)
  exact ⟨by decide, ((parens true).1 13).1 (by decide +kernel), ((parens false).1 6).1 (by decide +kernel),
    by decide, ((braces.1 " '".toList 18).1 (by decide +kernel)).1⟩

end Delimiter

end ContractInterface
