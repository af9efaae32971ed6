import ContractInterface.Text.Blank

/-! # Reading a text run by run

A text is read from left to right by its maximal runs of member characters.  At each run a reader
sees the run and what follows it, and may take it together with some of the characters behind it;
reading goes on after what was taken.  All that is not taken stays plain.

* `spans` cuts a text into plain and found parts, which put together give the text again
  (`flatMap_text_spans`);
* `replacing` replaces each found part by the text that the reader gives;
* `locate` lists what was found with the index at which it starts. -/

namespace ContractInterface.Text

/-- A part of a text: plain, or found by a reader with what it stands for. -/
inductive Span (α : Type) where
  | plain (text : Text)
  | found (text : Text) (value : α)

/-- The characters of a part. -/
def Span.text {α : Type} : Span α → Text
  | .plain text => text
  | .found text _ => text

/-- The parts of a text.  The reader gets a maximal run and the text behind it; it answers with a
value and with the number of characters that it takes from the text behind. -/
def spans {α : Type} (isMember : Char → Bool) (read? : Text → Text → Option (α × Nat))
    (s : Text) : List (Span α) :=
  match s with
  | [] => []
  | c :: s =>
    -- a run is read at its start only, so no reader sees a part of a word
    if isMember c then
      let run := c :: s.takeWhile isMember
      let rest := s.dropWhile isMember
      match read? run rest with
      | some (value, taken) =>
        .found (run ++ rest.take taken) value :: spans isMember read? (rest.drop taken)
      | none => .plain run :: spans isMember read? rest
    else .plain [c] :: spans isMember read? s
termination_by s.length
decreasing_by
  all_goals
    have := length_dropWhile_le isMember s
    simp only [List.length_cons, List.length_drop]
    omega

/-- A text with each found part replaced by the reader's text. -/
def replacing (isMember : Char → Bool) (read? : Text → Text → Option (Text × Nat)) (s : Text) : Text :=
  (spans isMember read? s).flatMap fun
    | .plain text => text
    | .found _ replacement => replacement

/-- The values of the found parts, each with the index of its first character, when the first part
starts at `index`. -/
def locateFrom {α : Type} (index : Nat) : List (Span α) → List (Nat × α)
  | [] => []
  | .plain text :: more => locateFrom (index + text.length) more
  | .found text value :: more => (index, value) :: locateFrom (index + text.length) more

/-- What a reader finds in a text, each with the index at which it starts. -/
def locate {α : Type} (isMember : Char → Bool) (read? : Text → Text → Option (α × Nat))
    (s : Text) : List (Nat × α) :=
  locateFrom 0 (spans isMember read? s)

/-! ## Nothing is lost -/

theorem flatMap_text_spans {α : Type} (isMember : Char → Bool)
    (read? : Text → Text → Option (α × Nat)) (s : Text) :
    (spans isMember read? s).flatMap Span.text = s := by
  fun_induction spans isMember read? s with
  | case1 => rfl
  | case2 c s _ run rest value taken _ ih =>
    simp [ih, Span.text, run, rest, List.append_assoc]
  | case3 c s _ run rest _ ih => simp [ih, Span.text, run, rest]
  | case4 c s _ ih => simp [ih, Span.text]

/-- Replacing by texts that are no longer than what they replace does not lengthen a text. -/
theorem length_replacing_le {isMember : Char → Bool} {read? : Text → Text → Option (Text × Nat)}
    (h : ∀ run rest replacement taken, read? run rest = some (replacement, taken) →
      replacement.length ≤ run.length + (rest.take taken).length) (s : Text) :
    (replacing isMember read? s).length ≤ s.length := by
  unfold replacing
  fun_induction spans isMember read? s with
  | case1 => simp
  | case2 c s _ run rest value taken hr ih =>
    have hv := h run rest value taken hr
    have hs : s.length = (s.takeWhile isMember).length + rest.length := by
      rw [← List.length_append, List.takeWhile_append_dropWhile]
    simp only [List.flatMap_cons, List.length_append, List.length_cons, run, List.length_take,
      List.length_drop] at hv ih ⊢
    omega
  | case3 c s _ run rest _ ih =>
    have hs : s.length = (s.takeWhile isMember).length + rest.length := by
      rw [← List.length_append, List.takeWhile_append_dropWhile]
    simp only [List.flatMap_cons, List.length_append, List.length_cons, run] at ih ⊢
    omega
  | case4 c s _ ih => simpa [List.flatMap_cons] using ih

end ContractInterface.Text
