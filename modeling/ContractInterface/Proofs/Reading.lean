import ContractInterface.Literal

/-! # Reading literals character by character

The marks of a text come from an automaton that reads one character at a time and only remembers
whether it is in a literal, of which quote, and whether a backslash has just been read
(`marksFrom_eq_marks`).  What is read before a position therefore acts on what follows through that state
alone: the marks of a concatenation are those of its parts (`marks_append`), the second part read from
where the first one ends.
-/

namespace ContractInterface.Literal

/-- Where reading stands between two characters. -/
inductive Reading where
  | outside
  | inside (quote : Char)
  | escaped (quote : Char)
deriving DecidableEq, Repr

namespace Reading

/-- Where reading stands behind a character. -/
def next : Reading → Char → Reading
  | .outside, c => if isQuote c then .inside c else .outside
  | .inside quote, c =>
    if c = '\\' then .escaped quote else if c = quote then .outside else .inside quote
  | .escaped quote, _ => .inside quote

/-- Whether a character belongs to a literal. -/
def isQuoted : Reading → Char → Bool
  | .outside, c => isQuote c
  | _, _ => true

/-- Where reading stands behind a text. -/
def after (r : Reading) (s : Text) : Reading :=
  s.foldl next r

/-- The marks of a text that is read from a given state on. -/
def marks : Reading → Text → List Mark
  | _, [] => []
  | r, c :: s => ⟨c, r.isQuoted c⟩ :: marks (r.next c) s

@[simp] theorem after_nil (r : Reading) : r.after [] = r := rfl

@[simp] theorem after_cons (r : Reading) (c : Char) (s : Text) :
    r.after (c :: s) = (r.next c).after s := rfl

@[simp] theorem after_append (r : Reading) (s t : Text) :
    r.after (s ++ t) = (r.after s).after t :=
  List.foldl_append

@[simp] theorem marks_nil (r : Reading) : r.marks [] = [] := rfl

@[simp] theorem marks_cons (r : Reading) (c : Char) (s : Text) :
    r.marks (c :: s) = ⟨c, r.isQuoted c⟩ :: (r.next c).marks s := rfl

theorem marks_append (r : Reading) (s t : Text) :
    r.marks (s ++ t) = r.marks s ++ (r.after s).marks t := by
  induction s generalizing r with
  | nil => rfl
  | cons c s ih => simp [ih]

@[simp] theorem map_char_marks (r : Reading) (s : Text) : (r.marks s).map Mark.char = s := by
  induction s generalizing r with
  | nil => rfl
  | cons c s ih => simp [ih]

@[simp] theorem length_marks (r : Reading) (s : Text) : (r.marks s).length = s.length := by
  rw [← List.length_map Mark.char, map_char_marks]

/-- The state inside the literal of a quote, or outside of all. -/
def ofQuote : Option Char → Reading
  | none => .outside
  | some quote => .inside quote

/-- The quote of the literal in which reading stands. -/
def quote? : Reading → Option Char
  | .outside => none
  | .inside quote | .escaped quote => some quote

theorem isQuote_of_next {r : Reading} (known : ∀ quote ∈ r.quote?, isQuote quote = true) (c : Char) :
    ∀ quote ∈ (r.next c).quote?, isQuote quote = true := by
  intro quote member
  cases r with
  | outside =>
    simp only [next] at member
    split at member
    · rename_i opens
      cases member
      exact opens
    · cases member
  | inside _ =>
    simp only [next] at member
    split at member
    · exact known quote member
    · split at member
      · cases member
      · exact known quote member
  | escaped _ => exact known quote member

theorem isQuote_of_after {r : Reading} (known : ∀ quote ∈ r.quote?, isQuote quote = true)
    (s : Text) : ∀ quote ∈ (r.after s).quote?, isQuote quote = true := by
  induction s generalizing r with
  | nil => exact known
  | cons c s ih => exact ih (isQuote_of_next known c)

end Reading

theorem isQuote_ne_backslash {quote : Char} (isQuoted : isQuote quote = true) : quote ≠ '\\' := by
  rintro rfl
  exact absurd isQuoted (by decide)

theorem marksFrom_eq_marks (inside : Option Char) (s : Text)
    (isQuoted : ∀ quote ∈ inside, isQuote quote = true) :
    marksFrom inside s = (Reading.ofQuote inside).marks s := by
  fun_induction marksFrom inside s with
  | case1 c s opens ih =>
    rw [ih (by rintro _ ⟨⟩; exact opens)]
    simp [Reading.ofQuote, Reading.next, Reading.isQuoted, opens]
  | case2 c s plain ih =>
    rw [ih (by simp)]
    simp [Reading.ofQuote, Reading.next, Reading.isQuoted, plain]
  | case3 quote d s ih =>
    rw [ih isQuoted]
    simp [Reading.ofQuote, Reading.next, Reading.isQuoted]
  | case4 quote c s alone ih =>
    have known := isQuoted quote rfl
    rw [ih (by intro _ member; split at member <;> simp_all)]
    simp only [Reading.ofQuote, Reading.marks_cons, Reading.isQuoted, List.cons.injEq, true_and]
    by_cases backslash : c = '\\'
    · -- a backslash that ends the text escapes nothing
      have ends : s = [] := by
        cases s with
        | nil => rfl
        | cons d s => exact absurd rfl (alone d s backslash)
      rw [ends, Reading.marks_nil, Reading.marks_nil]
    · by_cases closes : c = quote <;> simp [Reading.next, backslash, closes, isQuote_ne_backslash known]
  | case5 => rfl

/-- The marks of a text are read one by one. -/
theorem marks_eq_marks (s : Text) : marks s = Reading.outside.marks s :=
  marksFrom_eq_marks none s (by simp)

/-- A text whose literals are all closed. -/
def IsTerminated (s : Text) : Prop :=
  Reading.outside.after s = .outside

theorem IsTerminated.append {s t : Text} (left : IsTerminated s) (right : IsTerminated t) :
    IsTerminated (s ++ t) := by
  unfold IsTerminated
  rw [Reading.after_append, left, right]

theorem marks_append {s : Text} (closed : IsTerminated s) (t : Text) :
    marks (s ++ t) = marks s ++ marks t := by
  simp only [marks_eq_marks, Reading.marks_append]
  rw [closed]

/-! ## Plain contents -/

/-- A content without quotes, backslashes and line feeds. -/
structure IsPlain (content : Text) : Prop where
  noQuote : ∀ c ∈ content, isQuote c = false
  noEscape : '\\' ∉ content
  noBreak : '\n' ∉ content

theorem isPlain_iff {content : Text} :
    IsPlain content ↔ content.all (fun c => !isQuote c && c != '\\' && c != '\n') = true := by
  simp only [List.all_eq_true, Bool.and_eq_true, Bool.not_eq_true', bne_iff_ne]
  constructor
  · intro plain c member
    refine ⟨⟨plain.noQuote c member, ?_⟩, ?_⟩
    · exact fun same => plain.noEscape (same ▸ member)
    · exact fun same => plain.noBreak (same ▸ member)
  · intro all
    refine ⟨fun c member => (all c member).1.1, fun member => ?_, fun member => ?_⟩
    · exact (all _ member).1.2 rfl
    · exact (all _ member).2 rfl

instance (content : Text) : Decidable (IsPlain content) :=
  decidable_of_iff _ isPlain_iff.symm

theorem IsPlain.of_cons {c : Char} {content : Text} (plain : IsPlain (c :: content)) :
    IsPlain content where
  noQuote d member := plain.noQuote d (List.mem_cons_of_mem c member)
  noEscape member := plain.noEscape (List.mem_cons_of_mem c member)
  noBreak member := plain.noBreak (List.mem_cons_of_mem c member)

theorem IsPlain.ne_escape {c : Char} {content : Text} (plain : IsPlain content)
    (member : c ∈ content) : c ≠ '\\' :=
  fun same => plain.noEscape (same ▸ member)

theorem IsPlain.ne_quote {c quote : Char} {content : Text} (plain : IsPlain content)
    (isQuoted : isQuote quote = true) (member : c ∈ content) : c ≠ quote := by
  rintro rfl
  have known := plain.noQuote c member
  rw [isQuoted] at known
  cases known

/-- A literal of the given quote and content in front of a text. -/
def enclosed (quote : Char) (content behind : Text) : Text :=
  quote :: (content ++ quote :: behind)

theorem marks_inside {quote : Char} (isQuoted : isQuote quote = true) {content : Text}
    (plain : IsPlain content) (behind : Text) :
    (Reading.inside quote).marks (content ++ quote :: behind) =
      (content ++ [quote]).map (⟨·, true⟩) ++ Reading.outside.marks behind := by
  induction content with
  | nil => simp [Reading.next, Reading.isQuoted, isQuote_ne_backslash isQuoted]
  | cons c content ih =>
    rw [List.cons_append, Reading.marks_cons, Reading.next,
      if_neg (plain.ne_escape List.mem_cons_self), if_neg (plain.ne_quote isQuoted List.mem_cons_self),
      ih plain.of_cons]
    rfl

/-- The characters of a plain literal are quoted, and reading goes on as if there were none. -/
theorem marks_enclosed {quote : Char} (isQuoted : isQuote quote = true) {content : Text}
    (plain : IsPlain content) (behind : Text) :
    marks (enclosed quote content behind) =
      (quote :: (content ++ [quote])).map (⟨·, true⟩) ++ marks behind := by
  rw [marks_eq_marks, marks_eq_marks, enclosed, Reading.marks_cons, Reading.next, if_pos isQuoted,
    marks_inside isQuoted plain]
  simp [Reading.isQuoted, isQuoted]

theorem after_inside {quote : Char} (isQuoted : isQuote quote = true) {content : Text}
    (plain : IsPlain content) (behind : Text) :
    (Reading.inside quote).after (content ++ quote :: behind) = Reading.outside.after behind := by
  induction content with
  | nil => simp [Reading.next, isQuote_ne_backslash isQuoted]
  | cons c content ih =>
    rw [List.cons_append, Reading.after_cons, Reading.next,
      if_neg (plain.ne_escape List.mem_cons_self), if_neg (plain.ne_quote isQuoted List.mem_cons_self)]
    exact ih plain.of_cons

/-- A plain literal is closed. -/
theorem after_enclosed {quote : Char} (isQuoted : isQuote quote = true) {content : Text}
    (plain : IsPlain content) (behind : Text) :
    Reading.outside.after (enclosed quote content behind) = Reading.outside.after behind := by
  rw [enclosed, Reading.after_cons, Reading.next, if_pos isQuoted, after_inside isQuoted plain]

end ContractInterface.Literal
