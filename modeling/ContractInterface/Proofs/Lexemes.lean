import ContractInterface.Declaration.Extraction
import ContractInterface.Proofs.Stripping

/-! # Lexemes

A source text read from the front is a sequence of lexemes: literals, measured by `lengthBehind`, line
comments, block comments and the other characters one by one.  Nothing is lost in between
(`flatMap_text_lexemes`), and stripping keeps every lexeme but the comments
(`strip_eq_flatMap_kept`).

What is left is read as the lexemes that were kept (`lexemes_strip`).  Two things have to be seen for
that: a slash that starts no comment is not brought together with one that follows a comment
(`startsComment_stripFrom`), and a literal closes where it did, or reaches to the end again
(`lengthBehind_take_append`).
-/

namespace ContractInterface.Comment

open Literal

/-! ## Reading a source -/

/-- What a source text consists of. -/
inductive Lexeme where
  | char (c : Char)
  | literal (text : Text)
  | lineComment (text : Text)
  | blockComment (text : Text)
deriving DecidableEq, Repr

/-- The number of characters that a block comment has behind its opening, its closing included. -/
def blockLength : Text → Nat
  | '*' :: '/' :: _ => 2
  | _ :: s => blockLength s + 1
  -- an open comment reaches to the end of the text
  | [] => 0

/-- The lexemes of a source text. -/
def lexemes : Text → List Lexeme
  | '/' :: '/' :: s =>
    .lineComment ('/' :: '/' :: s.takeWhile (· != '\n')) :: lexemes (s.dropWhile (· != '\n'))
  | '/' :: '*' :: s =>
    .blockComment ('/' :: '*' :: s.take (blockLength s)) :: lexemes (s.drop (blockLength s))
  | c :: s =>
    if isQuote c then
      .literal (c :: s.take (lengthBehind c s)) :: lexemes (s.drop (lengthBehind c s))
    else .char c :: lexemes s
  | [] => []
termination_by s => s.length
decreasing_by
  · have := (s.dropWhile_sublist (· != '\n')).length_le
    simp only [List.length_cons]
    omega
  all_goals
    simp only [List.length_cons, List.length_drop]
    omega

namespace Lexeme

/-- The characters of a lexeme. -/
def text : Lexeme → Text
  | char c => [c]
  | literal text | lineComment text | blockComment text => text

def isComment : Lexeme → Bool
  | lineComment _ | blockComment _ => true
  | _ => false

/-- The literal that a lexeme is. -/
def literal? : Lexeme → Option Text
  | literal text => some text
  | _ => none

/-- What stripping makes of a lexeme: the line breaks of a block comment stay. -/
def kept : Lexeme → List Lexeme
  | char c => [.char c]
  | literal text => [.literal text]
  | lineComment _ => []
  | blockComment text => (text.filter (· == '\n')).map .char

theorem isComment_of_mem_kept {l k : Lexeme} (member : k ∈ l.kept) : k.isComment = false := by
  cases l with
  | char c => rw [List.mem_singleton.1 member]; rfl
  | literal text => rw [List.mem_singleton.1 member]; rfl
  | lineComment text => exact absurd member List.not_mem_nil
  | blockComment text =>
    obtain ⟨c, -, rfl⟩ := List.mem_map.1 member
    rfl

theorem filterMap_literal?_kept (l : Lexeme) : l.kept.filterMap literal? = l.literal?.toList := by
  cases l with
  | blockComment text =>
    rw [kept, List.filterMap_map]
    exact List.filterMap_eq_nil_iff.2 fun _ _ => rfl
  | _ => rfl

theorem flatMap_kept_kept (l : Lexeme) : l.kept.flatMap kept = l.kept := by
  cases l with
  | blockComment text =>
    rw [kept, List.flatMap_map]
    exact List.map_eq_flatMap.symm
  | _ => rfl

theorem flatMap_text_map_char (s : Text) : (s.map Lexeme.char).flatMap text = s := by
  induction s with
  | nil => rfl
  | cons c s ih => exact congrArg (c :: ·) ih

end Lexeme

theorem lexemes_char {c : Char} {s : Text} (plain : startsComment (c :: s) = false)
    (plainChar : ¬isQuote c = true) : lexemes (c :: s) = .char c :: lexemes s := by
  rw [lexemes, if_neg plainChar]
  · rintro t rfl rfl
    simp [startsComment] at plain
  · rintro t rfl rfl
    simp [startsComment] at plain

theorem lexemes_literal {c : Char} (opens : isQuote c = true) (s : Text) :
    lexemes (c :: s) =
      .literal (c :: s.take (lengthBehind c s)) :: lexemes (s.drop (lengthBehind c s)) := by
  rw [lexemes, if_pos opens]
  all_goals
    rintro t rfl
    cases opens

/-- Nothing of a text is lost between its lexemes. -/
theorem flatMap_text_lexemes (s : Text) : (lexemes s).flatMap Lexeme.text = s := by
  fun_induction lexemes s with
  | case1 s ih =>
    simp only [List.flatMap_cons, ih, Lexeme.text, List.cons_append, List.takeWhile_append_dropWhile]
  | case2 s ih => simp only [List.flatMap_cons, ih, Lexeme.text, List.cons_append, List.take_append_drop]
  | case3 c s _ _ opens ih =>
    simp only [List.flatMap_cons, ih, Lexeme.text, List.cons_append, List.take_append_drop]
  | case4 c s _ _ _ ih => simp only [List.flatMap_cons, ih, Lexeme.text, List.cons_append, List.nil_append]
  | case5 => rfl

/-! ## Stripping by lexemes -/

/-- A literal stays as it is. -/
theorem stripFrom_literal_eq (quote : Char) (s : Text) :
    stripFrom (.literal quote) s =
      s.take (lengthBehind quote s) ++ strip (s.drop (lengthBehind quote s)) := by
  fun_induction lengthBehind quote s with
  | case1 d s ih => rw [stripFrom_escape, ih]; rfl
  | case2 s single =>
    rw [stripFrom_literal fun isEscape => ?_, if_pos rfl]
    · rfl
    · cases s with
      | nil => rfl
      | cons d s => exact absurd (single d s isEscape rfl) id
  | case3 c s single stays_ ih =>
    rw [stripFrom_literal fun isEscape => ?_, if_neg stays_, ih]
    · rfl
    · cases s with
      | nil => rfl
      | cons d s => exact absurd (single d s isEscape rfl) id
  | case4 => rfl

/-- A line comment reaches to the next line break. -/
theorem stripFrom_lineComment_eq (s : Text) :
    stripFrom .lineComment s = strip (s.dropWhile (· != '\n')) := by
  induction s with
  | nil => rfl
  | cons c s ih =>
    rw [stripFrom_lineComment, List.dropWhile_cons]
    by_cases ends : c = '\n'
    · subst ends
      exact (stripFrom_code (startsComment_eq_false (by decide) s) (by decide)).symm
    · rw [if_neg ends, if_pos (bne_iff_ne.2 ends), ih]

/-- Of a block comment its line breaks stay. -/
theorem stripFrom_blockComment_eq (s : Text) :
    stripFrom .blockComment s =
      (s.take (blockLength s)).filter (· == '\n') ++ strip (s.drop (blockLength s)) := by
  fun_induction blockLength s with
  | case1 s => rfl
  | case2 c s noClose ih =>
    rw [stripFrom_blockComment (head?_ne_of_fallthrough noClose), ih, List.take_succ_cons,
      List.filter_cons]
    by_cases ends : c = '\n'
    · subst ends
      rfl
    · rw [if_neg ends, if_neg (by simpa using ends)]
      rfl
  | case3 => rfl

/-- Stripping keeps the lexemes but the comments. -/
theorem strip_eq_flatMap_kept (s : Text) :
    strip s = ((lexemes s).flatMap Lexeme.kept).flatMap Lexeme.text := by
  fun_induction lexemes s with
  | case1 s ih =>
    rw [List.flatMap_cons, Lexeme.kept, List.nil_append, ← ih, ← stripFrom_lineComment_eq]
    rfl
  | case2 s ih =>
    rw [List.flatMap_cons, List.flatMap_append, ← ih, Lexeme.kept, Lexeme.flatMap_text_map_char]
    exact stripFrom_blockComment_eq s
  | case3 c s _ _ opens ih =>
    rw [List.flatMap_cons, List.flatMap_append, ← ih, strip_eq_stripFrom, stripFrom_quote opens,
      stripFrom_literal_eq]
    simp [Lexeme.kept, Lexeme.text]
  | case4 c s noLine noBlock plainChar ih =>
    have plain := startsComment_of_fallthrough noLine noBlock
    rw [List.flatMap_cons, List.flatMap_append, ← ih, strip_eq_stripFrom, stripFrom_code plain plainChar]
    rfl
  | case5 => rfl

/-! ## What is left is read alike -/

/-- A literal closes where it did when other text follows it, and an open one has no text behind it. -/
theorem lengthBehind_take_append {quote : Char} (isQuoted : isQuote quote = true) {s t : Text}
    (open_ : s.drop (lengthBehind quote s) = [] → t = []) :
    lengthBehind quote (s.take (lengthBehind quote s) ++ t) = lengthBehind quote s := by
  have notEscape : quote ≠ '\\' := isQuote_ne_backslash isQuoted
  fun_induction lengthBehind quote s with
  | case1 d s ih => exact congrArg (· + 2) (ih open_)
  | case2 s single =>
    rw [List.take_succ_cons, List.take_zero, List.singleton_append, lengthBehind, if_pos rfl]
    exact fun _ _ isEscape _ => notEscape isEscape
  | case3 c s single stays_ ih =>
    rw [List.take_succ_cons, List.cons_append, lengthBehind, if_neg stays_, ih open_]
    -- a backslash that ends the text has nothing to take along afterwards either
    intro d u isEscape isCons
    cases s with
    | nil =>
      rw [open_ rfl] at isCons
      cases isCons
    | cons e s => exact single e s isEscape rfl
  | case4 => rw [open_ rfl]; rfl

theorem lexemes_map_char_append {s : Text} (plain : ∀ c ∈ s, c ≠ '/' ∧ ¬isQuote c = true) (t : Text) :
    lexemes (s ++ t) = s.map .char ++ lexemes t := by
  induction s with
  | nil => rfl
  | cons c s ih =>
    obtain ⟨noSlash, noQuote⟩ := plain c List.mem_cons_self
    rw [List.cons_append, lexemes_char (startsComment_eq_false noSlash _) noQuote,
      ih fun d member => plain d (List.mem_cons_of_mem c member)]
    rfl

/-- A stripped text is read as the lexemes that were kept. -/
theorem lexemes_strip (s : Text) : lexemes (strip s) = (lexemes s).flatMap Lexeme.kept := by
  -- what is kept of a lexeme is read as that lexeme again, in front of what is kept of the rest
  fun_induction lexemes s with
  | case1 s ih =>
    rw [List.flatMap_cons, Lexeme.kept, List.nil_append, ← ih, ← stripFrom_lineComment_eq]
    rfl
  | case2 s ih =>
    have breaks : ∀ c ∈ (s.take (blockLength s)).filter (· == '\n'), c ≠ '/' ∧ ¬isQuote c = true := by
      intro c member
      rw [eq_of_beq (List.mem_filter.1 member).2]
      decide
    have left : strip ('/' :: '*' :: s) = _ := stripFrom_blockComment_eq s
    rw [List.flatMap_cons, ← ih, left, lexemes_map_char_append breaks]
    rfl
  | case3 c s _ _ opens ih =>
    have closes : lengthBehind c (s.take (lengthBehind c s) ++ strip (s.drop (lengthBehind c s))) =
        lengthBehind c s := lengthBehind_take_append opens fun ended => by rw [ended]; rfl
    have taken : (s.take (lengthBehind c s)).length = lengthBehind c s :=
      List.length_take_of_le (lengthBehind_le c s)
    rw [strip_eq_stripFrom, stripFrom_quote opens, stripFrom_literal_eq, lexemes_literal opens, closes,
      List.take_left' taken, List.drop_left' taken, ih]
    rfl
  | case4 c s noLine noBlock plainChar ih =>
    have plain := startsComment_of_fallthrough noLine noBlock
    rw [strip_eq_stripFrom, stripFrom_code plain plainChar,
      lexemes_char (startsComment_stripFrom plain) plainChar, ← strip_eq_stripFrom, ih]
    rfl
  | case5 =>
    show lexemes [] = []
    rw [lexemes]

theorem isComment_of_mem_lexemes_strip {s : Text} {l : Lexeme} (member : l ∈ lexemes (strip s)) :
    l.isComment = false := by
  rw [lexemes_strip] at member
  obtain ⟨_, -, kept⟩ := List.mem_flatMap.1 member
  exact Lexeme.isComment_of_mem_kept kept

/-- Stripping leaves the literals, and brings none about. -/
theorem literals_strip (s : Text) :
    (lexemes (strip s)).filterMap Lexeme.literal? = (lexemes s).filterMap Lexeme.literal? := by
  rw [lexemes_strip]
  induction lexemes s with
  | nil => rfl
  | cons l more ih =>
    rw [List.flatMap_cons, List.filterMap_append, Lexeme.filterMap_literal?_kept, ih, List.filterMap_cons]
    cases l.literal? <;> rfl

/-! ## Stripping twice -/

theorem strip_strip (s : Text) : strip (strip s) = strip s := by
  have keptAgain : ((lexemes s).flatMap Lexeme.kept).flatMap Lexeme.kept = (lexemes s).flatMap Lexeme.kept := by
    rw [List.flatMap_assoc]
    exact congrArg ((lexemes s).flatMap ·) (funext Lexeme.flatMap_kept_kept)
  rw [strip_eq_flatMap_kept (strip s), lexemes_strip, keptAgain, ← strip_eq_flatMap_kept]

/-- Stripping leaves no comment and every literal, so there is nothing to strip off a second time, neither for
the discovery of types nor for the interface or the signatures of a source. -/
theorem nothing_left_to_strip (s : Text) :
    (∀ l ∈ lexemes (strip s), l.isComment = false) ∧
      (lexemes (strip s)).filterMap Lexeme.literal? = (lexemes s).filterMap Lexeme.literal? ∧
      strip (strip s) = strip s ∧
      (∀ r : Registry, r.discover (strip s) = r.discover s) ∧
      (∀ options shared, extract options shared (strip s) = extract options shared s) ∧
      ∀ shared, Signature.entries (strip s) shared = Signature.entries s shared := by
  have again : strip (strip s) = strip s := strip_strip s
  refine ⟨fun _ member => isComment_of_mem_lexemes_strip member, literals_strip s, again, fun r => ?_,
    fun options shared => ?_, fun shared => ?_⟩
  · unfold Registry.discover
    rw [again]
  · unfold extract
    rw [again]
  · unfold Signature.entries
    rw [again]

end ContractInterface.Comment
