import ContractInterface.Comment
import ContractInterface.Proofs.Reading

/-! # Stripping comments

Reading a source text looks one character ahead, so a text can be read in two parts wherever the
first part ends in code and what follows goes on with no comment (`regionsFrom_append`).  The comments left
out leave no new ones behind: a slash in code that starts no comment is not followed by one that does
(`startsComment_stripFrom`).  Literals stay as they are (`strip_enclosed`).
-/

namespace ContractInterface.Comment

open Literal

/-! ## Reading character by character -/

/-- Whether a text, read as code, starts with a comment. -/
def startsComment : Text → Bool
  | '/' :: c :: _ => c == '/' || c == '*'
  | _ => false

theorem startsComment_eq_false {c : Char} (plain : c ≠ '/') (s : Text) :
    startsComment (c :: s) = false := by
  unfold startsComment
  split
  · rename_i isSlash
    exact absurd (List.cons.inj isSlash).1 plain
  · rfl

theorem regionsFrom_code {c : Char} {s : Text} (plain : startsComment (c :: s) = false) :
    regionsFrom .code (c :: s) =
      if isQuote c then (c, .literal) :: regionsFrom (.literal c) s
      else (c, .code) :: regionsFrom .code s := by
  rw [regionsFrom]
  · rintro t rfl rfl
    simp [startsComment] at plain
  · rintro t rfl rfl
    simp [startsComment] at plain

theorem regionsFrom_literal {quote c : Char} {s : Text} (single : c = '\\' → s = []) :
    regionsFrom (.literal quote) (c :: s) =
      (c, .literal) :: regionsFrom (if c = quote then .code else .literal quote) s := by
  rw [regionsFrom]
  rintro d t rfl rfl
  cases single rfl

theorem regionsFrom_blockComment {c : Char} {s : Text} (stays_ : c = '*' → s.head? ≠ some '/') :
    regionsFrom .blockComment (c :: s) = (c, .comment) :: regionsFrom .blockComment s := by
  rw [regionsFrom]
  rintro t rfl rfl
  exact stays_ rfl rfl

/-- Where reading stands behind a text. -/
def stateAfter : State → Text → State
  | .code, '/' :: '/' :: s => stateAfter .lineComment s
  | .code, '/' :: '*' :: s => stateAfter .blockComment s
  | .code, c :: s => if isQuote c then stateAfter (.literal c) s else stateAfter .code s
  | .literal quote, '\\' :: _ :: s => stateAfter (.literal quote) s
  | .literal quote, c :: s => stateAfter (if c = quote then .code else .literal quote) s
  | .lineComment, c :: s => if c = '\n' then stateAfter .code s else stateAfter .lineComment s
  | .blockComment, '*' :: '/' :: s => stateAfter .code s
  | .blockComment, _ :: s => stateAfter .blockComment s
  | state, [] => state

/-- The first character of a text in code starts no comment if its tests have failed. -/
theorem startsComment_of_fallthrough {c : Char} {s : Text}
    (noLine : ∀ t, c = '/' → s = '/' :: t → False) (noBlock : ∀ t, c = '/' → s = '*' :: t → False) :
    startsComment (c :: s) = false := by
  unfold startsComment
  split
  · rename_i d t same
    obtain ⟨isSlash, rfl⟩ := List.cons.inj same
    by_cases line : d = '/'
    · exact absurd (noLine t isSlash (by rw [line])) id
    · by_cases block : d = '*'
      · exact absurd (noBlock t isSlash (by rw [block])) id
      · simp [line, block]
  · rfl

theorem head?_ne_of_fallthrough {c : Char} {s : Text}
    (noClose : ∀ t, c = '*' → s = '/' :: t → False) : c = '*' → s.head? ≠ some '/' := by
  intro isStar isSlash
  cases s with
  | nil => cases isSlash
  | cons d s =>
    cases isSlash
    exact noClose s isStar rfl

theorem startsComment_append {c d : Char} {s t : Text} (apart : c = '/' → s = [] → d ≠ '/' ∧ d ≠ '*')
    (plain : startsComment (c :: s) = false) : startsComment (c :: (s ++ d :: t)) = false := by
  by_cases isSlash : c = '/'
  · subst isSlash
    cases s with
    | nil =>
      obtain ⟨line, block⟩ := apart rfl rfl
      simp [startsComment, line, block]
    | cons e s => exact plain
  · exact startsComment_eq_false isSlash _

/-- The quotes of a state are quotes. -/
def State.IsKnown (state : State) : Prop :=
  ∀ quote, state = .literal quote → isQuote quote = true

theorem isKnown_code : State.IsKnown .code := by
  rintro _ ⟨⟩

theorem isKnown_lineComment : State.IsKnown .lineComment := by
  rintro _ ⟨⟩

theorem isKnown_blockComment : State.IsKnown .blockComment := by
  rintro _ ⟨⟩

/-- A character that goes on with no comment: it is neither a slash nor a star, or is read as code behind
a text. -/
def StartsAnew (state : State) (s : Text) (d : Char) : Prop :=
  d ≠ '/' ∧ d ≠ '*' ∨ stateAfter state (s ++ [d]) = .code

theorem startsAnew_of_isQuote {quote : Char} (isQuoted : isQuote quote = true) (state : State) (s : Text) :
    StartsAnew state s quote := by
  refine .inl ⟨?_, ?_⟩ <;>
  · rintro rfl
    cases isQuoted

theorem stateAfter_code {c : Char} {s : Text} (plain : startsComment (c :: s) = false) :
    stateAfter .code (c :: s) = if isQuote c then stateAfter (.literal c) s else stateAfter .code s := by
  rw [stateAfter]
  · rintro t rfl rfl
    simp [startsComment] at plain
  · rintro t rfl rfl
    simp [startsComment] at plain

/-- A slash in code is not followed by what starts anew and starts a comment with it. -/
theorem StartsAnew.ne {d : Char} (anew : StartsAnew .code ['/'] d) : d ≠ '/' ∧ d ≠ '*' := by
  rcases anew with other | code
  · exact other
  · refine ⟨?_, ?_⟩ <;>
    · rintro rfl
      cases code

/-- A single character of a literal that is closed later is no backslash: one that ends the text leaves
the literal open. -/
theorem ne_backslash_of_closes {quote c : Char} {s : Text} (isQuoted : isQuote quote = true)
    (single : ∀ d t, c = '\\' → s = d :: t → False)
    (ends : stateAfter (if c = quote then .code else .literal quote) s = .code) : c ≠ '\\' := by
  rintro rfl
  cases s with
  | nil =>
    rw [if_neg (isQuote_ne_backslash isQuoted).symm] at ends
    cases ends
  | cons d t => exact single d t rfl rfl

/-- Behind a text that ends in code a character that starts anew is read as if the text started there. -/
theorem regionsFrom_append {state : State} {s t : Text} {d : Char} (known : state.IsKnown)
    (ends : stateAfter state s = .code) (anew : StartsAnew state s d) :
    regionsFrom state (s ++ d :: t) = regionsFrom state s ++ regionsFrom .code (d :: t) := by
  -- in each case the text goes on from a known state, and what starts anew behind the whole text
  -- starts anew behind the rest of it
  fun_induction stateAfter state s with
  | case1 s ih => simp only [List.cons_append, regionsFrom, ih isKnown_lineComment ends anew]
  | case2 s ih => simp only [List.cons_append, regionsFrom, ih isKnown_blockComment ends anew]
  | case3 c s noLine noBlock opens ih =>
    have plain := startsComment_of_fallthrough noLine noBlock
    have noSlash : c ≠ '/' := by rintro rfl; cases opens
    have known' : State.IsKnown (.literal c) := by rintro _ ⟨⟩; exact opens
    have plain' : ∀ u, startsComment (c :: (s ++ d :: u)) = false := fun u =>
      startsComment_eq_false noSlash _
    have anew' : StartsAnew (.literal c) s d := anew.imp id fun code => by
      rwa [List.cons_append, stateAfter_code (plain' []), if_pos opens] at code
    rw [List.cons_append, regionsFrom_code (plain' t), regionsFrom_code plain, if_pos opens,
      if_pos opens, ih known' ends anew']
    rfl
  | case4 c s noLine noBlock plainChar ih =>
    have plain := startsComment_of_fallthrough noLine noBlock
    have plain' : ∀ u, startsComment (c :: (s ++ d :: u)) = false := fun u =>
      startsComment_append (by rintro rfl rfl; exact anew.ne) plain
    have anew' : StartsAnew .code s d := anew.imp id fun code => by
      rwa [List.cons_append, stateAfter_code (plain' []), if_neg plainChar] at code
    rw [List.cons_append, regionsFrom_code (plain' t), regionsFrom_code plain, if_neg plainChar,
      if_neg plainChar, ih isKnown_code ends anew']
    rfl
  | case5 literal e s ih => simp only [List.cons_append, regionsFrom, ih known ends anew]
  | case6 literal c s single ih =>
    have known' : State.IsKnown (if c = literal then .code else .literal literal) := by
      split
      · exact isKnown_code
      · exact known
    have plain := ne_backslash_of_closes (known literal rfl) single ends
    have anew' : StartsAnew (if c = literal then .code else .literal literal) s d := anew.imp id fun code => by
      rwa [List.cons_append, stateAfter] at code
      exact fun e u backslash _ => absurd backslash plain
    rw [List.cons_append, regionsFrom_literal (fun backslash => absurd backslash plain),
      regionsFrom_literal (fun backslash => absurd backslash plain), ih known' ends anew']
    rfl
  | case7 s ih => simp only [List.cons_append, regionsFrom, if_true, ih isKnown_code ends anew]
  | case8 c s stays_ ih =>
    have anew' : StartsAnew .lineComment s d := anew.imp id fun code => by
      rwa [List.cons_append, stateAfter, if_neg stays_] at code
    simp only [List.cons_append, regionsFrom, stays_, if_false, ih isKnown_lineComment ends anew']
  | case9 s ih => simp only [List.cons_append, regionsFrom, ih isKnown_code ends anew]
  | case10 c s noClose ih =>
    have stays_ := head?_ne_of_fallthrough noClose
    have stays' : ∀ u, c = '*' → (s ++ d :: u).head? ≠ some '/' := by
      intro u isStar
      cases s with
      -- a comment that is still open does not end in code
      | nil => cases ends
      | cons e s => exact stays_ isStar
    have anew' : StartsAnew .blockComment s d := anew.imp id fun code => by
      rwa [List.cons_append, stateAfter] at code
      rintro u isStar isSlash
      exact stays' [] isStar (by rw [isSlash]; rfl)
    rw [List.cons_append, regionsFrom_blockComment (stays' t), regionsFrom_blockComment stays_,
      ih isKnown_blockComment ends anew']
    rfl
  | case11 state =>
    rw [show state = .code from ends]
    rfl

/-! ## Stripping -/

/-- What is left of a text without its comments. -/
def stripFrom (state : State) (s : Text) : Text :=
  ((regionsFrom state s).filter stays).map Prod.fst

theorem strip_eq_stripFrom (s : Text) : strip s = stripFrom .code s := rfl

theorem stripFrom_cons {state state' : State} {c : Char} {s : Text} {region : Region}
    (reads : regionsFrom state (c :: s) = (c, region) :: regionsFrom state' s) :
    stripFrom state (c :: s) =
      if stays (c, region) then c :: stripFrom state' s else stripFrom state' s := by
  unfold stripFrom
  rw [reads, List.filter_cons]
  split <;> rfl

/-- Stripping the start of a comment off does not let another one begin. -/
theorem startsComment_stripFrom {c : Char} {s : Text} (plain : startsComment (c :: s) = false) :
    startsComment (c :: stripFrom .code s) = false := by
  by_cases isSlash : c = '/'
  · subst isSlash
    cases s with
    | nil => rfl
    | cons d s =>
      have line : d ≠ '/' := by rintro rfl; cases plain
      have block : d ≠ '*' := by rintro rfl; cases plain
      have plain' := startsComment_eq_false line s
      -- a character of code is kept, so the same one follows the slash as before
      have first : ∃ t, stripFrom .code (d :: s) = d :: t := by
        have reads := regionsFrom_code plain'
        by_cases opens : isQuote d = true
        · rw [if_pos opens] at reads
          exact ⟨_, by rw [stripFrom_cons reads]; rfl⟩
        · rw [if_neg opens] at reads
          exact ⟨_, by rw [stripFrom_cons reads]; rfl⟩
      obtain ⟨t, isRest⟩ := first
      rw [isRest]
      simp [startsComment, line, block]
  · exact startsComment_eq_false isSlash _

theorem stripFrom_escape (quote d : Char) (s : Text) :
    stripFrom (.literal quote) ('\\' :: d :: s) = '\\' :: d :: stripFrom (.literal quote) s := rfl

theorem stripFrom_quote {c : Char} (opens : isQuote c = true) (s : Text) :
    stripFrom .code (c :: s) = c :: stripFrom (.literal c) s := by
  have plain : c ≠ '/' := by rintro rfl; cases opens
  have reads := regionsFrom_code (startsComment_eq_false plain s)
  rw [if_pos opens] at reads
  rw [stripFrom_cons reads]
  rfl

theorem stripFrom_code {c : Char} {s : Text} (plain : startsComment (c :: s) = false)
    (plainChar : ¬isQuote c = true) : stripFrom .code (c :: s) = c :: stripFrom .code s := by
  have reads := regionsFrom_code plain
  rw [if_neg plainChar] at reads
  rw [stripFrom_cons reads]
  rfl

theorem stripFrom_literal {quote c : Char} {s : Text} (single : c = '\\' → s = []) :
    stripFrom (.literal quote) (c :: s) =
      c :: stripFrom (if c = quote then .code else .literal quote) s := by
  rw [stripFrom_cons (regionsFrom_literal single)]
  rfl

theorem stripFrom_lineComment (c : Char) (s : Text) :
    stripFrom .lineComment (c :: s) =
      if c = '\n' then '\n' :: stripFrom .code s else stripFrom .lineComment s := by
  by_cases ends : c = '\n'
  · subst ends
    rfl
  · have reads : regionsFrom .lineComment (c :: s) =
        (c, .comment) :: regionsFrom .lineComment s := by
      simp only [regionsFrom, if_neg ends]
    rw [stripFrom_cons reads, if_neg ends, if_neg]
    simp [stays, ends]

theorem stripFrom_blockComment {c : Char} {s : Text} (noClose : c = '*' → s.head? ≠ some '/') :
    stripFrom .blockComment (c :: s) =
      if c = '\n' then '\n' :: stripFrom .blockComment s else stripFrom .blockComment s := by
  rw [stripFrom_cons (regionsFrom_blockComment noClose)]
  by_cases ends : c = '\n'
  · subst ends
    rfl
  · rw [if_neg ends, if_neg]
    simp [stays, ends]

/-- A plain literal is left as it is. -/
theorem stripFrom_inside {quote : Char} (isQuoted : isQuote quote = true) {content : Text}
    (plain : IsPlain content) (s : Text) :
    stripFrom (.literal quote) (content ++ quote :: s) =
      content ++ quote :: stripFrom .code s := by
  induction content with
  | nil =>
    rw [List.nil_append, stripFrom_literal fun isEscape => absurd isEscape (isQuote_ne_backslash isQuoted),
      if_pos rfl]
    rfl
  | cons c content ih =>
    rw [List.cons_append,
      stripFrom_literal fun isEscape => absurd isEscape (plain.ne_escape List.mem_cons_self),
      if_neg (plain.ne_quote isQuoted List.mem_cons_self), ih plain.of_cons]
    rfl

theorem strip_append {s t : Text} {d : Char} (ends : stateAfter .code s = .code)
    (anew : StartsAnew .code s d) : strip (s ++ d :: t) = strip s ++ strip (d :: t) := by
  rw [strip_eq_stripFrom, stripFrom, regionsFrom_append isKnown_code ends anew, List.filter_append,
    List.map_append]
  rfl

theorem strip_enclosed {s : Text} (ends : stateAfter .code s = .code) {quote : Char}
    (isQuoted : isQuote quote = true) {content : Text} (plain : IsPlain content) (t : Text) :
    strip (s ++ enclosed quote content t) = strip s ++ enclosed quote content (strip t) := by
  have behind := stripFrom_quote isQuoted (content ++ quote :: t)
  rw [stripFrom_inside isQuoted plain] at behind
  rw [enclosed, strip_append ends (startsAnew_of_isQuote isQuoted _ _)]
  exact congrArg (strip s ++ ·) behind

/-- Where reading the literals of a stripped text stands in a state. -/
def State.reading : State → Reading
  | .literal quote => .inside quote
  | _ => .outside

/-- What is left of a text that ends in code closes its literals. -/
theorem after_stripFrom {state : State} {s : Text} (known : state.IsKnown)
    (ends : stateAfter state s = .code) : state.reading.after (stripFrom state s) = .outside := by
  -- a character that stays moves the reading as it moves the state; `known` says that an open literal was
  -- opened by a quotation mark, which a backslash is not
  fun_induction stateAfter state s with
  | case1 s ih => exact ih isKnown_lineComment ends
  | case2 s ih => exact ih isKnown_blockComment ends
  | case3 c s noLine noBlock opens ih =>
    have known' : State.IsKnown (.literal c) := by rintro _ ⟨⟩; exact opens
    show Reading.outside.after _ = _
    rw [stripFrom_quote opens, Reading.after_cons, Reading.next, if_pos opens]
    exact ih known' ends
  | case4 c s noLine noBlock plainChar ih =>
    have plain := startsComment_of_fallthrough noLine noBlock
    show Reading.outside.after _ = _
    rw [stripFrom_code plain plainChar, Reading.after_cons, Reading.next, if_neg plainChar]
    exact ih isKnown_code ends
  | case5 literal d s ih =>
    rw [stripFrom_escape]
    exact ih known ends
  | case6 literal c s single ih =>
    have plain := ne_backslash_of_closes (known literal rfl) single ends
    show (Reading.inside literal).after _ = _
    rw [stripFrom_literal (fun backslash => absurd backslash plain), Reading.after_cons,
      Reading.next, if_neg plain]
    by_cases closes : c = literal
    · simp only [if_pos closes] at ih ends ⊢
      exact ih isKnown_code ends
    · simp only [if_neg closes] at ih ends ⊢
      exact ih known ends
  | case7 s ih =>
    rw [stripFrom_lineComment, if_pos rfl]
    exact ih isKnown_code ends
  | case8 c s stays_ ih =>
    rw [stripFrom_lineComment, if_neg stays_]
    exact ih isKnown_lineComment ends
  | case9 s ih => exact ih isKnown_code ends
  | case10 c s noClose ih =>
    rw [stripFrom_blockComment (head?_ne_of_fallthrough noClose)]
    split
    · exact ih isKnown_blockComment ends
    · exact ih isKnown_blockComment ends
  | case11 state =>
    rw [show state = .code from ends]
    rfl

end ContractInterface.Comment
