import ContractInterface.Declaration.FunctionHeader
import ContractInterface.Proofs.Reading
import ContractInterface.Proofs.Words
import ContractInterface.Registry.Discovery

/-! # Heads in front of a quote

The scanners for definitions and functions read a head word by word, and no part of a head is a quote.
So a quote ends every head in front of it (`EndsHeads`): what follows the quote is only seen as part of the
text that a head hands on (`bracedHead?_append`, `ofWord?_append`).  The same holds of a closing brace.
-/

namespace ContractInterface

open Text Literal

/-! ## Quotes -/

theorem eq_of_isQuote {q : Char} (isQuoted : isQuote q = true) : q = '"' ∨ q = '\'' :=
  (Bool.or_eq_true_iff.1 isQuoted).imp eq_of_beq eq_of_beq

theorem isBlank_of_isQuote {q : Char} (isQuoted : isQuote q = true) : isBlank q = false := by
  rcases eq_of_isQuote isQuoted with rfl | rfl <;> decide

theorem isMember_of_isQuote {q : Char} (isQuoted : isQuote q = true) :
    Identifier.isMember q = false := by
  rcases eq_of_isQuote isQuoted with rfl | rfl <;> decide

theorem isWordChar_of_isQuote {q : Char} (isQuoted : isQuote q = true) : isWordChar q = false := by
  have notMember := isMember_of_isQuote isQuoted
  unfold Identifier.isMember at notMember
  exact (Bool.or_eq_false_iff.1 notMember).1

theorem length_pos_of_startsWith {c : Char} {s : Text} (starts : startsWith [c] s = true) : 0 < s.length := by
  cases s with
  | nil => cases starts
  | cons d s => exact Nat.succ_pos _

/-- A character that is part of no head. -/
structure EndsHeads (q : Char) : Prop where
  visible : isBlank q = false
  notMember : Identifier.isMember q = false
  other : q ∉ ['{', '(', '.', ';']

theorem endsHeads_of_isQuote {q : Char} (isQuoted : isQuote q = true) : EndsHeads q where
  visible := isBlank_of_isQuote isQuoted
  notMember := isMember_of_isQuote isQuoted
  other := by
    intro member
    have unquoted : ['{', '(', '.', ';'].all (!isQuote ·) = true := by decide
    have known := List.all_eq_true.1 unquoted q member
    rw [isQuoted] at known
    cases known

theorem endsHeads_closeBrace : EndsHeads '}' :=
  ⟨by decide, by decide, by decide⟩

theorem EndsHeads.notStart {q : Char} (ends : EndsHeads q) : Identifier.isStart q = false := by
  apply Bool.eq_false_iff.2
  intro starts
  have known := Identifier.isStart_isMember starts
  rw [ends.notMember] at known
  cases known

/-! ## Reading up to the end of a head -/

theorem startsWith_append {c q : Char} (other : c ≠ q) (s t : Text) :
    startsWith [c] (s ++ q :: t) = startsWith [c] s := by
  cases s with
  | nil => simp [startsWith, List.isPrefixOf, other]
  | cons d s => rfl

section Readers

variable {q : Char} (ends : EndsHeads q) (t : Text)

include ends

theorem trimStart_append_end (s : Text) : trimStart (s ++ q :: t) = trimStart s ++ q :: t :=
  dropWhile_append_of_head? (by simpa using ends.visible)

theorem leading?_append (s : Text) :
    Identifier.leading? (s ++ q :: t) =
      (Identifier.leading? s).map fun found => (found.1, found.2 ++ q :: t) := by
  have edge : ∀ c ∈ (q :: t).head?, Identifier.isMember c = false := by
    simpa using ends.notMember
  cases s with
  | nil => simp [Identifier.leading?, ends.notStart]
  | cons c s =>
    simp only [List.cons_append, Identifier.leading?, takeWhile_append_of_head? edge,
      dropWhile_append_of_head? edge]
    split <;> rfl

theorem afterBlanks?_append (s : Text) :
    Identifier.afterBlanks? (s ++ q :: t) =
      (Identifier.afterBlanks? s).map fun found => (found.1, found.2 ++ q :: t) := by
  cases s with
  | nil => simp [Identifier.afterBlanks?, ends.visible]
  | cons c s =>
    simp only [List.cons_append, Identifier.afterBlanks?]
    rw [trimStart_append_end ends, leading?_append ends]
    split <;> rfl

theorem bracedHead?_append (keyword word rest : Text) :
    Registry.bracedHead? keyword word (rest ++ q :: t) =
      (Registry.bracedHead? keyword word rest).map fun found =>
        (found.1, found.2 ++ q :: t) := by
  have brace : '{' ≠ q := by rintro rfl; exact ends.other (by decide)
  unfold Registry.bracedHead?
  rw [afterBlanks?_append ends]
  split
  · cases Identifier.afterBlanks? rest with
    | none => rfl
    | some found =>
      simp only [Option.map_some, trimStart_append_end ends,
        startsWith_append brace]
      split <;> rfl
  · rfl

theorem dropBlanks?_append (s : Text) :
    Registry.dropBlanks? (s ++ q :: t) = (Registry.dropBlanks? s).map (· ++ q :: t) := by
  cases s with
  | nil => simp [Registry.dropBlanks?, ends.visible]
  | cons c s =>
    simp only [List.cons_append, Registry.dropBlanks?, trimStart_append_end ends]
    split <;> rfl

theorem dottedName?_append (s : Text) :
    Registry.dottedName? (s ++ q :: t) =
      (Registry.dottedName? s).map fun found => (found.1, found.2 ++ q :: t) := by
  have notDot : q ≠ '.' := by rintro rfl; exact ends.other (by decide)
  have edge : ∀ c ∈ (q :: t).head?, Registry.isUnderlyingMember c = false := by
    intro c first
    cases first
    simp [Registry.isUnderlyingMember, ends.notMember, notDot]
  cases s with
  | nil => simp [Registry.dottedName?, ends.notStart]
  | cons c s =>
    simp only [List.cons_append, Registry.dottedName?, takeWhile_append_of_head? edge,
      dropWhile_append_of_head? edge]
    split <;> rfl

theorem aliasHead?_append (word rest : Text) :
    Registry.aliasHead? word (rest ++ q :: t) =
      (Registry.aliasHead? word rest).map fun found =>
        (found.1, found.2.1, found.2.2 ++ q :: t) := by
  have notIs : ∀ c ∈ (q :: t).head?, c ∉ "is".toList := by
    intro c first member
    cases first
    have isMember : "is".toList.all Identifier.isMember = true := by decide
    have known := List.all_eq_true.1 isMember q member
    rw [ends.notMember] at known
    cases known
  have semicolon : q ≠ ';' := by rintro rfl; exact ends.other (by decide)
  unfold Registry.aliasHead?
  split
  · -- step by step, every reader leaves the end behind what it takes
    rw [afterBlanks?_append ends]
    refine bind_map_eq_map_bind fun first => ?_
    simp only [dropBlanks?_append ends]
    refine bind_map_eq_map_bind fun behindName => ?_
    rw [after?_append notIs]
    refine bind_map_eq_map_bind fun behindIs => ?_
    rw [dropBlanks?_append ends]
    refine bind_map_eq_map_bind fun second => ?_
    rw [dottedName?_append ends]
    refine bind_map_eq_map_bind fun dotted => ?_
    simp only [trimStart_append_end ends]
    cases trimStart dotted.2 with
    | nil =>
      simp only [List.nil_append]
      split
      · rename_i last isEnd
        exact absurd (List.cons.inj isEnd).1 semicolon
      · rfl
    | cons c rest =>
      by_cases last : c = ';'
      · subst last
        rfl
      · simp only [List.cons_append]
        split <;> simp_all
  · rfl

end Readers

/-! ## Heads of functions -/

theorem afterBlanks?_eq (s : Text) : Identifier.afterBlanks? s =
    if s.head?.any isBlank then Identifier.leading? (trimStart s) else none := by
  cases s with
  | nil => rfl
  | cons c s =>
    cases blank : isBlank c with
    | true => simp [Identifier.afterBlanks?, blank, trimStart]
    | false => simp [Identifier.afterBlanks?, blank]

/-- A text in which no head of a function goes on: it starts neither with a word character, nor with a
parenthesis, nor with a name in front of one. -/
structure EndsFunctionHead (t : Text) : Prop where
  edge : ∀ c ∈ t.head?, Identifier.isMember c = false
  noParen : startsWith ['('] (trimStart t) = false
  noName : ∀ name behind, Identifier.leading? (trimStart t) = some (name, behind) →
    startsWith ['('] (trimStart behind) = false

theorem EndsHeads.endsFunctionHead {q : Char} (ends : EndsHeads q) (t : Text) : EndsFunctionHead (q :: t) := by
  have start : trimStart (q :: t) = q :: t := trimStart_of_first (by simpa using ends.visible)
  have paren : '(' ≠ q := by rintro rfl; exact ends.other (by decide)
  refine ⟨by simpa using ends.notMember, ?_, ?_⟩
  · simp [start, startsWith, List.isPrefixOf, paren]
  · simp [start, Identifier.leading?, ends.notStart]

section FunctionHeads

variable {t : Text} (ends : EndsFunctionHead t)

include ends

theorem leading?_append_of_ne_nil {s : Text} (nonempty : s ≠ []) : Identifier.leading? (s ++ t) =
    (Identifier.leading? s).map fun found => (found.1, found.2 ++ t) := by
  obtain ⟨c, s, rfl⟩ := List.exists_cons_of_ne_nil nonempty
  simp only [List.cons_append, Identifier.leading?, takeWhile_append_of_head? ends.edge,
    dropWhile_append_of_head? ends.edge]
  split <;> rfl

theorem startsWith_paren_append (s : Text) :
    startsWith ['('] (trimStart (s ++ t)) = startsWith ['('] (trimStart s) := by
  rw [trimStart_append]
  cases start : trimStart s with
  | nil => rw [if_pos rfl, ends.noParen]; rfl
  | cons c u => rfl

/-- What follows the end of a head only extends the text that is handed on. -/
theorem ofWord?_append (word rest : Text) :
    FunctionHead.ofWord? word (rest ++ t) =
      (FunctionHead.ofWord? word rest).map fun head => { head with fromParen := head.fromParen ++ t } := by
  have takes : ∀ u : Text, (rest ++ t).take ((rest ++ t).length - (u ++ t).length) =
      rest.take (rest.length - u.length) := by
    intro u
    rw [List.length_append, List.length_append, Nat.add_sub_add_right]
    exact List.take_append_of_le_length (Nat.sub_le _ _)
  unfold FunctionHead.ofWord?
  split
  · rw [afterBlanks?_eq, afterBlanks?_eq]
    cases start : trimStart rest with
    | nil =>
      -- a name could only stand in what follows, and no parenthesis follows it there
      rw [trimStart_append, if_pos start]
      cases leads : Identifier.leading? (trimStart t) with
      | none => simp [Identifier.leading?]
      | some found =>
        have noParen := ends.noName found.1 found.2 leads
        split <;> simp_all [Identifier.leading?]
    | cons c u =>
      have first : (rest ++ t).head? = rest.head? := by
        cases rest with
        | nil => cases start
        | cons d rest => rfl
      rw [trimStart_append, start, if_neg (List.cons_ne_nil c u), first,
        leading?_append_of_ne_nil ends (List.cons_ne_nil c u)]
      cases rest.head?.any isBlank with
      | false => rfl
      | true =>
        cases Identifier.leading? (c :: u) with
        | none => rfl
        | some found =>
          simp only [if_true, Option.map_some, startsWith_paren_append ends]
          split
          · rename_i opens
            rw [trimStart_append, if_neg (List.length_pos_iff.1 (length_pos_of_startsWith opens)), takes]
            rfl
          · rfl
  · rfl

end FunctionHeads

/-! ## Heads are known by what they leave behind -/

theorem length_eq_drop {c : Char} {s t : Text} (starts : startsWith [c] t = true) (suffix : t <:+ s) :
    s.length - t.length + 1 = s.length - (t.drop 1).length := by
  obtain ⟨rest, rfl⟩ := List.isPrefixOf_iff_prefix.1 starts
  have within := suffix.length_le
  simp only [List.singleton_append, List.length_cons, List.drop_succ_cons, List.drop_zero] at within ⊢
  omega

theorem drop_one_append {c : Char} {s : Text} (starts : startsWith [c] s = true) (t : Text) :
    (s ++ t).drop 1 = s.drop 1 ++ t :=
  List.drop_append_of_le_length (length_pos_of_startsWith starts)

namespace Registry

theorem bracedHead?_spec {keyword word rest : Text} {found : Text × Text}
    (isHead : bracedHead? keyword word rest = some found) :
    startsWith ['\x7b'] found.2 = true ∧ found.2 <:+ rest := by
  obtain ⟨_, behind, isName, opens, same⟩ := bracedHead?_eq_some_iff.1 isHead
  rw [← same]
  exact ⟨opens, (List.dropWhile_suffix _).trans (afterBlanks?_suffix isName)⟩

theorem leavesBehind_bracedHead (keyword : Text) : LeavesBehind (readBracedHead? keyword) fun word rest =>
    (bracedHead? keyword word rest).map fun found => (found, found.2.drop 1) := by
  intro word rest
  rw [readBracedHead?, Option.map_map]
  refine Option.map_congr fun found isHead => ?_
  obtain ⟨opens, within⟩ := bracedHead?_spec isHead
  exact congrArg (found, ·) (length_eq_drop opens within)

theorem leavesBehind_aliasHead : LeavesBehind readAliasHead? fun word rest =>
    (aliasHead? word rest).map fun found => ((found.1, found.2.1), found.2.2) := by
  intro word rest
  rw [readAliasHead?, Option.map_map]
  rfl

theorem leavesBehind_contractHead : LeavesBehind readContractHead? fun word rest =>
    (contractKind? word).bind fun kind =>
      (Identifier.afterBlanks? rest).map fun found => ((kind, found.1), found.2) := by
  intro word rest
  unfold readContractHead?
  dsimp only
  cases contractKind? word with
  | none => rfl
  | some kind => cases Identifier.afterBlanks? rest <;> rfl

end Registry

namespace FunctionHead

theorem startsWith_of_ofWord? {word rest : Text} {head : FunctionHead}
    (isHead : ofWord? word rest = some head) : startsWith ['('] head.fromParen = true := by
  obtain ⟨_, _, _, _, opens, rfl⟩ := ofWord?_eq_some_iff.1 isHead
  exact opens

theorem fromParen_suffix {word rest : Text} {head : FunctionHead} (isHead : ofWord? word rest = some head) :
    head.fromParen <:+ rest := by
  obtain ⟨_, name, behind, isName, _, rfl⟩ := ofWord?_eq_some_iff.1 isHead
  exact (List.dropWhile_suffix _).trans (afterBlanks?_suffix isName)

theorem leavesBehind_read? : LeavesBehind read? fun word rest =>
    (ofWord? word rest).map fun head => (head, head.fromParen.drop 1) := by
  intro word rest
  rw [read?, Option.map_map]
  refine Option.map_congr fun head isHead => ?_
  exact congrArg (head, ·) (length_eq_drop (startsWith_of_ofWord? isHead) (fromParen_suffix isHead))

end FunctionHead

/-! ## Heads that a quote stops -/

/-- A reader that a quote stops: what follows the quote only extends the values that it gives. -/
def StopsAtQuotes {α : Type} (read? : Text → Text → Option (α × Nat)) (ext : Text → α → α) : Prop :=
  ∀ q, isQuote q = true → ∀ s t, Extends isWordChar read? (ext (q :: t)) s (q :: t)

/-- What follows the end of a head only extends the text that is handed on. -/
theorem extends_readBracedHead? (keyword : Text) {q : Char} (ends : EndsHeads q) (s t : Text) :
    Extends isWordChar (Registry.readBracedHead? keyword) (fun found => (found.1, found.2 ++ q :: t)) s
      (q :: t) := by
  refine (Registry.leavesBehind_bracedHead keyword).extends (fun word rest => ?_) s
  rw [bracedHead?_append ends, Option.map_map, Option.map_map]
  refine Option.map_congr fun found isHead => ?_
  exact congrArg (_, ·) (drop_one_append (Registry.bracedHead?_spec isHead).1 _)

theorem stopsAtQuotes_readBracedHead? (keyword : Text) :
    StopsAtQuotes (Registry.readBracedHead? keyword) fun t found => (found.1, found.2 ++ t) :=
  fun _ isQuoted => extends_readBracedHead? keyword (endsHeads_of_isQuote isQuoted)

theorem stopsAtQuotes_readAliasHead? :
    StopsAtQuotes Registry.readAliasHead? fun _ found => found := by
  intro q isQuoted s t
  refine Registry.leavesBehind_aliasHead.extends (fun word rest => ?_) s
  rw [aliasHead?_append (endsHeads_of_isQuote isQuoted), Option.map_map, Option.map_map]
  rfl

theorem stopsAtQuotes_readContractHead? :
    StopsAtQuotes Registry.readContractHead? fun _ found => found := by
  intro q isQuoted s t
  refine Registry.leavesBehind_contractHead.extends (fun word rest => ?_) s
  rw [afterBlanks?_append (endsHeads_of_isQuote isQuoted)]
  cases Registry.contractKind? word with
  | none => rfl
  | some kind => cases Identifier.afterBlanks? rest <;> rfl

theorem extends_functionHead {t : Text} (ends : EndsFunctionHead t) (s : Text) :
    Extends isWordChar FunctionHead.read? (fun head => { head with fromParen := head.fromParen ++ t }) s t := by
  refine FunctionHead.leavesBehind_read?.extends (fun word rest => ?_) s
  rw [ofWord?_append ends, Option.map_map, Option.map_map]
  refine Option.map_congr fun head isHead => ?_
  exact congrArg (_, ·) (drop_one_append (FunctionHead.startsWith_of_ofWord? isHead) _)

theorem stopsAtQuotes_functionHead :
    StopsAtQuotes FunctionHead.read? fun t head =>
      { head with fromParen := head.fromParen ++ t } :=
  fun _ isQuoted s t => extends_functionHead ((endsHeads_of_isQuote isQuoted).endsFunctionHead t) s

/-- Around a literal heads are found in front of it, in it and behind it. -/
theorem StopsAtQuotes.locate_literal {α : Type} {read? : Text → Text → Option (α × Nat)}
    {ext : Text → α → α} (stops : StopsAtQuotes read? ext) {q : Char} (isQuoted : isQuote q = true)
    (s content t : Text) :
    locate isWordChar read? (s ++ q :: (content ++ q :: t)) =
      ((locate isWordChar read? s).map fun found =>
        (found.1, ext (q :: (content ++ q :: t)) found.2)) ++
      ((locate isWordChar read? content).map fun found =>
        (found.1 + (s.length + 1), ext (q :: t) found.2)) ++
      (locate isWordChar read? t).map fun found =>
        (found.1 + (s.length + content.length + 2), found.2) := by
  have edge : ∀ u : Text, ∀ c ∈ (q :: u).head?, isWordChar c = false := fun u => by
    simpa using isWordChar_of_isQuote isQuoted
  have inside : 0 + s.length + [q].length = 0 + (s.length + 1) := by
    simp only [List.length_singleton]
    omega
  have behind : 0 + (s.length + 1) + content.length + [q].length =
      0 + (s.length + content.length + 2) := by
    simp only [List.length_singleton]
    omega
  -- each quotation mark ends a run, so the text is cut at both of them
  unfold locate
  rw [spans_append_ext (edge _) (stops q isQuoted s _),
    spans_cons_of_not_mem (isWordChar_of_isQuote isQuoted),
    spans_append_ext (edge _) (stops q isQuoted content _),
    spans_cons_of_not_mem (isWordChar_of_isQuote isQuoted), locateFrom_append, locateFrom_map,
    locateFrom, locateFrom_append, locateFrom_map, flatMap_text_map_spans, flatMap_text_map_spans, locateFrom,
    inside, behind, locateFrom_add, locateFrom_add, List.map_map, List.append_assoc]
  rfl

end ContractInterface
