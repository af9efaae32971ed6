import ContractInterface.Proofs.LiteralStatements
import Mathlib.Logic.Relation

/-! # The contents of string literals

Type definitions and function heads are searched for in the whole text, so a literal that spells one
defines it.  For a literal in a place that is set off from the definitions in front of it, this is all
that is read of its content (`Findings.ofText_enclosed_iff`), and so contents that define alike can be
replaced by each other without changing the interface (`extract_eq_of_replacements`).
-/

namespace ContractInterface

open Text Literal Delimiter

/-! ## Lines around a literal -/

section Lines

variable {q : Char} (isQuoted : isQuote q = true) {content : Text} (plain : IsPlain content)

include isQuoted plain

theorem not_mem_literal : '\n' ∉ q :: (content ++ [q]) := by
  have notBreak : q ≠ '\n' := by
    rintro rfl
    cases isQuoted
  intro member
  rcases List.mem_cons.1 member with isBreak | member
  · exact notBreak isBreak.symm
  · rcases List.mem_append.1 member with inner | isBreak
    · exact plain.noBreak inner
    · exact notBreak (List.mem_singleton.1 isBreak).symm

theorem Comment.lineAt_enclosed_of_le {index : Nat} (within : index ≤ content.length + 1) (t : Text) :
    Comment.lineAt (enclosed q content t) index = 1 := by
  have literal : enclosed q content t = q :: (content ++ [q]) ++ t := by simp [enclosed]
  have within' : index ≤ (q :: (content ++ [q])).length := by
    simp only [List.length_cons, List.length_append, List.length_nil]
    omega
  rw [literal, Comment.lineAt_append_of_le within']
  exact Comment.lineAt_of_not_mem (not_mem_literal isQuoted plain) index

theorem Comment.lineAt_enclosed (index : Nat) (t : Text) :
    Comment.lineAt (enclosed q content t) (content.length + 2 + index) = Comment.lineAt t index := by
  have literal : enclosed q content t = q :: (content ++ [q]) ++ t := by simp [enclosed]
  have length : content.length + 2 = (q :: (content ++ [q])).length := by
    simp only [List.length_cons, List.length_append, List.length_nil]
  rw [literal, length, Comment.lineAt_append, List.count_eq_zero.2 (not_mem_literal isQuoted plain),
    Nat.zero_add]

namespace Candidate

theorem placed_inside {s : Text} {c : Candidate} {i : Nat} (within : i ≤ content.length)
    (stands : c.index = s.length + (i + 1)) (t : Text) :
    placed (s ++ enclosed q content t) c = (c.atStart, s.count '\n' + 1) := by
  unfold placed
  rw [stands, Comment.lineAt_append,
    Comment.lineAt_enclosed_of_le isQuoted plain (Nat.succ_le_succ within)]

theorem placed_behind (s t : Text) (c : Candidate) :
    placed (s ++ enclosed q content t) (c.shifted (s.length + content.length + 2)) =
      (c.atStart, s.count '\n' + Comment.lineAt t c.index) := by
  have place : c.index + (s.length + content.length + 2) =
      s.length + (content.length + 2 + c.index) := by omega
  unfold placed
  rw [atStart_shifted, index_shifted, place, Comment.lineAt_append,
    Comment.lineAt_enclosed isQuoted plain]

end Candidate

end Lines

theorem Candidate.placed_in_front {s : Text} {c : Candidate} (within : c.index ≤ s.length)
    (t : Text) : placed (s ++ t) c = placed s c := by
  unfold placed
  rw [Comment.lineAt_append_of_le within]

/-! ## Types around a literal -/

theorem balanced?_braces_append {s body : Text} {close : Nat}
    (found : balanced? ['{'] ['}'] s = some (body, close)) (t : Text) :
    balanced? ['{'] ['}'] (s ++ t) = some (body, close) := by
  unfold balanced? at found ⊢
  cases s with
  | nil => cases found
  | cons c s =>
    have curly : ¬(['{'] = ['('] ∧ ['}'] = [')']) := by decide
    simp only [List.cons_append, if_neg curly] at found ⊢
    by_cases opens : [c] = ['{']
    · rw [if_pos opens] at found ⊢
      obtain ⟨k, closes, same⟩ := Option.map_eq_some_iff.1 found
      have inside := closeFrom?_lt closes
      unfold unquotedMarks at closes inside ⊢
      rw [List.length_map] at inside
      rw [show c :: (s ++ t) = (c :: s) ++ t from rfl, List.map_append, closeFrom?_append closes,
        Option.map_some, List.take_append_of_le_length (Nat.le_of_lt inside), ← same]
    · rw [if_neg opens] at found
      cases found

namespace Registry

/-- The structs whose heads stand in a content.  A body reads on into what follows the content. -/
def structsIn (behind content : Text) : List (Text × List Member) :=
  (locate isWordChar (readBracedHead? "struct".toList) content).filterMap fun found =>
    structOf? found.2.1 (found.2.2 ++ behind)

/-- Whether the body of every struct in a text ends there. -/
def structsEnd (s : Text) : Bool :=
  (locate isWordChar (readBracedHead? "struct".toList) s).all fun found =>
    (balanced? ['{'] ['}'] found.2.2).isSome

theorem structOf?_append {name fromBrace : Text}
    (ends : (balanced? ['{'] ['}'] fromBrace).isSome = true) (t : Text) :
    structOf? name (fromBrace ++ t) = structOf? name fromBrace := by
  obtain ⟨found, closes⟩ := Option.isSome_iff_exists.1 ends
  unfold structOf?
  rw [balanced?_braces_append closes, closes]

section Literals

variable {q : Char} (isQuoted : isQuote q = true) (s content t : Text)

include isQuoted

theorem enumNames_enclosed : enumNames (s ++ enclosed q content t) =
    enumNames s ++ enumNames content ++ enumNames t := by
  have heads := (stopsAtQuotes_readBracedHead? "enum".toList).locate_literal isQuoted s content t
  unfold enumNames enclosed
  rw [heads]
  simp only [List.map_append, List.map_map]
  rfl

theorem aliasDefinitions_enclosed : aliasDefinitions (s ++ enclosed q content t) =
    aliasDefinitions s ++ aliasDefinitions content ++ aliasDefinitions t := by
  have heads := stopsAtQuotes_readAliasHead?.locate_literal isQuoted s content t
  unfold aliasDefinitions enclosed
  rw [heads]
  simp only [List.map_append, List.map_map]
  rfl

theorem namesOfKind_enclosed (kind : ContractKind) :
    namesOfKind kind (s ++ enclosed q content t) =
      namesOfKind kind s ++ namesOfKind kind content ++ namesOfKind kind t := by
  have heads := stopsAtQuotes_readContractHead?.locate_literal isQuoted s content t
  unfold namesOfKind contractDefinitions enclosed
  rw [heads]
  simp only [List.map_append, List.map_map, List.filterMap_append]
  rfl

theorem structDefinitions_enclosed (ends : structsEnd s = true) :
    structDefinitions (s ++ enclosed q content t) =
      structDefinitions s ++ structsIn (q :: t) content ++ structDefinitions t := by
  have heads := (stopsAtQuotes_readBracedHead? "struct".toList).locate_literal isQuoted s content t
  rw [structDefinitions_eq, structDefinitions_eq, structDefinitions_eq]
  unfold enclosed structsIn
  rw [heads, List.filterMap_append, List.filterMap_append, List.filterMap_map, List.filterMap_map,
    List.filterMap_map]
  congr 2
  exact List.filterMap_congr fun found member =>
    structOf?_append (List.all_eq_true.1 ends found member) _

end Literals

end Registry

/-! ## What is found around a literal -/

/-- Contents of a literal that define the same, when `behind` follows the content: the bodies of structs
and the headers of functions read on into it. -/
structure DefineAlike (behind content content' : Text) : Prop where
  structs : Registry.structsIn behind content = Registry.structsIn behind content'
  enums : Registry.enumNames content = Registry.enumNames content'
  aliases : Registry.aliasDefinitions content = Registry.aliasDefinitions content'
  contracts : Registry.namesOfKind .contract content = Registry.namesOfKind .contract content'
  interfaces : Registry.namesOfKind .interface content = Registry.namesOfKind .interface content'
  functions : FunctionHeader.headersIn behind content = FunctionHeader.headersIn behind content'

/-- A literal that is set off from what stands in front of it: the bodies of structs end there, function
headers end there or leave an argument list open that says nothing, and the segment of the literal does
the same with both contents. -/
structure IsSetOff (front : Text) (q : Char) (content content' behind : Text) : Prop where
  structs : Registry.structsEnd front = true
  functions : (FunctionHead.ofText front).all (FunctionHeader.isSettled ·.2) = true
  segment : (Segment.ofText behind).head?.all (Segment.readsAlike
    (Statement.blocksAfter [] (Segment.ofText front)) (Segment.tail front) q content content') = true

theorem defineAlike_iff {behind content content' : Text} : DefineAlike behind content content' ↔
    Registry.structsIn behind content = Registry.structsIn behind content' ∧
      Registry.enumNames content = Registry.enumNames content' ∧
      Registry.aliasDefinitions content = Registry.aliasDefinitions content' ∧
      Registry.namesOfKind .contract content = Registry.namesOfKind .contract content' ∧
      Registry.namesOfKind .interface content = Registry.namesOfKind .interface content' ∧
      FunctionHeader.headersIn behind content = FunctionHeader.headersIn behind content' := by
  constructor
  · rintro ⟨structs, enums, aliases, contracts, interfaces, functions⟩
    exact ⟨structs, enums, aliases, contracts, interfaces, functions⟩
  · rintro ⟨structs, enums, aliases, contracts, interfaces, functions⟩
    exact ⟨structs, enums, aliases, contracts, interfaces, functions⟩

instance (behind content content' : Text) : Decidable (DefineAlike behind content content') :=
  decidable_of_iff _ defineAlike_iff.symm

section Findings

variable {front behind content content' : Text} {q : Char} (isQuoted : isQuote q = true)
  (plain : IsPlain content) (plain' : IsPlain content')
  (setOff : IsSetOff front q content content' behind)

include isQuoted plain plain' setOff

theorem StateVariable.map_placed_enclosed (terminated : IsTerminated front) :
    ((StateVariable.ofText (front ++ enclosed q content behind)).map Candidate.variable).map
        (Candidate.placed (front ++ enclosed q content behind)) =
      ((StateVariable.ofText (front ++ enclosed q content' behind)).map Candidate.variable).map
        (Candidate.placed (front ++ enclosed q content' behind)) := by
  obtain ⟨before, after, within, whole, whole'⟩ :=
    exists_front_ofText terminated isQuoted behind plain plain' setOff.segment
  have moved : ∀ c, IsPlain c → ((after.map (shifted (front.length + c.length + 2))).map
        Candidate.variable).map (Candidate.placed (front ++ enclosed q c behind)) =
      after.map fun v => ((Candidate.variable v).atStart,
        front.count '\n' + Comment.lineAt behind v.index) := by
    intro c isPlain
    rw [List.map_map, List.map_map]
    exact List.map_congr_left fun v _ =>
      Candidate.placed_behind isQuoted isPlain front behind (.variable v)
  have unmoved : ∀ t, (before.map Candidate.variable).map (Candidate.placed (front ++ t)) =
      (before.map Candidate.variable).map (Candidate.placed front) := by
    intro t
    rw [List.map_map, List.map_map]
    exact List.map_congr_left fun v member => Candidate.placed_in_front (c := .variable v) (within v member) t
  rw [whole, whole', List.map_append, List.map_append, List.map_append, List.map_append,
    moved content plain, moved content' plain', unmoved, unmoved]

theorem FunctionHeader.map_placed_enclosed_iff :
    ((FunctionHeader.ofText (front ++ enclosed q content behind)).map Candidate.function).map
        (Candidate.placed (front ++ enclosed q content behind)) =
      ((FunctionHeader.ofText (front ++ enclosed q content' behind)).map Candidate.function).map
        (Candidate.placed (front ++ enclosed q content' behind)) ↔
      headersIn (q :: behind) content = headersIn (q :: behind) content' := by
  obtain ⟨before, within, whole⟩ := exists_front_ofText setOff.functions isQuoted behind
  have placed : ∀ c, IsPlain c →
      ((FunctionHeader.ofText (front ++ enclosed q c behind)).map Candidate.function).map
          (Candidate.placed (front ++ enclosed q c behind)) =
        (before.map Candidate.function).map (Candidate.placed front) ++
          (headersIn (q :: behind) c).map (fun f => (Candidate.function f, front.count '\n' + 1)) ++
          (FunctionHeader.ofText behind).map fun f => ((Candidate.function f).atStart,
            front.count '\n' + Comment.lineAt behind f.index) := by
    intro c isPlain
    obtain ⟨inner, headers, inside, all⟩ := whole c isPlain
    rw [all, ← headers]
    simp only [List.map_append, List.map_map]
    congr 1
    · congr 1
      · exact List.map_congr_left fun f member =>
          Candidate.placed_in_front (c := .function f) (within f member) _
      · refine List.map_congr_left fun f member => ?_
        obtain ⟨i, short, stands⟩ := inside f member
        exact Candidate.placed_inside isQuoted isPlain (c := .function f) short stands behind
    · exact List.map_congr_left fun f _ =>
        Candidate.placed_behind isQuoted isPlain front behind (.function f)
  -- the parts in front of the literal and behind it are the same on both sides
  rw [placed content plain, placed content' plain', List.append_left_inj, List.append_right_inj]
  refine (List.map_injective_iff.2 ?_).eq_iff
  intro f f' same
  cases same
  rfl

/-- Of the content of a literal that is set off, its definitions are found and nothing else. -/
theorem Findings.ofText_enclosed_iff (terminated : IsTerminated front) :
    Findings.ofText (front ++ enclosed q content behind) =
        Findings.ofText (front ++ enclosed q content' behind) ↔
      DefineAlike (q :: behind) content content' := by
  have variables_ := StateVariable.map_placed_enclosed isQuoted plain plain' setOff terminated
  have functions := FunctionHeader.map_placed_enclosed_iff isQuoted plain plain' setOff
  unfold Findings.ofText Candidate.found
  simp only [Findings.mk.injEq, List.map_append (f := Candidate.placed _),
    Registry.structDefinitions_enclosed isQuoted front _ behind setOff.structs,
    Registry.enumNames_enclosed isQuoted, Registry.aliasDefinitions_enclosed isQuoted,
    Registry.namesOfKind_enclosed isQuoted, List.append_left_inj, List.append_right_inj, variables_,
    functions]
  exact defineAlike_iff.symm

end Findings

/-! ## Replacing contents -/

/-- A literal of a source text with another content for it.  The literal starts in code, and both
contents are plain. -/
structure Replacement where
  front : Text
  quote : Char
  content : Text
  content' : Text
  behind : Text
  startsInCode : Comment.stateAfter .code front = .code
  isQuoted : isQuote quote = true
  plain : IsPlain content
  plain' : IsPlain content'

namespace Replacement

/-- The source text. -/
def source (r : Replacement) : Text :=
  r.front ++ enclosed r.quote r.content r.behind

/-- The source text with the other content. -/
def result (r : Replacement) : Text :=
  r.front ++ enclosed r.quote r.content' r.behind

/-- A replacement that is not seen when comments are left out: the literal is set off, and the contents
define alike. -/
structure IsHidden (r : Replacement) : Prop where
  setOff : IsSetOff (Comment.strip r.front) r.quote r.content r.content' (Comment.strip r.behind)
  alike : DefineAlike (r.quote :: Comment.strip r.behind) r.content r.content'

theorem findings_eq {r : Replacement} (hidden : r.IsHidden) :
    Findings.ofText (Comment.strip r.source) = Findings.ofText (Comment.strip r.result) := by
  have terminated : IsTerminated (Comment.strip r.front) :=
    Comment.after_stripFrom Comment.isKnown_code r.startsInCode
  unfold source result
  rw [Comment.strip_enclosed r.startsInCode r.isQuoted r.plain,
    Comment.strip_enclosed r.startsInCode r.isQuoted r.plain']
  exact (Findings.ofText_enclosed_iff r.isQuoted r.plain r.plain' hidden.setOff terminated).2
    hidden.alike

/-- One source text from another by a hidden replacement. -/
def Hides (s s' : Text) : Prop :=
  ∃ r : Replacement, r.IsHidden ∧ r.source = s ∧ r.result = s'

end Replacement

/-- Hidden replacements, one after the other, leave the interface as it is. -/
theorem extract_eq_of_replacements {source source' : Text}
    (replaced : Relation.ReflTransGen Replacement.Hides source source') (options : Options)
    (shared : Option Registry) : extract options shared source = extract options shared source' := by
  induction replaced with
  | refl => rfl
  | tail _ last ih =>
    obtain ⟨r, hidden, rfl, rfl⟩ := last
    exact ih.trans (extract_eq_of_findings options shared (Replacement.findings_eq hidden))

/-- Words that make no head are hidden. -/
theorem extract_eq_of_words_replaced :
    ∃ source source' : Text,
      source = "contract C \x7b string public constant A = \"a function of x\"; \x7d".toList ∧
      source' = "contract C \x7b string public constant A = \"type (x) is new\"; \x7d".toList ∧
      Relation.ReflTransGen Replacement.Hides source source' ∧
      extract .default none source = extract .default none source' := by
  let r : Replacement :=
    { front := "contract C \x7b string public constant A = ".toList
      quote := '"'
      content := "a function of x".toList
      content' := "type (x) is new".toList
      behind := "; \x7d".toList
      startsInCode := by decide +kernel
      isQuoted := by decide
      plain := by decide +kernel
      plain' := by decide +kernel }
  have hidden : r.IsHidden :=
    ⟨⟨by decide +kernel, by decide +kernel, by decide +kernel⟩, by decide +kernel⟩
  have replaced : Relation.ReflTransGen Replacement.Hides r.source r.result :=
    .single ⟨r, hidden, rfl, rfl⟩
  exact ⟨r.source, r.result, by decide +kernel, by decide +kernel, replaced,
    extract_eq_of_replacements replaced .default none⟩

/-- A literal that spells a function declares it. -/
theorem declared_of_literal :
    ∃ r : Replacement,
      r.source = "contract C \x7b string constant A = \"function g() view;\"; uint256 public x; \x7d".toList ∧
      r.result = "contract C \x7b string constant A = \"\"; uint256 public x; \x7d".toList ∧
      extract .default none r.source ≠ extract .default none r.result := by
  let r : Replacement :=
    { front := "contract C \x7b string constant A = ".toList
      quote := '"'
      content := "function g() view;".toList
      content' := []
      behind := "; uint256 public x; \x7d".toList
      startsInCode := by decide +kernel
      isQuoted := by decide
      plain := by decide +kernel
      plain' := by decide +kernel }
  have declares : (extract .default none r.source).toOption.map (·.declarations.length) = some 2 := by
    decide +kernel
  have declaresNone : (extract .default none r.result).toOption.map (·.declarations.length) =
      some 1 := by
    decide +kernel
  refine ⟨r, by decide +kernel, by decide +kernel, fun same => ?_⟩
  rw [same, declaresNone] at declares
  cases declares

end ContractInterface
