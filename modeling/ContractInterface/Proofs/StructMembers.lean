import ContractInterface.Proofs.BalancedTexts
import ContractInterface.Proofs.Definitions
import ContractInterface.Proofs.Findings
import ContractInterface.Proofs.MappingSpellings

/-! # The members of a struct

Struct definitions are taken as they are written (`WrittenStruct`), each with its members in order.  A
source of such definitions gives a registry with the first definition of each name that has a member, and
the members of a definition are those that a blank sets off from their types (`structs_ofSource`).

Behind a closing bracket a name may follow without a blank.  Such a member is lost, and it is the only kind
that is: where no name is defined twice, the members are all there exactly if blanks set all of them off.
-/

namespace ContractInterface.Registry

open Text Literal Delimiter TypeSyntax

/-! ## Tables -/

namespace Table

variable {α : Type}

/-- Of definitions in order, the first one of each name. -/
def firstOfEach : List (Text × α) → List (Text × α)
  | [] => []
  | d :: more => d :: (firstOfEach more).filter (·.1 ≠ d.1)

theorem firstOfEach_of_nodup {definitions : List (Text × α)} (nodup : (definitions.map Prod.fst).Nodup) :
    firstOfEach definitions = definitions := by
  induction definitions with
  | nil => rfl
  | cons d more ih =>
    obtain ⟨fresh, others⟩ := List.nodup_cons.1 nodup
    rw [firstOfEach, ih others, List.filter_eq_self.2]
    intro e member
    have other : e.1 ≠ d.1 := fun same => fresh (same ▸ List.mem_map_of_mem member)
    simpa using other

theorem entries_insertAll (t : Table α) (definitions : List (Text × α)) :
    (t.insertAll definitions).entries =
      t.entries ++ (firstOfEach definitions).filter (·.1 ∉ t.names) := by
  induction definitions generalizing t with
  | nil => simp [insertAll, firstOfEach]
  | cons d more ih =>
    have step : t.insertAll (d :: more) = (t.insert d.1 d.2).insertAll more := rfl
    rw [step, ih, firstOfEach]
    -- a name that is taken already adds nothing, and neither do its later definitions
    by_cases known : d.1 ∈ t.names
    · have names : (t.insert d.1 d.2).names = t.names := by
        rw [names, entries_insert, if_pos known]
        rfl
      rw [names, entries_insert, if_pos known, List.filter_cons_of_neg (by simpa using known), List.filter_filter]
      congr 1
      refine List.filter_congr fun e _ => ?_
      have other : e.1 ∉ t.names → e.1 ≠ d.1 := fun fresh same => fresh (same ▸ known)
      by_cases fresh : e.1 ∈ t.names <;> simp_all
    · have names : (t.insert d.1 d.2).names = t.names ++ [d.1] := by
        rw [names, entries_insert, if_neg known, List.map_append]
        rfl
      rw [names, entries_insert, if_neg known, List.filter_cons_of_pos (by simpa using known), List.filter_filter,
        List.append_assoc, List.singleton_append]
      congr 2
      refine List.filter_congr fun e _ => ?_
      simp [not_or]

theorem entries_insertAll_empty (definitions : List (Text × α)) :
    ((empty : Table α).insertAll definitions).entries = firstOfEach definitions := by
  rw [entries_insertAll]
  exact List.filter_eq_self.2 fun _ _ => rfl

end Table

/-! ## Members -/

/-- A struct member as it is written, without its semicolon.  Blanks may stand around its type and its
name; between the two they may be missing where the type ends with a bracket or a parenthesis. -/
structure WrittenMember where
  before : Text
  type : Text
  between : Text
  name : Text
  behind : Text
  before_blanks : Blanks before
  between_blanks : Blanks between
  behind_blanks : Blanks behind
  trimmed : IsTrimmed type
  nonempty : type ≠ []
  level : depthOf type = 0
  noSemicolon : ';' ∉ type
  noOpen : '{' ∉ type
  noClose : '}' ∉ type
  isName : Identifier.isIdentifier name = true
  tight : between = [] → ∃ c ∈ type.getLast?, c = ']' ∨ c = ')'

namespace WrittenMember

variable (m : WrittenMember)

def text : Text :=
  m.before ++ (m.type ++ m.between ++ m.name) ++ m.behind

/-- What a registry should know of a member. -/
def member : Member :=
  ⟨m.name, spaced m.type⟩

/-- Whether a blank stands between the type and the name. -/
def isSetOff : Bool :=
  m.between != []

variable {m}

theorem spaced_text : spaced m.text = collapsed m.type ++ gap m.between ++ m.name := by
  have solid := Mapping.isSolid_of_isIdentifier m.isName
  have named := ne_nil_of_isIdentifier m.isName
  have trimmed := m.trimmed.around m.nonempty solid.isTrimmed named m.between
  have core : collapsed (m.type ++ m.between ++ m.name) = collapsed m.type ++ gap m.between ++ m.name := by
    obtain ⟨front, c, isType⟩ := (List.eq_nil_or_concat' m.type).resolve_left m.nonempty
    have visible := m.trimmed.last c (by rw [isType, List.getLast?_concat]; rfl)
    rw [collapsed_append solid.isTrimmed.first, collapsed_solid solid, isType, List.append_assoc,
      List.singleton_append, collapsed_append_cons visible, collapsed_append_cons visible,
      collapsed_blanks m.between_blanks]
    simp
  rw [← spaced_trim, text, trim_blanks m.before_blanks m.behind_blanks trimmed, spaced_eq_trim_collapsed,
    (Getter.isTrimmed_collapsed trimmed).trim_eq, core]

theorem spaced_type : spaced m.type = collapsed m.type := by
  rw [spaced_eq_trim_collapsed, (Getter.isTrimmed_collapsed m.trimmed).trim_eq]

/-- Only a name that is set off makes a member. -/
theorem member?_text : member? (trim m.text) = if m.isSetOff then some m.member else none := by
  have solid := Mapping.isSolid_of_isIdentifier m.isName
  have named := ne_nil_of_isIdentifier m.isName
  unfold member?
  rw [spaced_trim, spaced_text]
  by_cases tight : m.between = []
  · -- the bracket and the name are one word
    obtain ⟨c, last, closes⟩ := m.tight tight
    obtain ⟨front, isType⟩ := List.getLast?_eq_some_iff.1 last
    have visible := m.trimmed.last c last
    have word : IsSolid (c :: m.name) := fun d member =>
      (List.mem_cons.1 member).elim (fun same => same ▸ visible) (solid d)
    have whole : collapsed m.type ++ gap m.between ++ m.name = collapsed front ++ c :: m.name := by
      rw [tight, isType, collapsed_append_cons visible]
      simp [gap]
    have noName : Identifier.isIdentifier (splitLastWord (collapsed front ++ c :: m.name)).2 = false := by
      apply Bool.eq_false_iff.2
      intro isName
      have isMember := isMember_of_isIdentifier isName c (Mapping.mem_splitLastWord_snd word _)
      rcases closes with rfl | rfl
      · exact absurd isMember (by decide)
      · exact absurd isMember (by decide)
    rw [whole]
    simp [noName, isSetOff, tight]
  · have space : gap m.between = [' '] := if_neg tight
    have trimmed := Getter.isTrimmed_collapsed m.trimmed
    have type : collapsed m.type ≠ [] := fun empty => m.nonempty (collapsed_eq_nil_iff.1 empty)
    have cut : splitLastWord (collapsed m.type ++ [' '] ++ m.name) = (collapsed m.type, m.name) := by
      rw [Mapping.splitLastWord_append (blanks_singleton (by decide)) (List.cons_ne_nil _ _) solid named,
        trimEnd_of_last trimmed.last]
    rw [space, cut]
    simp [type, m.isName, isSetOff, tight, member, spaced_type]

end WrittenMember

/-! ## Bodies -/

/-- A struct definition as it is written. -/
structure WrittenStruct where
  before : Text
  front : Text
  name : Text
  back : Text
  members : List WrittenMember
  last : Text
  before_blanks : Blanks before
  front_blanks : Blanks front
  apart : front ≠ []
  isName : Identifier.isIdentifier name = true
  back_blanks : Blanks back
  last_blanks : Blanks last

namespace WrittenStruct

def body (d : WrittenStruct) : Text :=
  d.members.flatMap (fun m => m.text ++ [';']) ++ d.last

def text (d : WrittenStruct) : Text :=
  d.before ++ ("struct".toList ++ (d.front ++ (d.name ++ (d.back ++ '{' :: (d.body ++ ['}'])))))

/-- The struct with those of its members that are kept. -/
def recorded (keeps : WrittenMember → Bool) (d : WrittenStruct) : Text × List Member :=
  (d.name, (d.members.filter keeps).map WrittenMember.member)

end WrittenStruct

theorem WrittenMember.mem_text {m : WrittenMember} {c : Char} (member : c ∈ m.text) :
    isBlank c = true ∨ c ∈ m.type ∨ Identifier.isMember c = true := by
  simp only [text, List.mem_append] at member
  rcases member with (before | (type | between) | name) | behind
  · exact .inl (m.before_blanks c before)
  · exact .inr (.inl type)
  · exact .inl (m.between_blanks c between)
  · exact .inr (.inr (isMember_of_isIdentifier m.isName c name))
  · exact .inl (m.behind_blanks c behind)

theorem WrittenMember.plain_text {m : WrittenMember} {c : Char} (member : c ∈ m.text) :
    c ≠ ';' ∧ c ≠ '{' ∧ c ≠ '}' := by
  rcases m.mem_text member with blank | type | isMember
  · refine ⟨?_, ?_, ?_⟩ <;> rintro rfl <;> exact absurd blank (by decide)
  · exact ⟨fun same => m.noSemicolon (same ▸ type), fun same => m.noOpen (same ▸ type),
      fun same => m.noClose (same ▸ type)⟩
  · refine ⟨?_, ?_, ?_⟩ <;> rintro rfl <;> exact absurd isMember (by decide)

theorem WrittenMember.level_text (m : WrittenMember) : depthOf m.text = 0 := by
  have name : depthOf m.name = 0 := depthOf_eq_zero fun c member =>
    parenStep_of_isMember (isMember_of_isIdentifier m.isName c member)
  simp [text, depthOf_blanks m.before_blanks, depthOf_blanks m.between_blanks, depthOf_blanks m.behind_blanks,
    m.level, name]

theorem membersOf_eq (body : Text) :
    membersOf body = (segments (· == ';') 0 body).filterMap fun piece => member? (trim piece) := by
  have none_ : member? [] = none := rfl
  unfold membersOf splitTopLevel
  rw [List.filterMap_filter, List.filterMap_map]
  refine List.filterMap_congr fun piece _ => ?_
  by_cases empty : trim piece = []
  · simp [empty, none_]
  · simp [empty]

/-- The members of a body are those that are set off. -/
theorem membersOf_body (d : WrittenStruct) :
    membersOf d.body = (d.members.filter WrittenMember.isSetOff).map WrittenMember.member := by
  have last : segments (· == ';') 0 d.last = [d.last] := by
    have absent : ∀ c ∈ d.last, (c == ';') = false := fun c member => beq_false_of_ne (by
      rintro rfl
      exact absurd (d.last_blanks ';' member) (by decide))
    exact (isUncut_of_absent absent).segments_eq
  have cut : segments (· == ';') 0 d.body = d.members.map WrittenMember.text ++ [d.last] := by
    unfold WrittenStruct.body
    induction d.members with
    | nil => exact last
    | cons m members ih =>
      have shut : IsShut (· == ';') m.text :=
        isShut_of_absent m.level_text fun c member => beq_false_of_ne (m.plain_text member).1
      have piece := shut.segments_append_cons (c := ';') (by decide) (by decide)
      rw [List.flatMap_cons, List.append_assoc, List.append_assoc, List.singleton_append, piece, ih]
      rfl
  have nothing : trim d.last = [] := trim_append_blanks d.last_blanks []
  have none_ : member? [] = none := rfl
  rw [membersOf_eq, cut, List.filterMap_append, List.filterMap_map, ← List.filterMap_eq_map, List.filterMap_filter]
  simp only [List.filterMap_cons, List.filterMap_nil, nothing, none_, List.append_nil, Function.comp_apply]
  exact List.filterMap_congr fun m _ => m.member?_text

/-! ## Definitions -/

/-- The body between braces that holds none is the text between them. -/
theorem balanced?_braces {body : Text} (plain : ∀ c ∈ body, c ≠ '{' ∧ c ≠ '}') (t : Text) :
    balanced? ['{'] ['}'] ('{' :: (body ++ '}' :: t)) = some (body, body.length + 1) := by
  have flat : ∀ m ∈ unquotedMarks body, markStep ([·] == ['{']) ([·] == ['}']) m = 0 := by
    intro m member
    obtain ⟨c, inBody, rfl⟩ := List.mem_map.1 member
    obtain ⟨notOpen, notClose⟩ := plain c inBody
    simp [markStep, step, notOpen, notClose]
  -- no character of the body moves the depth, so the scan passes it at depth one
  have passes := @closeFrom?_append_of_inside ([·] == ['{']) ([·] == ['}']) 1 (unquotedMarks body)
    (fun front isFront => by
      rw [depthAlong_eq_zero fun m member => flat m (isFront.subset member)]
      decide) (unquotedMarks ('}' :: t))
  rw [depthAlong_eq_zero flat, length_unquotedMarks] at passes
  have marks : unquotedMarks ('{' :: (body ++ '}' :: t)) =
      ⟨'{', false⟩ :: (unquotedMarks body ++ unquotedMarks ('}' :: t)) := by
    simp [unquotedMarks]
  have opens : markStep ([·] == ['{']) ([·] == ['}']) ⟨'{', false⟩ = 1 := rfl
  have closes : closeFrom? ([·] == ['{']) ([·] == ['}']) 1 (unquotedMarks ('}' :: t)) = some 0 := rfl
  have curly : ¬(['{'] = ['('] ∧ ['}'] = [')']) := by decide
  have closes' : closeFrom? ([·] == ['{']) ([·] == ['}']) 0 (unquotedMarks ('{' :: (body ++ '}' :: t))) =
      some (body.length + 1) := by
    rw [marks, closeFrom?]
    simp only [opens, Int.zero_add, passes, Int.add_zero, closes]
    simp
  unfold balanced?
  simp only [if_true, if_neg curly, closes', Option.map_some]
  simp

theorem WrittenStruct.plain_body (d : WrittenStruct) : ∀ c ∈ d.body, c ≠ '{' ∧ c ≠ '}' := by
  intro c member
  rcases List.mem_append.1 member with inMembers | inLast
  · obtain ⟨m, _, inMember⟩ := List.mem_flatMap.1 inMembers
    rcases List.mem_append.1 inMember with inText | semicolon
    · exact (m.plain_text inText).2
    · rw [List.mem_singleton.1 semicolon]
      decide
  · have blank := d.last_blanks c inLast
    constructor <;> rintro rfl <;> exact absurd blank (by decide)

/-- The heads of the structs in a text, each with the text from its brace on. -/
def structHeads (s : Text) : List (Text × Text) :=
  (spans isWordChar (readBracedHead? "struct".toList) s).filterMap Span.value?

theorem structDefinitions_eq_heads (s : Text) :
    structDefinitions s = (structHeads s).filterMap fun head => structOf? head.1 head.2 := by
  unfold structHeads
  rw [structDefinitions_eq, ← map_snd_locateFrom 0, List.filterMap_map]
  rfl

theorem bracedHead?_eq_none {keyword word rest : Text} (braceless : '{' ∉ rest) :
    bracedHead? keyword word rest = none := by
  unfold bracedHead?
  split
  · split
    · rename_i name behind isName
      obtain ⟨b, whole, -⟩ := exists_blanks_of_afterBlanks? isName
      have behind_braceless : '{' ∉ behind := fun member => braceless (by
        rw [whole]
        exact List.mem_append_right _ (List.mem_append_right _ member))
      rw [startsWith_eq_false (not_mem_trimStart behind_braceless)]
      rfl
    · rfl
  · rfl

theorem structHeads_cons {c : Char} (plain : isWordChar c = false) (t : Text) :
    structHeads (c :: t) = structHeads t := by
  unfold structHeads
  rw [spans_cons_of_not_mem plain, List.filterMap_cons_none rfl]

theorem structHeads_blanks_append {b : Text} (blanks : Blanks b) (t : Text) :
    structHeads (b ++ t) = structHeads t := by
  induction b with
  | nil => rfl
  | cons c b ih =>
    rw [List.cons_append, structHeads_cons (isWordChar_of_isBlank (blanks c List.mem_cons_self)),
      ih fun d member => blanks d (List.mem_cons_of_mem c member)]

/-- No head stands in a text without an opening brace. -/
theorem structHeads_append_of_braceless {s : Text} (braceless : '{' ∉ s) (t : Text) :
    structHeads (s ++ '}' :: t) = structHeads t := by
  have nothing : structHeads s = [] := by
    refine filterMap_value?_spans fun front run rest isRun => ?_
    have braceless' : '{' ∉ rest := fun member => braceless (by
      rw [isRun.whole]
      exact List.mem_append_right _ (List.mem_append_right _ member))
    unfold readBracedHead?
    rw [bracedHead?_eq_none braceless']
    rfl
  have cut : structHeads (s ++ '}' :: t) =
      (structHeads s).map (fun found => (found.1, found.2 ++ '}' :: t)) ++ structHeads ('}' :: t) := by
    unfold structHeads
    rw [spans_append_ext (by simp; decide) (extends_readBracedHead? _ endsHeads_closeBrace s t),
      List.filterMap_append, filterMap_value?_map]
  rw [cut, nothing, structHeads_cons (by decide)]
  rfl

/-- A definition has one head, and the next ones stand behind its body. -/
theorem structHeads_text_append (d : WrittenStruct) (t : Text) :
    structHeads (d.text ++ t) = (d.name, '{' :: (d.body ++ '}' :: t)) :: structHeads t := by
  let fromBrace := '{' :: (d.body ++ '}' :: t)
  let rest := d.front ++ (d.name ++ (d.back ++ fromBrace))
  have whole : d.text ++ t = d.before ++ ("struct".toList ++ rest) := by
    simp [WrittenStruct.text, rest, fromBrace]
  have opened : trimStart (d.back ++ fromBrace) = fromBrace := by
    rw [trimStart_blanks d.back_blanks]
    exact trimStart_of_first (by simp [fromBrace]; decide)
  have isHead : bracedHead? "struct".toList "struct".toList rest = some (d.name, fromBrace) := by
    have edge := noBlank_isMember.edge d.back_blanks (show Identifier.isMember '{' = false by decide)
      (d.body ++ '}' :: t)
    unfold bracedHead?
    simp only [if_true, rest, fromBrace, afterBlanks?_identifier_append d.front_blanks d.apart d.isName edge]
    simp only [fromBrace] at opened
    simp only [opened]
    rfl
  -- the next head is searched behind the opening brace, not behind the closing one
  have behind : rest.drop (rest.length - fromBrace.length + 1) = d.body ++ '}' :: t := by
    have cut : rest = (d.front ++ (d.name ++ (d.back ++ ['{']))) ++ (d.body ++ '}' :: t) := by
      simp [rest, fromBrace]
    have size : rest.length - fromBrace.length + 1 = (d.front ++ (d.name ++ (d.back ++ ['{']))).length := by
      simp only [rest, fromBrace, List.length_append, List.length_cons, List.length_nil]
      omega
    rw [size, cut, List.drop_left]
  have edge : ∀ c ∈ rest.head?, isWordChar c = false := fun c first =>
    isWordChar_of_isBlank (isBlank_of_head?_blanks d.front_blanks d.apart _ c first)
  have found : structHeads ("struct".toList ++ rest) =
      (d.name, fromBrace) :: structHeads (rest.drop (rest.length - fromBrace.length + 1)) := by
    unfold structHeads
    rw [spans_run_append (by decide) (List.all_eq_true.1 (by decide)) edge]
    simp only [readBracedHead?, isHead, Option.map_some]
    rfl
  rw [whole, structHeads_blanks_append d.before_blanks, found, behind,
    structHeads_append_of_braceless fun member => (d.plain_body '{' member).1 rfl]

theorem structDefinitions_written (definitions : List WrittenStruct) {last : Text} (blanks : Blanks last) :
    structDefinitions (definitions.flatMap WrittenStruct.text ++ last) =
      (definitions.map (WrittenStruct.recorded WrittenMember.isSetOff)).filter (·.2 ≠ []) := by
  rw [structDefinitions_eq_heads]
  induction definitions with
  | nil =>
    have nothing : structHeads last = [] := by
      rw [← List.append_nil last, structHeads_blanks_append blanks, structHeads, spans]
      rfl
    rw [List.flatMap_nil, List.nil_append, nothing]
    rfl
  | cons d definitions ih =>
    have isStruct : structOf? d.name ('{' :: (d.body ++ '}' :: (definitions.flatMap WrittenStruct.text ++ last))) =
        if (d.recorded WrittenMember.isSetOff).2 = [] then none else some (d.recorded WrittenMember.isSetOff) := by
      unfold structOf?
      rw [balanced?_braces d.plain_body]
      simp only [membersOf_body]
      rfl
    rw [List.flatMap_cons, List.append_assoc, structHeads_text_append, List.filterMap_cons, isStruct, ih,
      List.map_cons, List.filter_cons]
    by_cases empty : (d.recorded WrittenMember.isSetOff).2 = []
    · simp [empty]
    · simp [empty]

/-! ## The registry -/

/-- What a registry lists of struct definitions if it keeps some of their members: of each name the first
definition with a member. -/
def listed (keeps : WrittenMember → Bool) (definitions : List WrittenStruct) : List (Text × List Member) :=
  Table.firstOfEach ((definitions.map (WrittenStruct.recorded keeps)).filter (·.2 ≠ []))

section Listed

variable {definitions : List WrittenStruct}

theorem listed_congr {keeps keeps' : WrittenMember → Bool}
    (same : ∀ d ∈ definitions, ∀ m ∈ d.members, keeps m = keeps' m) :
    listed keeps definitions = listed keeps' definitions := by
  have recorded : definitions.map (WrittenStruct.recorded keeps) =
      definitions.map (WrittenStruct.recorded keeps') :=
    List.map_congr_left fun d isDefinition => by
      unfold WrittenStruct.recorded
      rw [List.filter_congr (same d isDefinition)]
  unfold listed
  rw [recorded]

/-- Where no name is defined twice, all members that are kept are listed. -/
theorem flatMap_snd_listed (nodup : (definitions.map WrittenStruct.name).Nodup) (keeps : WrittenMember → Bool) :
    (listed keeps definitions).flatMap Prod.snd =
      ((definitions.flatMap WrittenStruct.members).filter keeps).map WrittenMember.member := by
  have names : (definitions.map (WrittenStruct.recorded keeps)).map Prod.fst =
      definitions.map WrittenStruct.name := by
    rw [List.map_map]
    rfl
  have nodup' : (((definitions.map (WrittenStruct.recorded keeps)).filter (·.2 ≠ [])).map Prod.fst).Nodup :=
    (List.filter_sublist.map Prod.fst).nodup (names ▸ nodup)
  unfold listed
  rw [Table.firstOfEach_of_nodup nodup']
  -- structs without a member that is kept are not listed, and would add nothing
  clear nodup nodup' names
  induction definitions with
  | nil => rfl
  | cons d definitions ih =>
    rw [List.map_cons, List.flatMap_cons, List.filter_append, List.map_append, ← ih, List.filter_cons]
    split
    · rfl
    · rename_i empty
      have none_ : (d.recorded keeps).2 = [] := by simpa using empty
      rw [show (d.members.filter keeps).map WrittenMember.member = [] from none_, List.nil_append]

end Listed

/-- The registry of struct definitions has the members that are set off from their types, of each name those
of the first definition that has one.  So it has all members if all are set off, and where no name is
defined twice it misses one if any is not. -/
theorem structs_ofSource {source last : Text} {definitions : List WrittenStruct}
    (spelled : Comment.strip source = definitions.flatMap WrittenStruct.text ++ last) (blanks : Blanks last) :
    (ofSource source).structs.entries = listed WrittenMember.isSetOff definitions ∧
    ((∀ d ∈ definitions, ∀ m ∈ d.members, m.isSetOff = true) →
      (ofSource source).structs.entries = listed (fun _ => true) definitions) ∧
    ((definitions.map WrittenStruct.name).Nodup →
      (ofSource source).structs.entries = listed (fun _ => true) definitions →
        ∀ d ∈ definitions, ∀ m ∈ d.members, m.isSetOff = true) := by
  have entries : (ofSource source).structs.entries = listed WrittenMember.isSetOff definitions := by
    have structs : (ofSource source).structs = Table.empty.insertAll (structDefinitions (Comment.strip source)) :=
      rfl
    rw [structs, Table.entries_insertAll_empty, spelled, structDefinitions_written definitions blanks]
    rfl
  refine ⟨entries, fun setOff => entries.trans (listed_congr setOff), fun nodup all => ?_⟩
  have members := flatMap_snd_listed nodup WrittenMember.isSetOff
  rw [← entries, all, flatMap_snd_listed nodup] at members
  have sizes := congrArg List.length members
  rw [List.length_map, List.length_map, List.filter_true] at sizes
  have setOff := List.length_filter_eq_length_iff.1 sizes.symm
  exact fun d isDefinition m isMember => setOff m (List.mem_flatMap.2 ⟨d, isDefinition, isMember⟩)

/-- A mapping that a line break sets off from its name. -/
def WrittenMember.seen : WrittenMember where
  before := " ".toList
  type := "mapping (address=>  mapping(uint256 => bool)[ 3 ])".toList
  between := "\n  ".toList
  name := "seen$".toList
  behind := []
  before_blanks := List.all_eq_true.1 (by decide)
  between_blanks := List.all_eq_true.1 (by decide)
  behind_blanks := blanks_nil
  trimmed := by decide
  nonempty := by decide
  level := by decide
  noSemicolon := by decide
  noOpen := by decide
  noClose := by decide
  isName := by decide +kernel
  tight none_ := absurd none_ (by decide)

/-- The member `uint256 b`. -/
def WrittenMember.number : WrittenMember where
  before := [' ']
  type := "uint256".toList
  between := [' ']
  name := ['b']
  behind := [' ']
  before_blanks := blanks_space
  between_blanks := blanks_space
  behind_blanks := blanks_space
  trimmed := by decide
  nonempty := by decide
  level := by decide
  noSemicolon := by decide
  noOpen := by decide
  noClose := by decide
  isName := by decide +kernel
  tight none_ := absurd none_ (by decide)

/-- The member `uint256[]a`, without a blank. -/
def WrittenMember.tightArray : WrittenMember where
  before := []
  type := "uint256[]".toList
  between := []
  name := ['a']
  behind := []
  before_blanks := blanks_nil
  between_blanks := blanks_nil
  behind_blanks := blanks_nil
  trimmed := by decide
  nonempty := by decide
  level := by decide
  noSemicolon := by decide
  noOpen := by decide
  noClose := by decide
  isName := by decide +kernel
  tight _ := ⟨']', by decide, .inl rfl⟩

/-- A struct `S` with the given members. -/
def WrittenStruct.ofMembers (members : List WrittenMember) : WrittenStruct where
  before := []
  front := [' ']
  name := ['S']
  back := [' ']
  members
  last := []
  before_blanks := blanks_nil
  front_blanks := blanks_space
  apart := space_ne_nil
  isName := by decide
  back_blanks := blanks_space
  last_blanks := blanks_nil

/-- The first definition with a member counts. -/
theorem structs_ofSource_redefined :
    let source := ("struct S/* none */ \x7b\x7dstruct S \x7b mapping (address=>  mapping(uint256 => bool)[ 3 ])" ++
      "\n  seen$; uint256 b ;\x7dstruct S \x7b uint256 b ;\x7d// last\n").toList
    (ofSource source).structs.entries = [("S".toList,
      [⟨"seen$".toList, "mapping (address=> mapping(uint256 => bool)[ 3 ])".toList⟩,
        ⟨"b".toList, "uint256".toList⟩])] := by
  intro source
  have spelled : Comment.strip source =
      [.ofMembers [], .ofMembers [.seen, .number], .ofMembers [.number]].flatMap WrittenStruct.text ++ "\n".toList := by
    decide +kernel
  have listed_ := (structs_ofSource spelled (blanks_singleton (by decide))).2.1 (by decide +kernel)
  exact listed_.trans (by decide +kernel)

/-- A member that no blank sets off is lost. -/
theorem structs_ofSource_tight :
    let definition := WrittenStruct.ofMembers [.tightArray, .number]
    definition.text = "struct S \x7buint256[]a; uint256 b ;\x7d".toList ∧
      Comment.strip definition.text = [definition].flatMap WrittenStruct.text ++ [] ∧
      (ofSource definition.text).structs.entries = [("S".toList, [⟨"b".toList, "uint256".toList⟩])] ∧
      listed (fun _ => true) [definition] =
        [("S".toList, [⟨"a".toList, "uint256[]".toList⟩, ⟨"b".toList, "uint256".toList⟩])] := by
  decide +kernel

end ContractInterface.Registry
