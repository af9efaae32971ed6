import ContractInterface.Proofs.CollapsedTypes
import ContractInterface.Proofs.Definitions
import ContractInterface.Proofs.Findings
import ContractInterface.Proofs.Heads

/-! # Heads with their blanks collapsed

A head may be spread over as many blanks as one likes, so the same functions and the same types are found
in a text and in its collapsed form: the definitions of functions are spelled alike
(`definitions_collapsed`), heads that differ in the gaps of their lists only are read as headers that
differ in no more (`ofHead?_levelled`), and the types that are defined are the same, as
`structDefinitions_collapsed` says of the structs.
-/

namespace ContractInterface

open Text Delimiter Literal

/-! ## Texts behind a head -/

theorem visible_of_startsWith {c : Char} (visible : isBlank c = false) {s : Text}
    (starts : startsWith [c] s = true) : ∀ d ∈ s.head?, isBlank d = false := by
  obtain ⟨rest, rfl⟩ := List.isPrefixOf_iff_prefix.1 starts
  simpa using visible

/-- What stands in front of the end of a text that starts with a visible character. -/
theorem take_collapsed_of_suffix {s t : Text} (suffix : t <:+ s)
    (edge : ∀ c ∈ t.head?, isBlank c = false) :
    (collapsed s).take ((collapsed s).length - (collapsed t).length) =
      collapsed (s.take (s.length - t.length)) := by
  obtain ⟨front, rfl⟩ := suffix
  rw [collapsed_append edge, List.length_append, List.length_append, Nat.add_sub_cancel,
    Nat.add_sub_cancel, List.take_left, List.take_left]

theorem collapsed_drop_one {c : Char} (visible : isBlank c = false) {s : Text}
    (starts : startsWith [c] s = true) : (collapsed s).drop 1 = collapsed (s.drop 1) := by
  obtain ⟨rest, rfl⟩ := List.isPrefixOf_iff_prefix.1 starts
  rw [List.singleton_append, collapsed_cons visible]
  rfl

/-! ## Function heads -/

namespace FunctionHead

/-- A head with its gaps collapsed. -/
def levelled (head : FunctionHead) : FunctionHead :=
  ⟨head.name, collapsed head.lead, collapsed head.fromParen⟩

theorem ofWord?_collapsed (word rest : Text) :
    ofWord? word (collapsed rest) = (ofWord? word rest).map levelled := by
  unfold ofWord?
  rw [Identifier.afterBlanks?_collapsed]
  split
  · rename_i isKeyword
    cases isName : Identifier.afterBlanks? rest with
    | none => rfl
    | some found =>
      have starts := startsWith_collapsed (isSolid_singleton (c := '(') (by decide)) (trimStart found.2)
      simp only [Option.map_some, trimStart_collapsed, starts]
      split
      · rename_i opens
        have within : trimStart found.2 <:+ rest :=
          (List.dropWhile_suffix _).trans (afterBlanks?_suffix isName)
        have lead := take_collapsed_of_suffix within (visible_of_startsWith (by decide) opens)
        have solid : IsSolid word := isKeyword ▸ isSolid_of_all (by decide)
        simp only [Option.map_some, levelled, lead, collapsed_solid_append solid]
      · rfl
  · rfl

theorem readsCollapsed_read? : ReadsCollapsed read? levelled := by
  refine leavesBehind_read?.readsCollapsed ?_ ?_
  · intro word rest found isFound
    obtain ⟨head, isHead, rfl⟩ := Option.map_eq_some_iff.1 isFound
    exact (List.drop_suffix 1 _).trans (fromParen_suffix isHead)
  · intro word rest
    rw [ofWord?_collapsed, Option.map_map, Option.map_map]
    refine Option.map_congr fun head isHead => ?_
    exact congrArg (head.levelled, ·)
      (collapsed_drop_one (by decide) (startsWith_of_ofWord? isHead))

/-- The heads of the collapsed form of a text are those of the text, at the corresponding places. -/
theorem map_ofText_collapsed (s : Text) :
    (ofText (collapsed s)).map (fun found => (inkBefore (collapsed s) found.1, found.2)) =
      (ofText s).map fun found => (inkBefore s found.1, found.2.levelled) :=
  map_locate_collapsed noBlank_isWordChar readsCollapsed_read? s

theorem map_snd_ofText_collapsed (s : Text) :
    (ofText (collapsed s)).map Prod.snd = (ofText s).map fun found => found.2.levelled := by
  have whole := congrArg (List.map Prod.snd) (map_ofText_collapsed s)
  rwa [List.map_map, List.map_map] at whole

end FunctionHead

/-! ## Headers -/

/-- A part of a header with its gaps collapsed. -/
def HeaderPart.levelled : HeaderPart → HeaderPart
  | .word text => .word text
  | .arguments content => .arguments (collapsed content)

namespace FunctionHeader

/-- A header with the gaps of its lists collapsed. -/
def levelled (f : FunctionHeader) : FunctionHeader :=
  { f with params := collapsed f.params, returns := f.returns.map collapsed }

theorem lengthFrom_blanks_append {b : Text} (blanks : Blanks b) (depth : Int) (r : Reading) (s : Text) :
    lengthFrom depth (r.marks (b ++ s)) = b.length + lengthFrom depth ((r.after b).marks s) := by
  induction b generalizing r with
  | nil => simp
  | cons c b ih =>
    have blank := blanks c List.mem_cons_self
    have flat : markStep isOpenParen isCloseParen ⟨c, r.isQuoted c⟩ = 0 := by
      simp [markStep, step, noBlank_isOpenParen c blank, noBlank_isCloseParen c blank]
    have noEnd : ¬(c = '\x7b' ∨ c = ';') := by
      rintro (rfl | rfl) <;> cases blank
    rw [List.cons_append, Reading.marks_cons, lengthFrom, if_neg fun ends => noEnd ends.2.1, flat,
      Int.add_zero, ih fun d member => blanks d (List.mem_cons_of_mem c member)]
    simp only [Reading.after_cons, List.length_cons]
    omega

theorem take_lengthFrom_collapsed {r : Reading} (known : ∀ quote ∈ r.quote?, isQuote quote = true)
    (depth : Int) (s : Text) :
    (collapsed s).take (lengthFrom depth (r.marks (collapsed s))) =
      collapsed (s.take (lengthFrom depth (r.marks s))) := by
  induction s using runs_induction generalizing r depth with
  | nil => rfl
  | visible c s visible ih =>
    rw [collapsed_cons visible, Reading.marks_cons, Reading.marks_cons, lengthFrom, lengthFrom]
    split
    · rfl
    · rw [List.take_succ_cons, List.take_succ_cons, collapsed_cons visible,
        ih (Reading.isQuote_of_next known c)]
  | blanks b s nonempty blanks edge ih =>
    have space : Blanks [' '] := blanks_singleton (by decide)
    -- the part that is taken may end within the rest, but starts with the same character
    have edge' : ∀ n, ∀ c ∈ (s.take n).head?, isBlank c = false := by
      intro n c isFirst
      cases n with
      | zero => cases isFirst
      | succ n =>
        cases s with
        | nil => cases isFirst
        | cons d s => exact edge c isFirst
    rw [collapsed_run nonempty blanks edge, lengthFrom_blanks_append blanks,
      Reading.after_blanks nonempty blanks known, ← List.singleton_append, lengthFrom_blanks_append space,
      List.take_length_add_append, List.take_length_add_append, collapsed_run nonempty blanks (edge' _),
      ← ih (Reading.isQuote_of_next known ' ')]
    rfl

theorem behindParams_collapsed (s : Text) : behindParams (collapsed s) = collapsed (behindParams s) := by
  unfold behindParams
  rw [marks_eq_marks, marks_eq_marks]
  exact take_lengthFrom_collapsed (by simp [Reading.quote?]) 0 s

theorem parts_of_isBlank {c : Char} (blank : isBlank c = true) (s : Text) : parts (c :: s) = parts s := by
  have notParen : c ≠ '(' := by
    rintro rfl
    cases blank
  rw [parts, if_neg notParen, if_neg (by simp [noBlank_isStart c blank])]

theorem parts_collapsed (s : Text) : parts (collapsed s) = (parts s).map HeaderPart.levelled := by
  have passes : ∀ {c : Char} (t : Text), isBlank c = true →
      parts (collapsed (c :: t)) = parts (collapsed t) := by
    intro c t blank
    rw [collapsed, if_pos blank]
    split
    · rfl
    · exact parts_of_isBlank (by decide) _
  fun_induction parts s with
  | case1 => simp [collapsed, parts]
  | case2 s close isClose ih =>
    have visible : isBlank '(' = false := by decide
    have shows := showsAt_of_matchingParen? isClose
    have isClose' := matchingParen?_collapsed ('(' :: s)
    have content := content_collapsed visible shows
    have behind := drop_collapsedPlace_succ shows
    rw [isClose, Option.map_some] at isClose'
    rw [collapsed_cons visible] at isClose' content behind ⊢
    -- what stands in front of the closing parenthesis, without the opening one
    have inner : ∀ (t : Text) k, (('(' :: t).take k).drop 1 = t.take (k - 1) := by
      intro t k
      cases k <;> rfl
    rw [inner, inner] at content
    simp only [List.drop_succ_cons] at behind
    rw [parts, if_pos rfl, isClose']
    simp only [content, behind, ih]
    rfl
  | case3 s none_ =>
    have none_' := matchingParen?_collapsed ('(' :: s)
    rw [none_, collapsed_cons (by decide)] at none_'
    rw [collapsed_cons (by decide), parts, if_pos rfl, none_']
    rfl
  | case4 c s notParen starts ih =>
    rw [collapsed_cons (noBlank_isStart.visible starts), parts, if_neg notParen, if_pos starts,
      takeWhile_collapsed noBlank_isMember, dropWhile_collapsed noBlank_isMember, ih]
    rfl
  | case5 c s notParen plain ih =>
    cases blank : isBlank c with
    | true => rw [passes s blank, ih]
    | false => rw [collapsed_cons blank, parts, if_neg notParen, if_neg plain, ih]

theorem wordsOf_levelled (ps : List HeaderPart) : wordsOf (ps.map HeaderPart.levelled) = wordsOf ps := by
  unfold wordsOf
  rw [List.filterMap_map]
  congr 1
  funext part
  cases part <;> rfl

theorem returnsAfter?_levelled (last : Text) (ps : List HeaderPart) :
    returnsAfter? last (ps.map HeaderPart.levelled) = (returnsAfter? last ps).map collapsed := by
  fun_induction returnsAfter? last ps with
  | case1 => rfl
  | case2 last text more ih => exact ih
  | case3 content more => rfl
  | case4 last content more other ih =>
    rw [List.map_cons, HeaderPart.levelled, returnsAfter?, if_neg other, ih]

theorem ofHead?_levelled (index : Nat) {head : FunctionHead}
    (starts : startsWith ['('] head.fromParen = true) :
    ofHead? index head.levelled = (ofHead? index head).map levelled := by
  unfold ofHead? FunctionHead.levelled
  rw [parenthesised?_collapsed starts, Option.map_map, Option.map_map]
  refine Option.map_congr fun found _ => ?_
  simp only [Function.comp_apply, behindParams_collapsed, parts_collapsed, wordsOf_levelled]
  exact congrArg (fun returns => FunctionHeader.mk head.name (collapsed found.1) returns index _ _)
    (returnsAfter?_levelled [] _)

theorem definition?_levelled {head : FunctionHead} :
    definition? head.levelled = definition? head := by
  unfold definition? FunctionHead.levelled
  rw [matchingParen?_collapsed, Option.map_map]
  refine Option.map_congr fun close isClose => ?_
  have taken := take_collapsedPlace_succ (showsAt_of_matchingParen? isClose)
  have alike : Alike (collapsed head.lead ++ collapsed (head.fromParen.take (close + 1)))
      (head.lead ++ head.fromParen.take (close + 1)) :=
    (alike_collapsed _).append (alike_collapsed _)
  rw [Function.comp_apply, taken]
  exact alike.spaced_eq

/-- The functions of a text are defined alike whatever its gaps. -/
theorem definitions_collapsed (s : Text) : definitions (collapsed s) = definitions s := by
  have asHeads : ∀ t, definitions t = ((FunctionHead.ofText t).map Prod.snd).filterMap definition? := by
    intro t
    rw [List.filterMap_map]
    rfl
  rw [asHeads, asHeads, FunctionHead.map_snd_ofText_collapsed, List.filterMap_map, List.filterMap_map]
  congr 1
  funext found
  exact definition?_levelled

end FunctionHeader

/-! ## Definitions of types -/

namespace Registry

theorem bracedHead?_collapsed (keyword word rest : Text) : bracedHead? keyword word (collapsed rest) =
    (bracedHead? keyword word rest).map fun found => (found.1, collapsed found.2) := by
  unfold bracedHead?
  rw [Identifier.afterBlanks?_collapsed]
  split
  · cases Identifier.afterBlanks? rest with
    | none => rfl
    | some found =>
      have starts := startsWith_collapsed (isSolid_singleton (c := '\x7b') (by decide)) (trimStart found.2)
      simp only [Option.map_some, trimStart_collapsed, starts]
      split <;> rfl
  · rfl

theorem readsCollapsed_bracedHead (keyword : Text) : ReadsCollapsed (readBracedHead? keyword)
    fun found => (found.1, collapsed found.2) := by
  refine (leavesBehind_bracedHead keyword).readsCollapsed ?_ ?_
  · intro word rest found isFound
    obtain ⟨head, isHead, rfl⟩ := Option.map_eq_some_iff.1 isFound
    exact (List.drop_suffix 1 _).trans (bracedHead?_spec isHead).2
  · intro word rest
    rw [bracedHead?_collapsed, Option.map_map, Option.map_map]
    refine Option.map_congr fun found isHead => ?_
    exact congrArg ((found.1, collapsed found.2), ·)
      (collapsed_drop_one (by decide) (bracedHead?_spec isHead).1)

/-- What a reader finds in the collapsed form of a text is what it finds in the text. -/
theorem map_snd_locate_collapsed {α : Type} {read? : Text → Text → Option (α × Nat)} {ext : α → α}
    (reads : ReadsCollapsed read? ext) (s : Text) :
    (locate isWordChar read? (collapsed s)).map Prod.snd =
      (locate isWordChar read? s).map fun found => ext found.2 := by
  have whole := congrArg (List.map Prod.snd) (map_locate_collapsed noBlank_isWordChar reads s)
  rwa [List.map_map, List.map_map] at whole

theorem enumNames_collapsed (s : Text) : enumNames (collapsed s) = enumNames s := by
  have names := congrArg (List.map Prod.fst)
    (map_snd_locate_collapsed (readsCollapsed_bracedHead "enum".toList) s)
  rw [List.map_map, List.map_map] at names
  exact names

theorem member?_collapsed (piece : Text) : member? (collapsed piece) = member? piece := by
  unfold member?
  rw [spaced_collapsed]

/-- What pieces that differ in their gaps only are read as does not differ. -/
theorem filterMap_eq_of_map_collapsed {α : Type} {f : Text → Option α}
    (blind : ∀ piece, f (collapsed piece) = f piece) {pieces pieces' : List Text}
    (same : pieces.map collapsed = pieces'.map collapsed) : pieces.filterMap f = pieces'.filterMap f := by
  have asCollapsed : ∀ ps : List Text, (ps.map collapsed).filterMap f = ps.filterMap f := by
    intro ps
    rw [List.filterMap_map]
    exact congrArg (List.filterMap · ps) (funext blind)
  rw [← asCollapsed, same, asCollapsed]

theorem membersOf_collapsed (body : Text) : membersOf (collapsed body) = membersOf body :=
  filterMap_eq_of_map_collapsed member?_collapsed
    (splitTopLevel_collapsed (noBlank_beq (by decide)) body)

theorem structOf?_collapsed (name fromBrace : Text) :
    structOf? name (collapsed fromBrace) = structOf? name fromBrace := by
  have ofBody : ∀ t : Text, structOf? name t = ((balanced? ['{'] ['}'] t).map Prod.fst).bind
      fun body => if membersOf body = [] then none else some (name, membersOf body) := by
    intro t
    unfold structOf?
    cases balanced? ['{'] ['}'] t <;> rfl
  rw [ofBody, ofBody, balanced?_braces_collapsed]
  cases balanced? ['{'] ['}'] fromBrace with
  | none => rfl
  | some inside => simp only [Option.map_some, Option.bind_some, membersOf_collapsed]

theorem structDefinitions_collapsed (s : Text) : structDefinitions (collapsed s) = structDefinitions s := by
  have heads := congrArg (List.filterMap fun head : Text × Text => structOf? head.1 head.2)
    (map_snd_locate_collapsed (readsCollapsed_bracedHead "struct".toList) s)
  rw [List.filterMap_map, List.filterMap_map] at heads
  rw [structDefinitions_eq, structDefinitions_eq]
  refine heads.trans (List.filterMap_congr fun found _ => ?_)
  exact structOf?_collapsed found.2.1 found.2.2

theorem noBlank_isUnderlyingMember : NoBlank isUnderlyingMember :=
  noBlank_isReferenceMember

theorem dottedName?_collapsed (s : Text) :
    dottedName? (collapsed s) = (dottedName? s).map fun found => (found.1, collapsed found.2) := by
  cases s with
  | nil => rfl
  | cons c s =>
    cases blank : isBlank c with
    | true =>
      simp [collapsed_of_isBlank blank, dottedName?, noBlank_isStart c blank, noBlank_isStart.space]
    | false =>
      rw [collapsed_cons blank, dottedName?, dottedName?, takeWhile_collapsed noBlank_isUnderlyingMember,
        dropWhile_collapsed noBlank_isUnderlyingMember]
      split <;> rfl

theorem dropBlanks?_collapsed (s : Text) : dropBlanks? (collapsed s) = (dropBlanks? s).map collapsed := by
  cases s with
  | nil => rfl
  | cons c s =>
    cases blank : isBlank c with
    | true =>
      have trimmed : trimStart (collapsed (trimStart s)) = collapsed (trimStart s) := by
        rw [trimStart_collapsed, trimStart_of_first (head?_trimStart s)]
      rw [collapsed_of_isBlank blank, dropBlanks?, dropBlanks?, if_pos blank, if_pos (by decide), trimmed]
      rfl
    | false =>
      rw [collapsed_cons blank, dropBlanks?, dropBlanks?, if_neg (by simp [blank]),
        if_neg (by simp [blank])]
      rfl

theorem aliasHead?_collapsed (word rest : Text) : aliasHead? word (collapsed rest) =
    (aliasHead? word rest).map fun found => (found.1, found.2.1, collapsed found.2.2) := by
  have isWord : IsSolid "is".toList := isSolid_of_all (by decide)
  unfold aliasHead?
  split
  · -- step by step, every reader leaves the collapsed form of what it leaves of the text
    rw [Identifier.afterBlanks?_collapsed]
    refine bind_map_eq_map_bind fun first => ?_
    simp only [dropBlanks?_collapsed]
    refine bind_map_eq_map_bind fun behindName => ?_
    rw [after?_collapsed isWord]
    refine bind_map_eq_map_bind fun behindIs => ?_
    rw [dropBlanks?_collapsed]
    refine bind_map_eq_map_bind fun second => ?_
    rw [dottedName?_collapsed]
    refine bind_map_eq_map_bind fun dotted => ?_
    simp only [trimStart_collapsed]
    have edge := head?_trimStart dotted.2
    cases isEnd : trimStart dotted.2 with
    | nil => rfl
    | cons c last =>
      rw [isEnd] at edge
      rw [collapsed_cons (edge c rfl)]
      by_cases ends : c = ';'
      · subst ends
        rfl
      · split <;> simp_all
  · rfl

theorem dropBlanks?_suffix {s behind : Text} (found : dropBlanks? s = some behind) : behind <:+ s := by
  cases s with
  | nil => cases found
  | cons c s =>
    rw [dropBlanks?] at found
    split at found
    · cases found
      exact (List.dropWhile_suffix _).trans (List.suffix_cons c s)
    · cases found

theorem dottedName?_suffix {s name behind : Text} (found : dottedName? s = some (name, behind)) :
    behind <:+ s := by
  cases s with
  | nil => cases found
  | cons c s =>
    rw [dottedName?] at found
    split at found
    · cases found
      exact (List.dropWhile_suffix _).trans (List.suffix_cons c s)
    · cases found

theorem aliasHead?_suffix {word rest name underlying last : Text}
    (isHead : aliasHead? word rest = some (name, underlying, last)) : last <:+ rest := by
  obtain ⟨_, behindName, fromIs, behindIs, fromType, behind, isName, isFromIs, isIs, isFromType, isType, isEnd⟩ :=
    aliasHead?_eq_some_iff.1 isHead
  have fromLast : last <:+ trimStart behind := isEnd ▸ List.suffix_cons ';' last
  have fromBehind : last <:+ behind := fromLast.trans (List.dropWhile_suffix _)
  have fromBehindIs : behindIs <:+ fromIs := after?_eq_some.1 isIs ▸ List.suffix_append _ _
  have fromName : behindIs <:+ rest :=
    fromBehindIs.trans ((dropBlanks?_suffix isFromIs).trans (afterBlanks?_suffix isName))
  exact fromBehind.trans ((dottedName?_suffix isType).trans ((dropBlanks?_suffix isFromType).trans fromName))

theorem readsCollapsed_aliasHead : ReadsCollapsed readAliasHead? id := by
  refine leavesBehind_aliasHead.readsCollapsed ?_ ?_
  · intro word rest found isFound
    obtain ⟨⟨name, underlying, last⟩, isHead, rfl⟩ := Option.map_eq_some_iff.1 isFound
    exact aliasHead?_suffix isHead
  · intro word rest
    rw [aliasHead?_collapsed, Option.map_map, Option.map_map]
    rfl

theorem aliasDefinitions_collapsed (s : Text) : aliasDefinitions (collapsed s) = aliasDefinitions s :=
  map_snd_locate_collapsed readsCollapsed_aliasHead s

theorem readsCollapsed_contractHead : ReadsCollapsed readContractHead? id := by
  refine leavesBehind_contractHead.readsCollapsed ?_ ?_
  · intro word rest found isFound
    obtain ⟨kind, _, isHead⟩ := Option.bind_eq_some_iff.1 isFound
    obtain ⟨⟨name, behind⟩, isName, rfl⟩ := Option.map_eq_some_iff.1 isHead
    exact afterBlanks?_suffix isName
  · intro word rest
    cases contractKind? word with
    | none => rfl
    | some kind =>
      rw [Identifier.afterBlanks?_collapsed]
      cases Identifier.afterBlanks? rest <;> rfl

theorem namesOfKind_collapsed (kind : ContractKind) (s : Text) :
    namesOfKind kind (collapsed s) = namesOfKind kind s := by
  have definitions : contractDefinitions (collapsed s) = contractDefinitions s :=
    map_snd_locate_collapsed readsCollapsed_contractHead s
  unfold namesOfKind
  rw [definitions]

end Registry

end ContractInterface
