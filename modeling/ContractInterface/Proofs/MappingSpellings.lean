import ContractInterface.Proofs.CollapsedTypes
import ContractInterface.Proofs.ParameterTypes

/-! # Taking mappings apart

The places of a mapping are found by its parenthesis and by the arrow at depth one, whatever stands behind
the mapping (`IsWritten.keys_append`, `IsWritten.finalValue_append`, `IsWritten.split?_append`).  So the
readings reach through nested mappings, by induction over the spelling: the keys and the innermost value
are those that were spelled (`parts_of_spells`).  One reading does not undo spelling: a value keeps its
name if it is a mapping itself.
-/

namespace ContractInterface.TypeSyntax.Mapping

open Text Delimiter

/-! ## Texts without parentheses and arrows -/

/-- A text that holds no parenthesis and starts no arrow. -/
def IsFlat (s : Text) : Prop :=
  ∀ c ∈ s, parenStep c = 0 ∧ c ≠ '='

theorem isFlat_of_blanks {b : Text} (blanks : Blanks b) : IsFlat b := fun c member =>
  ⟨parenStep_of_isBlank (blanks c member), by rintro rfl; exact absurd (blanks '=' member) (by decide)⟩

theorem isFlat_of_members {s : Text} (members : ∀ c ∈ s, Clause.isTypeMember c = true) : IsFlat s :=
  fun c member => ⟨(flat_of_isTypeMember (members c member)).1,
    by rintro rfl; exact absurd (members '=' member) (by decide)⟩

namespace IsFlat

variable {s t : Text}

theorem append (left : IsFlat s) (right : IsFlat t) : IsFlat (s ++ t) := fun c member =>
  (List.mem_append.1 member).elim (left c) (right c)

theorem steps (flat : IsFlat s) : ∀ c ∈ s, parenStep c = 0 := fun c member => (flat c member).1

theorem isBalanced (flat : IsFlat s) : IsBalanced s := isBalanced_of_chars flat.steps

theorem noOpen (flat : IsFlat s) : '(' ∉ s := fun member => absurd (flat '(' member).1 (by decide)

theorem noArrow (flat : IsFlat s) : '=' ∉ s := fun member => (flat '=' member).2 rfl

end IsFlat

/-! ## Scans for an arrow -/

/-- A scan for a needle passes over what holds neither a parenthesis nor, at its depth, the needle's
first character. -/
theorem findAtDepth?_append_of_flat {h : Char} {needle : Text} {target depth : Int} (inside : 0 ≤ depth)
    {s : Text} (flat : ∀ c ∈ s, parenStep c = 0) (absent : depth = target → h ∉ s) (t : Text) :
    findAtDepth? (h :: needle) target depth (s ++ t) =
      (findAtDepth? (h :: needle) target depth t).map (s.length + ·) := by
  -- the depth stays the same over the text, so only the needle's first character could stop the scan
  induction s with
  | nil => simp
  | cons c s ih =>
    have passes : ¬ (depth = target ∧ startsWith (h :: needle) (c :: (s ++ t)) = true) := by
      rintro ⟨here, starts⟩
      have first := (List.cons_prefix_cons.1 (List.isPrefixOf_iff_prefix.1 starts)).1
      exact absent here (first ▸ List.mem_cons_self)
    rw [List.cons_append, findAtDepth?, flat c List.mem_cons_self, Int.add_zero,
      ih (fun d member => flat d (List.mem_cons_of_mem c member))
        (fun here member => absent here (List.mem_cons_of_mem c member))]
    simp only [if_neg (Int.not_lt.2 inside), if_neg passes, Option.map_map]
    congr 1
    funext k
    simp only [Function.comp_apply, List.length_cons]
    omega

/-- A text that a scan inside a mapping passes over: what it opens it closes, and its arrows, if any, are those
of other mappings. -/
structure IsPassed (s : Text) : Prop where
  balanced : IsBalanced s
  noArrow : ∀ depth : Int, 0 < depth → ∀ t,
    findAtDepth? arrow 1 depth (s ++ t) = (findAtDepth? arrow 1 depth t).map (s.length + ·)

theorem IsFlat.isPassed {s : Text} (flat : IsFlat s) : IsPassed s where
  balanced := flat.isBalanced
  noArrow _ inside t :=
    findAtDepth?_append_of_flat (Int.le_of_lt inside) flat.steps (fun _ => flat.noArrow) t

/-! ## The places of a mapping -/

/-- What a mapping starts with, up to its parenthesis. -/
def head (gap : Text) : Text :=
  "mapping".toList ++ gap

/-- A mapping with `left` and `right` on the two sides of its arrow, and `gap` in front of its
parenthesis. -/
def written (gap left right : Text) : Text :=
  head gap ++ '(' :: (left ++ arrow ++ right ++ [')'])

/-- What may stand around the arrow of a mapping, so that it is the first one and the mapping ends with
its last parenthesis. -/
structure IsWritten (gap left right : Text) : Prop where
  blanks : Blanks gap
  passed : IsPassed left
  balanced : IsBalanced right

theorem written_append (gap left right t : Text) : written gap left right ++ t =
    head gap ++ '(' :: (left ++ arrow ++ right ++ ')' :: t) := by
  simp [written]

theorem length_written (gap left right : Text) : (written gap left right).length =
    (head gap).length + (left.length + right.length + 4) := by
  have two : arrow.length = 2 := rfl
  simp only [written, List.length_append, List.length_cons, List.length_nil, two]
  omega

theorem getLast?_written (gap left right : Text) : (written gap left right).getLast? = some ')' := by
  have cut : written gap left right = (head gap ++ '(' :: (left ++ arrow ++ right)) ++ [')'] := by
    simp [written]
  rw [cut, List.getLast?_concat]

/-- A mapping starts with a visible character. -/
theorem trimStart_head_append (gap t : Text) : trimStart (head gap ++ t) = head gap ++ t :=
  rfl

section Heads

variable {gap : Text} (blanks : Blanks gap)

/-- Trimming leaves the mapping at the front of a text alone. -/
theorem trim_head_append (gap inner t : Text) : trim (head gap ++ '(' :: (inner ++ ')' :: t)) =
    head gap ++ '(' :: (inner ++ ')' :: trimEnd t) := by
  have cut : ∀ u, head gap ++ '(' :: (inner ++ ')' :: u) = (head gap ++ '(' :: inner) ++ ')' :: u := by
    intro u
    simp
  rw [cut, cut, trim_append_cons (by decide), trimStart_head_append]

theorem trim_trimEnd (t : Text) : trim (trimEnd t) = trim t := by
  conv_rhs => rw [← trimEnd_append_blanksBehind t]
  rw [trim_append_blanks (blanks_blanksBehind t)]

include blanks

theorem isFlat_head : IsFlat (head gap) :=
  (isFlat_of_members (s := "mapping".toList) (List.all_eq_true.1 (by decide))).append (isFlat_of_blanks blanks)

theorem isMapping_head_append (t : Text) : isMapping (head gap ++ '(' :: t) = true := by
  have word : after? "mapping".toList (head gap ++ '(' :: t) = some (gap ++ '(' :: t) :=
    after?_eq_some.2 (List.append_assoc ..)
  have opened : trimStart (gap ++ '(' :: t) = '(' :: t := by
    rw [trimStart_blanks blanks]
    rfl
  unfold isMapping
  rw [trimStart_head_append, word]
  simp only [opened]
  rfl

theorem openIndex_head_append (t : Text) : openIndex (head gap ++ '(' :: t) = (head gap).length := by
  have before : ∀ c ∈ head gap, (!isOpenParen c) = true := by
    intro c member
    have flat := (isFlat_head blanks).steps c member
    cases opens : isOpenParen c with
    | false => rfl
    | true =>
      simp [parenStep, step, opens] at flat
  rw [openIndex_eq_length, List.takeWhile_append_of_pos before, List.takeWhile_cons_of_neg (by decide),
    List.append_nil]

/-- The parenthesis of a mapping is closed behind what is balanced. -/
theorem closeIndex?_head_append {inner : Text} (balanced : IsBalanced inner) (t : Text) :
    closeIndex? (head gap ++ '(' :: (inner ++ ')' :: t)) = some ((head gap).length + (inner.length + 1)) := by
  unfold closeIndex?
  rw [openIndex_head_append blanks, List.drop_left, matchingPlainParen?_of_isBalanced balanced, Option.map_some]

/-- A mapping is split from the text behind it. -/
theorem split?_head_append {inner : Text} (balanced : IsBalanced inner) (t : Text) :
    split? (head gap ++ '(' :: (inner ++ ')' :: t)) =
      some (head gap ++ '(' :: (inner ++ [')']), trim t) := by
  have cut : ∀ u, head gap ++ '(' :: (inner ++ ')' :: u) = (head gap ++ '(' :: (inner ++ [')'])) ++ u := by
    intro u
    simp
  have length : (head gap ++ '(' :: (inner ++ [')'])).length = (head gap).length + (inner.length + 1) + 1 := by
    simp only [List.length_append, List.length_cons, List.length_nil]
    omega
  unfold split?
  simp only [trim_head_append, isMapping_head_append blanks, if_true, closeIndex?_head_append blanks balanced,
    Option.map_some, Option.some.injEq, Prod.mk.injEq]
  rw [cut, List.take_left' length, List.drop_left' length, trim_trimEnd]
  exact ⟨rfl, rfl⟩

end Heads

theorem isMapping_written_append {gap : Text} (blanks : Blanks gap) (left right t : Text) :
    isMapping (written gap left right ++ t) = true := by
  rw [written_append]
  exact isMapping_head_append blanks _

theorem trim_written_append (gap left right t : Text) :
    trim (written gap left right ++ t) = written gap left right ++ trimEnd t := by
  rw [written_append, written_append, trim_head_append]

theorem isTrimmed_written (gap left right : Text) : IsTrimmed (written gap left right) := by
  have whole := isTrimmed_trim (written gap left right ++ [])
  rwa [trim_written_append, show trimEnd [] = [] from rfl, List.append_nil] at whole

namespace IsWritten

variable {gap left right : Text}

theorem isBalanced_inner (isWritten : IsWritten gap left right) : IsBalanced (left ++ arrow ++ right) := by
  have between : IsBalanced (['='] ++ ['>']) := (isBalanced_char (by decide)).append (isBalanced_char (by decide))
  exact (isWritten.passed.balanced.append between).append isWritten.balanced

theorem isBalanced_written (isWritten : IsWritten gap left right) : IsBalanced (written gap left right) :=
  (isFlat_head isWritten.blanks).isBalanced.append isWritten.isBalanced_inner.parens

theorem openIndex_append (isWritten : IsWritten gap left right) (t : Text) :
    openIndex (written gap left right ++ t) = (head gap).length := by
  rw [written_append]
  exact openIndex_head_append isWritten.blanks _

/-- The first arrow at depth one is the one in front of the value. -/
theorem arrowIndex?_append (isWritten : IsWritten gap left right) (t : Text) :
    arrowIndex? (written gap left right ++ t) =
      some ((head gap).length + (left.length + 1)) := by
  have found : findAtDepth? arrow 1 1 (left ++ (arrow ++ (right ++ ')' :: t))) = some left.length := by
    rw [isWritten.passed.noArrow 1 (by decide)]
    rfl
  unfold arrowIndex?
  rw [written_append]
  unfold arrow at found ⊢
  rw [show "=>".toList = ['=', '>'] from rfl] at found ⊢
  have flat := isFlat_head isWritten.blanks
  rw [findAtDepth?_append_of_flat (by decide) flat.steps fun _ => flat.noArrow, findAtDepth?]
  have opened : (0 : Int) + parenStep '(' = 1 := by decide
  simp only [opened, List.append_assoc, found]
  rfl

/-- The parenthesis of a mapping is closed at its end. -/
theorem closeIndex?_append (isWritten : IsWritten gap left right) (t : Text) :
    closeIndex? (written gap left right ++ t) =
      some ((head gap).length + (left.length + right.length + 3)) := by
  have two : arrow.length = 2 := rfl
  rw [written_append, closeIndex?_head_append isWritten.blanks isWritten.isBalanced_inner]
  simp only [List.length_append, two]
  congr 2
  omega

/-! ### The parts that are read -/

/-- The keys of a mapping are its own and those of its value; what stands behind the mapping stays
behind the value. -/
theorem keys_append (isWritten : IsWritten gap left right) (t : Text) :
    keys (written gap left right ++ t) = withoutName left :: keys (right ++ ')' :: trimEnd t) := by
  have trimmed := trim_written_append gap left right t
  have isArrow := isWritten.arrowIndex?_append (trimEnd t)
  have key : ((written gap left right ++ trimEnd t).take
      ((head gap).length + (left.length + 1))).drop ((head gap).length + 1) =
        left := by
    have cut : written gap left right ++ trimEnd t =
        ((head gap ++ ['(']) ++ left) ++ (arrow ++ right ++ ')' :: trimEnd t) := by
      simp [written]
    rw [cut, List.take_left' (by simp), List.drop_left' (by simp)]
  have value : (written gap left right ++ trimEnd t).drop
      ((head gap).length + (left.length + 1) + 2) = right ++ ')' :: trimEnd t := by
    have cut : written gap left right ++ trimEnd t =
        (head gap ++ '(' :: (left ++ arrow)) ++ (right ++ ')' :: trimEnd t) := by
      simp [written]
    rw [cut, List.drop_left' (by simp [arrow]; omega)]
  rw [keys_of_arrow (by rw [trimmed]; exact isMapping_written_append isWritten.blanks ..)
    (by rw [trimmed]; exact isArrow), trimmed, isWritten.openIndex_append, key, value]

theorem outerValue_append (isWritten : IsWritten gap left right) (nonempty : right ≠ []) (t : Text) :
    outerValue (written gap left right ++ t) = withoutName right := by
  have trimmed := trim_written_append gap left right t
  have long := List.length_pos_iff.2 nonempty
  have behind : ((head gap).length + (left.length + 1)) + 2 <
      (head gap).length + (left.length + right.length + 3) := by omega
  have value : ((written gap left right ++ trimEnd t).take
      ((head gap).length + (left.length + right.length + 3))).drop
        ((head gap).length + (left.length + 1) + 2) = right := by
    have cut : written gap left right ++ trimEnd t =
        ((head gap ++ '(' :: (left ++ arrow)) ++ right) ++ ')' :: trimEnd t := by
      simp [written]
    rw [cut, List.take_left' (by simp [arrow]; omega), List.drop_left' (by simp [arrow]; omega)]
  unfold outerValue
  simp only [trimmed, isMapping_written_append isWritten.blanks, isWritten.arrowIndex?_append,
    isWritten.closeIndex?_append, if_true, if_pos behind, value]

theorem finalValue_append (isWritten : IsWritten gap left right) (nonempty : right ≠ []) (t : Text) :
    finalValue (written gap left right ++ t) = finalValue (withoutName right) := by
  have outer := isWritten.outerValue_append nonempty t
  have mapping := isMapping_written_append isWritten.blanks left right (trimEnd t)
  rw [← trim_written_append] at mapping
  have shorter : (outerValue (written gap left right ++ t)).length <
      (trim (written gap left right ++ t)).length := by
    have within := length_withoutName_le right
    rw [outer, trim_written_append, List.length_append, length_written]
    omega
  rw [finalValue, if_pos mapping, dif_pos shorter, outer]

theorem length_finalValue_lt (isWritten : IsWritten gap left right) (nonempty : right ≠ []) :
    (finalValue (written gap left right)).length < (written gap left right).length := by
  have final := isWritten.finalValue_append nonempty []
  have within := length_finalValue_le (withoutName right)
  have within' := length_withoutName_le right
  rw [List.append_nil] at final
  rw [final, length_written]
  omega

/-- A mapping is split from the text behind it. -/
theorem split?_append (isWritten : IsWritten gap left right) (t : Text) :
    split? (written gap left right ++ t) = some (written gap left right, trim t) := by
  rw [written_append]
  exact split?_head_append isWritten.blanks isWritten.isBalanced_inner t

end IsWritten

/-! ## Names -/

theorem splitLastWord_solid {word : Text} (solid : IsSolid word) : splitLastWord word = ([], word) := by
  have visible : ∀ c ∈ word.reverse, (!isBlank c) = true := fun c member => by
    rw [solid.reverse c member]
    rfl
  have taken : word.reverse.takeWhile (!isBlank ·) = word.reverse := List.takeWhile_eq_self_iff.2 visible
  have left : word.reverse.dropWhile (!isBlank ·) = [] := List.dropWhile_eq_nil_iff.2 visible
  unfold splitLastWord
  rw [trimEnd_of_last solid.isTrimmed.last]
  simp only [taken, left, List.reverse_reverse]
  rfl

/-- The last word is what blanks set off from the front. -/
theorem splitLastWord_append {front gap word : Text} (blanks : Blanks gap) (apart : gap ≠ [])
    (solid : IsSolid word) (nonempty : word ≠ []) :
    splitLastWord (front ++ gap ++ word) = (trimEnd front, word) := by
  have visible : ∀ c ∈ word.reverse, (!isBlank c) = true := fun c member => by
    rw [solid.reverse c member]
    rfl
  have edge : ∀ c ∈ (gap.reverse ++ front.reverse).head?, (!isBlank c) = false := by
    intro c first
    rw [List.head?_append_of_ne_nil _ (List.reverse_ne_nil_iff.2 apart)] at first
    rw [blanks c (List.mem_reverse.1 (List.mem_of_mem_head? first))]
    rfl
  have last : trimEnd (front ++ gap ++ word) = front ++ gap ++ word :=
    trimEnd_of_last (solid.isTrimmed.append_last nonempty _)
  have reversed : (front ++ gap ++ word).reverse = word.reverse ++ (gap.reverse ++ front.reverse) := by
    simp
  -- read from the end, the word is the longest run of visible characters
  have taken : (word.reverse ++ (gap.reverse ++ front.reverse)).takeWhile (!isBlank ·) = word.reverse := by
    rw [takeWhile_append_of_head? edge]
    exact List.takeWhile_eq_self_iff.2 visible
  have left : (word.reverse ++ (gap.reverse ++ front.reverse)).dropWhile (!isBlank ·) =
      gap.reverse ++ front.reverse := by
    rw [dropWhile_append_of_head? edge, List.dropWhile_eq_nil_iff.2 visible, List.nil_append]
  unfold splitLastWord
  rw [last, reversed]
  simp only [taken, left, List.reverse_append, List.reverse_reverse, trimEnd_blanks blanks]

theorem isSolid_of_isIdentifier {name : Text} (isName : Identifier.isIdentifier name = true) :
    IsSolid name := fun c member => isBlank_of_isMember (isMember_of_isIdentifier isName c member)

theorem isFlat_of_isIdentifier {name : Text} (isName : Identifier.isIdentifier name = true) :
    IsFlat name := isFlat_of_members fun c member => by
  simp [Clause.isTypeMember, isMember_of_isIdentifier isName c member]

theorem withoutName_of_trim_eq {s t : Text} (same : trim s = trim t) : withoutName s = withoutName t := by
  unfold withoutName
  rw [same]

/-- One word has no name. -/
theorem withoutName_of_solid {t : Text} (solid : IsSolid t) (noOpen : '(' ∉ t) : withoutName t = t := by
  unfold withoutName
  simp only [solid.isTrimmed.trim_eq, isMapping_eq_false noOpen, splitLastWord_solid solid, ne_eq,
    not_true_eq_false, false_and, Bool.false_eq_true, if_false]

/-- The last word reaches back over everything that no blank sets off. -/
theorem mem_splitLastWord_snd {c : Char} {word : Text} (solid : IsSolid (c :: word)) (front : Text) :
    c ∈ (splitLastWord (front ++ c :: word)).2 := by
  have whole : trimEnd (front ++ c :: word) = front ++ c :: word :=
    trimEnd_of_last (solid.isTrimmed.append_last (List.cons_ne_nil c word) front)
  have visible : ∀ d ∈ (c :: word).reverse, (!isBlank d) = true := fun d member => by
    rw [solid.reverse d member]
    rfl
  unfold splitLastWord
  rw [whole, List.reverse_append]
  simp only [List.takeWhile_append_of_pos visible, List.reverse_append, List.reverse_reverse, List.mem_append]
  exact .inr List.mem_cons_self

/-- What ends with a bracket ends with no name. -/
theorem withoutName_of_last {c : Char} {s : Text} (last : s.getLast? = some c) (visible : isBlank c = false)
    (notMember : Identifier.isMember c = false) (first : ∀ d ∈ s.head?, isBlank d = false)
    (noOpen : '(' ∉ s) : withoutName s = s := by
  have trimmed : IsTrimmed s := ⟨first, by simpa [last] using visible⟩
  have noName : Identifier.isIdentifier (splitLastWord s).2 = false := by
    apply Bool.eq_false_iff.2
    intro isName
    obtain ⟨front, rfl⟩ := List.getLast?_eq_some_iff.1 last
    have solid : IsSolid [c] := by simpa [IsSolid] using visible
    have isMember := isMember_of_isIdentifier isName c (mem_splitLastWord_snd solid front)
    rw [notMember] at isMember
    cases isMember
  unfold withoutName
  simp only [trimmed.trim_eq, isMapping_eq_false noOpen, noName, Bool.false_eq_true, false_and, and_false,
    if_false]

/-- A name that is set off from a type is dropped. -/
theorem withoutName_append {t gap name : Text} (trimmed : IsTrimmed t) (nonempty : t ≠ [])
    (flat : IsFlat t) (blanks : Blanks gap) (apart : gap ≠ [])
    (isName : Identifier.isIdentifier name = true) : withoutName (t ++ gap ++ name) = t := by
  have solid := isSolid_of_isIdentifier isName
  have noOpen := ((flat.append (isFlat_of_blanks blanks)).append (isFlat_of_isIdentifier isName)).noOpen
  have whole := trimmed.around nonempty solid.isTrimmed (ne_nil_of_isIdentifier isName) gap
  have open_ : endsWith arrow t = false := by
    apply Bool.eq_false_iff.2
    intro ends
    exact flat.noArrow ((List.isSuffixOf_iff_suffix.1 ends).subset (by decide))
  unfold withoutName
  simp only [whole.trim_eq, isMapping_eq_false noOpen,
    splitLastWord_append blanks apart solid (ne_nil_of_isIdentifier isName),
    trimEnd_of_last trimmed.last, isName, open_, ne_eq, nonempty, not_false_eq_true, Bool.false_eq_true,
    and_self, if_true, if_false]

/-- `IsMember type name s` says that `s` is `type` as the key or the value of a mapping: there may be
blanks around it, and `name` stands behind it unless that is empty. -/
inductive IsMember (type : Text) : Text → Text → Prop
  | unnamed {before behind : Text} (before_blanks : Blanks before) (behind_blanks : Blanks behind) :
      IsMember type [] (before ++ type ++ behind)
  | named {before gap name behind : Text} (before_blanks : Blanks before) (gap_blanks : Blanks gap)
      (apart : gap ≠ []) (isName : Identifier.isIdentifier name = true) (behind_blanks : Blanks behind) :
      IsMember type name (before ++ type ++ (gap ++ name ++ behind))

namespace IsMember

variable {type name s : Text}

/-- Nothing but blanks stands in front of a type, and a flat text behind it. -/
theorem exists_around (member : IsMember type name s) : ∃ before behind, s = before ++ type ++ behind ∧
    Blanks before ∧ IsFlat behind ∧ (trimEnd behind = [] ↔ name = []) := by
  cases member with
  | @unnamed before behind before_blanks behind_blanks =>
    have nothing : trimEnd behind = [] := trimEnd_blanks behind_blanks []
    exact ⟨before, behind, rfl, before_blanks, isFlat_of_blanks behind_blanks, iff_of_true nothing rfl⟩
  | @named before gap _ behind before_blanks gap_blanks apart isName behind_blanks =>
    refine ⟨before, gap ++ name ++ behind, rfl, before_blanks, ?_, ?_⟩
    · exact ((isFlat_of_blanks gap_blanks).append (isFlat_of_isIdentifier isName)).append
        (isFlat_of_blanks behind_blanks)
    · have nonempty := ne_nil_of_isIdentifier isName
      have visible : ∃ c ∈ name, isBlank c = false := by
        obtain ⟨c, inName⟩ := List.exists_mem_of_ne_nil name nonempty
        exact ⟨c, inName, isSolid_of_isIdentifier isName c inName⟩
      rw [trimEnd_blanks behind_blanks, trimEnd_append_of_visible visible]
      exact iff_of_false (fun empty => apart (List.append_eq_nil_iff.1 empty).1) nonempty

theorem isFlat (member : IsMember type name s) (flat : IsFlat type) : IsFlat s := by
  obtain ⟨before, behind, rfl, before_blanks, behind_flat, -⟩ := member.exists_around
  exact ((isFlat_of_blanks before_blanks).append flat).append behind_flat

theorem isBalanced (member : IsMember type name s) (balanced : IsBalanced type) : IsBalanced s := by
  obtain ⟨before, behind, rfl, before_blanks, behind_flat, -⟩ := member.exists_around
  exact ((isFlat_of_blanks before_blanks).isBalanced.append balanced).append behind_flat.isBalanced

theorem ne_nil (member : IsMember type name s) (nonempty : type ≠ []) : s ≠ [] := by
  obtain ⟨before, behind, rfl, -⟩ := member.exists_around
  simp [nonempty]

/-- Without a name there are only blanks around a type. -/
theorem trim_eq (member : IsMember type [] s) : trim s = trim type := by
  cases member with
  | unnamed before_blanks behind_blanks =>
    rw [trim_append_blanks behind_blanks, trim_blanks_append before_blanks]
  | named _ _ _ isName _ => cases isName

/-- The name of one word is dropped. -/
theorem withoutName_eq (member : IsMember type name s) (solid : IsSolid type) (nonempty : type ≠ [])
    (flat : IsFlat type) : withoutName s = type := by
  cases member with
  | unnamed before_blanks behind_blanks =>
    rw [withoutName_of_trim_eq (IsMember.unnamed before_blanks behind_blanks).trim_eq,
      withoutName_of_solid solid flat.noOpen]
  | @named before gap _ behind before_blanks gap_blanks apart isName behind_blanks =>
    rw [withoutName_of_trim_eq (t := type ++ gap ++ name),
      withoutName_append solid.isTrimmed nonempty flat gap_blanks apart isName]
    rw [← List.append_assoc, trim_append_blanks behind_blanks, List.append_assoc,
      trim_blanks_append before_blanks, List.append_assoc]

end IsMember

/-- What stands behind a mapping is not told apart from it. -/
theorem withoutName_written {gap before : Text} (blanks : Blanks gap) (before_blanks : Blanks before)
    (left right behind : Text) : withoutName (before ++ written gap left right ++ behind) =
      written gap left right ++ trimEnd behind := by
  have trimmed : trim (before ++ written gap left right ++ behind) =
      written gap left right ++ trimEnd behind := by
    rw [List.append_assoc, trim_blanks_append before_blanks, trim_written_append]
  unfold withoutName
  simp only [trimmed, isMapping_written_append blanks, if_true]

theorem keys_of_trim_eq {s t : Text} (same : trim s = trim t) : keys s = keys t := by
  rw [keys.eq_def s, keys.eq_def t, same]

theorem outerValue_of_trim_eq {s t : Text} (same : trim s = trim t) : outerValue s = outerValue t := by
  unfold outerValue
  rw [same]

theorem finalValue_of_trim_eq {s t : Text} (same : trim s = trim t) : finalValue s = finalValue t := by
  rw [finalValue.eq_def s, finalValue.eq_def t, same, outerValue_of_trim_eq same]

theorem isMapping_trim_eq_false {s : Text} (noOpen : '(' ∉ s) : isMapping (trim s) = false :=
  isMapping_eq_false fun member => noOpen (trim_subset s member)

theorem keys_of_noOpen {s : Text} (noOpen : '(' ∉ s) : keys s = [] :=
  keys_of_none fun mapping => by
    rw [isMapping_trim_eq_false noOpen] at mapping
    cases mapping

theorem finalValue_of_noOpen {s : Text} (noOpen : '(' ∉ s) : finalValue s = trim s := by
  rw [finalValue, isMapping_trim_eq_false noOpen, if_neg Bool.false_ne_true]

/-- The keys behind the first one are those of the value, which stands between blanks and something
without mappings again. -/
theorem IsWritten.exists_keys_around {gap left inner name right before behind : Text}
    (isWritten : IsWritten gap left right) (member : IsMember inner name right)
    (before_blanks : Blanks before) (noOpen : '(' ∉ behind) : ∃ inFront label, Blanks inFront ∧
      '(' ∉ label ∧ keys (before ++ written gap left right ++ behind) =
        withoutName left :: keys (inFront ++ inner ++ label) := by
  have all := isWritten.keys_append behind
  obtain ⟨inFront, label, rfl, inFront_blanks, flat, -⟩ := member.exists_around
  refine ⟨inFront, label ++ ')' :: trimEnd behind, inFront_blanks, ?_, ?_⟩
  · simp only [List.mem_append, List.mem_cons, not_or]
    exact ⟨flat.noOpen, by decide, fun member => noOpen (trimEnd_subset behind member)⟩
  · rw [List.append_assoc, keys_of_trim_eq (trim_blanks_append before_blanks _), all, List.append_assoc]

/-! ## Nested mappings -/

/-- A type that is no mapping, without blanks: nothing in it is a parenthesis or starts an arrow.  Names,
perhaps with dots, and their dimensions are such types (`isPlain_of_members`). -/
structure IsPlain (t : Text) : Prop where
  nonempty : t ≠ []
  solid : IsSolid t
  flat : IsFlat t

theorem isPlain_of_members {t : Text} (nonempty : t ≠ []) (members : ∀ c ∈ t, Clause.isTypeMember c = true) :
    IsPlain t :=
  ⟨nonempty, fun c member => isBlank_of_isTypeMember (members c member), isFlat_of_members members⟩

theorem IsPlain.withoutName_eq {t name s : Text} (plain : IsPlain t) (member : IsMember t name s) :
    withoutName s = t :=
  member.withoutName_eq plain.solid plain.nonempty plain.flat

/-- `Spells keys value s` says that `s` spells `value` behind mappings of `keys`, the outermost first,
where any key and any value may have a name. -/
inductive Spells : List Text → Text → Text → Prop
  | plain {value : Text} (plain : IsPlain value) : Spells [] value value
  | mapping {gap key keyName left inner name right value : Text} {keys : List Text} (blanks : Blanks gap)
      (plain : IsPlain key) (keyMember : IsMember key keyName left) (spells : Spells keys value inner)
      (valueMember : IsMember inner name right) : Spells (key :: keys) value (written gap left right)

namespace Spells

variable {keys : List Text} {value s : Text}

theorem nonempty (spells : Spells keys value s) : s ≠ [] := by
  cases spells with
  | plain plain => exact plain.nonempty
  | mapping => simp [written]

theorem isBalanced (spells : Spells keys value s) : IsBalanced s := by
  induction spells with
  | plain plain => exact plain.flat.isBalanced
  | mapping blanks plain keyMember _ valueMember ih =>
    exact IsWritten.isBalanced_written
      ⟨blanks, (keyMember.isFlat plain.flat).isPassed, valueMember.isBalanced ih⟩

/-- A mapping of such a key to such a value is taken apart where it was put together. -/
theorem isWritten {gap key keyName left name right : Text} (blanks : Blanks gap) (plain : IsPlain key)
    (keyMember : IsMember key keyName left) (spells : Spells keys value s)
    (valueMember : IsMember s name right) : IsWritten gap left right :=
  ⟨blanks, (keyMember.isFlat plain.flat).isPassed, valueMember.isBalanced spells.isBalanced⟩

/-- The keys are found behind blanks and in front of anything without a mapping, such as names and the
parentheses that close outside. -/
theorem keys_around (spells : Spells keys value s) {before behind : Text} (before_blanks : Blanks before)
    (noOpen : '(' ∉ behind) : Mapping.keys (before ++ s ++ behind) = keys := by
  -- one level further in, what stands behind has grown by a name and a parenthesis
  induction spells generalizing before behind with
  | plain plain =>
    refine keys_of_noOpen ?_
    simp only [List.mem_append, not_or]
    exact ⟨⟨(isFlat_of_blanks before_blanks).noOpen, plain.flat.noOpen⟩, noOpen⟩
  | mapping blanks plain keyMember spells valueMember ih =>
    obtain ⟨inFront, label, inFront_blanks, noOpen', all⟩ :=
      (spells.isWritten blanks plain keyMember valueMember).exists_keys_around valueMember before_blanks noOpen
    rw [all, plain.withoutName_eq keyMember, ih inFront_blanks noOpen']

/-- The innermost value is found behind the blanks around a value and its name. -/
theorem finalValue_of_isMember (spells : Spells keys value s) {name right : Text}
    (valueMember : IsMember s name right) : finalValue (withoutName right) = value := by
  induction spells generalizing name right with
  | plain plain =>
    rw [plain.withoutName_eq valueMember, finalValue_of_noOpen plain.flat.noOpen, plain.solid.isTrimmed.trim_eq]
  | mapping blanks plain keyMember spells innerMember ih =>
    have isWritten := spells.isWritten blanks plain keyMember innerMember
    obtain ⟨before, behind, rfl, before_blanks, -⟩ := valueMember.exists_around
    -- the name of a mapping is still there, but it does no harm behind the mapping
    rw [withoutName_written blanks before_blanks, isWritten.finalValue_append (innerMember.ne_nil spells.nonempty)]
    exact ih innerMember

/-- The outer value is spelled without its name, unless it is a mapping. -/
theorem withoutName_eq_iff (spells : Spells keys value s) {name right : Text}
    (valueMember : IsMember s name right) : withoutName right = s ↔ keys = [] ∨ name = [] := by
  cases spells with
  | plain plain => exact iff_of_true (plain.withoutName_eq valueMember) (.inl rfl)
  | mapping blanks plain keyMember spells innerMember =>
    obtain ⟨before, behind, rfl, before_blanks, -, unnamed⟩ := valueMember.exists_around
    rw [withoutName_written blanks before_blanks, List.append_right_eq_self, unnamed]
    simp

end Spells

/-- What is read off a spelled mapping: the keys, the innermost value and the split from the text
behind.  The outer value is the one that was spelled unless it is a mapping with a name. -/
theorem parts_of_spells {gap key keyName left inner name right value : Text} {keys : List Text}
    (blanks : Blanks gap) (plain : IsPlain key) (keyMember : IsMember key keyName left)
    (spells : Spells keys value inner) (valueMember : IsMember inner name right) :
    Mapping.keys (written gap left right) = key :: keys ∧
      finalValue (written gap left right) = value ∧
      (∀ behind rest, Blanks behind → split? (written gap left right ++ behind ++ rest) =
        some (written gap left right, trim rest)) ∧
      (outerValue (written gap left right) = inner ↔ keys = [] ∨ name = []) := by
  have isWritten := spells.isWritten blanks plain keyMember valueMember
  have nonempty := valueMember.ne_nil spells.nonempty
  have outer := isWritten.outerValue_append nonempty []
  have final := isWritten.finalValue_append nonempty []
  have all : Mapping.keys ([] ++ written gap left right ++ []) = key :: keys :=
    (Spells.mapping blanks plain keyMember spells valueMember).keys_around blanks_nil List.not_mem_nil
  rw [List.append_nil] at outer final
  rw [List.nil_append, List.append_nil] at all
  refine ⟨all, ?_, ?_, ?_⟩
  · rw [final, spells.finalValue_of_isMember valueMember]
  · intro behind rest behind_blanks
    rw [List.append_assoc, isWritten.split?_append, trim_blanks_append behind_blanks]
  · rw [outer, spells.withoutName_eq_iff valueMember]

theorem parts_of_named_members :
    let s := "mapping (address owner => mapping(uint256 => Pool.Slot[2] slot) )".toList
    Mapping.keys s = ["address".toList, "uint256".toList] ∧
      finalValue s = "Pool.Slot[2]".toList ∧
      (∀ behind rest, Blanks behind → split? (s ++ behind ++ rest) = some (s, trim rest)) ∧
      (outerValue s = "mapping(uint256 => Pool.Slot[2] slot)".toList ↔
        ["uint256".toList] = [] ∨ ([] : Text) = []) := by
  have space : Blanks [' '] := blanks_singleton (by decide)
  have address : IsPlain "address".toList := isPlain_of_members (by decide) (List.all_eq_true.1 (by decide +kernel))
  have number : IsPlain "uint256".toList := isPlain_of_members (by decide) (List.all_eq_true.1 (by decide +kernel))
  have slots : IsPlain "Pool.Slot[2]".toList :=
    isPlain_of_members (by decide) (List.all_eq_true.1 (by decide +kernel))
  have owner : IsMember "address".toList "owner".toList "address owner ".toList :=
    .named blanks_nil space (List.cons_ne_nil _ _) (by decide +kernel) space
  have id : IsMember "uint256".toList [] "uint256 ".toList := .unnamed blanks_nil space
  have slot : IsMember "Pool.Slot[2]".toList "slot".toList " Pool.Slot[2] slot".toList :=
    .named space space (List.cons_ne_nil _ _) (by decide +kernel) blanks_nil
  have spells : Spells ["uint256".toList] "Pool.Slot[2]".toList
      "mapping(uint256 => Pool.Slot[2] slot)".toList :=
    .mapping blanks_nil number id (.plain slots) slot
  have inner : IsMember "mapping(uint256 => Pool.Slot[2] slot)".toList []
      " mapping(uint256 => Pool.Slot[2] slot) ".toList := .unnamed space space
  exact parts_of_spells space address owner spells inner

/-- A mapping that is a value keeps its name, although the name is no part of its type. -/
theorem outerValue_named_mapping :
    let inner := "mapping(uint256 => bool)".toList
    let s := "mapping(address => mapping(uint256 => bool) inner)".toList
    s = written [] "address ".toList " mapping(uint256 => bool) inner".toList ∧
      IsMember inner "inner".toList " mapping(uint256 => bool) inner".toList ∧
      outerValue s = "mapping(uint256 => bool) inner".toList ∧ outerValue s ≠ inner := by
  have space : Blanks [' '] := blanks_singleton (by decide)
  exact ⟨by decide +kernel, .named space space (List.cons_ne_nil _ _) (by decide +kernel) blanks_nil,
    by decide +kernel, by decide +kernel⟩

end ContractInterface.TypeSyntax.Mapping
