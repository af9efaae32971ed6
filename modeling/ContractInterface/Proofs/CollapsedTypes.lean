import ContractInterface.Declaration.Getter
import ContractInterface.Proofs.CollapsedSpans
import ContractInterface.Proofs.Declarator
import ContractInterface.Proofs.Success
import ContractInterface.Registry.Resolution
import ContractInterface.TypeSyntax.Clause

/-! # Reading a type with its blanks collapsed

How wide the gaps of a type are does not matter to what it means (`describe_eq_of_alike`), unless it
consists of storage locations only, which are then shown as they are laid out.  Mappings are taken apart
at the corresponding places, so the keys and the value of a getter differ in their gaps only
(`ofType_collapsed`), and so does the type of a parameter clause (`Clause.saysSame_ofText_collapsed`).
-/

namespace ContractInterface

open Text Delimiter

namespace TypeSyntax

/-! ## Dimensions -/

namespace Dimension

theorem leading?_eq (s : Text) : leading? s = (after? ['['] s).bind fun inner =>
    (after? [']'] (trimStart ((trimStart inner).dropWhile isWordChar))).map fun rest =>
      ((trimStart inner).takeWhile isWordChar, rest) := by
  cases s with
  | nil => rfl
  | cons c inner =>
    by_cases opens : c = '['
    · subst opens
      simp only [leading?, after?, if_true, Option.bind_some]
      cases trimStart ((trimStart inner).dropWhile isWordChar) with
      | nil => rfl
      | cons d rest =>
        by_cases closes : d = ']'
        · subst closes
          rfl
        · rw [after?, if_neg (Ne.symm closes)]
          split
          · rename_i same
            exact absurd (List.cons.inj same).1 closes
          · rfl
    · rw [after?, if_neg (Ne.symm opens), leading?]
      · rfl
      · intro _ same
        exact opens (List.cons.inj same).1

theorem leading?_collapsed (s : Text) :
    leading? (collapsed s) = (leading? s).map fun found => (found.1, collapsed found.2) := by
  rw [leading?_eq, leading?_eq, after?_collapsed (isSolid_singleton (by decide))]
  cases after? ['['] s with
  | none => rfl
  | some inner =>
    simp only [Option.map_some, Option.bind_some, trimStart_collapsed,
      takeWhile_collapsed noBlank_isWordChar, dropWhile_collapsed noBlank_isWordChar,
      after?_collapsed (isSolid_singleton (c := ']') (by decide)), Option.map_map]
    rfl

theorem splitLeading_of_some {s size rest : Text} (found : leading? (trimStart s) = some (size, rest)) :
    splitLeading s = (size :: (splitLeading rest).1, (splitLeading rest).2) := by
  rw [splitLeading.eq_def]
  split
  · rename_i found'
    rw [found] at found'
    cases found'
    rfl
  · rename_i absent
    rw [found] at absent
    cases absent

theorem splitLeading_of_none {s : Text} (absent : leading? (trimStart s) = none) :
    splitLeading s = ([], s) := by
  rw [splitLeading.eq_def]
  split
  · rename_i found
    rw [absent] at found
    cases found
  · rfl

theorem splitLeading_collapsed (s : Text) :
    splitLeading (collapsed s) = ((splitLeading s).1, collapsed (splitLeading s).2) := by
  fun_induction splitLeading s with
  | case1 s size rest isLeading ih =>
    have found := leading?_collapsed (trimStart s)
    rw [isLeading, ← trimStart_collapsed] at found
    rw [splitLeading_of_some found, ih]
  | case2 s absent =>
    have found := leading?_collapsed (trimStart s)
    rw [absent, ← trimStart_collapsed] at found
    exact splitLeading_of_none found

theorem trailing?_eq (s : Text) : trailing? s = (after? [']'] s.reverse).bind fun inner =>
    (after? ['['] (trimStart ((trimStart inner).dropWhile isWordChar))).map fun front =>
      ((trimStart front).reverse, ((trimStart inner).takeWhile isWordChar).reverse) := by
  -- the reader as a chain of steps, each of which is known to commute with collapsing
  unfold trailing?
  cases s.reverse with
  | nil => rfl
  | cons c inner =>
    by_cases closes : c = ']'
    · subst closes
      simp only [after?, if_true, Option.bind_some]
      cases trimStart ((trimStart inner).dropWhile isWordChar) with
      | nil => rfl
      | cons d front =>
        by_cases opens : d = '['
        · subst opens
          rfl
        · rw [after?, if_neg (Ne.symm opens)]
          split
          · rename_i same
            exact absurd (List.cons.inj same).1 opens
          · rfl
    · rw [after?, if_neg (Ne.symm closes)]
      split
      · rename_i same
        exact absurd (List.cons.inj same).1 closes
      · rfl

theorem trailing?_collapsed (s : Text) :
    trailing? (collapsed s) = (trailing? s).map fun found => (collapsed found.1, found.2) := by
  rw [trailing?_eq, trailing?_eq, ← collapsed_reverse, after?_collapsed (isSolid_singleton (by decide))]
  cases after? [']'] s.reverse with
  | none => rfl
  | some inner =>
    simp only [Option.map_some, Option.bind_some, trimStart_collapsed,
      takeWhile_collapsed noBlank_isWordChar, dropWhile_collapsed noBlank_isWordChar,
      after?_collapsed (isSolid_singleton (c := '[') (by decide)), Option.map_map]
    congr 1
    funext front
    simp [trimStart_collapsed, collapsed_reverse]

end Dimension

/-! ## Mappings -/

theorem isMapping_collapsed (s : Text) : isMapping (collapsed s) = isMapping s := by
  unfold isMapping
  rw [trimStart_collapsed, after?_collapsed (isSolid_of_all (by decide))]
  cases after? "mapping".toList (trimStart s) with
  | none => rfl
  | some rest =>
    simp only [Option.map_some, trimStart_collapsed]
    exact startsWith_collapsed (isSolid_singleton (by decide)) _

namespace Mapping

theorem isSolid_arrow : IsSolid arrow := isSolid_of_all (by decide)

theorem withoutName_collapsed (s : Text) : withoutName (collapsed s) = collapsed (withoutName s) := by
  unfold withoutName
  simp only [trim_collapsed, isMapping_collapsed, splitLastWord_collapsed, ne_eq, collapsed_eq_nil_iff,
    endsWith_collapsed isSolid_arrow]
  split
  · rfl
  · split <;> rfl

/-! ### Places in a mapping -/

theorem take_openIndex (s : Text) : s.take (openIndex s) = s.takeWhile (!isOpenParen ·) := by
  rw [List.takeWhile_eq_take_findIdx_not]
  simp [openIndex]

theorem drop_openIndex (s : Text) : s.drop (openIndex s) = s.dropWhile (!isOpenParen ·) := by
  rw [List.dropWhile_eq_drop_findIdx_not]
  simp [openIndex]

theorem openIndex_eq_length (s : Text) : openIndex s = (s.takeWhile (!isOpenParen ·)).length := by
  have within : openIndex s ≤ s.length := List.findIdx_le_length
  rw [← take_openIndex, List.length_take, Nat.min_eq_left within]

theorem openIndex_collapsed (s : Text) : openIndex (collapsed s) = collapsedPlace s (openIndex s) := by
  have blanks : ∀ c, isBlank c = true → (!isOpenParen c) = true := fun c blank => by
    rw [noBlank_isOpenParen c blank]
    rfl
  rw [openIndex_eq_length, takeWhile_collapsed_of_blank blanks, collapsedPlace, take_openIndex]

/-- From its first parenthesis on a text starts with it. -/
theorem head?_drop_openIndex (s : Text) : ∀ c ∈ (s.drop (openIndex s)).head?, c = '(' := by
  intro c member
  rw [drop_openIndex] at member
  simpa [isOpenParen] using head?_dropWhile s c member

theorem isBlank_of_head?_drop_openIndex (s : Text) : ∀ c ∈ (s.drop (openIndex s)).head?, isBlank c = false := by
  intro c member
  rw [head?_drop_openIndex s c member]
  decide

theorem showsAt_openIndex {s : Text} (mapping : isMapping s = true) : ShowsAt s (openIndex s) := by
  have opens : '(' ∈ s := by
    by_contra noOpen
    rw [isMapping_eq_false noOpen] at mapping
    cases mapping
  have found : openIndex s < s.length := List.findIdx_lt_length_of_exists ⟨'(', opens, rfl⟩
  have first := head?_drop_openIndex s s[openIndex s] (by
    rw [List.head?_drop, List.getElem?_eq_getElem found]
    rfl)
  exact ⟨s[openIndex s], List.getElem?_eq_getElem found, by rw [first]; decide⟩

theorem collapsed_take_append_drop_openIndex (s : Text) :
    collapsed s = collapsed (s.take (openIndex s)) ++ collapsed (s.drop (openIndex s)) := by
  rw [← collapsed_append (isBlank_of_head?_drop_openIndex s), List.take_append_drop]

theorem collapsedPlace_add {s : Text} {i : Nat} (edge : ∀ c ∈ (s.drop i).head?, isBlank c = false)
    (j : Nat) : collapsedPlace s (i + j) = collapsedPlace s i + collapsedPlace (s.drop i) j := by
  have edge' : ∀ c ∈ ((s.drop i).take j).head?, isBlank c = false := by
    intro c member
    cases j with
    | zero => cases member
    | succ j =>
      rw [List.head?_take, if_neg (Nat.succ_ne_zero j)] at member
      exact edge c member
  unfold collapsedPlace
  rw [List.take_add, collapsed_append edge', List.length_append]

theorem closeIndex?_collapsed (s : Text) :
    closeIndex? (collapsed s) = (closeIndex? s).map (collapsedPlace s) := by
  have behind : (collapsed s).drop (openIndex (collapsed s)) = collapsed (s.drop (openIndex s)) := by
    rw [openIndex_collapsed]
    conv_lhs => rw [collapsed_take_append_drop_openIndex s]
    exact List.drop_left
  unfold closeIndex?
  rw [behind, matchingPlainParen?_collapsed, Option.map_map, Option.map_map, openIndex_collapsed]
  congr 1
  funext j
  exact (collapsedPlace_add (isBlank_of_head?_drop_openIndex s) j).symm

theorem showsAt_of_closeIndex? {s : Text} {close : Nat} (found : closeIndex? s = some close) :
    ShowsAt s close :=
  ⟨')', closeIndex?_spec found, by decide⟩

theorem arrowIndex?_collapsed (s : Text) :
    arrowIndex? (collapsed s) = (arrowIndex? s).map (collapsedPlace s) :=
  findAtDepth?_collapsed isSolid_arrow 1 (Int.le_refl 0) s

theorem split?_collapsed (s : Text) :
    split? (collapsed s) = (split? s).map fun found => (collapsed found.1, collapsed found.2) := by
  unfold split?
  simp only [trim_collapsed, isMapping_collapsed]
  split
  · rw [closeIndex?_collapsed]
    cases found : closeIndex? (trim s) with
    | none => rfl
    | some close =>
      have shows := showsAt_of_closeIndex? found
      simp only [Option.map_some, take_collapsedPlace_succ shows, drop_collapsedPlace_succ shows,
        trim_collapsed]
  · rfl

/-! ### Keys and values -/

theorem length_collapsed_le_of_prefix {s t : Text} (isPrefix : s <+: t) :
    (collapsed s).length ≤ (collapsed t).length := by
  have suffix := collapsed_suffix (List.reverse_suffix.2 isPrefix)
  rw [collapsed_reverse, collapsed_reverse] at suffix
  simpa using suffix.length_le

/-- What stands between two visible places. -/
theorem between_collapsed {s : Text} {i j : Nat} (shows : ShowsAt s i) (shows' : ShowsAt s j) :
    ((collapsed s).take (collapsedPlace s j)).drop (collapsedPlace s i + 1) =
      collapsed ((s.take j).drop (i + 1)) := by
  rw [take_collapsedPlace shows']
  by_cases order : i < j
  · have same : collapsedPlace s i = collapsedPlace (s.take j) i := by
      rw [collapsedPlace, collapsedPlace, List.take_take, Nat.min_eq_left (Nat.le_of_lt order)]
    obtain ⟨c, stands, visible⟩ := shows
    have inFront : ShowsAt (s.take j) i := ⟨c, by rwa [List.getElem?_take_of_lt order], visible⟩
    rw [same, drop_collapsedPlace_succ inFront]
  · have before := length_collapsed_le_of_prefix
      (List.take_prefix_take_left (l := s) (Nat.not_lt.1 order))
    have nothing : (s.take j).drop (i + 1) = [] := by
      refine List.drop_eq_nil_of_le ?_
      rw [List.length_take]
      omega
    rw [nothing]
    exact List.drop_eq_nil_of_le (Nat.le_succ_of_le before)

/-- The head of an arrow stands at the next place. -/
theorem showsAt_of_arrowIndex? {s : Text} {arrowAt : Nat} (found : arrowIndex? s = some arrowAt) :
    ShowsAt s arrowAt ∧ ShowsAt s (arrowAt + 1) := by
  obtain ⟨rest, behind⟩ := exists_of_findAtDepth? found
  refine ⟨showsAt_of_findAtDepth? isSolid_arrow found, '>', ?_, by decide⟩
  rw [← List.getElem?_drop, behind]
  rfl

theorem lt_iff_drop_ne_nil {s : Text} {i j : Nat} (within : j ≤ s.length) :
    i < j ↔ (s.take j).drop i ≠ [] := by
  rw [ne_eq, List.drop_eq_nil_iff, List.length_take, Nat.min_eq_left within, Nat.not_le]

/-- What stands behind the arrow of a mapping, up to its end. -/
def behindArrow? (t : Text) : Option Text := do
  let arrowAt ← arrowIndex? t
  let close ← closeIndex? t
  if arrowAt + 2 < close then some ((t.take close).drop (arrowAt + 2)) else none

theorem behindArrow?_eq_some_iff {t value : Text} : behindArrow? t = some value ↔
    ∃ arrowAt close, arrowIndex? t = some arrowAt ∧ closeIndex? t = some close ∧ arrowAt + 2 < close ∧
      (t.take close).drop (arrowAt + 2) = value := by
  unfold behindArrow?
  simp only [Option.bind_eq_bind, Option.bind_eq_some_iff, Option.ite_none_right_eq_some, Option.some.injEq]
  exact exists_congr fun arrowAt => ⟨fun ⟨isArrow, close, isClose, found⟩ => ⟨close, isArrow, isClose, found⟩,
    fun ⟨close, isArrow, isClose, found⟩ => ⟨isArrow, close, isClose, found⟩⟩

theorem isSome_behindArrow?_iff {t : Text} : (behindArrow? t).isSome = true ↔
    ∃ arrowAt close, arrowIndex? t = some arrowAt ∧ closeIndex? t = some close ∧ arrowAt + 2 < close := by
  simp only [Option.isSome_iff_exists, behindArrow?_eq_some_iff]
  constructor
  · rintro ⟨_, arrowAt, close, isArrow, isClose, inside, _⟩
    exact ⟨arrowAt, close, isArrow, isClose, inside⟩
  · rintro ⟨arrowAt, close, isArrow, isClose, inside⟩
    exact ⟨_, arrowAt, close, isArrow, isClose, inside, rfl⟩

theorem outerValue_eq (s : Text) : outerValue s =
    if isMapping (trim s) then ((behindArrow? (trim s)).map withoutName).getD (trim s) else trim s := by
  unfold outerValue behindArrow?
  simp only
  split
  · cases arrowIndex? (trim s) with
    | none => rfl
    | some arrowAt =>
      cases closeIndex? (trim s) with
      | none => rfl
      | some close =>
        simp only [Option.bind_eq_bind, Option.bind_some]
        split <;> rfl
  · rfl

theorem behindArrow?_collapsed (t : Text) :
    behindArrow? (collapsed t) = (behindArrow? t).map collapsed := by
  unfold behindArrow?
  rw [arrowIndex?_collapsed, closeIndex?_collapsed]
  cases isArrow : arrowIndex? t with
  | none => rfl
  | some arrowAt =>
    cases isClose : closeIndex? t with
    | none => rfl
    | some close =>
      obtain ⟨showsArrow, showsHead⟩ := showsAt_of_arrowIndex? isArrow
      have showsClose := showsAt_of_closeIndex? isClose
      have between := between_collapsed showsHead showsClose
      rw [collapsedPlace_succ showsArrow] at between
      have within := (showsAt_collapsedPlace showsClose).lt_length
      have nonempty := lt_iff_drop_ne_nil (i := arrowAt + 2) (Nat.le_of_lt showsClose.lt_length)
      have nonempty' := lt_iff_drop_ne_nil (i := collapsedPlace t arrowAt + 2) (Nat.le_of_lt within)
      rw [between, ne_eq, collapsed_eq_nil_iff] at nonempty'
      simp only [Option.map_some, Option.bind_eq_bind, Option.bind_some, nonempty, nonempty', between]
      split <;> rfl

theorem outerValue_collapsed (s : Text) : outerValue (collapsed s) = collapsed (outerValue s) := by
  rw [outerValue_eq, outerValue_eq, trim_collapsed, isMapping_collapsed, behindArrow?_collapsed]
  split
  · cases behindArrow? (trim s) with
    | none => rfl
    | some value => exact withoutName_collapsed value
  · rfl

theorem length_behindArrow?_lt {t value : Text} (found : behindArrow? t = some value) :
    value.length < t.length := by
  obtain ⟨arrowAt, close, _, isClose, _, rfl⟩ := behindArrow?_eq_some_iff.1 found
  have within := (showsAt_of_closeIndex? isClose).lt_length
  simp only [List.length_drop, List.length_take]
  omega

/-- The value of a mapping is shorter than the mapping if there is one. -/
theorem outerValue_lt_iff (s : Text) : (outerValue s).length < (trim s).length ↔
    isMapping (trim s) = true ∧ (behindArrow? (trim s)).isSome = true := by
  rw [outerValue_eq]
  split
  · rename_i mapping
    cases found : behindArrow? (trim s) with
    | none => simp
    | some value =>
      have shorter := length_behindArrow?_lt found
      have noLonger := length_withoutName_le value
      simp only [Option.map_some, Option.getD_some, mapping, Option.isSome_some, and_self, iff_true]
      omega
  · rename_i plain
    simp [plain]

theorem outerValue_lt_collapsed_iff (s : Text) :
    (outerValue (collapsed s)).length < (trim (collapsed s)).length ↔
      (outerValue s).length < (trim s).length := by
  rw [outerValue_lt_iff, outerValue_lt_iff, trim_collapsed, isMapping_collapsed, behindArrow?_collapsed,
    Option.isSome_map]

theorem finalValue_collapsed (s : Text) : finalValue (collapsed s) = collapsed (finalValue s) := by
  fun_induction finalValue s with
  | case1 s mapping shorter ih =>
    have shorter' := (outerValue_lt_collapsed_iff s).2 shorter
    rw [finalValue, trim_collapsed, isMapping_collapsed, if_pos mapping, ← trim_collapsed, dif_pos shorter',
      outerValue_collapsed, ih]
  | case2 s mapping whole =>
    have whole' : ¬ _ := fun shorter => whole ((outerValue_lt_collapsed_iff s).1 shorter)
    rw [finalValue, dif_neg whole', trim_collapsed, isMapping_collapsed, if_pos mapping]
  | case3 s plain =>
    rw [finalValue, trim_collapsed, isMapping_collapsed, if_neg plain]

theorem keys_of_arrow {s : Text} (mapping : isMapping (trim s) = true) {arrowAt : Nat}
    (found : arrowIndex? (trim s) = some arrowAt) : keys s =
      withoutName (((trim s).take arrowAt).drop (openIndex (trim s) + 1)) ::
        keys ((trim s).drop (arrowAt + 2)) := by
  rw [keys.eq_def, dif_pos mapping, found]

theorem keys_of_none {s : Text} (absent : isMapping (trim s) = true → arrowIndex? (trim s) = none) :
    keys s = [] := by
  rw [keys.eq_def]
  split
  · rename_i mapping
    rw [absent mapping]
  · rfl

theorem keys_collapsed (s : Text) : keys (collapsed s) = (keys s).map collapsed := by
  fun_induction keys s with
  | case1 s mapping arrowAt isArrow ih =>
    obtain ⟨showsArrow, showsHead⟩ := showsAt_of_arrowIndex? isArrow
    have isArrow' := arrowIndex?_collapsed (trim s)
    rw [isArrow, ← trim_collapsed] at isArrow'
    have between := between_collapsed (showsAt_openIndex mapping) showsArrow
    have behind := drop_collapsedPlace_succ showsHead
    rw [collapsedPlace_succ showsArrow] at behind
    rw [keys_of_arrow (by rwa [trim_collapsed, isMapping_collapsed]) isArrow', trim_collapsed,
      openIndex_collapsed, between, behind, withoutName_collapsed, ih]
    rfl
  | case2 s mapping absent =>
    refine keys_of_none fun _ => ?_
    rw [trim_collapsed, arrowIndex?_collapsed, absent]
    rfl
  | case3 s plain =>
    refine keys_of_none fun mapping => ?_
    rw [trim_collapsed, isMapping_collapsed] at mapping
    exact absurd mapping plain

end Mapping

/-! ## The meaning of a type -/

/-- A type that does not consist of several storage locations. -/
def NamesType (t : Text) : Prop :=
  normalized t = [] → IsSolid t

instance : DecidablePred NamesType := fun t =>
  inferInstanceAs (Decidable (normalized t = [] → ∀ c ∈ t, isBlank c = false))

theorem namesType_of_mem {c : Char} (visible : isBlank c = false) (plain : isWordChar c = false) {s : Text}
    (member : c ∈ s) : NamesType s := by
  intro nothing
  obtain ⟨front, back, rfl⟩ := List.append_of_mem member
  unfold normalized withoutStorage at nothing
  rw [blankStorage_append_cons plain, spaced_eq_trim_collapsed, collapsed_append_cons visible,
    trim_append_cons visible, plainAddress_append_cons visible plain] at nothing
  exact absurd nothing (List.append_ne_nil_of_right_ne_nil _ (List.cons_ne_nil _ _))

theorem ofText_collapsed {s : Text} (names : NamesType s) : Expr.ofText (collapsed s) = Expr.ofText s := by
  by_cases nothing : normalized s = []
  · rw [collapsed_solid (names nothing)]
  · rw [Expr.ofText.eq_def, Expr.ofText.eq_def s]
    rw [normalized_collapsed]
    simp only [if_neg nothing]

theorem namesType_collapsed_iff {s : Text} : NamesType (collapsed s) ↔ NamesType s := by
  unfold NamesType
  rw [normalized_collapsed]
  refine forall_congr' fun _ => ⟨isSolid_of_collapsed, fun solid => ?_⟩
  rwa [collapsed_solid solid]

theorem describe_eq_of_alike (r : Registry) {s t : Text} (alike : Alike s t) (names : NamesType s) :
    r.describe s = r.describe t := by
  have names' : NamesType t := by
    rw [← namesType_collapsed_iff] at names ⊢
    rwa [← show collapsed s = collapsed t from alike]
  unfold Registry.describe
  rw [← ofText_collapsed names, ← ofText_collapsed names', show collapsed s = collapsed t from alike]

/-! ## Clauses -/

namespace Clause

/-- The type and name of a clause that is trimmed and without payable addresses. -/
def ofPlain (text : Text) : Clause :=
  match Mapping.split? text with
  | some (type, rest) => ⟨type, ((Identifier.leading? (withoutStorage rest)).map Prod.fst).getD []⟩
  | none =>
    let text := Dimension.tightened (withoutStorage text)
    (plain? text).getD ⟨text, []⟩

theorem ofText_eq_ofPlain (clause : Text) : ofText clause = ofPlain (plainAddress (trim clause)) := rfl

/-- Two clauses with one name and with one type, as far as resolution can tell. -/
structure SaysSame (c c' : Clause) : Prop where
  name : c.name = c'.name
  type : Alike c.type c'.type
  described : ∀ r : Registry, r.describe c.type = r.describe c'.type

theorem SaysSame.trans {c c' c'' : Clause} (first : SaysSame c c') (second : SaysSame c' c'') :
    SaysSame c c'' :=
  ⟨first.name.trans second.name, first.type.trans second.type, fun r =>
    (first.described r).trans (second.described r)⟩

theorem SaysSame.symm {c c' : Clause} (same : SaysSame c c') : SaysSame c' c :=
  ⟨same.name.symm, same.type.symm, fun r => (same.described r).symm⟩

theorem namesType_of_split? {s type rest : Text} (found : Mapping.split? s = some (type, rest)) :
    NamesType type := by
  obtain ⟨_, close, isClose, rfl, _⟩ := Mapping.split?_eq_some_iff.1 found
  have stands : ((trim s).take (close + 1))[close]? = some ')' := by
    rw [List.getElem?_take_of_lt (Nat.lt_succ_self close)]
    exact closeIndex?_spec isClose
  exact namesType_of_mem (by decide) (by decide) (List.mem_of_getElem? stands)

theorem saysSame_ofPlain_collapsed (text : Text) : SaysSame (ofPlain (collapsed text)) (ofPlain text) := by
  unfold ofPlain
  rw [Mapping.split?_collapsed]
  cases found : Mapping.split? text with
  | none =>
    simp only [Option.map_none, withoutStorage_collapsed]
    exact ⟨rfl, rfl, fun _ => rfl⟩
  | some parts =>
    simp only [Option.map_some, withoutStorage_collapsed]
    refine ⟨rfl, alike_collapsed _, fun r => ?_⟩
    exact (describe_eq_of_alike r (alike_collapsed _).symm (namesType_of_split? found)).symm

theorem saysSame_ofText_collapsed (clause : Text) : SaysSame (ofText (collapsed clause)) (ofText clause) := by
  rw [ofText_eq_ofPlain, ofText_eq_ofPlain, trim_collapsed]
  have alike := alike_plainAddress (trim clause)
  have left := saysSame_ofPlain_collapsed (plainAddress (collapsed (trim clause)))
  rw [show collapsed _ = collapsed _ from alike] at left
  exact left.symm.trans (saysSame_ofPlain_collapsed _)

end Clause

end TypeSyntax

/-! ## Getters -/

namespace Getter

open TypeSyntax

/-- A getter with the gaps of its types collapsed. -/
def collapsed (g : Getter) : Getter :=
  ⟨g.keys.map Text.collapsed, Text.collapsed g.value⟩

theorem finalValue_lt_iff {type : Text} (trimmed : IsTrimmed type) (mapping : isMapping type = true) :
    (Mapping.finalValue type).length < type.length ↔ (Mapping.outerValue type).length < type.length := by
  rw [Mapping.finalValue, trimmed.trim_eq, if_pos mapping]
  split
  · rename_i shorter
    have noLonger := Mapping.length_finalValue_le (Mapping.outerValue type)
    simp only [shorter, iff_true]
    omega
  · rename_i whole
    simp [whole]

theorem isTrimmed_finalValue (s : Text) : IsTrimmed (Mapping.finalValue s) := by
  fun_induction Mapping.finalValue s with
  | case1 s _ _ ih => exact ih
  | case2 s _ _ => exact isTrimmed_trim s
  | case3 s _ => exact isTrimmed_trim s

theorem isTrimmed_collapsed {s : Text} (trimmed : IsTrimmed s) : IsTrimmed (Text.collapsed s) := by
  have whole := isTrimmed_trim (Text.collapsed s)
  rwa [trim_collapsed, trimmed.trim_eq] at whole

theorem finalValue_lt_collapsed_iff {type : Text} (trimmed : IsTrimmed type)
    (mapping : isMapping type = true) :
    (Mapping.finalValue (Text.collapsed type)).length < (Text.collapsed type).length ↔
      (Mapping.finalValue type).length < type.length := by
  have outer := Mapping.outerValue_lt_collapsed_iff type
  have trimmed' := isTrimmed_collapsed trimmed
  rw [trimmed.trim_eq, trimmed'.trim_eq] at outer
  rw [finalValue_lt_iff trimmed mapping, finalValue_lt_iff trimmed' (by rwa [isMapping_collapsed]), outer]

theorem toOption_after {keys keys' : List Text} {g g' : Except ResolutionError Getter}
    (sameKeys : keys' = keys.map Text.collapsed) (same : g'.toOption = g.toOption.map collapsed) :
    (do return (← g').after keys' : Except ResolutionError Getter).toOption =
      (do return (← g).after keys : Except ResolutionError Getter).toOption.map collapsed := by
  obtain ⟨_, _, left, right⟩ | ⟨found, left, right⟩ := cases_of_toOption_eq_map same
  · rw [left, right]
    rfl
  · rw [left, right, sameKeys]
    exact congrArg some (by simp [after, collapsed])

/-- How wide the gaps of a type are shows in the gaps of its getter only. -/
theorem ofTrimmed_collapsed {type : Text} (trimmed : IsTrimmed type) :
    (ofTrimmed (Text.collapsed type)).toOption = (ofTrimmed type).toOption.map collapsed := by
  have ends : ∀ t, endsWith [']'] (Text.collapsed t) = endsWith [']'] t :=
    endsWith_collapsed (isSolid_singleton (by decide))
  -- both readings take the same branch: the forms, and whether a value is shorter, show in either text
  fun_induction ofTrimmed type with
  | case1 type mapping shorter ih =>
    have shorter' := (finalValue_lt_collapsed_iff trimmed mapping.1).2 shorter
    rw [ofTrimmed_of_mapping (by rwa [isMapping_collapsed, ends]), if_pos shorter']
    refine toOption_after (Mapping.keys_collapsed type) ?_
    rw [Mapping.finalValue_collapsed]
    exact ih (isTrimmed_finalValue type)
  | case2 type mapping endless =>
    have endless' : ¬ _ := fun shorter => endless ((finalValue_lt_collapsed_iff trimmed mapping.1).1 shorter)
    rw [ofTrimmed_of_mapping (by rwa [isMapping_collapsed, ends]), if_neg endless']
    rfl
  | case3 type other size found =>
    rw [ofTrimmed_of_other (by rwa [isMapping_collapsed, ends]), Dimension.trailing?_collapsed, found]
    rfl
  | case4 type other front size found nonempty ih =>
    rw [ofTrimmed_of_other (by rwa [isMapping_collapsed, ends]), Dimension.trailing?_collapsed, found]
    simp only [Option.map_some, collapsed_eq_nil_iff, if_neg nonempty, trim_collapsed]
    exact toOption_after rfl (ih (isTrimmed_trim front))
  | case5 type other absent =>
    rw [ofTrimmed_of_other (by rwa [isMapping_collapsed, ends]), Dimension.trailing?_collapsed, absent]
    rfl

theorem ofType_collapsed (type : Text) :
    (ofType (Text.collapsed type)).toOption = (ofType type).toOption.map collapsed := by
  unfold ofType
  rw [trim_collapsed]
  exact ofTrimmed_collapsed (isTrimmed_trim type)

end Getter

end ContractInterface
