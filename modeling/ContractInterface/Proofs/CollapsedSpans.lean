import ContractInterface.Declaration.StateVariable
import ContractInterface.Proofs.CollapsedScans
import ContractInterface.Proofs.Spelling
import ContractInterface.Registry.Substitution

/-! # Reading a text run by run with its blanks collapsed

A reader that goes on behind blanks, however many there are, finds the same in a text and in its
collapsed form, at corresponding places (`map_locate_collapsed`), and replacing what it finds gives texts
that differ in their gaps only (`alike_replacing`).  So it is with the storage locations, the payable
addresses and the references of a type, and the spelling of a type without them is the same
(`normalized_collapsed`).
-/

namespace ContractInterface

open Text

namespace Text

/-- A reader that finds in front of collapsed text what it finds in front of the text, extended by what
it hands on of it. -/
structure ReadsCollapsed {α : Type} (read? : Text → Text → Option (α × Nat)) (ext : α → α) : Prop where
  found : ∀ run rest value taken, read? run rest = some (value, taken) →
    ∃ taken', read? run (collapsed rest) = some (ext value, taken') ∧
      (collapsed rest).drop taken' = collapsed (rest.drop taken)
  missed : ∀ run rest, read? run rest = none → read? run (collapsed rest) = none

theorem drop_of_suffix {s t : Text} (suffix : t <:+ s) (n : Nat) :
    s.drop (s.length - t.length + n) = t.drop n := by
  obtain ⟨front, rfl⟩ := suffix
  rw [List.length_append, Nat.add_sub_cancel, List.drop_append]
  simp

/-- What a reader leaves behind in the collapsed form of a text is the collapsed form of what it leaves. -/
theorem LeavesBehind.readsCollapsed {α : Type} {read? : Text → Text → Option (α × Nat)} {ext : α → α}
    {behind? : Text → Text → Option (α × Text)} (leaves : LeavesBehind read? behind?)
    (suffix : ∀ run rest found, behind? run rest = some found → found.2 <:+ rest)
    (collapses : ∀ run rest, behind? run (collapsed rest) =
      (behind? run rest).map fun found => (ext found.1, collapsed found.2)) : ReadsCollapsed read? ext where
  found run rest value taken read := by
    rw [leaves] at read
    obtain ⟨found, isFound, same⟩ := Option.map_eq_some_iff.1 read
    cases same
    have within := suffix run rest found isFound
    refine ⟨(collapsed rest).length - (collapsed found.2).length, ?_, ?_⟩
    · rw [leaves, collapses, isFound]
      rfl
    · have left := drop_of_suffix within 0
      have left' := drop_of_suffix (collapsed_suffix within) 0
      rw [Nat.add_zero, List.drop_zero] at left left'
      rw [left, left']
  missed run rest read := by
    rw [leaves] at read
    rw [leaves, collapses, Option.map_eq_none_iff.1 read]
    rfl

/-- A text is read off as characters of no run and as runs, with whatever is taken behind a run. -/
@[elab_as_elim]
theorem spans_induction {p : Char → Bool} {motive : Text → Prop} (nil : motive [])
    (plain : ∀ c s, p c = false → motive s → motive (c :: s))
    (run : ∀ run rest, run ≠ [] → (∀ c ∈ run, p c = true) →
      (∀ c ∈ rest.head?, p c = false) → (∀ n, motive (rest.drop n)) → motive (run ++ rest))
    (s : Text) : motive s :=
  match s with
  | [] => nil
  | c :: s =>
    if member : p c = true then by
      have shorter := length_dropWhile_le p s
      have whole := run (c :: s.takeWhile p) (s.dropWhile p) (List.cons_ne_nil _ _)
        (isMember_of_mem_firstRun member) (head?_dropWhile s) fun n => spans_induction nil plain run _
      rwa [firstRun_append] at whole
    else plain c s (by simpa using member) (spans_induction nil plain run s)
termination_by s.length
decreasing_by
  · simp only [List.length_drop, List.length_cons]
    omega
  · simp

section Readers

variable {isMember : Char → Bool} (noBlank : NoBlank isMember)

include noBlank

theorem head?_collapsed_of_noBlank {s : Text} (edge : ∀ c ∈ s.head?, isMember c = false) :
    ∀ c ∈ (collapsed s).head?, isMember c = false := by
  cases s with
  | nil => exact edge
  | cons d s =>
    cases blank : isBlank d with
    | true =>
      rw [collapsed_of_isBlank blank]
      simpa using noBlank.space
    | false =>
      rw [collapsed_cons blank]
      simpa using edge

theorem collapsed_run_append {run : Text} (isRun : ∀ c ∈ run, isMember c = true) (rest : Text) :
    collapsed (run ++ rest) = run ++ collapsed rest :=
  collapsed_solid_append (fun c member => noBlank.visible (isRun c member)) rest

end Readers

/-- The values of the found parts, each with the number of visible characters in front of it, when there
are `count` of them in front of the first part. -/
def locateInk {α : Type} (count : Nat) : List (Span α) → List (Nat × α)
  | [] => []
  | .plain text :: more => locateInk (count + (ink text).length) more
  | .found text value :: more => (count, value) :: locateInk (count + (ink text).length) more

theorem map_inkBefore_locateFrom {α : Type} (front : Text) (xs : List (Span α)) (tail : Text) :
    (locateFrom front.length xs).map (fun found =>
        (inkBefore (front ++ (xs.flatMap Span.text ++ tail)) found.1, found.2)) =
      locateInk (ink front).length xs := by
  induction xs generalizing front with
  | nil => rfl
  | cons x xs ih =>
    have others := ih (front ++ x.text)
    rw [List.length_append, ink_append, List.length_append, List.append_assoc] at others
    rw [List.flatMap_cons, List.append_assoc]
    cases x with
    | plain text => exact others
    | found text value =>
      have here : ∀ t u : Text, inkBefore (t ++ u) t.length = (ink t).length := fun t u => by
        rw [inkBefore, List.take_left]
      rw [locateFrom, locateInk, List.map_cons, here]
      exact congrArg _ others

theorem map_inkBefore_locate {α : Type} (isMember : Char → Bool)
    (read? : Text → Text → Option (α × Nat)) (s : Text) :
    (locate isMember read? s).map (fun found => (inkBefore s found.1, found.2)) =
      locateInk 0 (spans isMember read? s) := by
  have whole := map_inkBefore_locateFrom [] (spans isMember read? s) []
  rwa [flatMap_text_spans, List.append_nil, List.nil_append] at whole

section Readers

variable {isMember : Char → Bool} (noBlank : NoBlank isMember)

include noBlank

theorem locateInk_spans_collapsed {α : Type} {read? : Text → Text → Option (α × Nat)} {ext : α → α}
    (reads : ReadsCollapsed read? ext) (count : Nat) (s : Text) :
    locateInk count (spans isMember read? (collapsed s)) =
      (locateInk count (spans isMember read? s)).map fun found => (found.1, ext found.2) := by
  have passes : ∀ {c : Char} (t : Text) (n : Nat), isBlank c = true →
      locateInk n (spans isMember read? (c :: t)) = locateInk n (spans isMember read? t) := by
    intro c t n blank
    rw [spans_cons_of_not_mem (noBlank c blank), locateInk, ink_cons_of_blank blank]
    rfl
  induction s using spans_induction (p := isMember) generalizing count with
  | nil => simp [spans, locateInk]
  | plain c s plain ih =>
    cases blank : isBlank c with
    | true =>
      rw [passes s count blank, ← ih count, collapsed, if_pos blank]
      split
      · rfl
      · exact passes _ _ (by decide)
    | false =>
      rw [collapsed_cons blank, spans_cons_of_not_mem plain, spans_cons_of_not_mem plain, locateInk,
        locateInk, ih]
  | run run rest nonempty isRun edge ih =>
    have edge' := head?_collapsed_of_noBlank noBlank edge
    rw [collapsed_run_append noBlank isRun, spans_run_append nonempty isRun edge,
      spans_run_append nonempty isRun edge']
    cases found : read? run rest with
    | none =>
      rw [reads.missed run rest found]
      exact ih 0 _
    | some value =>
      obtain ⟨taken', found', behind⟩ := reads.found run rest value.1 value.2 found
      -- as much that can be seen is taken of the collapsed text
      have taken : ink ((collapsed rest).take taken') = ink (rest.take value.2) := by
        have split := congrArg ink (List.take_append_drop taken' (collapsed rest))
        have split' := congrArg ink (List.take_append_drop value.2 rest)
        rw [ink_append, behind, ink_collapsed, ink_collapsed] at split
        rw [ink_append] at split'
        exact List.append_cancel_right (split.trans split'.symm)
      rw [found']
      simp only [locateInk, List.map_cons, ink_append, taken, behind, ih]

/-- What is located in the collapsed form of a text is what is located in the text, at the corresponding
places. -/
theorem map_locate_collapsed {α : Type} {read? : Text → Text → Option (α × Nat)} {ext : α → α}
    (reads : ReadsCollapsed read? ext) (s : Text) :
    (locate isMember read? (collapsed s)).map (fun found => (inkBefore (collapsed s) found.1, found.2)) =
      (locate isMember read? s).map fun found => (inkBefore s found.1, ext found.2) := by
  have whole := congrArg (List.map fun found => (found.1, ext found.2))
    (map_inkBefore_locate isMember read? s)
  rw [List.map_map] at whole
  rw [map_inkBefore_locate, locateInk_spans_collapsed noBlank reads, ← whole]
  rfl

/-- Replacing what is found in the collapsed form of a text differs from replacing it in the text by gaps
only. -/
theorem alike_replacing {read? : Text → Text → Option (Text × Nat)} (reads : ReadsCollapsed read? id)
    (s : Text) : Alike (replacing isMember read? (collapsed s)) (replacing isMember read? s) := by
  -- a blank belongs to no run, so runs are read in both texts, and gaps differ only between them
  induction s using spans_induction (p := isMember) with
  | nil => rfl
  | plain c s plain ih =>
    cases blank : isBlank c with
    | true =>
      rw [replacing_cons_of_not_mem plain, collapsed, if_pos blank]
      split
      · rename_i next
        cases s with
        | nil => cases next
        | cons d s =>
          rw [replacing_cons_of_not_mem (noBlank d next)] at ih ⊢
          exact ih.trans (alike_blank_cons (t := d :: replacing isMember read? s) blank next).symm
      · rw [replacing_cons_of_not_mem noBlank.space]
        exact ih.blank_cons (by decide) blank
    | false =>
      rw [collapsed_cons blank, replacing_cons_of_not_mem plain, replacing_cons_of_not_mem plain]
      exact ih.cons c
  | run run rest nonempty isRun edge ih =>
    have edge' := head?_collapsed_of_noBlank noBlank edge
    rw [collapsed_run_append noBlank isRun, replacing_run_append nonempty isRun edge,
      replacing_run_append nonempty isRun edge']
    cases found : read? run rest with
    | none =>
      rw [reads.missed run rest found]
      exact (ih 0).append_left run
    | some value =>
      obtain ⟨taken', found', behind⟩ := reads.found run rest value.1 value.2 found
      rw [found']
      simp only [behind]
      exact (ih value.2).append_left value.1

end Readers

end Text

namespace TypeSyntax

/-! ## Storage locations and payable addresses -/

theorem readsCollapsed_storage : ReadsCollapsed (fun word _ =>
    if storageLocations.contains word then some ([' '], 0) else none) id where
  found run rest value taken read := by
    split at read
    · rename_i isPlace
      cases read
      exact ⟨0, if_pos isPlace, rfl⟩
    · cases read
  missed run rest read := read

theorem withoutStorage_collapsed (s : Text) : withoutStorage (collapsed s) = withoutStorage s :=
  (alike_replacing noBlank_isWordChar readsCollapsed_storage s).spaced_eq

theorem trimStart_lt_iff (s : Text) :
    (trimStart s).length < s.length ↔ s.head?.any isBlank = true := by
  cases s with
  | nil => simp [trimStart]
  | cons c s =>
    cases blank : isBlank c with
    | true =>
      have shorter := length_trimStart_le s
      have same : trimStart (c :: s) = trimStart s := List.dropWhile_cons_of_pos blank
      simp only [same, List.length_cons, List.head?_cons, Option.any_some, blank, iff_true]
      omega
    | false =>
      rw [trimStart_of_first (by simpa using blank)]
      simp [blank]

theorem length_trimStart_collapsed_lt_iff (s : Text) :
    (collapsed (trimStart s)).length < (collapsed s).length ↔ (trimStart s).length < s.length := by
  rw [← trimStart_collapsed, trimStart_lt_iff, trimStart_lt_iff, head?_collapsed]

theorem payableLength?_eq_some_iff {s : Text} {n : Nat} : payableLength? s = some n ↔
    ((trimStart s).length < s.length ∧ (trimStart s).takeWhile isWordChar = "payable".toList) ∧
      n = s.length - (trimStart s).length + "payable".toList.length := by
  unfold payableLength?
  simp only
  split
  · rename_i payable
    simp only [Option.some.injEq, payable, and_self, true_and, eq_comm]
  · rename_i notPayable
    simp only [reduceCtorEq, notPayable, false_and]

theorem payableLength?_collapsed (s : Text) : payableLength? (collapsed s) =
    (payableLength? s).map fun _ =>
      (collapsed s).length - (collapsed (trimStart s)).length + "payable".toList.length := by
  unfold payableLength?
  simp only [trimStart_collapsed, takeWhile_collapsed noBlank_isWordChar, length_trimStart_collapsed_lt_iff]
  split <;> rfl

theorem readsCollapsed_payable : ReadsCollapsed (fun word rest =>
    if word = "address".toList then (payableLength? rest).map ("address".toList, ·) else none) id where
  found run rest value taken read := by
    split at read
    · rename_i isAddress
      obtain ⟨length, isPayable, same⟩ := Option.map_eq_some_iff.1 read
      cases same
      refine ⟨_, by rw [if_pos isAddress, payableLength?_collapsed, isPayable]; rfl, ?_⟩
      obtain ⟨⟨_, isWord⟩, rfl⟩ := payableLength?_eq_some_iff.1 isPayable
      have suffix : trimStart rest <:+ rest := List.dropWhile_suffix _
      have solid : IsSolid "payable".toList := isSolid_of_all (by decide)
      have split := List.takeWhile_append_dropWhile (p := isWordChar) (l := trimStart rest)
      rw [isWord] at split
      rw [drop_of_suffix (collapsed_suffix suffix), drop_of_suffix suffix, ← split,
        collapsed_solid_append solid, List.drop_left, List.drop_left]
    · cases read
  missed run rest read := by
    split at read
    · rename_i isAddress
      rw [if_pos isAddress, payableLength?_collapsed, Option.map_eq_none_iff.1 read]
      rfl
    · rename_i other
      rw [if_neg other]

theorem alike_plainAddress (s : Text) : Alike (plainAddress (collapsed s)) (plainAddress s) :=
  alike_replacing noBlank_isWordChar readsCollapsed_payable s

theorem normalized_collapsed (s : Text) : normalized (collapsed s) = normalized s := by
  unfold normalized
  rw [withoutStorage_collapsed]

end TypeSyntax

namespace StateVariable

/-- The text behind the parenthesised list at the front of a text. -/
def behindList? (s : Text) : Option Text := do
  let inner ← after? ['('] (trimStart s)
  after? [')'] (inner.dropWhile (· ≠ ')'))

theorem listLength?_eq (s : Text) :
    listLength? s = (behindList? s).map fun behind => s.length - behind.length := by
  unfold listLength? behindList?
  cases trimStart s with
  | nil => rfl
  | cons c inner =>
    by_cases isOpen : c = '('
    · subst isOpen
      simp only [after?, if_true, Option.bind_eq_bind, Option.bind_some]
      cases left : inner.dropWhile (· ≠ ')') with
      | nil => rfl
      | cons d behind =>
        have stops := List.head?_dropWhile_not (fun c => decide (c ≠ ')')) inner
        rw [left] at stops
        have isClose : d = ')' := by simpa using stops
        subst isClose
        rfl
    · have other : after? ['('] (c :: inner) = none := by rw [after?, if_neg (Ne.symm isOpen)]
      rw [other]
      split
      · rename_i same
        exact absurd (List.cons.inj same).1 isOpen
      · rfl

theorem behindList?_suffix {s behind : Text} (found : behindList? s = some behind) : behind <:+ s := by
  obtain ⟨inner, starts, closes⟩ := Option.bind_eq_some_iff.1 found
  have isBehind : behind <:+ inner :=
    (after?_eq_some.1 closes ▸ List.suffix_append _ _ : behind <:+ inner.dropWhile (· ≠ ')')).trans
      (List.dropWhile_suffix _)
  have isInner : inner <:+ s :=
    (after?_eq_some.1 starts ▸ List.suffix_append _ _ : inner <:+ trimStart s).trans
      (List.dropWhile_suffix _)
  exact isBehind.trans isInner

theorem behindList?_collapsed (s : Text) :
    behindList? (collapsed s) = (behindList? s).map collapsed := by
  have blanks : ∀ c, isBlank c = true → (decide (c ≠ ')')) = true := by
    intro c blank
    refine decide_eq_true ?_
    rintro rfl
    cases blank
  unfold behindList?
  rw [trimStart_collapsed, after?_collapsed (isSolid_of_all (by decide))]
  cases after? ['('] (trimStart s) with
  | none => rfl
  | some inner =>
    simp only [Option.map_some, Option.bind_eq_bind, Option.bind_some, dropWhile_collapsed_of_blank blanks]
    exact after?_collapsed (isSolid_of_all (by decide)) _

theorem leavesBehind_overrideList : LeavesBehind
    (fun word rest => if word = "override".toList then (listLength? rest).map (word, ·) else none)
    fun word rest => if word = "override".toList then (behindList? rest).map (word, ·) else none := by
  intro word rest
  dsimp only
  split
  · rw [listLength?_eq, Option.map_map, Option.map_map]
    rfl
  · rfl

theorem readsCollapsed_overrideList : ReadsCollapsed (fun word rest =>
    if word = "override".toList then (listLength? rest).map (word, ·) else none) id := by
  refine leavesBehind_overrideList.readsCollapsed ?_ ?_
  · intro word rest found isFound
    split at isFound
    · obtain ⟨behind, isBehind, rfl⟩ := Option.map_eq_some_iff.1 isFound
      exact behindList?_suffix isBehind
    · cases isFound
  · intro word rest
    split
    · rw [behindList?_collapsed, Option.map_map, Option.map_map]
      rfl
    · rfl

theorem alike_withoutOverrideLists (s : Text) :
    Alike (withoutOverrideLists (collapsed s)) (withoutOverrideLists s) :=
  alike_replacing noBlank_isWordChar readsCollapsed_overrideList s

end StateVariable

namespace Registry

theorem noBlank_isReferenceMember : NoBlank isReferenceMember := fun c blank => by
  unfold isReferenceMember
  rw [noBlank_isMember c blank, Bool.false_or]
  refine beq_eq_false_iff_ne.2 ?_
  rintro rfl
  cases blank

theorem readsCollapsed_references (name replacement : Text) :
    ReadsCollapsed (fun run _ => (replaced? name replacement run).map (·, 0)) id where
  found run rest value taken read := by
    obtain ⟨_, isReplaced, same⟩ := Option.map_eq_some_iff.1 read
    cases same
    exact ⟨0, read, rfl⟩
  missed run rest read := read

theorem alike_replaceReferences (name replacement s : Text) :
    Alike (replaceReferences name replacement (collapsed s)) (replaceReferences name replacement s) :=
  alike_replacing noBlank_isReferenceMember (readsCollapsed_references name replacement) s

theorem refersTo_collapsed (name s : Text) : refersTo name (collapsed s) = refersTo name s := by
  have located := congrArg List.isEmpty
    (map_locate_collapsed noBlank_isReferenceMember (readsCollapsed_references name []) s)
  rw [List.isEmpty_map, List.isEmpty_map] at located
  exact congrArg (!·) located

end Registry

end ContractInterface
