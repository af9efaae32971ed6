import ContractInterface.Proofs.Fields
import ContractInterface.Proofs.Spelling
import ContractInterface.Registry.Substitution
import Mathlib.Data.List.TakeWhile

/-! # Substitution reference by reference

Replacing the references to a name changes a text run by run, and characters between runs stay.  So
does replacing the references to several names one after the other: what becomes of a text is told by
what becomes of its runs (`substituted_eq_mapRuns`), and substitution distributes over separators
(`substituted_append_cons`).

A dotted name becomes what its last part stands for, whichever names are replaced before, as long as
its qualifiers are spelled by one word (`substituted_dotted`).  The step of that argument is
`exists_qualifiers_of_ne`: whatever other name is replaced, the last part stays the last part.

Whether a text refers to a name is told part by part as well (`refersTo_append`).
-/

namespace ContractInterface.Registry

open Text TypeSyntax

/-! ## Changing runs -/

/-- A text with each of its runs of reference characters changed. -/
def mapRuns (f : Text → Text) (s : Text) : Text :=
  match s with
  | [] => []
  | c :: s =>
    if isReferenceMember c then
      f (c :: s.takeWhile isReferenceMember) ++ mapRuns f (s.dropWhile isReferenceMember)
    else c :: mapRuns f s
termination_by s.length
decreasing_by
  · have := length_dropWhile_le isReferenceMember s
    simp only [List.length_cons]
    omega
  · simp

section Runs

variable (f : Text → Text)

@[simp] theorem mapRuns_nil : mapRuns f [] = [] := by
  rw [mapRuns]

theorem mapRuns_cons {c : Char} (separates : isReferenceMember c = false) (s : Text) :
    mapRuns f (c :: s) = c :: mapRuns f s := by
  rw [mapRuns, if_neg (by simp [separates])]

theorem mapRuns_append {s t : Text} (edge : ∀ c ∈ t.head?, isReferenceMember c = false) :
    mapRuns f (s ++ t) = mapRuns f s ++ mapRuns f t := by
  fun_induction mapRuns f s with
  | case1 => rfl
  | case2 c s member ih =>
    rw [List.cons_append, mapRuns, if_pos member, takeWhile_append_of_head? edge,
      dropWhile_append_of_head? edge, ih, List.append_assoc]
  | case3 c s separates ih =>
    rw [List.cons_append, mapRuns_cons f (by simpa using separates), ih]
    rfl

/-- A text of reference characters is one run. -/
theorem mapRuns_run {run : Text} (nonempty : run ≠ []) (isRun : ∀ c ∈ run, isReferenceMember c = true) :
    mapRuns f run = f run := by
  obtain ⟨c, s, rfl⟩ := List.exists_cons_of_ne_nil nonempty
  have others : ∀ d ∈ s, isReferenceMember d = true := fun d member =>
    isRun d (List.mem_cons_of_mem c member)
  rw [mapRuns, if_pos (isRun c List.mem_cons_self), List.takeWhile_eq_self_iff.2 others,
    List.dropWhile_eq_nil_iff.2 others, mapRuns_nil, List.append_nil]

theorem head?_mapRuns {s : Text} (edge : ∀ c ∈ s.head?, isReferenceMember c = false) :
    ∀ c ∈ (mapRuns f s).head?, isReferenceMember c = false := by
  cases s with
  | nil => simp
  | cons c s =>
    have separates : isReferenceMember c = false := edge c rfl
    rw [mapRuns_cons f separates]
    simpa using separates

end Runs

theorem mapRuns_congr {f g : Text → Text} (same : ∀ run, run ≠ [] →
    (∀ c ∈ run, isReferenceMember c = true) → f run = g run) (s : Text) :
    mapRuns f s = mapRuns g s := by
  fun_induction mapRuns f s with
  | case1 => rw [mapRuns_nil]
  | case2 c s member ih =>
    rw [mapRuns, if_pos member, ih, same _ (List.cons_ne_nil _ _) (isMember_of_mem_firstRun member)]
  | case3 c s separates ih => rw [mapRuns_cons g (by simpa using separates), ih]

theorem mapRuns_self (s : Text) : mapRuns (fun run => run) s = s := by
  fun_induction mapRuns (fun run => run) s with
  | case1 => rfl
  | case2 c s _ ih => rw [ih, firstRun_append]
  | case3 c s _ ih => rw [ih]

/-- What is put in the place of a run keeps apart from what stands around the run. -/
theorem mapRuns_mapRuns (f g : Text → Text) (s : Text) :
    mapRuns g (mapRuns f s) = mapRuns (fun run => mapRuns g (f run)) s := by
  fun_induction mapRuns f s with
  | case1 => simp
  | case2 c s member ih =>
    have edge : ∀ d ∈ (mapRuns f (s.dropWhile isReferenceMember)).head?,
        isReferenceMember d = false :=
      head?_mapRuns f (head?_dropWhile s)
    rw [mapRuns_append g edge, ih, mapRuns, if_pos member]
  | case3 c s separates ih =>
    rw [mapRuns_cons g (by simpa using separates), ih, mapRuns_cons _ (by simpa using separates)]

/-! ## Replacing references -/

/-- What becomes of a run when the references to `name` are replaced. -/
def replacedRun (name replacement run : Text) : Text :=
  (replaced? name replacement run).getD run

theorem replacing_eq_mapRuns (read? : Text → Option Text) (s : Text) :
    replacing isReferenceMember (fun run _ => (read? run).map (·, 0)) s =
      mapRuns (fun run => (read? run).getD run) s := by
  unfold replacing
  fun_induction mapRuns (fun run => (read? run).getD run) s with
  | case1 => rw [spans]; rfl
  | case2 c s member ih =>
    rw [spans, if_pos member]
    cases isRead : read? (c :: s.takeWhile isReferenceMember) with
    | none => simp [isRead, ih]
    | some replacement => simp [isRead, ih]
  | case3 c s separates ih =>
    rw [spans, if_neg separates]
    simp [ih]

theorem replaceReferences_eq_mapRuns (name replacement s : Text) :
    replaceReferences name replacement s = mapRuns (replacedRun name replacement) s :=
  replacing_eq_mapRuns (replaced? name replacement) s

/-- Which runs are references does not depend on what they are replaced by. -/
theorem replaced?_eq_none_iff (name replacement replacement' run : Text) :
    replaced? name replacement run = none ↔ replaced? name replacement' run = none := by
  unfold replaced?
  rw [Option.map_eq_none_iff, Option.map_eq_none_iff]

theorem mapRuns_of_not_refersTo {name s : Text} (other : refersTo name s = false)
    (replacement : Text) : mapRuns (replacedRun name replacement) s = s := by
  have none_ : locate isReferenceMember (fun run _ => (replaced? name [] run).map (·, 0)) s = [] := by
    simpa [refersTo] using other
  -- the place of the first finding does not matter
  have general : ∀ index, locateFrom index
      (spans isReferenceMember (fun run _ => (replaced? name [] run).map (·, 0)) s) = [] →
      mapRuns (replacedRun name replacement) s = s := by
    clear other none_
    fun_induction mapRuns (replacedRun name replacement) s with
    | case1 => intros; rfl
    | case2 c s member ih =>
      intro index nothing
      rw [spans, if_pos member] at nothing
      cases isRead : replaced? name [] (c :: s.takeWhile isReferenceMember) with
      | none =>
        simp only [isRead, Option.map_none, locateFrom] at nothing
        have isRead' := (replaced?_eq_none_iff name [] replacement _).1 isRead
        rw [ih _ nothing, replacedRun, isRead', Option.getD_none, firstRun_append]
      | some _ =>
        simp [isRead, locateFrom] at nothing
    | case3 c s separates ih =>
      intro index nothing
      rw [spans, if_neg separates, locateFrom] at nothing
      rw [ih _ nothing]
  exact general 0 none_

/-! ## Texts that refer to a name -/

section Refers

variable {name : Text}

@[simp] theorem refersTo_nil : refersTo name [] = false := by
  simp [refersTo, locate, spans, locateFrom]

/-- The parts of a text refer to a name on their own. -/
theorem refersTo_append {s t : Text} (edge : ∀ c ∈ t.head?, isReferenceMember c = false) :
    refersTo name (s ++ t) = (refersTo name s || refersTo name t) := by
  have stays : StaysWithin isReferenceMember
      (fun run _ => (replaced? name [] run).map (·, 0)) s t := by
    refine ⟨fun _ _ _ _ _ => rfl, fun run rest value taken _ found => ?_⟩
    obtain ⟨_, _, same⟩ := Option.map_eq_some_iff.1 found
    cases same
    exact Nat.zero_le _
  unfold refersTo locate
  rw [spans_append edge stays, locateFrom_append, locateFrom_add]
  generalize locateFrom 0 (spans isReferenceMember _ s) = found
  cases found <;> simp

theorem refersTo_cons {c : Char} (separates : isReferenceMember c = false) (s : Text) :
    refersTo name (c :: s) = refersTo name s := by
  unfold refersTo locate
  rw [spans_cons_of_not_mem separates, locateFrom, locateFrom_add]
  simp

theorem refersTo_append_cons {c : Char} (separates : isReferenceMember c = false) (s t : Text) :
    refersTo name (s ++ c :: t) = (refersTo name s || refersTo name t) := by
  rw [refersTo_append (by simpa using separates), refersTo_cons separates]

theorem refersTo_run {run : Text} (nonempty : run ≠ [])
    (isRun : ∀ c ∈ run, isReferenceMember c = true) :
    refersTo name run = (replaced? name [] run).isSome := by
  unfold refersTo locate
  rw [spans_run nonempty isRun]
  cases replaced? name [] run <;> rfl

end Refers

/-! ## Names one after the other -/

/-- A text with the references to some names replaced by their spellings, one name after the other. -/
def substituted (spelling : Text → Text) (names : List Text) (s : Text) : Text :=
  names.foldl (fun s name => mapRuns (replacedRun name (spelling name)) s) s

theorem substituted_cons (spelling : Text → Text) (name : Text) (names : List Text) (s : Text) :
    substituted spelling (name :: names) s =
      substituted spelling names (mapRuns (replacedRun name (spelling name)) s) := rfl

/-- The spelling of a name in a signature, as far as it has one. -/
def spelling (r : Registry) (name : Text) : Text :=
  (r.canonicalType name).toOption.getD []

theorem canonicalType_eq_ok {r : Registry} {name : Text}
    (resolves : ∃ t, r.canonicalType name = .ok t) :
    r.canonicalType name = .ok (r.spelling name) := by
  obtain ⟨t, isType⟩ := resolves
  rw [spelling, isType]
  rfl

/-- If all names have a spelling, substitution succeeds. -/
theorem substitute_eq_ok {r : Registry}
    (resolves : ∀ name ∈ r.typeNames, ∃ t, r.canonicalType name = .ok t) (s : Text) :
    r.substitute s = .ok (substituted r.spelling r.typeNames s) := by
  unfold substitute
  generalize r.typeNames = names at resolves ⊢
  induction names generalizing s with
  | nil => rfl
  | cons name names ih =>
    have first : r.substituteName s name =
        .ok (mapRuns (replacedRun name (r.spelling name)) s) := by
      unfold substituteName
      split
      · rw [canonicalType_eq_ok (resolves name List.mem_cons_self)]
        exact congrArg Except.ok (replaceReferences_eq_mapRuns name _ s)
      · rename_i other
        rw [mapRuns_of_not_refersTo (by simpa using other)]
        rfl
    rw [List.foldlM_cons, first, substituted_cons]
    exact ih _ fun n member => resolves n (List.mem_cons_of_mem name member)

section Substituted

variable (spelling : Text → Text) (names : List Text)

/-- Substitution works run by run. -/
theorem substituted_eq_mapRuns (s : Text) :
    substituted spelling names s = mapRuns (substituted spelling names) s := by
  induction names generalizing s with
  | nil => exact (mapRuns_self s).symm
  | cons name names ih =>
    rw [substituted_cons, ih, mapRuns_mapRuns]
    refine mapRuns_congr (fun run nonempty isRun => ?_) s
    rw [substituted_cons, mapRuns_run _ nonempty isRun, ← ih]

@[simp] theorem substituted_nil : substituted spelling names [] = [] := by
  rw [substituted_eq_mapRuns, mapRuns_nil]

theorem substituted_append {s t : Text} (edge : ∀ c ∈ t.head?, isReferenceMember c = false) :
    substituted spelling names (s ++ t) =
      substituted spelling names s ++ substituted spelling names t := by
  rw [substituted_eq_mapRuns, mapRuns_append _ edge, ← substituted_eq_mapRuns,
    ← substituted_eq_mapRuns]

theorem substituted_cons_char {c : Char} (separates : isReferenceMember c = false) (s : Text) :
    substituted spelling names (c :: s) = c :: substituted spelling names s := by
  rw [substituted_eq_mapRuns, mapRuns_cons _ separates, ← substituted_eq_mapRuns]

theorem substituted_append_cons {c : Char} (separates : isReferenceMember c = false) (s t : Text) :
    substituted spelling names (s ++ c :: t) =
      substituted spelling names s ++ c :: substituted spelling names t := by
  rw [substituted_append spelling names (by simpa using separates),
    substituted_cons_char spelling names separates]

end Substituted

/-! ## Dotted names -/

/-- The name with the given parts. -/
def dotted (parts : List Text) : Text :=
  joined ['.'] parts

theorem dotted_cons_cons (part next : Text) (more : List Text) :
    dotted (part :: next :: more) = part ++ '.' :: dotted (next :: more) := by
  simp [dotted, joined, List.intercalate_cons_cons]

theorem dotted_cons (part : Text) (more : List Text) :
    dotted (part :: more) = part ++ more.flatMap ('.' :: ·) := by
  induction more generalizing part with
  | nil => simp [dotted, joined]
  | cons next more ih =>
    rw [dotted_cons_cons, ih]
    rfl

theorem not_mem_of_isIdentifier {name : Text} (identifier : Identifier.isIdentifier name = true) :
    '.' ∉ name := fun member =>
  absurd (isMember_of_isIdentifier identifier '.' member) (by decide)

@[simp] theorem dotted_singleton (part : Text) : dotted [part] = part := by
  simp [dotted_cons]

theorem fields_dotted {parts : List Text} (nonempty : parts ≠ [])
    (identifiers : ∀ part ∈ parts, Identifier.isIdentifier part = true) :
    fields '.' (dotted parts) = parts :=
  fields_joined nonempty fun part member => not_mem_of_isIdentifier (identifiers part member)

theorem isReferenceMember_of_isMember {c : Char} (member : Identifier.isMember c = true) :
    isReferenceMember c = true :=
  Bool.or_eq_true_iff.2 (.inl member)

theorem isReferenceMember_of_mem_dotted {parts : List Text}
    (identifiers : ∀ part ∈ parts, Identifier.isIdentifier part = true) :
    ∀ c ∈ dotted parts, isReferenceMember c = true := by
  intro c member
  cases parts with
  | nil => cases member
  | cons part more =>
    rw [dotted_cons, List.mem_append, List.mem_flatMap] at member
    rcases member with inPart | ⟨next, isNext, inNext⟩
    · exact isReferenceMember_of_isMember
        (isMember_of_isIdentifier (identifiers part List.mem_cons_self) c inPart)
    · rcases List.mem_cons.1 inNext with rfl | inNext
      · rfl
      · exact isReferenceMember_of_isMember
          (isMember_of_isIdentifier (identifiers next (List.mem_cons_of_mem part isNext)) c inNext)

theorem exists_first_of_identifiers {parts : List Text} (nonempty : parts ≠ [])
    (identifiers : ∀ part ∈ parts, Identifier.isIdentifier part = true) :
    ∃ c s, dotted parts = c :: s ∧ Identifier.isStart c = true := by
  obtain ⟨part, more, rfl⟩ := List.exists_cons_of_ne_nil nonempty
  have identifier := identifiers part List.mem_cons_self
  cases part with
  | nil => cases identifier
  | cons c s =>
    rw [dotted_cons]
    exact ⟨c, _, rfl, (Bool.and_eq_true_iff.1 identifier).1⟩

theorem dotted_ne_nil {part : Text} (nonempty : part ≠ []) (more : List Text) :
    dotted (part :: more) ≠ [] := by
  rw [dotted_cons]
  simp [nonempty]

theorem exists_last_of_mem {α : Type} {x : α} {xs : List α} (member : x ∈ xs) :
    ∃ front behind, xs = front ++ x :: behind ∧ x ∉ behind := by
  obtain ⟨front, behind, split, first⟩ := List.eq_append_cons_of_mem (List.mem_reverse.2 member)
  refine ⟨behind.reverse, front.reverse, ?_, fun inFront => first (List.mem_reverse.1 inFront)⟩
  have whole := congrArg List.reverse split
  simpa using whole

/-! ## Parts behind a reference -/

theorem partsBehind?_eq_none {name : Text} {parts : List Text} (absent : name ∉ parts) :
    partsBehind? name parts = none := by
  induction parts with
  | nil => rfl
  | cons part more ih =>
    obtain ⟨other, absent'⟩ := not_or.1 (fun member => absent (List.mem_cons.2 member))
    rw [partsBehind?, ih absent', ite_self, if_neg (Ne.symm other)]

/-- A reference reaches up to the last part with its name. -/
theorem partsBehind?_append {name : Text} {front behind : List Text} (last : name ∉ behind)
    (identifiers : ∀ part ∈ front ++ [name], Identifier.isIdentifier part = true) :
    partsBehind? name (front ++ name :: behind) = some behind := by
  induction front with
  | nil => rw [List.nil_append, partsBehind?, partsBehind?_eq_none last, ite_self, if_pos rfl]
  | cons part front ih =>
    have identifier := identifiers part List.mem_cons_self
    have found := ih fun p member => identifiers p (List.mem_cons_of_mem part member)
    rw [List.cons_append, partsBehind?, if_pos identifier, found]

theorem replacedRun_dotted {name replacement : Text} {front behind : List Text} (last : name ∉ behind)
    (identifiers : ∀ part ∈ front ++ name :: behind, Identifier.isIdentifier part = true) :
    replacedRun name replacement (dotted (front ++ name :: behind)) =
      dotted (replacement :: behind) := by
  have reference : ∀ part ∈ front ++ [name], Identifier.isIdentifier part = true := by
    intro part member
    apply identifiers part
    simp only [List.mem_append, List.mem_cons] at member ⊢
    rcases member with member | rfl | absurd_
    · exact .inl member
    · exact .inr (.inl rfl)
    · cases absurd_
  unfold replacedRun replaced?
  rw [fields_dotted (by simp) identifiers, partsBehind?_append last reference, dotted_cons]
  rfl

/-- A word is a reference to itself only. -/
theorem replaced?_of_ne {name replacement word : Text}
    (letters : ∀ c ∈ word, Identifier.isMember c = true) (other : word ≠ name) :
    replaced? name replacement word = none := by
  have noDot : '.' ∉ word := fun member => absurd (letters '.' member) (by decide)
  unfold replaced?
  rw [fields_of_not_mem noDot, partsBehind?_eq_none (by simpa using Ne.symm other)]
  rfl

theorem refersTo_of_ne {name word : Text} (letters : ∀ c ∈ word, Identifier.isMember c = true)
    (other : word ≠ name) : refersTo name word = false := by
  by_cases empty : word = []
  · rw [empty, refersTo_nil]
  · rw [refersTo_run empty fun c member => isReferenceMember_of_isMember (letters c member),
      replaced?_of_ne letters other]
    rfl

theorem refersTo_dotted {name : Text} {parts : List Text} (nonempty : parts ≠ [])
    (identifiers : ∀ part ∈ parts, Identifier.isIdentifier part = true)
    (refers : refersTo name (dotted parts) = true) : name ∈ parts := by
  by_contra absent
  obtain ⟨part, more, rfl⟩ := List.exists_cons_of_ne_nil nonempty
  have isRun := isReferenceMember_of_mem_dotted identifiers
  have noRun := dotted_ne_nil (ne_nil_of_isIdentifier (identifiers part List.mem_cons_self)) more
  rw [refersTo_run noRun isRun, replaced?, fields_dotted nonempty identifiers,
    partsBehind?_eq_none absent] at refers
  cases refers

theorem replacedRun_of_not_mem {name replacement : Text} {parts : List Text} (nonempty : parts ≠ [])
    (identifiers : ∀ part ∈ parts, Identifier.isIdentifier part = true) (absent : name ∉ parts) :
    replacedRun name replacement (dotted parts) = dotted parts := by
  unfold replacedRun replaced?
  rw [fields_dotted nonempty identifiers, partsBehind?_eq_none absent]
  rfl

/-! ## Dotted names as runs -/

section Qualified

variable {name replacement : Text} {qualifiers : List Text}

theorem mapRuns_dotted (f : Text → Text)
    (identifiers : ∀ part ∈ qualifiers ++ [name], Identifier.isIdentifier part = true) :
    mapRuns f (dotted (qualifiers ++ [name])) = f (dotted (qualifiers ++ [name])) := by
  have nonempty : dotted (qualifiers ++ [name]) ≠ [] := by
    cases qualifiers with
    | nil => exact dotted_ne_nil (ne_nil_of_isIdentifier (identifiers name (by simp))) []
    | cons q _ => exact dotted_ne_nil (ne_nil_of_isIdentifier (identifiers q (by simp))) _
  exact mapRuns_run f nonempty (isReferenceMember_of_mem_dotted identifiers)

/-- A name is replaced together with its qualifiers. -/
theorem mapRuns_dotted_self
    (identifiers : ∀ part ∈ qualifiers ++ [name], Identifier.isIdentifier part = true) :
    mapRuns (replacedRun name replacement) (dotted (qualifiers ++ [name])) = replacement := by
  rw [mapRuns_dotted _ identifiers, replacedRun_dotted List.not_mem_nil identifiers, dotted_singleton]

/-- Replacing another name leaves a dotted name with the same last part.  The last qualifier with that
name becomes the replacement, and those before it are gone. -/
theorem exists_qualifiers_of_ne {n : Text} (other : n ≠ name)
    (identifiers : ∀ part ∈ qualifiers ++ [name], Identifier.isIdentifier part = true) :
    ∃ left, mapRuns (replacedRun n replacement) (dotted (qualifiers ++ [name])) =
        dotted (left ++ [name]) ∧
      ∀ q ∈ left, q ∈ qualifiers ∨ n ∈ qualifiers ∧ q = replacement := by
  rw [mapRuns_dotted _ identifiers]
  by_cases isQualifier : n ∈ qualifiers
  · obtain ⟨front, behind, rfl, last⟩ := exists_last_of_mem isQualifier
    have last' : n ∉ behind ++ [name] := by simp [last, other]
    rw [List.append_assoc, List.cons_append] at identifiers ⊢
    refine ⟨replacement :: behind, replacedRun_dotted last' identifiers, fun q isLeft => ?_⟩
    rcases List.mem_cons.1 isLeft with same | isBehind
    · exact .inr ⟨isQualifier, same⟩
    · exact .inl (List.mem_append_right front (List.mem_cons_of_mem n isBehind))
  · have absent : n ∉ qualifiers ++ [name] := by simp [isQualifier, other]
    exact ⟨qualifiers, replacedRun_of_not_mem (by simp) identifiers absent, fun q isLeft => .inl isLeft⟩

end Qualified

/-! ## What words and dotted names become -/

section Becoming

variable {spelling : Text → Text} {names : List Text}

/-- A word that is no name stays. -/
theorem substituted_of_not_mem {word : Text} (nonempty : word ≠ [])
    (isWord : ∀ c ∈ word, Identifier.isMember c = true) (absent : word ∉ names) :
    substituted spelling names word = word := by
  induction names with
  | nil => rfl
  | cons name names ih =>
    obtain ⟨other, absent'⟩ := not_or.1 (fun member => absent (List.mem_cons.2 member))
    have same : replacedRun name (spelling name) word = word := by
      rw [replacedRun, replaced?_of_ne isWord other, Option.getD_none]
    rw [substituted_cons, mapRuns_run _ nonempty fun c member =>
      isReferenceMember_of_isMember (isWord c member), same]
    exact ih absent'

/-- A name that does not get in the way when it qualifies another one or names a parameter: it is no
type, or a type that is spelled by one plain word. -/
def IsUnobtrusive (spelling : Text → Text) (names : List Text) (word : Text) : Prop :=
  word ∈ names → IsPlainWord (spelling word) ∧ spelling word ∉ names

/-- A qualified name becomes what its last part stands for. -/
theorem substituted_dotted {qualifiers : List Text} {name : Text} (member : name ∈ names)
    (identifiers : ∀ part ∈ qualifiers ++ [name], Identifier.isIdentifier part = true)
    (unobtrusive : ∀ q ∈ qualifiers, IsUnobtrusive spelling names q)
    (fixed : ∀ n ∈ names, mapRuns (replacedRun n (spelling n)) (spelling name) = spelling name) :
    substituted spelling names (dotted (qualifiers ++ [name])) = spelling name := by
  -- some of the names are left to be replaced, among them the last part
  have general : ∀ left : List Text, left ⊆ names → name ∈ left → ∀ qs : List Text,
      (∀ part ∈ qs ++ [name], Identifier.isIdentifier part = true) →
      (∀ q ∈ qs, IsUnobtrusive spelling names q) →
      substituted spelling left (dotted (qs ++ [name])) = spelling name := by
    intro left
    induction left with
    | nil =>
      intro _ absurd_
      cases absurd_
    | cons n left ih =>
      intro within isLeft qs isPath benign
      have within' : left ⊆ names := fun x isMore => within (List.mem_cons_of_mem n isMore)
      rw [substituted_cons]
      by_cases isName : n = name
      · subst isName
        rw [mapRuns_dotted_self isPath]
        have stays : ∀ more : List Text, more ⊆ names →
            substituted spelling more (spelling n) = spelling n := by
          intro more
          induction more with
          | nil => exact fun _ => rfl
          | cons m more ihMore =>
            intro inNames
            rw [substituted_cons, fixed m (inNames List.mem_cons_self)]
            exact ihMore fun x isMore => inNames (List.mem_cons_of_mem m isMore)
        exact stays left within'
      · have isLeft' : name ∈ left := (List.mem_cons.1 isLeft).resolve_left (Ne.symm isName)
        obtain ⟨qs', becomes, origin⟩ := exists_qualifiers_of_ne isName isPath
        rw [becomes]
        refine ih within' isLeft' qs' (fun part isPart => ?_) fun q isPart => ?_
        · rcases List.mem_append.1 isPart with isQualifier | isLast
          · rcases origin part isQualifier with stayed | ⟨replaced, rfl⟩
            · exact isPath part (List.mem_append_left _ stayed)
            · exact (benign n replaced (within List.mem_cons_self)).1.identifier
          · exact isPath part (List.mem_append_right _ isLast)
        · rcases origin q isPart with stayed | ⟨replaced, rfl⟩
          · exact benign q stayed
          · exact fun isType => absurd isType (benign n replaced (within List.mem_cons_self)).2
  exact general names (fun _ isName => isName) member qualifiers identifiers unobtrusive

end Becoming

end ContractInterface.Registry
