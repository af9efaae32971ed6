import ContractInterface.Proofs.Leaves
import ContractInterface.Registry.Discovery
import Mathlib.Data.List.Basic

/-! # Grounded types

A type is grounded if no name that it leads to refers back to itself, and every name in it or below it
is defined or can be taken at its word.

Resolution expands names depth first and gives up at a name that it is already expanding.  This hides
no cycle and takes no other repetition for one: with the names in `visiting` being expanded, a name
resolves exactly if it is grounded and leads to none of them (`isResolved_resolveName_iff`).  So a type
can be resolved exactly if it is grounded and can be read (`canResolve_eq_ok_iff_isGrounded`).
-/

namespace ContractInterface

open Text TypeSyntax Relation

namespace Registry

/-! ## Grounded types and names -/

/-- Whether an expression has a meaning as far as its parts have one.  A name is defined or taken at
its word; a blank text and a mapping without a key denote nothing. -/
def isGround (r : Registry) : Expr → Bool
  | .name x => (r.definition? (unqualified x)).isSome || !isCustom x
  | .unknown _ => false
  | _ => true

/-- A type leads to no cycle, and all that it is made of has a meaning. -/
structure IsGrounded (r : Registry) (type : Text) : Prop where
  acyclic : ∀ b, r.Leads type b → ¬ TransGen r.Refers b b
  ground : r.Everywhere r.isGround type

/-- A name can be expanded while the names in `visiting` are: below it there is no cycle and nothing
without a meaning, and it leads to none of them. -/
structure Expands (r : Registry) (visiting : List Text) (a : Text) : Prop where
  acyclic : ∀ b, ReflTransGen r.Refers a b → ¬ TransGen r.Refers b b
  ground : r.EverywhereBelow r.isGround a
  fresh : ∀ b, ReflTransGen r.Refers a b → r.isComposed b = true → b ∉ visiting

/-- A type has a meaning, and its names can be expanded while those in `visiting` are. -/
structure ExpandsWithin (r : Registry) (visiting : List Text) (type : Text) : Prop where
  ground : ∀ p ∈ (Expr.ofText type).parts, r.isGround p = true
  names : ∀ x, Mentions type x → r.Expands visiting (unqualified x)

variable {r : Registry} {visiting : List Text}

theorem isGrounded_iff {type : Text} : r.IsGrounded type ↔ r.ExpandsWithin [] type := by
  constructor
  · intro grounded
    obtain ⟨here, below⟩ := everywhere_iff.1 grounded.ground
    exact ⟨here, fun x mentions =>
      ⟨fun b leads => grounded.acyclic b ⟨x, mentions, leads⟩, below x mentions,
        fun _ _ _ => List.not_mem_nil⟩⟩
  · intro expands
    refine ⟨?_, everywhere_iff.2 ⟨expands.ground, fun x mentions => (expands.names x mentions).ground⟩⟩
    rintro b ⟨x, mentions, leads⟩
    exact (expands.names x mentions).acyclic b leads

/-- A name that is not made of other types leads to itself only. -/
theorem eq_of_reaches_of_simple {a b : Text} (simple : r.isComposed a = false)
    (reaches : ReflTransGen r.Refers a b) : a = b := by
  rcases reflTransGen_iff_eq_or_transGen.1 reaches with same | below
  · exact same.symm
  · obtain ⟨type, isType, _⟩ := exists_leads_of_transGen below
    rw [typesOf_eq_nil simple] at isType
    cases isType

theorem expands_of_simple {a : Text} (simple : r.isComposed a = false) : r.Expands visiting a := by
  refine ⟨fun b reaches cycle => ?_, ?_, fun b reaches composed => ?_⟩
  · obtain rfl := eq_of_reaches_of_simple simple reaches
    obtain ⟨type, isType, _⟩ := exists_leads_of_transGen cycle
    rw [typesOf_eq_nil simple] at isType
    cases isType
  · rw [everywhereBelow_iff, typesOf_eq_nil simple]
    exact fun _ isType => nomatch isType
  · obtain rfl := eq_of_reaches_of_simple simple reaches
    rw [simple] at composed
    cases composed

/-- One step of an expansion: the name is not being expanded yet, and while it is, so can be the types
in its definition.  A cycle through the name would lead from one of them back to it. -/
theorem expands_iff {a : Text} (composed : r.isComposed a = true) :
    r.Expands visiting a ↔
      a ∉ visiting ∧ ∀ type ∈ r.typesOf a, r.ExpandsWithin (a :: visiting) type := by
  constructor
  · intro expands
    refine ⟨expands.fresh a .refl composed, fun type isType => ⟨?_, fun x mentions => ?_⟩⟩
    · exact expands.ground a .refl type isType
    -- what is below the type is below the name, which cannot come again without a cycle
    · have refers := refers_of_mentions isType mentions
      refine ⟨fun b leads => expands.acyclic b (.head refers leads),
        fun b leads => expands.ground b (.head refers leads), fun b leads composed' => ?_⟩
      refine List.not_mem_cons_of_ne_of_not_mem ?_ (expands.fresh b (.head refers leads) composed')
      rintro rfl
      exact expands.acyclic b .refl (.head' refers leads)
  · rintro ⟨fresh, types⟩
    refine ⟨fun b leads cycle => ?_, everywhereBelow_iff.2 fun type isType => ?_,
      fun b leads composed' => ?_⟩
    -- a cycle at `b`, or at the name itself, leads through one of the types
    · have below : TransGen r.Refers a b ∨ TransGen r.Refers a a := by
        rcases reflTransGen_iff_eq_or_transGen.1 leads with rfl | leads
        · exact .inr cycle
        · exact .inl leads
      rcases below with below | below
      · obtain ⟨type, isType, x, mentions, leads⟩ := exists_leads_of_transGen below
        exact ((types type isType).names x mentions).acyclic b leads cycle
      · obtain ⟨type, isType, x, mentions, leads⟩ := exists_leads_of_transGen below
        exact ((types type isType).names x mentions).fresh a leads composed List.mem_cons_self
    · exact everywhere_iff.2 ⟨(types type isType).ground, fun x mentions =>
        ((types type isType).names x mentions).ground⟩
    · rcases reflTransGen_iff_eq_or_transGen.1 leads with rfl | leads
      · exact fresh
      · obtain ⟨type, isType, x, mentions, leads⟩ := exists_leads_of_transGen leads
        exact fun isVisited => ((types type isType).names x mentions).fresh b leads composed'
          (List.mem_cons_of_mem a isVisited)

/-! ## Resolved names -/

section Types

variable {resolve : Text → Except ResolutionError Descriptor}

theorem forall_isGround_iff {type : Text} :
    (∀ p ∈ (Expr.ofText type).parts, r.isGround p = true) ↔
      (∀ text, .unknown text ∉ (Expr.ofText type).parts) ∧
        ∀ x, Mentions type x → r.isGround (.name x) = true := by
  constructor
  · exact fun ground => ⟨fun text member => (nomatch ground _ member), fun x => ground (.name x)⟩
  · rintro ⟨known, names⟩ p member
    cases p with
    | name x => exact names x member
    | unknown text => exact absurd member (known text)
    | _ => rfl

theorem isResolved_type_iff
    (names : ∀ x d, resolve x = .ok d →
      (d.isResolved = true ↔ r.isGround (.name x) = true ∧ r.Expands visiting (unqualified x)))
    {type : Text} {d : Descriptor} (resolves : (Expr.ofText type).resolveWith resolve = .ok d) :
    d.isResolved = true ↔ r.ExpandsWithin visiting type := by
  have each := (Expr.exists_resolveWith_iff.1 ⟨d, resolves⟩).2
  rw [Expr.isResolved_resolveWith_iff resolves]
  constructor
  · rintro ⟨known, resolved⟩
    have meanings : ∀ x, Mentions type x →
        r.isGround (.name x) = true ∧ r.Expands visiting (unqualified x) := by
      intro x mentions
      obtain ⟨d', resolves'⟩ := each x mentions
      exact (names x d' resolves').1 (resolved x mentions d' resolves')
    exact ⟨forall_isGround_iff.2 ⟨known, fun x mentions => (meanings x mentions).1⟩,
      fun x mentions => (meanings x mentions).2⟩
  · rintro ⟨ground, expands⟩
    exact ⟨(forall_isGround_iff.1 ground).1, fun x mentions d' resolves' =>
      (names x d' resolves').2 ⟨ground _ mentions, expands x mentions⟩⟩

theorem exists_resolveMembers_iff {members : List Member} :
    (∃ ms, resolveMembers resolve members = .ok ms) ↔
      ∀ type ∈ members.map Member.type, ∃ d, (Expr.ofText type).resolveWith resolve = .ok d := by
  induction members with
  | nil => exact ⟨fun _ _ member => (nomatch member), fun _ => ⟨[], rfl⟩⟩
  | cons m more ih =>
    rw [List.map_cons, List.forall_mem_cons, ← ih]
    constructor
    · rintro ⟨ms, resolves⟩
      obtain ⟨d, others, first, resolvesOthers, _⟩ := Expr.resolveMembers_cons_eq_ok_iff.1 resolves
      exact ⟨⟨d, first⟩, others, resolvesOthers⟩
    · rintro ⟨⟨d, first⟩, others, resolvesOthers⟩
      exact ⟨(m.name, d) :: others, Expr.resolveMembers_cons_eq_ok_iff.2 ⟨d, others, first, resolvesOthers, rfl⟩⟩

theorem all_isResolved_members_iff {members : List Member} {ms : List (Text × Descriptor)}
    (resolves : resolveMembers resolve members = .ok ms) :
    (ms.all fun m => m.2.isResolved) = true ↔ ∀ type ∈ members.map Member.type, ∀ d,
      (Expr.ofText type).resolveWith resolve = .ok d → d.isResolved = true := by
  induction members generalizing ms with
  | nil =>
    cases resolves
    exact ⟨fun _ _ member => (nomatch member), fun _ => rfl⟩
  | cons m more ih =>
    obtain ⟨d, others, first, resolvesOthers, rfl⟩ := Expr.resolveMembers_cons_eq_ok_iff.1 resolves
    rw [List.map_cons, List.forall_mem_cons, ← ih resolvesOthers, List.all_cons, Bool.and_eq_true,
      first]
    simp

end Types

/-- With the names in `visiting` being expanded, a name that resolves does so without an open end if
it has a meaning and can be expanded, and only then. -/
theorem isResolved_resolveName_iff (r : Registry) (visiting : List Text) (x : Text) :
    ∀ d, r.resolveName visiting x = .ok d →
      (d.isResolved = true ↔ r.isGround (.name x) = true ∧ r.Expands visiting (unqualified x)) := by
  have ground {definition : Definition} (text : Text)
      (isDefined : r.definition? (unqualified text) = some definition) :
      r.isGround (.name text) = true := by simp [isGround, isDefined]
  fun_induction resolveName r visiting x with
  | case1 visiting text isDefined =>
    rintro _ ⟨⟩
    exact iff_of_true rfl ⟨ground text isDefined, expands_of_simple (isComposed_eq isDefined)⟩
  | case2 visiting text members isDefined isVisited =>
    rintro _ ⟨⟩
    exact iff_of_false (by simp) fun h => h.2.fresh _ .refl (isComposed_eq isDefined) isVisited
  | case3 visiting text members isDefined fresh ih =>
    intro d resolves
    obtain ⟨ms, resolvesMembers, whole⟩ := bind_eq_ok_iff.1 resolves
    cases pure_eq_ok_iff.1 whole
    rw [Descriptor.isResolved_tuple, all_isResolved_members_iff resolvesMembers,
      expands_iff (isComposed_eq isDefined), typesOf_eq isDefined]
    rw [and_iff_right (ground text isDefined), and_iff_right fresh]
    -- type by type, since every member type resolves
    have each := exists_resolveMembers_iff.1 ⟨ms, resolvesMembers⟩
    refine forall₂_congr fun type isType => ?_
    obtain ⟨d, resolvesType⟩ := each type isType
    exact ⟨fun resolved => (isResolved_type_iff ih resolvesType).1 (resolved d resolvesType),
      fun expands d' resolvesType' => (isResolved_type_iff ih resolvesType').2 expands⟩
  | case4 visiting text underlying isDefined isVisited =>
    rintro _ ⟨⟩
    exact iff_of_false (by simp) fun h => h.2.fresh _ .refl (isComposed_eq isDefined) isVisited
  | case5 visiting text underlying isDefined fresh ih =>
    intro d resolves
    obtain ⟨type, resolvesType, whole⟩ := bind_eq_ok_iff.1 resolves
    cases pure_eq_ok_iff.1 whole
    -- an alias of an open name is open under its own name
    have same : (if type.isUnresolved = true then Descriptor.unresolved text else type).isResolved =
        type.isResolved := by
      split
      · rename_i isUnresolved
        rw [Descriptor.isResolved_of_isUnresolved isUnresolved, Descriptor.isResolved_unresolved]
      · rfl
    rw [same, isResolved_type_iff ih resolvesType, and_iff_right (ground text isDefined),
      expands_iff (isComposed_eq isDefined), typesOf_eq isDefined, and_iff_right fresh]
    exact List.forall_mem_singleton.symm
  | case6 visiting text isDefined =>
    rintro _ ⟨⟩
    exact iff_of_true rfl ⟨ground text isDefined, expands_of_simple (isComposed_eq isDefined)⟩
  | case7 visiting text isUndefined =>
    rintro _ ⟨⟩
    have simple : r.isComposed (unqualified text) = false := by simp [isComposed, isUndefined]
    rw [and_iff_left (expands_of_simple simple)]
    cases looks : isCustom text <;> simp [isGround, isUndefined, looks]

/-! ## Readable names -/

/-- A name resolves if all below it can be read. -/
theorem exists_resolveName_of_readable (r : Registry) (visiting : List Text) (x : Text) :
    r.EverywhereBelow Expr.isReadable (unqualified x) → ∃ d, r.resolveName visiting x = .ok d := by
  -- one step for structs and aliases alike
  have exists_type {resolve : Text → Except ResolutionError Descriptor}
      (names : ∀ y, r.EverywhereBelow Expr.isReadable (unqualified y) → ∃ d, resolve y = .ok d)
      {a type : Text} (isType : type ∈ r.typesOf a) (readable : r.EverywhereBelow Expr.isReadable a) :
      ∃ d, (Expr.ofText type).resolveWith resolve = .ok d :=
    Expr.exists_resolveWith_iff.2 ⟨readable a .refl type isType, fun y mentions =>
      names y fun b reaches => readable b (.head (refers_of_mentions isType mentions) reaches)⟩
  fun_induction resolveName r visiting x with
  | case3 visiting text members isDefined fresh ih =>
    intro readable
    rw [exists_bind_pure_iff, exists_resolveMembers_iff]
    intro type isType
    exact exists_type ih (by rwa [typesOf_eq isDefined]) readable
  | case5 visiting text underlying isDefined fresh ih =>
    intro readable
    rw [exists_bind_pure_iff]
    refine exists_type ih ?_ readable
    rw [typesOf_eq isDefined]
    exact List.mem_cons_self
  | _ => exact fun _ => ⟨_, rfl⟩

/-- A name reaches another one past those in `visiting`: on the way there, none of these is gone
through. -/
def ReachesPast (r : Registry) (visiting : List Text) : Text → Text → Prop :=
  ReflTransGen fun a b => r.Refers a b ∧ a ∉ visiting

/-- A way need not come back to where it starts. -/
theorem eq_or_exists_of_reachesPast {a b : Text} (reaches : r.ReachesPast visiting a b) :
    a = b ∨ ∃ c, r.Refers a c ∧ r.ReachesPast (a :: visiting) c b := by
  induction reaches with
  | refl => exact .inl rfl
  | @tail b c _ step ih =>
    by_cases same : a = b
    · subst same
      exact .inr ⟨c, step.1, .refl⟩
    · obtain ⟨first, refers, rest⟩ := ih.resolve_left same
      exact .inr ⟨first, refers,
        rest.tail ⟨step.1, List.not_mem_cons_of_ne_of_not_mem (Ne.symm same) step.2⟩⟩

/-- No way leads on from a name that is not to be gone through. -/
theorem eq_of_reachesPast_of_mem {a b : Text} (isVisited : a ∈ visiting)
    (reaches : r.ReachesPast visiting a b) : a = b := by
  rcases ReflTransGen.cases_head reaches with same | ⟨_, step, _⟩
  · exact same
  · exact absurd isVisited step.2

/-- The types in the definition of a name resolve if the name does and is not being expanded. -/
theorem exists_resolveWith_of_resolveName (r : Registry) (visiting : List Text) (x : Text) :
    ∀ d, r.resolveName visiting x = .ok d → unqualified x ∉ visiting →
      ∀ type ∈ r.typesOf (unqualified x),
        ∃ t, (Expr.ofText type).resolveWith (r.resolveName (unqualified x :: visiting)) = .ok t := by
  -- only structs and aliases have types in their definition, and both resolve all that is asked for
  fun_cases resolveName r visiting x with
  | case3 members isDefined fresh =>
    intro d resolves _
    rw [typesOf_eq isDefined]
    exact exists_resolveMembers_iff.1 (exists_bind_pure_iff.1 ⟨d, resolves⟩)
  | case5 underlying isDefined fresh =>
    intro d resolves _
    rw [typesOf_eq isDefined]
    exact List.forall_mem_singleton.2 (exists_bind_pure_iff.1 ⟨d, resolves⟩)
  | case2 members isDefined isVisited | case4 underlying isDefined isVisited =>
    exact fun _ _ fresh => absurd isVisited fresh
  | case1 isDefined | case6 isDefined =>
    intro _ _ _ type isType
    rw [typesOf_eq isDefined] at isType
    cases isType
  | case7 isUndefined =>
    intro _ _ _ type isType
    simp [typesOf, isUndefined] at isType

/-- Every name that a name reaches past those in `visiting` is expanded somewhere on the way, and ends
there in elementary types that the name ends in. -/
theorem exists_expansion (r : Registry) (visiting : List Text) (x : Text) (d : Descriptor)
    (resolves : r.resolveName visiting x = .ok d) (b : Text)
    (reaches : r.ReachesPast visiting (unqualified x) b) (outside : b ∉ visiting) :
    ∃ visiting' y d', unqualified y = b ∧ b ∉ visiting' ∧ r.resolveName visiting' y = .ok d' ∧
      ∀ name, .primitive name ∈ d'.leaves → .primitive name ∈ d.leaves := by
  by_cases same : unqualified x = b
  · exact ⟨visiting, x, d, same, outside, resolves, fun _ => id⟩
  have fresh : unqualified x ∉ visiting := fun isVisited =>
    same (eq_of_reachesPast_of_mem isVisited reaches)
  -- the first step goes to a name in the definition of `x`, and the rest of the way avoids `x`
  obtain ⟨_, ⟨type, isType, y, mentions, rfl⟩, rest⟩ :=
    (eq_or_exists_of_reachesPast reaches).resolve_left same
  obtain ⟨t, resolvesType⟩ := r.exists_resolveWith_of_resolveName visiting x d resolves fresh type isType
  obtain ⟨e, resolvesName⟩ := (Expr.exists_resolveWith_iff.1 ⟨t, resolvesType⟩).2 y mentions
  obtain ⟨visiting', z, d', isName, outside', resolves', keeps⟩ :=
    exists_expansion r (unqualified x :: visiting) y e resolvesName b rest
      (List.not_mem_cons_of_ne_of_not_mem (Ne.symm same) outside)
  refine ⟨visiting', z, d', isName, outside', resolves', fun name isLeaf => ?_⟩
  have ofType : .primitive name ∈ t.leaves := (Expr.mem_leaves_resolveWith_iff resolvesType).2
    (.inr ⟨y, mentions, e, resolvesName, keeps name isLeaf⟩)
  exact r.mem_leaves_of_endsBelow visiting x d resolves fresh name
    ⟨type, isType, t, resolvesType, ofType⟩
termination_by (r.unvisited visiting).length
decreasing_by exact length_unvisited_lt (mem_referringNames_of_mem_typesOf isType) fresh

/-- Outside of any expansion, every name that is reached is expanded. -/
theorem exists_expansion_of_reaches {x : Text} {d : Descriptor} (resolves : r.resolveName [] x = .ok d)
    {b : Text} (reaches : ReflTransGen r.Refers (unqualified x) b) :
    ∃ visiting y d', unqualified y = b ∧ b ∉ visiting ∧ r.resolveName visiting y = .ok d' ∧
      ∀ name, .primitive name ∈ d'.leaves → .primitive name ∈ d.leaves := by
  have reachesPast : ReflTransGen r.Refers ≤ r.ReachesPast [] :=
    ReflTransGen.mono fun _ _ refers => ⟨refers, List.not_mem_nil⟩
  exact r.exists_expansion [] x d resolves b (reachesPast _ _ reaches) List.not_mem_nil

/-! ## Resolvable types -/

theorem isResolved_describe_iff {type : Text} {d : Descriptor} (resolves : r.describe type = .ok d) :
    d.isResolved = true ↔ r.IsGrounded type := by
  rw [isGrounded_iff]
  exact isResolved_type_iff (fun x => r.isResolved_resolveName_iff [] x) resolves

theorem exists_describe_iff {type : Text} :
    (∃ d, r.describe type = .ok d) ↔ r.Everywhere Expr.isReadable type := by
  rw [describe, Expr.exists_resolveWith_iff, everywhere_iff]
  refine and_congr_right fun _ => forall₂_congr fun x _ => ⟨?_, r.exists_resolveName_of_readable [] x⟩
  rintro ⟨d, resolves⟩ b reaches type isType
  obtain ⟨visiting, y, d', rfl, fresh, resolves', _⟩ := exists_expansion_of_reaches resolves reaches
  exact (Expr.exists_resolveWith_iff.1
    (r.exists_resolveWith_of_resolveName visiting y d' resolves' fresh type isType)).1

theorem canResolve_eq_ok_iff {type : Text} {answer : Bool} :
    r.canResolve type = .ok answer ↔ ∃ d, r.describe type = .ok d ∧ d.isResolved = answer := by
  constructor
  · intro answers
    obtain ⟨d, resolves, whole⟩ := bind_eq_ok_iff.1 answers
    exact ⟨d, resolves, pure_eq_ok_iff.1 whole⟩
  · rintro ⟨d, resolves, rfl⟩
    exact bind_eq_ok_iff.2 ⟨d, resolves, rfl⟩

/-- Whether a type can be resolved has an answer if all that the type is made of can be read, and only
then; the answer is whether the type is grounded. -/
theorem canResolve_eq_ok_iff_isGrounded (r : Registry) (type : Text) (answer : Bool) :
    r.canResolve type = .ok answer ↔
      r.Everywhere Expr.isReadable type ∧ (answer = true ↔ r.IsGrounded type) := by
  rw [canResolve_eq_ok_iff, ← exists_describe_iff]
  constructor
  · rintro ⟨d, resolves, rfl⟩
    exact ⟨⟨d, resolves⟩, isResolved_describe_iff resolves⟩
  · rintro ⟨⟨d, resolves⟩, meaning⟩
    exact ⟨d, resolves, Bool.eq_iff_iff.2 ((isResolved_describe_iff resolves).trans meaning.symm)⟩

-- a struct that is referred to twice is no cycle
example : (ofSource ("struct S \x7b T a; mapping(uint256 => T[]) b; \x7d " ++
    "struct T \x7b uint256 x; \x7d").toList).canResolve "S".toList = .ok true := by
  decide +kernel

/-- An array of an elementary type is grounded whatever its size, and no mapping occurs in it.  A size
of digits that have no place in a decimal number gives no answer all the same. -/
theorem canResolve_superscript :
    empty.IsGrounded "uint256[²]".toList ∧ empty.Everywhere Expr.isReducible "uint256[²]".toList ∧
      empty.canResolve "uint256[²]".toList = .error (.lengthNotDecimal "²".toList) := by
  have simple : ∀ name, empty.isComposed name = false := fun _ => rfl
  refine ⟨isGrounded_iff.2 ⟨by decide +kernel, fun x _ => expands_of_simple (simple _)⟩,
    everywhere_iff.2 ⟨by decide +kernel, fun x _ => everywhereBelow_iff.2 ?_⟩, by decide +kernel⟩
  rw [typesOf_eq_nil (simple _)]
  exact fun _ isType => nomatch isType

end Registry

end ContractInterface
