import ContractInterface.Proofs.Grounding

/-! # What names mean

A name is resolved while other names are being expanded, but what it means does not depend on these:
wherever it can be expanded it has one descriptor (`resolveName_eq_of_expands`).  So a name means what
its definition makes of the names in it (`means_iff`), and what is shown of a name from the names in its
definition holds of every name that can be expanded (`induction_of_expands`).
-/

namespace ContractInterface

open Text TypeSyntax Relation

/-! ## Equality of descriptors -/

namespace Descriptor

mutual

/-- Whether two descriptors are the same. -/
def isSame : Descriptor → Descriptor → Bool
  | .primitive name, .primitive name' => name = name'
  | .unresolved rawName, .unresolved rawName' => rawName = rawName'
  | .array element length, .array element' length' => element.isSame element' && length = length'
  | .mapping key value, .mapping key' value' => key.isSame key' && value.isSame value'
  | .tuple structName members, .tuple structName' members' =>
    structName = structName' && areSame members members'
  | .unspecified, .unspecified => true
  | _, _ => false

/-- Whether two lists of struct members are the same. -/
def areSame : List (Text × Descriptor) → List (Text × Descriptor) → Bool
  | [], [] => true
  | (name, type) :: more, (name', type') :: more' =>
    name = name' && type.isSame type' && areSame more more'
  | _, _ => false

end

mutual

theorem isSame_iff (d d' : Descriptor) : d.isSame d' = true ↔ d = d' := by
  cases d with
  | primitive name => cases d' <;> simp [isSame]
  | unresolved rawName => cases d' <;> simp [isSame]
  | array element length => cases d' <;> simp [isSame, isSame_iff element]
  | mapping key value => cases d' <;> simp [isSame, isSame_iff key, isSame_iff value]
  | tuple structName members => cases d' <;> simp [isSame, areSame_iff members]
  | unspecified => cases d' <;> simp [isSame]

theorem areSame_iff (ms ms' : List (Text × Descriptor)) : areSame ms ms' = true ↔ ms = ms' := by
  cases ms with
  | nil => cases ms' <;> simp [areSame]
  | cons m more =>
    cases ms' with
    | nil => simp [areSame]
    | cons m' more' => simp [areSame, isSame_iff m.2, areSame_iff more, Prod.ext_iff]

end

instance : DecidableEq Descriptor := fun d d' => decidable_of_iff _ (isSame_iff d d')

end Descriptor

/-! ## Expressions with equal descriptors -/

theorem Descriptor.eq_of_foldl_array {d d' : Descriptor} {lengths : List (Option Nat)}
    (same : lengths.foldl .array d = lengths.foldl .array d') : d = d' := by
  induction lengths generalizing d d' with
  | nil => exact same
  | cons length lengths ih =>
    injection ih same

/-- Two ways to resolve names give an expression one descriptor only if they agree on its names. -/
theorem TypeSyntax.Expr.eq_of_resolveWith_eq {f g : Text → Except ResolutionError Descriptor}
    {e : Expr} {d : Descriptor} (left : e.resolveWith f = .ok d) (right : e.resolveWith g = .ok d) :
    ∀ x, .name x ∈ e.parts → f x = g x := by
  induction e generalizing d with
  | name text =>
    intro x member
    cases List.mem_singleton.1 member
    exact Eq.trans left right.symm
  | array element sizes ih =>
    intro x member
    obtain ⟨lengths, type, reads, resolves, rfl⟩ := resolveWith_array_eq_ok_iff.1 left
    obtain ⟨lengths', type', reads', resolves', same⟩ := resolveWith_array_eq_ok_iff.1 right
    -- the sizes are read once, so the dimensions agree and so do the elements
    cases reads.symm.trans reads'
    obtain rfl := Descriptor.eq_of_foldl_array same
    exact ih resolves resolves' x ((List.mem_cons.1 member).resolve_left (by simp))
  | mapping key value ihKey ihValue =>
    intro x member
    obtain ⟨keyType, valueType, resolvesKey, resolvesValue, rfl⟩ :=
      resolveWith_mapping_eq_ok_iff.1 left
    obtain ⟨_, _, resolvesKey', resolvesValue', same⟩ := resolveWith_mapping_eq_ok_iff.1 right
    cases same
    rcases List.mem_append.1 ((List.mem_cons.1 member).resolve_left (by simp)) with inKey | inValue
    · exact ihKey resolvesKey resolvesKey' x inKey
    · exact ihValue resolvesValue resolvesValue' x inValue
  | unknown text => exact fun x member => nomatch List.mem_singleton.1 member
  | endless text => cases left

theorem Descriptor.eq_tuple_of_foldl_array {d : Descriptor} {lengths : List (Option Nat)}
    {structName : Text} {ms : List (Text × Descriptor)}
    (same : lengths.foldl .array d = .tuple structName ms) : d = .tuple structName ms := by
  induction lengths generalizing d with
  | nil => exact same
  | cons length lengths ih => cases ih same

/-- An expression that is a tuple has it from one of its names. -/
theorem TypeSyntax.Expr.exists_name_of_tuple {f : Text → Except ResolutionError Descriptor} {e : Expr}
    {structName : Text} {ms : List (Text × Descriptor)}
    (resolves : e.resolveWith f = .ok (.tuple structName ms)) :
    ∃ x, .name x ∈ e.parts ∧ f x = .ok (.tuple structName ms) := by
  induction e with
  | name text => exact ⟨text, List.mem_cons_self, resolves⟩
  | array element sizes ih =>
    obtain ⟨lengths, type, _, resolvesElement, same⟩ := resolveWith_array_eq_ok_iff.1 resolves
    obtain rfl := Descriptor.eq_tuple_of_foldl_array same
    obtain ⟨x, member, isTuple⟩ := ih resolvesElement
    exact ⟨x, List.mem_cons_of_mem _ member, isTuple⟩
  | mapping key value _ _ =>
    obtain ⟨_, _, _, _, same⟩ := resolveWith_mapping_eq_ok_iff.1 resolves
    cases same
  | unknown text => cases resolves
  | endless text => cases resolves

namespace Registry

section Members

variable {f g : Text → Except ResolutionError Descriptor} {members : List Member}

theorem resolveMembers_congr
    (same : ∀ type ∈ members.map Member.type, ∀ x, Mentions type x → f x = g x) :
    resolveMembers f members = resolveMembers g members := by
  induction members with
  | nil => rfl
  | cons m more ih =>
    rw [List.map_cons, List.forall_mem_cons] at same
    rw [resolveMembers, resolveMembers, Expr.resolveWith_congr same.1, ih same.2]

theorem eq_of_resolveMembers_eq {ms : List (Text × Descriptor)}
    (left : resolveMembers f members = .ok ms) (right : resolveMembers g members = .ok ms) :
    ∀ type ∈ members.map Member.type, ∀ x, Mentions type x → f x = g x := by
  induction members generalizing ms with
  | nil => exact fun _ member => nomatch member
  | cons m more ih =>
    obtain ⟨d, others, first, resolvesOthers, rfl⟩ := Expr.resolveMembers_cons_eq_ok_iff.1 left
    obtain ⟨d', others', first', resolvesOthers', same⟩ := Expr.resolveMembers_cons_eq_ok_iff.1 right
    cases same
    rw [List.map_cons, List.forall_mem_cons]
    exact ⟨Expr.eq_of_resolveWith_eq first first', ih resolvesOthers resolvesOthers'⟩

end Members

variable {r : Registry} {visiting visiting' : List Text}

/-! ## Expansions do not matter -/

theorem resolveName_eq (r : Registry) (visiting : List Text) (x : Text) :
    r.resolveName visiting x =
      match r.definition? (unqualified x) with
      | some .enumeration => .ok (.primitive "uint8".toList)
      | some (.struct members) =>
        if unqualified x ∈ visiting then .ok (.unresolved x)
        else do
          let resolved ← resolveMembers (r.resolveName (unqualified x :: visiting)) members
          return .tuple (unqualified x) resolved
      | some (.alias underlying) =>
        if unqualified x ∈ visiting then .ok (.unresolved x)
        else do
          let type ← (Expr.ofText underlying).resolveWith (r.resolveName (unqualified x :: visiting))
          return if type.isUnresolved then .unresolved x else type
      | some .contract => .ok (.primitive "address".toList)
      | none => .ok (if isCustom x then .unresolved x else .primitive (canonicalName x)) := by
  rw [resolveName]
  split <;> rename_i isDefined <;> rw [isDefined] <;> rfl

theorem Expands.mono {a : Text} (expands : r.Expands visiting a) (fewer : visiting' ⊆ visiting) :
    r.Expands visiting' a :=
  ⟨expands.acyclic, expands.ground, fun b reaches composed isVisited =>
    expands.fresh b reaches composed (fewer isVisited)⟩

/-- What a name resolves to does not depend on the names that are being expanded, as long as it can be
expanded at all. -/
theorem resolveName_eq_of_expands (r : Registry) (visiting : List Text) (x : Text) :
    r.Expands visiting (unqualified x) → ∀ visiting', r.Expands visiting' (unqualified x) →
      r.resolveName visiting x = r.resolveName visiting' x := by
  -- the names in the definition can be expanded on both sides, one name deeper
  have names {visiting visiting' : List Text} {a type y : Text} (composed : r.isComposed a = true)
      (expands : r.Expands visiting a) (expands' : r.Expands visiting' a)
      (isType : type ∈ r.typesOf a) (mentions : Mentions type y)
      (ih : ∀ y, r.Expands (a :: visiting) (unqualified y) → ∀ w, r.Expands w (unqualified y) →
        r.resolveName (a :: visiting) y = r.resolveName w y) :
      r.resolveName (a :: visiting) y = r.resolveName (a :: visiting') y :=
    ih y (((expands_iff composed).1 expands).2 type isType |>.names y mentions) _
      (((expands_iff composed).1 expands').2 type isType |>.names y mentions)
  fun_induction resolveName r visiting x with
  | case3 visiting text members isDefined fresh ih =>
    intro expands visiting' expands'
    have composed := isComposed_eq isDefined
    have fresh' := ((expands_iff composed).1 expands').1
    rw [resolveName_eq r visiting', isDefined]
    simp only [fresh', if_false]
    rw [resolveMembers_congr fun type isType y mentions => names composed expands expands'
      (by rwa [typesOf_eq isDefined]) mentions ih]
  | case5 visiting text underlying isDefined fresh ih =>
    intro expands visiting' expands'
    have composed := isComposed_eq isDefined
    have fresh' := ((expands_iff composed).1 expands').1
    rw [resolveName_eq r visiting', isDefined]
    simp only [fresh', if_false]
    rw [Expr.resolveWith_congr fun y mentions => names composed expands expands'
      (by rw [typesOf_eq isDefined]; exact List.mem_cons_self) mentions ih]
  | case2 visiting text _ isDefined isVisited | case4 visiting text _ isDefined isVisited =>
    exact fun expands => absurd isVisited (expands.fresh _ .refl (isComposed_eq isDefined))
  | _ =>
    rename_i isDefined
    intro _ visiting' _
    rw [resolveName_eq r visiting', isDefined]
    rfl

/-- A name can be expanded if the types in its definition can be: a cycle through it would be one
below it. -/
theorem expands_of_types {a : Text} (types : ∀ type ∈ r.typesOf a, r.ExpandsWithin [] type) :
    r.Expands [] a := by
  cases composed : r.isComposed a with
  | false => exact expands_of_simple composed
  | true =>
    refine (expands_iff composed).2 ⟨List.not_mem_nil, fun type isType =>
      ⟨(types type isType).ground, fun x mentions => ?_⟩⟩
    have expands := (types type isType).names x mentions
    refine ⟨expands.acyclic, expands.ground, fun b reaches _ isVisited => ?_⟩
    -- coming back to the name from a name in its definition is a cycle there
    obtain rfl := List.mem_singleton.1 isVisited
    exact expands.acyclic _ .refl (TransGen.tail' reaches (refers_of_mentions isType mentions))

/-- What holds of a name if it holds of the names in its definition holds of every name that can be
expanded. -/
theorem induction_of_expands {P : Text → Prop} (r : Registry)
    (step : ∀ x, (∀ type ∈ r.typesOf (unqualified x), ∀ y, Mentions type y → P y) → P x)
    (visiting : List Text) (x : Text) : r.Expands visiting (unqualified x) → P x := by
  -- structs and aliases: the step, with the induction hypothesis one name deeper
  have below {visiting : List Text} {text : Text} (composed : r.isComposed (unqualified text) = true)
      (ih : ∀ y, r.Expands (unqualified text :: visiting) (unqualified y) → P y)
      (expands : r.Expands visiting (unqualified text)) : P text :=
    step text fun type isType y mentions =>
      ih y ((((expands_iff composed).1 expands).2 type isType).names y mentions)
  fun_induction resolveName r visiting x with
  | case3 visiting text members isDefined fresh ih => exact below (isComposed_eq isDefined) ih
  | case5 visiting text underlying isDefined fresh ih => exact below (isComposed_eq isDefined) ih
  | case2 visiting text _ isDefined isVisited | case4 visiting text _ isDefined isVisited =>
    exact fun expands => absurd isVisited (expands.fresh _ .refl (isComposed_eq isDefined))
  | case1 visiting text isDefined | case6 visiting text isDefined =>
    intro _
    refine step text fun type isType => ?_
    rw [typesOf_eq isDefined] at isType
    cases isType
  | case7 visiting text isUndefined =>
    intro _
    refine step text fun type isType => ?_
    simp [typesOf, isUndefined] at isType

/-! ## Meanings -/

/-- The descriptor of a name outside of any expansion. -/
def meaning (r : Registry) (x : Text) : Except ResolutionError Descriptor :=
  r.resolveName [] x

/-- A name has a meaning that leaves nothing open. -/
def Means (r : Registry) (x : Text) (d : Descriptor) : Prop :=
  r.meaning x = .ok d ∧ d.isResolved = true

/-- What a definition gives a name for a meaning, when the names in it mean what they do in a
registry.  A name without a definition is taken at its word. -/
def Gives (r : Registry) (x : Text) (d : Descriptor) : Option Definition → Prop
  | some .enumeration => d = .primitive "uint8".toList
  | some (.struct members) => ∃ ms, resolveMembers r.meaning members = .ok ms ∧
      (ms.all fun m => m.2.isResolved) = true ∧ d = .tuple (unqualified x) ms
  | some (.alias underlying) => r.describe underlying = .ok d ∧ d.isResolved = true
  | some .contract => d = .primitive "address".toList
  | none => isCustom x = false ∧ d = .primitive (canonicalName x)

theorem expands_of_means {x : Text} {d : Descriptor} (means : r.Means x d) :
    r.Expands [] (unqualified x) :=
  ((r.isResolved_resolveName_iff [] x d means.1).1 means.2).2

theorem means_of_mentions {type x : Text} {d : Descriptor} (describes : r.describe type = .ok d)
    (resolved : d.isResolved = true) (mentions : Mentions type x) : ∃ d', r.Means x d' := by
  obtain ⟨d', means⟩ := (Expr.exists_resolveWith_iff.1 ⟨d, describes⟩).2 x mentions
  exact ⟨d', means, ((Expr.isResolved_resolveWith_iff describes).1 resolved).2 x mentions d' means⟩

/-- A name that can be expanded is resolved with the meanings of the names in its definition. -/
theorem meaning_eq {x : Text} (expands : r.Expands [] (unqualified x)) :
    r.meaning x =
      match r.definition? (unqualified x) with
      | some .enumeration => .ok (.primitive "uint8".toList)
      | some (.struct members) => do
        let resolved ← resolveMembers r.meaning members
        return .tuple (unqualified x) resolved
      | some (.alias underlying) => do
        let type ← r.describe underlying
        return if type.isUnresolved then .unresolved x else type
      | some .contract => .ok (.primitive "address".toList)
      | none => .ok (if isCustom x then .unresolved x else .primitive (canonicalName x)) := by
  -- below the name nothing depends on its being expanded
  have names (composed : r.isComposed (unqualified x) = true) {type y : Text}
      (isType : type ∈ r.typesOf (unqualified x)) (mentions : Mentions type y) :
      r.resolveName [unqualified x] y = r.meaning y := by
    have expands' := (((expands_iff composed).1 expands).2 type isType).names y mentions
    exact r.resolveName_eq_of_expands _ y expands' [] (expands'.mono (List.nil_subset _))
  rw [meaning, resolveName_eq]
  cases isDefined : r.definition? (unqualified x) with
  | none => rfl
  | some definition =>
    have composed := isComposed_eq isDefined
    have types := typesOf_eq isDefined
    cases definition with
    | enumeration => rfl
    | struct members =>
      simp only [List.not_mem_nil, if_false]
      rw [resolveMembers_congr fun type isType y mentions =>
        names composed (by rwa [types]) mentions]
    | «alias» underlying =>
      simp only [List.not_mem_nil, if_false]
      rw [Expr.resolveWith_congr fun y mentions =>
        names composed (by rw [types]; exact List.mem_cons_self) mentions]
      rfl
    | contract => rfl

/-- The types in a definition that gives a meaning have descriptors that leave nothing open. -/
theorem exists_describe_of_gives {x : Text} {d : Descriptor} {definition : Option Definition}
    (gives : r.Gives x d definition) {type : Text}
    (isType : type ∈ definition.elim [] Definition.types) :
    ∃ d', r.describe type = .ok d' ∧ d'.isResolved = true := by
  match definition, gives with
  | none, _ => cases isType
  | some .enumeration, _ => cases isType
  | some .contract, _ => cases isType
  | some (.struct members), ⟨ms, resolves, resolved, _⟩ =>
    obtain ⟨d', describes⟩ := exists_resolveMembers_iff.1 ⟨ms, resolves⟩ type isType
    exact ⟨d', describes,
      (all_isResolved_members_iff resolves).1 resolved type isType d' describes⟩
  | some (.alias underlying), gives =>
    cases List.mem_singleton.1 isType
    exact ⟨d, gives⟩

/-- A name can be expanded if its definition gives it a meaning. -/
theorem expands_of_gives {x : Text} {d : Descriptor}
    (gives : r.Gives x d (r.definition? (unqualified x))) : r.Expands [] (unqualified x) := by
  refine expands_of_types fun type isType => ?_
  obtain ⟨d', describes, resolved⟩ := exists_describe_of_gives gives isType
  exact isGrounded_iff.1 ((isResolved_describe_iff describes).1 resolved)

theorem gives_of_means {x : Text} {d : Descriptor} (means : r.Means x d) :
    r.Gives x d (r.definition? (unqualified x)) := by
  have equation := meaning_eq (expands_of_means means)
  obtain ⟨isMeaning, resolved⟩ := means
  rw [isMeaning] at equation
  -- one unfolding of the meaning; a name that is open or unresolved would leave the meaning unresolved
  cases isDefined : r.definition? (unqualified x) with
  | none =>
    rw [isDefined] at equation
    cases equation
    cases looks : isCustom x with
    | true => simp [looks] at resolved
    | false => exact ⟨looks, rfl⟩
  | some definition =>
    rw [isDefined] at equation
    cases definition with
    | enumeration => exact Except.ok.inj equation
    | struct members =>
      obtain ⟨ms, resolves, whole⟩ := bind_eq_ok_iff.1 equation.symm
      cases pure_eq_ok_iff.1 whole
      rw [Descriptor.isResolved_tuple] at resolved
      exact ⟨ms, resolves, resolved, rfl⟩
    | «alias» underlying =>
      obtain ⟨type, describes, whole⟩ := bind_eq_ok_iff.1 equation.symm
      cases pure_eq_ok_iff.1 whole
      split at resolved
      · cases resolved
      · rename_i known
        rw [if_neg known]
        exact ⟨describes, resolved⟩
    | contract => exact Except.ok.inj equation

theorem means_of_gives {x : Text} {d : Descriptor}
    (gives : r.Gives x d (r.definition? (unqualified x))) : r.Means x d := by
  have equation := meaning_eq (expands_of_gives gives)
  unfold Means
  rw [equation]
  cases isDefined : r.definition? (unqualified x) with
  | none =>
    rw [isDefined] at gives
    obtain ⟨looks, rfl⟩ := gives
    simp [looks]
  | some definition =>
    rw [isDefined] at gives
    cases definition with
    | enumeration =>
      cases gives
      exact ⟨rfl, rfl⟩
    | struct members =>
      obtain ⟨ms, resolves, resolved, rfl⟩ := gives
      exact ⟨bind_eq_ok_iff.2 ⟨ms, resolves, rfl⟩, by rwa [Descriptor.isResolved_tuple]⟩
    | «alias» underlying =>
      obtain ⟨describes, resolved⟩ := gives
      -- a resolved type is not replaced by the name of the alias
      have known : ¬ d.isUnresolved = true := fun isUnresolved => by
        rw [Descriptor.isResolved_of_isUnresolved isUnresolved] at resolved
        cases resolved
      exact ⟨bind_eq_ok_iff.2 ⟨d, describes, by rw [if_neg known]; rfl⟩, resolved⟩
    | contract =>
      cases gives
      exact ⟨rfl, rfl⟩

/-- A name means what its definition gives it. -/
theorem means_iff {x : Text} {d : Descriptor} :
    r.Means x d ↔ r.Gives x d (r.definition? (unqualified x)) :=
  ⟨gives_of_means, means_of_gives⟩

/-- The names in the definition of a name with a meaning have meanings. -/
theorem exists_means_of_means {x : Text} {d : Descriptor} (means : r.Means x d) {type y : Text}
    (isType : type ∈ r.typesOf (unqualified x)) (mentions : Mentions type y) :
    ∃ d', r.Means y d' := by
  obtain ⟨d', describes, resolved⟩ := exists_describe_of_gives (gives_of_means means) isType
  exact means_of_mentions describes resolved mentions

/-- Where one registry takes a meaning from a definition, another one takes the same from it exactly if
it agrees on the meanings of the names in the definition. -/
theorem gives_iff_of_gives {r' : Registry} {x : Text} {d : Descriptor} {definition : Option Definition}
    (gives : r.Gives x d definition) :
    r'.Gives x d definition ↔ ∀ type ∈ definition.elim [] Definition.types, ∀ y, Mentions type y →
      r'.meaning y = r.meaning y := by
  -- the descriptor fixes what every part resolves to, so the other registry must give the parts the same
  match definition, gives with
  | none, gives => exact iff_of_true gives fun _ isType => nomatch isType
  | some .enumeration, gives => exact iff_of_true gives fun _ isType => nomatch isType
  | some .contract, gives => exact iff_of_true gives fun _ isType => nomatch isType
  | some (.struct members), ⟨ms, resolves, resolved, isTuple⟩ =>
    constructor
    · rintro ⟨ms', resolves', _, isTuple'⟩
      cases isTuple.symm.trans isTuple'
      exact eq_of_resolveMembers_eq resolves' resolves
    · intro agree
      exact ⟨ms, (resolveMembers_congr agree).trans resolves, resolved, isTuple⟩
  | some (.alias underlying), ⟨describes, resolved⟩ =>
    constructor
    · rintro ⟨describes', _⟩ type isType
      cases List.mem_singleton.1 isType
      exact Expr.eq_of_resolveWith_eq describes' describes
    · intro agree
      exact ⟨(Expr.resolveWith_congr (agree underlying List.mem_cons_self)).trans describes, resolved⟩

/-- A tuple is what a struct of its name means. -/
theorem exists_members_of_means {x structName : Text} {ms : List (Text × Descriptor)}
    (means : r.Means x (.tuple structName ms)) :
    ∃ members, r.definition? structName = some (.struct members) := by
  refine r.induction_of_expands (P := fun x => r.Means x (.tuple structName ms) →
    ∃ members, r.definition? structName = some (.struct members)) ?_ [] x (expands_of_means means) means
  intro x below means
  have gives := gives_of_means means
  cases isDefined : r.definition? (unqualified x) with
  | none =>
    rw [isDefined] at gives
    cases gives.2
  | some definition =>
    rw [isDefined] at gives
    cases definition with
    | enumeration => cases gives
    | struct members =>
      obtain ⟨_, _, _, same⟩ := gives
      cases same
      exact ⟨members, isDefined⟩
    | «alias» underlying =>
      -- an alias has its tuple from a name below it
      obtain ⟨y, mentions, isTuple⟩ := Expr.exists_name_of_tuple gives.1
      refine below underlying ?_ y mentions ⟨isTuple, gives.2⟩
      rw [typesOf_eq isDefined]
      exact List.mem_cons_self
    | contract => cases gives

end Registry

end ContractInterface
