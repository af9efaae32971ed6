import ContractInterface.Proofs.Expressions
import ContractInterface.Proofs.Leaves
import ContractInterface.Registry.Discovery
import Mathlib.Data.List.Perm.Subperm
import Mathlib.Data.Prod.Lex

/-! # Resolution ends

Resolving a type asks for the meanings of other types: of the element of an array, of the keys and the final
value of a mapping, and of the types in the definition of a name, while that name is being expanded
(`Query.asks`).  A question is smaller than the one that leads to it: fewer names are left to expand, or the
text is shorter (`lex_of_leadsTo`).  The one exception is an irreducible mapping, which asks for itself
(`not_acc_of_irreducible`).  Where none is reached, the questions come to an end, and no answer fails for want
of a mapping's value (`answer_ne_endlessMapping`).

A name is expanded only while it is not being expanded.  So the structs on a path through a descriptor, from the
whole type to one of its ends, are all different (`isFreshPath_of_describe`), and there are at most as many of
them as the registry knows.
-/

namespace ContractInterface

open Text TypeSyntax Relation

/-! ## Traversals that fail -/

section UntilFailure

variable {α β ε : Type} {f : α → Except ε β} {x y : α} {xs : List α}

/-- The members that a traversal comes to: it stops at the first one that fails. -/
def untilFailure (f : α → Except ε β) : List α → List α
  | [] => []
  | x :: xs => x :: if (f x).toBool then untilFailure f xs else []

theorem mem_of_mem_untilFailure (member : y ∈ untilFailure f xs) : y ∈ xs := by
  induction xs with
  | nil => exact member
  | cons x xs ih =>
    rcases List.mem_cons.1 member with rfl | member
    · exact List.mem_cons_self
    · split at member
      · exact List.mem_cons_of_mem x (ih member)
      · cases member

theorem mem_untilFailure_cons {b : β} (succeeds : f x = .ok b) (member : y ∈ untilFailure f xs) :
    y ∈ untilFailure f (x :: xs) := by
  rw [untilFailure, succeeds]
  exact List.mem_cons_of_mem x member

end UntilFailure

section Failures

variable {resolve : Text → Except ResolutionError Descriptor} {cause : ResolutionError}

/-- A mapping that fails to resolve does so at the first of its keys that does, or at its value. -/
theorem TypeSyntax.Expr.exists_error_of_foldr_mapping {keys : List Text} {value : Text}
    (fails : (keys.foldr (fun key value => .mapping (ofText key) value) (ofText value)).resolveWith resolve =
      .error cause) :
    ∃ type ∈ untilFailure (fun type => (ofText type).resolveWith resolve) (keys ++ [value]),
      (ofText type).resolveWith resolve = .error cause := by
  induction keys with
  | nil => exact ⟨value, List.mem_cons_self, fails⟩
  | cons key keys ih =>
    rcases bind_eq_error_iff.1 fails with atKey | ⟨_, resolvesKey, behind⟩
    · exact ⟨key, List.mem_cons_self, atKey⟩
    · obtain ⟨type, member, atType⟩ := ih (bind_pure_eq_error_iff.1 behind)
      exact ⟨type, mem_untilFailure_cons resolvesKey member, atType⟩

/-- The members of a struct fail to resolve at the first of their types that does. -/
theorem Registry.exists_error_of_resolveMembers {members : List Member}
    (fails : resolveMembers resolve members = .error cause) :
    ∃ type ∈ untilFailure (fun type => (Expr.ofText type).resolveWith resolve) (members.map Member.type),
      (Expr.ofText type).resolveWith resolve = .error cause := by
  induction members with
  | nil => cases fails
  | cons m more ih =>
    rcases bind_eq_error_iff.1 fails with atFirst | ⟨_, resolvesFirst, behind⟩
    · exact ⟨m.type, List.mem_cons_self, atFirst⟩
    · obtain ⟨type, member, atType⟩ := ih (bind_pure_eq_error_iff.1 behind)
      exact ⟨type, mem_untilFailure_cons resolvesFirst member, atType⟩

end Failures

namespace Registry

/-! ## Questions -/

/-- The meaning of a type spelling, when the names in `visiting` are being expanded. -/
def describeWithin (r : Registry) (visiting : List Text) (type : Text) : Except ResolutionError Descriptor :=
  (Expr.ofText type).resolveWith (r.resolveName visiting)

/-- A question for the meaning of a type. -/
structure Query where
  /-- The names that are being expanded. -/
  visiting : List Text
  type : Text
deriving DecidableEq, Repr

namespace Query

variable (r : Registry)

def answer (q : Query) : Except ResolutionError Descriptor :=
  r.describeWithin q.visiting q.type

/-- The questions for the meanings of several types, up to the first without an answer. -/
def inOrder (visiting : List Text) (types : List Text) : List Query :=
  (untilFailure (r.describeWithin visiting) types).map (Query.mk visiting)

/-- The questions that the answer to a question takes. -/
def asks (q : Query) : List Query :=
  let text := normalized q.type
  if text = [] then []
  else if (Dimension.splitTrailing text).2 ≠ [] then
    -- the sizes are read before the element
    if ((Dimension.splitTrailing text).2.mapM arrayLength).toBool then
      [⟨q.visiting, (Dimension.splitTrailing text).1⟩]
    else []
  else if isMapping text = true then
    if Mapping.keys text = [] then []
    else inOrder r q.visiting (Mapping.keys text ++ [Mapping.finalValue text])
  else if q.visiting.contains (unqualified text) then []
  else inOrder r (unqualified text :: q.visiting) (r.typesOf (unqualified text))

/-- One question leads to another. -/
def LeadsTo (q q' : Query) : Prop :=
  q' ∈ q.asks r

/-- A question is not for a mapping that is its own final value. -/
def IsReducible (q : Query) : Prop :=
  (Dimension.splitTrailing (normalized q.type)).2 = [] → isMapping (normalized q.type) = true →
    Mapping.keys (normalized q.type) ≠ [] →
      Mapping.finalValue (normalized q.type) ≠ normalized q.type

instance (q : Query) : Decidable q.IsReducible :=
  inferInstanceAs (Decidable (_ → _ → _ → _))

/-- The names left to expand, and the length of the text. -/
def size (q : Query) : Nat × Nat :=
  ((r.unvisited q.visiting).length, q.type.length)

variable {r} {q q' : Query}

theorem of_mem_inOrder {visiting types : List Text} (member : q ∈ inOrder r visiting types) :
    q.visiting = visiting ∧ q.type ∈ types := by
  obtain ⟨type, isType, rfl⟩ := List.mem_map.1 member
  exact ⟨rfl, mem_of_mem_untilFailure isType⟩

/-- With as many names left, a shorter text makes a smaller question. -/
theorem lex_of_length_lt (same : q'.visiting = q.visiting)
    (shorter : q'.type.length < (normalized q.type).length) :
    Prod.Lex (· < ·) (· < ·) (q'.size r) (q.size r) := by
  unfold size
  rw [same]
  exact .right _ (Nat.lt_of_lt_of_le shorter (length_normalized_le q.type))

/-- A question is smaller than one that leads to it. -/
theorem lex_of_leadsTo (reducible : q.IsReducible) (leads : q.LeadsTo r q') :
    Prod.Lex (· < ·) (· < ·) (q'.size r) (q.size r) := by
  unfold LeadsTo asks at leads
  simp only at leads
  split at leads
  · cases leads
  split at leads
  · rename_i sized
    split at leads
    · obtain rfl := List.mem_singleton.1 leads
      exact lex_of_length_lt rfl (Dimension.length_splitTrailing_lt sized)
    · cases leads
  rename_i unsized
  split at leads
  · rename_i isMapping_
    split at leads
    · cases leads
    · rename_i keyed
      obtain ⟨same, member⟩ := of_mem_inOrder leads
      refine lex_of_length_lt same ?_
      rcases List.mem_append.1 member with isKey | isValue
      · exact Mapping.length_lt_of_mem_keys isKey
      · rw [List.mem_singleton.1 isValue]
        exact (Mapping.finalValue_eq_or_lt _).resolve_left
          (reducible (not_not.1 unsized) isMapping_ keyed)
  · split at leads
    · cases leads
    · rename_i fresh
      obtain ⟨visits, isType⟩ := of_mem_inOrder leads
      unfold size
      rw [visits]
      rw [List.contains_iff_mem] at fresh
      -- a definition is entered once on the way, so fewer names are left; only here the type may grow
      exact .left _ _ (length_unvisited_lt (mem_referringNames_of_mem_typesOf isType) fresh)

/-- Where no irreducible mapping is reached, questions come to an end. -/
theorem acc_of_reducible (reducible : ∀ q', ReflTransGen (LeadsTo r) q q' → q'.IsReducible) :
    Acc (fun q' q => LeadsTo r q q') q := by
  have ends := InvImage.wf (size r) (Prod.lex ⟨_, wellFounded_lt⟩ ⟨_, wellFounded_lt⟩).wf
  induction q using ends.induction with
  | _ q ih =>
    refine Acc.intro q fun q' leads => ih q' (lex_of_leadsTo (reducible q .refl) leads) fun q'' reaches => ?_
    exact reducible q'' (.head leads reaches)

/-! ## Answers that fail -/

/-- A name fails to resolve at the first of the types in its definition that does. -/
theorem exists_error_of_resolveName {visiting : List Text} {text : Text} {cause : ResolutionError}
    (fails : r.resolveName visiting text = .error cause) :
    unqualified text ∉ visiting ∧ ∃ q ∈ inOrder r (unqualified text :: visiting) (r.typesOf (unqualified text)),
      q.answer r = .error cause := by
  revert fails
  fun_cases resolveName r visiting text with
  | case3 members isDefined fresh =>
    intro fails
    have atMembers := bind_pure_eq_error_iff.1 fails
    obtain ⟨type, member, atType⟩ := exists_error_of_resolveMembers atMembers
    rw [typesOf_eq isDefined]
    exact ⟨fresh, _, List.mem_map_of_mem member, atType⟩
  | case5 underlying isDefined fresh =>
    intro fails
    have atType := bind_pure_eq_error_iff.1 fails
    have isFirst : underlying ∈ untilFailure (r.describeWithin (unqualified text :: visiting)) [underlying] :=
      List.mem_cons_self
    rw [typesOf_eq isDefined]
    exact ⟨fresh, _, List.mem_map_of_mem isFirst, atType⟩
  | _ =>
    intro fails
    cases fails

/-- An answer fails because of the size of an array, or because one that it takes does. -/
theorem cases_of_answer_error (reducible : q.IsReducible) {cause : ResolutionError}
    (fails : q.answer r = .error cause) :
    (∃ size, arrayLength size = .error cause) ∨ ∃ q', q.LeadsTo r q' ∧ q'.answer r = .error cause := by
  unfold answer describeWithin at fails
  unfold LeadsTo asks
  -- the cases of `asks`, in which the answers it takes are the types that are read
  by_cases blank : normalized q.type = []
  · rw [Expr.ofText_blank blank] at fails
    cases fails
  simp only [blank, if_false]
  by_cases sized : (Dimension.splitTrailing (normalized q.type)).2 ≠ []
  · rw [Expr.ofText_array sized] at fails
    rcases bind_eq_error_iff.1 fails with atSizes | ⟨lengths, reads, behind⟩
    · obtain ⟨_, size, _, _, _, atSize⟩ := mapM_eq_error_iff.1 atSizes
      exact .inl ⟨size, atSize⟩
    · have atElement := bind_pure_eq_error_iff.1 behind
      rw [if_pos sized, if_pos (toBool_iff.2 ⟨lengths, reads⟩)]
      exact .inr ⟨_, List.mem_singleton_self _, atElement⟩
  rw [if_neg sized]
  have unsized := not_not.1 sized
  cases isMapping_ : isMapping (normalized q.type) with
  | true =>
    by_cases keyless : Mapping.keys (normalized q.type) = []
    · rw [Expr.ofText_keyless unsized isMapping_ keyless] at fails
      cases fails
    have shorter := (Mapping.finalValue_eq_or_lt _).resolve_left (reducible unsized isMapping_ keyless)
    rw [Expr.ofText_mapping unsized isMapping_ keyless, if_pos shorter] at fails
    obtain ⟨type, member, atType⟩ := Expr.exists_error_of_foldr_mapping fails
    rw [if_pos rfl, if_neg keyless]
    exact .inr ⟨_, List.mem_map_of_mem member, atType⟩
  | false =>
    rw [Expr.ofText_name unsized blank isMapping_] at fails
    obtain ⟨fresh, q', asked, atType⟩ := exists_error_of_resolveName fails
    rw [if_neg Bool.false_ne_true, if_neg (mt List.contains_iff_mem.1 fresh)]
    exact .inr ⟨q', asked, atType⟩

/-- Where no irreducible mapping is reached, no answer fails for want of a mapping's value. -/
theorem answer_ne_endlessMapping (reducible : ∀ q', ReflTransGen (LeadsTo r) q q' → q'.IsReducible)
    (text : Text) : q.answer r ≠ .error (.endlessMapping text) := by
  induction acc_of_reducible reducible with
  | intro q _ ih =>
    intro fails
    rcases cases_of_answer_error (reducible q .refl) fails with ⟨size, atSize⟩ | ⟨q', leads, fails'⟩
    · exact arrayLength_ne_endlessMapping size text atSize
    · exact ih q' leads (fun q'' reaches => reducible q'' (.head leads reaches)) fails'

/-- An irreducible mapping asks for itself once its keys have their meanings, and so on without end. -/
theorem not_acc_of_irreducible (plain : normalized q.type = q.type)
    (unsized : (Dimension.splitTrailing q.type).2 = []) (isMapping_ : isMapping q.type = true)
    (keyed : Mapping.keys q.type ≠ []) (irreducible : Mapping.finalValue q.type = q.type)
    (keysResolve : ∀ key ∈ Mapping.keys q.type, ∃ d, r.describeWithin q.visiting key = .ok d) :
    ¬Acc (fun q' q => LeadsTo r q q') q := by
  have leads : q.LeadsTo r q := by
    have nonempty := List.length_pos_iff.1 (Mapping.length_pos_of_isMapping isMapping_)
    unfold LeadsTo asks
    simp only [plain, nonempty, if_false, unsized, ne_eq, not_true_eq_false, isMapping_, if_true, keyed,
      irreducible]
    refine List.mem_map.2 ⟨q.type, ?_, rfl⟩
    generalize Mapping.keys q.type = keys at keysResolve ⊢
    induction keys with
    | nil => exact List.mem_cons_self
    | cons key keys ih =>
      obtain ⟨⟨_, resolves⟩, others⟩ := List.forall_mem_cons.1 keysResolve
      exact mem_untilFailure_cons resolves (ih others)
  intro ends
  induction ends with
  | intro q _ ih => exact ih q leads plain unsized isMapping_ keyed irreducible keysResolve leads

/-- Whether no irreducible mapping is found, when questions are followed to some depth only. -/
def staysReducible (r : Registry) : Nat → Query → Bool
  | 0, _ => false
  | depth + 1, q => q.IsReducible && (q.asks r).all (staysReducible r depth)

theorem isReducible_of_staysReducible (depth : Nat) (found : staysReducible r depth q = true)
    (reaches : ReflTransGen (LeadsTo r) q q') : q'.IsReducible := by
  induction depth generalizing q with
  | zero => cases found
  | succ depth ih =>
    simp only [staysReducible, Bool.and_eq_true, decide_eq_true_eq, List.all_eq_true] at found
    obtain ⟨here, behind⟩ := found
    rcases ReflTransGen.cases_head reaches with rfl | ⟨next, leads, rest⟩
    · exact here
    · exact ih (behind next leads) rest

end Query

end Registry

/-! ## Structs on a path -/

namespace Descriptor

mutual

/-- The names of the structs on each path from a type to one of its ends, the outermost first. -/
def structPaths : Descriptor → List (List Text)
  | .array element _ => element.structPaths
  | .mapping key value => key.structPaths ++ value.structPaths
  -- a struct without members is an end itself
  | .tuple name members => if members.isEmpty then [[name]] else (structPathsAmong members).map (name :: ·)
  | .primitive _ => [[]]
  | .unresolved _ => [[]]
  | .unspecified => [[]]

/-- The names of the structs on each path from a member to one of its ends. -/
def structPathsAmong : List (Text × Descriptor) → List (List Text)
  | [] => []
  | (_, type) :: more => structPaths type ++ structPathsAmong more

end

mutual

/-- How many structs stand inside each other in a type. -/
def structDepth : Descriptor → Nat
  | .array element _ => element.structDepth
  | .mapping key value => max key.structDepth value.structDepth
  | .tuple _ members => structDepthAmong members + 1
  | .primitive _ => 0
  | .unresolved _ => 0
  | .unspecified => 0

/-- How many structs stand inside each other in a member. -/
def structDepthAmong : List (Text × Descriptor) → Nat
  | [] => 0
  | (_, type) :: more => max (structDepth type) (structDepthAmong more)

end

mutual

/-- Some path goes through as many structs as stand inside each other. -/
theorem exists_structPath : ∀ d : Descriptor, ∃ path ∈ d.structPaths, path.length = d.structDepth
  | .array element _ => exists_structPath element
  | .mapping key value => by
    obtain ⟨keyPath, inKey, ofKey⟩ := exists_structPath key
    obtain ⟨valuePath, inValue, ofValue⟩ := exists_structPath value
    rw [structPaths, structDepth]
    rcases Nat.le_total value.structDepth key.structDepth with deeper | deeper
    · exact ⟨keyPath, List.mem_append_left _ inKey, by rw [ofKey, Nat.max_eq_left deeper]⟩
    · exact ⟨valuePath, List.mem_append_right _ inValue, by rw [ofValue, Nat.max_eq_right deeper]⟩
  | .tuple name [] => ⟨[name], List.mem_singleton_self _, rfl⟩
  | .tuple name (m :: more) => by
    obtain ⟨path, inMembers, same⟩ := exists_structPathAmong (m :: more) (List.cons_ne_nil m more)
    exact ⟨name :: path, List.mem_map_of_mem inMembers, congrArg (· + 1) same⟩
  | .primitive _ => ⟨[], List.mem_singleton_self _, rfl⟩
  | .unresolved _ => ⟨[], List.mem_singleton_self _, rfl⟩
  | .unspecified => ⟨[], List.mem_singleton_self _, rfl⟩

theorem exists_structPathAmong : ∀ members : List (Text × Descriptor), members ≠ [] →
    ∃ path ∈ structPathsAmong members, path.length = structDepthAmong members
  | [], nonempty => absurd rfl nonempty
  | (_, type) :: more, _ => by
    obtain ⟨path, inType, ofType⟩ := exists_structPath type
    rw [structPathsAmong, structDepthAmong]
    rcases Nat.le_total (structDepthAmong more) type.structDepth with deeper | deeper
    · exact ⟨path, List.mem_append_left _ inType, by rw [ofType, Nat.max_eq_left deeper]⟩
    · by_cases last : more = []
      · subst last
        exact ⟨path, List.mem_append_left _ inType, by rw [ofType]; exact (Nat.max_zero _).symm⟩
      · obtain ⟨morePath, inMore, ofMore⟩ := exists_structPathAmong more last
        exact ⟨morePath, List.mem_append_right _ inMore, by rw [ofMore, Nat.max_eq_right deeper]⟩

end

theorem structPaths_foldl_array (d : Descriptor) (lengths : List (Option Nat)) :
    (lengths.foldl .array d).structPaths = d.structPaths := by
  induction lengths generalizing d with
  | nil => rfl
  | cons length lengths ih => exact ih _

end Descriptor

section StructPaths

variable {P : List Text → Prop} {resolve : Text → Except ResolutionError Descriptor}
  (nil : P []) (names : ∀ x d, resolve x = .ok d → ∀ path ∈ d.structPaths, P path)

include nil names

/-- Arrays and mappings bring no structs along, so the paths of an expression are those of its names. -/
theorem TypeSyntax.Expr.forall_structPaths {e : Expr} {d : Descriptor} (resolves : e.resolveWith resolve = .ok d) :
    ∀ path ∈ d.structPaths, P path := by
  induction e generalizing d with
  | name text => exact names text d resolves
  | array element sizes ih =>
    obtain ⟨lengths, type, _, resolvesElement, rfl⟩ := resolveWith_array_eq_ok_iff.1 resolves
    rw [Descriptor.structPaths_foldl_array]
    exact ih resolvesElement
  | mapping key value ihKey ihValue =>
    obtain ⟨keyType, valueType, resolvesKey, resolvesValue, rfl⟩ := resolveWith_mapping_eq_ok_iff.1 resolves
    rw [Descriptor.structPaths, List.forall_mem_append]
    exact ⟨ihKey resolvesKey, ihValue resolvesValue⟩
  | unknown text =>
    cases resolves
    exact List.forall_mem_singleton.2 nil
  | endless text => cases resolves

theorem Registry.forall_structPathsAmong {members : List Member} {ms : List (Text × Descriptor)}
    (resolves : resolveMembers resolve members = .ok ms) : ∀ path ∈ Descriptor.structPathsAmong ms, P path := by
  induction members generalizing ms with
  | nil =>
    cases resolves
    exact List.forall_mem_nil _
  | cons m more ih =>
    obtain ⟨d, others, first, resolvesOthers, rfl⟩ := Expr.resolveMembers_cons_eq_ok_iff.1 resolves
    rw [Descriptor.structPathsAmong, List.forall_mem_append]
    exact ⟨Expr.forall_structPaths nil names first, ih resolvesOthers⟩

end StructPaths

namespace Registry

variable {r : Registry}

/-- The structs on a path are different ones, known to the registry, and none is in `visiting`. -/
structure IsFreshPath (r : Registry) (visiting path : List Text) : Prop where
  nodup : path.Nodup
  known : ∀ name ∈ path, name ∈ r.structs.names
  fresh : ∀ name ∈ path, name ∉ visiting

theorem isFreshPath_nil (visiting : List Text) : r.IsFreshPath visiting [] :=
  ⟨List.nodup_nil, List.forall_mem_nil _, List.forall_mem_nil _⟩

theorem IsFreshPath.of_cons {visiting path : List Text} {name : Text}
    (isFresh : r.IsFreshPath (name :: visiting) path) : r.IsFreshPath visiting path :=
  ⟨isFresh.nodup, isFresh.known, fun other member isVisited =>
    isFresh.fresh other member (List.mem_cons_of_mem name isVisited)⟩

/-- A path that avoids a struct can be entered from it. -/
theorem IsFreshPath.cons {visiting path : List Text} {name : Text}
    (isFresh : r.IsFreshPath (name :: visiting) path) (isStruct : name ∈ r.structs.names)
    (unvisited : name ∉ visiting) : r.IsFreshPath visiting (name :: path) where
  nodup := List.nodup_cons.2 ⟨fun again => isFresh.fresh name again List.mem_cons_self, isFresh.nodup⟩
  known := List.forall_mem_cons.2 ⟨isStruct, isFresh.known⟩
  fresh := List.forall_mem_cons.2 ⟨unvisited, isFresh.of_cons.fresh⟩

/-- While the names in `visiting` are being expanded, the paths of a name avoid them. -/
theorem isFreshPath_of_resolveName (r : Registry) (visiting : List Text) (x : Text) :
    ∀ d, r.resolveName visiting x = .ok d → ∀ path ∈ d.structPaths, r.IsFreshPath visiting path := by
  have simple (visiting : List Text) (d : Descriptor) (noStructs : d.structPaths = [[]]) :
      ∀ path ∈ d.structPaths, r.IsFreshPath visiting path := by
    rw [noStructs]
    exact List.forall_mem_singleton.2 (isFreshPath_nil visiting)
  -- paths grow at structs only; behind an alias they avoid its name as well, which is not asked for
  fun_induction resolveName r visiting x with
  | case3 visiting text members isDefined fresh ih =>
    intro d resolves
    obtain ⟨ms, resolvesMembers, whole⟩ := bind_eq_ok_iff.1 resolves
    cases pure_eq_ok_iff.1 whole
    have enters {path : List Text} (isFresh : r.IsFreshPath (unqualified text :: visiting) path) :=
      isFresh.cons (Table.mem_names_of_get? (get?_structs isDefined)) fresh
    rw [Descriptor.structPaths]
    split
    · exact List.forall_mem_singleton.2 (enters (isFreshPath_nil _))
    · rw [List.forall_mem_map]
      exact fun path member =>
        enters (forall_structPathsAmong (isFreshPath_nil _) ih resolvesMembers path member)
  | case5 visiting text underlying isDefined fresh ih =>
    intro d resolves path member
    obtain ⟨type, resolvesType, whole⟩ := bind_eq_ok_iff.1 resolves
    cases pure_eq_ok_iff.1 whole
    split at member
    · exact simple _ _ rfl path member
    · exact (Expr.forall_structPaths (isFreshPath_nil _) ih resolvesType path member).of_cons
  | case7 visiting text isUndefined =>
    rintro _ ⟨⟩
    cases isCustom text <;> exact simple _ _ rfl
  | _ =>
    rintro _ ⟨⟩
    exact simple _ _ rfl

theorem isFreshPath_of_describe {type : Text} {d : Descriptor} (describes : r.describe type = .ok d) :
    ∀ path ∈ d.structPaths, r.IsFreshPath [] path :=
  Expr.forall_structPaths (isFreshPath_nil []) (r.isFreshPath_of_resolveName []) describes

/-- No more structs stand inside each other than there are. -/
theorem structDepth_le {type : Text} {d : Descriptor} (describes : r.describe type = .ok d) :
    d.structDepth ≤ r.structs.names.length := by
  obtain ⟨path, isPath, deepest⟩ := d.exists_structPath
  have isFresh := isFreshPath_of_describe describes path isPath
  rw [← deepest]
  exact (List.subperm_of_subset isFresh.nodup isFresh.known).length_le

/-- Where no irreducible mapping is reached, resolution ends, whatever the cycles among structs and aliases:
its questions come to an end, and it fails over the size of an array only.  No path of the result goes through
a struct twice, so no more structs stand inside each other than there are. -/
theorem describe_ends_without_repetition (r : Registry) (type : Text)
    (reducible : ∀ q, ReflTransGen (Query.LeadsTo r) ⟨[], type⟩ q → q.IsReducible) :
    Acc (fun q' q => Query.LeadsTo r q q') ⟨[], type⟩ ∧
      (∀ text, r.describe type ≠ .error (.endlessMapping text)) ∧
      ∀ d, r.describe type = .ok d →
        (∀ path ∈ d.structPaths, path.Nodup) ∧ d.structDepth ≤ r.structs.names.length :=
  ⟨Query.acc_of_reducible reducible, Query.answer_ne_endlessMapping reducible, fun _ describes =>
    ⟨fun path isPath => (isFreshPath_of_describe describes path isPath).nodup, structDepth_le describes⟩⟩

/-- Structs that refer to each other through an array, a mapping and an alias of an alias of itself. -/
def entangled : Registry :=
  ofSource ("struct A \x7b B b; mapping(address => A[2]) m; X x; \x7d " ++
    "struct B \x7b A[] a; \x7d type X is Y; type Y is X;").toList

theorem describe_ends_without_repetition_entangled :
    (∀ q, ReflTransGen (Query.LeadsTo entangled) ⟨[], "mapping(A => B[])[]".toList⟩ q → q.IsReducible) ∧
      Acc (fun q' q => Query.LeadsTo entangled q q') ⟨[], "mapping(A => B[])[]".toList⟩ ∧
      (∀ text, entangled.describe "mapping(A => B[])[]".toList ≠ .error (.endlessMapping text)) ∧
      ∀ d, entangled.describe "mapping(A => B[])[]".toList = .ok d →
        (∀ path ∈ d.structPaths, path.Nodup) ∧ d.structDepth ≤ entangled.structs.names.length :=
  have reducible : ∀ q, ReflTransGen (Query.LeadsTo entangled) ⟨[], "mapping(A => B[])[]".toList⟩ q →
      q.IsReducible :=
    fun _ => Query.isReducible_of_staysReducible 10 (by decide +kernel)
  ⟨reducible, describe_ends_without_repetition entangled _ reducible⟩

example : (entangled.describe "mapping(A => B[])[]".toList).toOption.map Descriptor.structDepth = some 2 := by
  decide +kernel

end Registry

end ContractInterface
