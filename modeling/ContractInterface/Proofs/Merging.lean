import ContractInterface.Proofs.Meaning
import ContractInterface.Registry.Substitution

/-! # Merged registries

Each table of a merged registry keeps its own definitions, but a name may stand in tables of different
kinds.  What it means after a merge is decided by the ranks of the two definitions: the one that is
looked up first wins, and the receiving registry wins only ties (`definition?_merge`).

So a type keeps its meaning exactly if every name that is taken over on the way through its definitions
is given the meaning that it had (`describe_merge_iff_keeps`).
-/

namespace ContractInterface.Registry

open Text TypeSyntax Relation

/-! ## Merged tables -/

namespace Table

variable {α : Type}

theorem mem_names_iff {t : Table α} {name : Text} : name ∈ t.names ↔ (t.get? name).isSome = true := by
  rw [← not_iff_not, ← get?_eq_none_iff]
  cases t.get? name <;> simp

theorem get?_insert (t : Table α) (name : Text) (a : α) (n : Text) :
    (t.insert name a).get? n = (t.get? n).or (if n = name then some a else none) := by
  unfold get?
  rw [entries_insert]
  split
  · rename_i known
    by_cases same : n = name
    · obtain ⟨b, found⟩ := Option.isSome_iff_exists.1 (mem_names_iff.1 known)
      subst same
      rw [show t.entries.lookup n = some b from found]
      rfl
    · simp [same]
  · rw [List.lookup_append]
    by_cases same : n = name
    · subst same
      rw [List.lookup_cons_self, if_pos rfl]
    · have apart : (n == name) = false := beq_false_of_ne same
      rw [List.lookup_cons, apart, if_neg same]
      rfl

theorem get?_insertAll (t : Table α) (definitions : List (Text × α)) (n : Text) :
    (t.insertAll definitions).get? n = (t.get? n).or (definitions.lookup n) := by
  induction definitions generalizing t with
  | nil => simp [insertAll]
  | cons d definitions ih =>
    have step : t.insertAll (d :: definitions) = (t.insert d.1 d.2).insertAll definitions := rfl
    rw [step, ih, get?_insert, Option.or_assoc]
    by_cases same : n = d.1
    · rw [if_pos same, same, List.lookup_cons_self, Option.some_or]
    · have apart : (n == d.1) = false := beq_false_of_ne same
      rw [if_neg same, Option.none_or, List.lookup_cons, apart]

theorem get?_merge (t other : Table α) (n : Text) :
    (t.merge other).get? n = (t.get? n).or (other.get? n) :=
  get?_insertAll t other.entries n

end Table

/-! ## Merged definitions -/

/-- How early a kind of definition is looked up. -/
def Definition.rank : Definition → Nat
  | .enumeration => 4
  | .struct _ => 3
  | .alias _ => 2
  | .contract => 1

/-- The rank of what a name means; without a definition it is the least. -/
def rankOf (definition : Option Definition) : Nat :=
  definition.elim 0 Definition.rank

/-- The definition that is looked up first, of two that are looked up at once the left one. -/
def leading (left right : Option Definition) : Option Definition :=
  if rankOf left < rankOf right then right else left

/-- What a name means as a definition of one rank. -/
def definedAs? (r : Registry) (name : Text) : Nat → Option Definition
  | 4 => (r.enums.get? name).map fun _ => .enumeration
  | 3 => (r.structs.get? name).map .struct
  | 2 => (r.aliases.get? name).map .alias
  | 1 => ((r.contracts.get? name).or (r.interfaces.get? name)).map fun _ => .contract
  | _ => none

/-- What a name means as a definition of a rank or of a lower one. -/
def definedUpTo? (r : Registry) (name : Text) : Nat → Option Definition
  | 0 => none
  | rank + 1 => (r.definedAs? name (rank + 1)).or (r.definedUpTo? name rank)

theorem definedUpTo?_four (r : Registry) (name : Text) :
    r.definedUpTo? name 4 = r.definition? name := by
  unfold definition?
  simp only [List.contains_iff_mem, Bool.or_eq_true, Table.mem_names_iff, definedUpTo?, definedAs?]
  cases r.enums.get? name <;> cases r.structs.get? name <;> cases r.aliases.get? name <;>
    cases r.contracts.get? name <;> cases r.interfaces.get? name <;> rfl

theorem rank_of_definedAs? {r : Registry} {name : Text} {rank : Nat} {d : Definition}
    (isDefined : r.definedAs? name rank = some d) : d.rank = rank := by
  unfold definedAs? at isDefined
  split at isDefined
  · obtain ⟨_, _, rfl⟩ := Option.map_eq_some_iff.1 isDefined
    rfl
  · obtain ⟨_, _, rfl⟩ := Option.map_eq_some_iff.1 isDefined
    rfl
  · obtain ⟨_, _, rfl⟩ := Option.map_eq_some_iff.1 isDefined
    rfl
  · obtain ⟨_, _, rfl⟩ := Option.map_eq_some_iff.1 isDefined
    rfl
  · cases isDefined

theorem rankOf_definedUpTo?_le (r : Registry) (name : Text) (rank : Nat) :
    rankOf (r.definedUpTo? name rank) ≤ rank := by
  induction rank with
  | zero => exact Nat.le_refl 0
  | succ rank ih =>
    rw [definedUpTo?]
    cases isDefined : r.definedAs? name (rank + 1) with
    | none => exact Nat.le_succ_of_le ih
    | some d => exact Nat.le_of_eq (rank_of_definedAs? isDefined)

theorem definedAs?_merge (r other : Registry) (name : Text) (rank : Nat) :
    (r.merge other).definedAs? name rank = (r.definedAs? name rank).or (other.definedAs? name rank) := by
  have table {α : Type} (t t' : Table α) (f : α → Definition) :
      ((t.merge t').get? name).map f = ((t.get? name).map f).or ((t'.get? name).map f) := by
    rw [Table.get?_merge, Option.map_or]
  unfold definedAs?
  split
  · exact table r.enums other.enums _
  · exact table r.structs other.structs _
  · exact table r.aliases other.aliases _
  · rw [Option.map_or, Option.map_or, Option.map_or]
    simp only [merge, table]
    cases r.contracts.get? name <;> cases r.interfaces.get? name <;>
      cases other.contracts.get? name <;> rfl
  · rfl

/-- Kind by kind, down from any rank, the definition that is looked up first is the merged one. -/
theorem definedUpTo?_merge (r other : Registry) (name : Text) (rank : Nat) :
    (r.merge other).definedUpTo? name rank =
      leading (r.definedUpTo? name rank) (other.definedUpTo? name rank) := by
  induction rank with
  | zero => rfl
  | succ rank ih =>
    have low := rankOf_definedUpTo?_le r name rank
    have low' := rankOf_definedUpTo?_le other name rank
    rw [definedUpTo?, definedUpTo?, definedUpTo?, definedAs?_merge, ih]
    cases own : r.definedAs? name (rank + 1) with
    | some d =>
      -- the receiving registry has the highest rank that is left
      have high : rankOf (some d) = rank + 1 := rank_of_definedAs? own
      have highest := rankOf_definedUpTo?_le other name (rank + 1)
      rw [definedUpTo?] at highest
      exact (if_neg (by rw [Option.some_or, high]; omega)).symm
    | none =>
      cases others : other.definedAs? name (rank + 1) with
      | some d' =>
        have high : rankOf (some d') = rank + 1 := rank_of_definedAs? others
        exact (if_pos (by rw [Option.none_or, Option.some_or, high]; omega)).symm
      | none => rfl

/-- After a merge a name means what the definition that is looked up first says. -/
theorem definition?_merge (r other : Registry) (name : Text) :
    (r.merge other).definition? name = leading (r.definition? name) (other.definition? name) := by
  rw [← definedUpTo?_four, ← definedUpTo?_four, ← definedUpTo?_four, definedUpTo?_merge]

/-! ## What a merge keeps -/

/-- Another registry has a definition of a name that is looked up before the own one, or has the only
one. -/
def IsOutranked (r other : Registry) (name : Text) : Prop :=
  rankOf (r.definition? name) < rankOf (other.definition? name)

instance (r other : Registry) (name : Text) : Decidable (r.IsOutranked other name) :=
  inferInstanceAs (Decidable (_ < _))

/-- A name passes its meaning on to a name in its definition, if it keeps the definition when another
registry is merged in. -/
def Passes (r other : Registry) (x y : Text) : Prop :=
  ¬ r.IsOutranked other (unqualified x) ∧ ∃ type ∈ r.typesOf (unqualified x), Mentions type y

/-- A type meets a name, spelled as it is where it is met: in the type, or in the definition of a name
that is met and keeps its definition when another registry is merged in. -/
def Meets (r other : Registry) (type y : Text) : Prop :=
  ∃ x, Mentions type x ∧ ReflTransGen (r.Passes other) x y

/-- What a name means is just what the definition of another registry gives it.  A struct of another
registry never does that. -/
def KeepsMeaning (r other : Registry) (x : Text) : Prop :=
  match other.definition? (unqualified x) with
  | some .enumeration => r.meaning x = .ok (.primitive "uint8".toList)
  | some (.struct _) => False
  | some (.alias underlying) => (r.merge other).describe underlying = r.meaning x
  | some .contract => r.meaning x = .ok (.primitive "address".toList)
  | none => True

/-- Every name that a type meets and that another registry takes over keeps its meaning. -/
def Keeps (r other : Registry) (type : Text) : Prop :=
  ∀ x, r.Meets other type x → r.IsOutranked other (unqualified x) → r.KeepsMeaning other x

variable {r other : Registry}

theorem definition?_merge_of_outranked {name : Text} (outranked : r.IsOutranked other name) :
    (r.merge other).definition? name = other.definition? name := by
  rw [definition?_merge]
  exact if_pos outranked

theorem definition?_merge_of_not_outranked {name : Text} (kept : ¬ r.IsOutranked other name) :
    (r.merge other).definition? name = r.definition? name := by
  rw [definition?_merge]
  exact if_neg kept

/-- A name that is taken over keeps its meaning exactly if it is given the same one. -/
theorem means_merge_iff_of_outranked {x : Text} {d : Descriptor} (means : r.Means x d)
    (outranked : r.IsOutranked other (unqualified x)) :
    (r.merge other).Means x d ↔ r.KeepsMeaning other x := by
  rw [means_iff, definition?_merge_of_outranked outranked]
  unfold KeepsMeaning
  cases isDefined : other.definition? (unqualified x) with
  | none =>
    unfold IsOutranked at outranked
    rw [isDefined] at outranked
    exact absurd outranked (Nat.not_lt_zero _)
  | some definition =>
    cases definition with
    | enumeration => simp [Gives, means.1]
    | struct members =>
      refine iff_of_false ?_ id
      rintro ⟨ms, _, _, rfl⟩
      -- a tuple is what a struct means, and no struct outranks another one
      obtain ⟨members', isStruct⟩ := exists_members_of_means means
      unfold IsOutranked at outranked
      rw [isDefined, isStruct] at outranked
      exact absurd outranked (Nat.lt_irrefl 3)
    | «alias» underlying => simp [Gives, means.1, means.2]
    | contract => simp [Gives, means.1]

/-- A name keeps its meaning exactly if every name does that is met from it and taken over. -/
theorem means_merge_iff {x : Text} {d : Descriptor} (means : r.Means x d) :
    (r.merge other).Means x d ↔ ∀ z, ReflTransGen (r.Passes other) x z →
      r.IsOutranked other (unqualified z) → r.KeepsMeaning other z := by
  refine r.induction_of_expands (P := fun x => ∀ d, r.Means x d → ((r.merge other).Means x d ↔
    ∀ z, ReflTransGen (r.Passes other) x z → r.IsOutranked other (unqualified z) →
      r.KeepsMeaning other z)) ?_ [] x (expands_of_means means) d means
  intro x below d means
  by_cases outranked : r.IsOutranked other (unqualified x)
  · rw [means_merge_iff_of_outranked means outranked]
    -- no way passes a name that is taken over
    refine ⟨fun keeps z reaches _ => ?_, fun all => all x .refl outranked⟩
    rcases ReflTransGen.cases_head reaches with rfl | ⟨_, passes, _⟩
    · exact keeps
    · exact absurd outranked passes.1
  -- the definition stays, so only the names in it matter
  · rw [means_iff, definition?_merge_of_not_outranked outranked,
      gives_iff_of_gives (gives_of_means means)]
    constructor
    · intro agree z reaches outranked'
      rcases ReflTransGen.cases_head reaches with rfl | ⟨y, ⟨_, type, isType, mentions⟩, rest⟩
      · exact absurd outranked' outranked
      · obtain ⟨d', means'⟩ := exists_means_of_means means isType mentions
        have same := agree type isType y mentions
        exact (below type isType y mentions d' means').1 ⟨same.trans means'.1, means'.2⟩ z rest
          outranked'
    · intro all type isType y mentions
      obtain ⟨d', means'⟩ := exists_means_of_means means isType mentions
      have kept := (below type isType y mentions d' means').2 fun z rest =>
        all z (.head ⟨outranked, type, isType, mentions⟩ rest)
      exact kept.1.trans means'.1.symm

/-- A type that can be resolved has the same descriptor after a merge exactly if every name keeps its
meaning that the type meets and that the other registry takes over. -/
theorem describe_merge_iff_keeps {type : Text} (resolvable : r.canResolve type = .ok true)
    (other : Registry) :
    (r.merge other).describe type = r.describe type ↔ r.Keeps other type := by
  obtain ⟨d, describes, resolved⟩ := canResolve_eq_ok_iff.1 resolvable
  -- the descriptor is the same exactly if the names in the type mean the same
  have agrees : (r.merge other).describe type = r.describe type ↔
      ∀ x, Mentions type x → (r.merge other).meaning x = r.meaning x := by
    refine ⟨fun same => ?_, Expr.resolveWith_congr⟩
    exact Expr.eq_of_resolveWith_eq (same.trans describes) describes
  rw [agrees]
  constructor
  · rintro same z ⟨x, mentions, reaches⟩ outranked
    obtain ⟨d', means⟩ := means_of_mentions describes resolved mentions
    exact (means_merge_iff means).1 ⟨(same x mentions).trans means.1, means.2⟩ z reaches outranked
  · intro keeps x mentions
    obtain ⟨d', means⟩ := means_of_mentions describes resolved mentions
    have kept := (means_merge_iff means).2 fun z reaches => keeps z ⟨x, mentions, reaches⟩
    exact kept.1.trans means.1.symm

theorem leads_of_meets {type y : Text} (meets : r.Meets other type y) :
    r.Leads type (unqualified y) := by
  obtain ⟨x, mentions, reaches⟩ := meets
  refine ⟨x, mentions, ?_⟩
  induction reaches with
  | refl => exact .refl
  | tail _ passes ih =>
    obtain ⟨_, _, isType, mentions'⟩ := passes
    exact ih.tail (refers_of_mentions isType mentions')

/-- A type keeps its meaning if of no name that it leads to the other registry has a definition of a
higher rank. -/
theorem keeps_of_not_outranked {type : Text} (kept : ∀ b, r.Leads type b → ¬ r.IsOutranked other b) :
    r.Keeps other type :=
  fun _ meets outranked => absurd outranked (kept _ (leads_of_meets meets))

end ContractInterface.Registry
