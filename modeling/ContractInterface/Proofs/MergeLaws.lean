import ContractInterface.Proofs.ElementaryTypes
import ContractInterface.Proofs.StructMembers
import Mathlib.Data.Char
import Mathlib.Data.List.Lex
import Mathlib.Data.List.Pairwise
import Mathlib.Data.Prod.Lex

/-! # The laws of merging

Merging appends to each table the definitions of names that are new in it (`Table.entries_merge`).  So it is
associative and idempotent, and to discover a source is to merge its registry (`discover_eq_merge`).

What a registry makes of a type depends on what the names mean, and not on the order in which they have been
defined: a name is looked up wherever it is resolved (`resolveName_congr`), and the names are sorted before
they are substituted (`typeNames_congr`).  So sources that have no names in common may be discovered in any
order (`discovery_laws`).
-/

namespace ContractInterface

open Text TypeSyntax

namespace Registry

/-! ## Merged tables -/

namespace Table

variable {α : Type}

theorem entries_merge (t u : Table α) :
    (t.merge u).entries = t.entries ++ u.entries.filter (·.1 ∉ t.names) := by
  rw [merge, entries_insertAll, firstOfEach_of_nodup u.distinct]

theorem mem_names_merge {t u : Table α} {name : Text} :
    name ∈ (t.merge u).names ↔ name ∈ t.names ∨ name ∈ u.names := by
  rw [mem_names_iff, mem_names_iff, mem_names_iff, get?_merge]
  cases t.get? name <;> simp

/-- Adding definitions is merging the table that has nothing else. -/
theorem insertAll_eq_merge (t : Table α) (definitions : List (Text × α)) :
    t.insertAll definitions = t.merge (empty.insertAll definitions) := by
  ext1
  rw [entries_insertAll, entries_merge, entries_insertAll_empty]

theorem merge_assoc (t u v : Table α) : (t.merge u).merge v = t.merge (u.merge v) := by
  ext1
  simp only [entries_merge, List.filter_append, List.filter_filter, List.append_assoc]
  congr 2
  refine List.filter_congr fun e _ => ?_
  simp [mem_names_merge, not_or]

theorem merge_self (t : Table α) : t.merge t = t := by
  ext1
  rw [entries_merge, List.filter_eq_nil_iff.2, List.append_nil]
  intro e member
  have known : e.1 ∈ t.names := List.mem_map_of_mem member
  simpa using known

theorem merge_empty (t : Table α) : t.merge empty = t := by
  ext1
  rw [entries_merge]
  exact List.append_nil _

theorem empty_merge (t : Table α) : empty.merge t = t := by
  ext1
  rw [entries_merge]
  exact List.filter_eq_self.2 fun _ _ => rfl

end Table

/-! ## Merged registries -/

theorem merge_assoc (r s t : Registry) : (r.merge s).merge t = r.merge (s.merge t) := by
  simp only [merge, Table.merge_assoc]

theorem merge_self (r : Registry) : r.merge r = r := by
  simp only [merge, Table.merge_self]

theorem merge_empty (r : Registry) : r.merge empty = r := by
  simp only [merge, empty, Table.merge_empty]

theorem empty_merge (r : Registry) : empty.merge r = r := by
  simp only [merge, empty, Table.empty_merge]

theorem discover_eq_merge (r : Registry) (source : Text) : r.discover source = r.merge (ofSource source) := by
  unfold ofSource discover merge empty
  simp only [← Table.insertAll_eq_merge]

/-! ## Names that mean the same -/

section Lookups

variable {r r' : Registry}

theorem resolveName_congr (same : ∀ name, r.definition? name = r'.definition? name) (visiting : List Text)
    (x : Text) : r.resolveName visiting x = r'.resolveName visiting x := by
  fun_induction resolveName r visiting x with
  | case3 visiting text members isDefined fresh ih =>
    rw [resolveName_eq r', ← same, isDefined]
    simp only [if_neg fresh]
    rw [resolveMembers_congr fun _ _ y _ => ih y]
  | case5 visiting text underlying isDefined fresh ih =>
    rw [resolveName_eq r', ← same, isDefined]
    simp only [if_neg fresh]
    rw [Expr.resolveWith_congr fun y _ => ih y]
  | case2 visiting text _ isDefined isVisited | case4 visiting text _ isDefined isVisited =>
    rw [resolveName_eq r', ← same, isDefined]
    exact (if_pos isVisited).symm
  | _ =>
    rename_i isDefined
    rw [resolveName_eq r', ← same, isDefined]
    rfl

/-- What a type is resolved to depends on what the names mean. -/
theorem describe_congr (same : ∀ name, r.definition? name = r'.definition? name) (type : Text) :
    r.describe type = r'.describe type :=
  Expr.resolveWith_congr fun x _ => resolveName_congr same [] x

end Lookups

/-! ## The order of names -/

theorem inOrder_iff (s t : Text) : inOrder s t = true ↔ s ≤ t := by
  rw [← not_lt]
  change _ ↔ ¬ List.Lex (· < ·) t s
  unfold inOrder
  induction s generalizing t with
  | nil => simp [listsInOrder]
  | cons a s ih =>
    cases t with
    | nil => simp [listsInOrder]
    | cons b t =>
      rw [listsInOrder, List.cons_lex_cons_iff]
      by_cases same : a = b
      · simp [same, ih]
      · have less : a.toNat < b.toNat ↔ a < b := Iff.rfl
        simp only [if_neg same, decide_eq_true_eq, less, Ne.symm same, false_and, or_false, not_lt]
        exact (lt_iff_le_and_ne.trans (and_iff_left same))

/-- Names are sorted by this: longer names are less, and of names of one length the first one by code
points. -/
def orderKey (name : Text) : ℕᵒᵈ ×ₗ Text :=
  toLex (OrderDual.toDual name.length, name)

theorem comesBefore_iff (a b : Text) : comesBefore a b = true ↔ orderKey a ≤ orderKey b := by
  unfold comesBefore orderKey
  rw [Prod.Lex.toLex_le_toLex, OrderDual.toDual_lt_toDual, OrderDual.toDual_inj]
  by_cases same : a.length = b.length
  · simp [same, inOrder_iff]
  · simp [same]

theorem orderKey_injective : Function.Injective orderKey := fun _ _ same =>
  congrArg (fun key => (ofLex key).2) same

theorem nodup_eraseDups : ∀ names : List Text, names.eraseDups.Nodup
  | [] => by simp
  | name :: names => by
    rw [List.eraseDups_cons, List.nodup_cons, List.mem_eraseDups]
    exact ⟨by simp, nodup_eraseDups _⟩
termination_by names => names.length
decreasing_by exact Nat.lt_succ_of_le (List.length_filter_le _ _)

/-- A registry lists its names in an order that does not depend on how they came to be there. -/
theorem typeNames_congr {r r' : Registry} (same : ∀ name, r.definition? name = r'.definition? name) :
    r.typeNames = r'.typeNames := by
  have sorted (names : List Text) : (names.mergeSort comesBefore).Pairwise (comesBefore · · = true) :=
    List.pairwise_mergeSort
      (fun a b c => by
        simp only [comesBefore_iff]
        exact le_trans)
      (fun a b => by
        rw [Bool.or_eq_true, comesBefore_iff, comesBefore_iff]
        exact le_total _ _) names
  have nodup (r : Registry) : r.typeNames.Nodup :=
    (List.mergeSort_perm _ _).nodup_iff.2 (nodup_eraseDups _)
  -- two sorted lists without repetition are the same if they have the same members
  refine List.Perm.eq_of_pairwise (fun a b _ _ before behind => ?_) (sorted _) (sorted _)
    ((List.perm_ext_iff_of_nodup (nodup r) (nodup r')).2 fun name => ?_)
  · exact orderKey_injective (le_antisymm ((comesBefore_iff a b).1 before) ((comesBefore_iff b a).1 behind))
  · rw [mem_typeNames_iff, mem_typeNames_iff, same]

/-- What a text is substituted by depends on what the names mean. -/
theorem substitute_congr {r r' : Registry} (same : ∀ name, r.definition? name = r'.definition? name)
    (s : Text) : r.substitute s = r'.substitute s := by
  have step : r.substituteName = r'.substituteName := by
    funext s name
    simp only [substituteName, canonicalType, describe_congr same]
  rw [substitute, substitute, typeNames_congr same, step]

/-! ## The order of sources -/

theorem leading_none (definition : Option Definition) : leading definition none = definition :=
  if_neg (Nat.not_lt_zero _)

/-- Of two definitions of which one is missing it does not matter which one comes first. -/
theorem leading_right_comm {left right : Option Definition} (apart : left = none ∨ right = none)
    (definition : Option Definition) :
    leading (leading definition left) right = leading (leading definition right) left := by
  rcases apart with rfl | rfl <;> rw [leading_none, leading_none]

theorem definition?_foldl_discover (r : Registry) (sources : List Text) (name : Text) :
    (sources.foldl discover r).definition? name =
      sources.foldl (fun definition source => leading definition ((ofSource source).definition? name))
        (r.definition? name) := by
  induction sources generalizing r with
  | nil => rfl
  | cons source sources ih => rw [List.foldl_cons, List.foldl_cons, ih, discover_eq_merge, definition?_merge]

/-- No name is defined by both sources. -/
def SharesNoName (a b : Text) : Prop :=
  (ofSource a).typeNames.Disjoint (ofSource b).typeNames

instance : Std.Symm SharesNoName :=
  ⟨fun _ _ => List.disjoint_symm⟩

theorem SharesNoName.definition?_eq_none {a b : Text} (apart : SharesNoName a b) (name : Text) :
    (ofSource a).definition? name = none ∨ (ofSource b).definition? name = none := by
  by_contra shared
  push Not at shared
  exact apart (mem_typeNames_iff.2 shared.1) (mem_typeNames_iff.2 shared.2)

/-- Sources that have no names in common define the same in every order. -/
theorem definition?_foldl_discover_perm (r : Registry) {sources reordered : List Text}
    (apart : sources.Pairwise SharesNoName) (perm : sources.Perm reordered) (name : Text) :
    (sources.foldl discover r).definition? name = (reordered.foldl discover r).definition? name := by
  rw [definition?_foldl_discover, definition?_foldl_discover]
  refine perm.foldl_eq' (fun a isSource b isSource' definition => ?_) _
  by_cases same : a = b
  · rw [same]
  · exact leading_right_comm ((apart.forall isSource isSource' same).definition?_eq_none name) definition

/-- Merging is associative and idempotent, with the empty registry as its unit, and discovering a source is
merging its registry.  Sources that have no names in common can be discovered in every order: all types are
resolved and all texts substituted alike. -/
theorem discovery_laws :
    (∀ (r : Registry) (source : Text), r.discover source = r.merge (ofSource source)) ∧
      (∀ r s t : Registry, (r.merge s).merge t = r.merge (s.merge t)) ∧
      (∀ r : Registry, r.merge r = r ∧ r.merge empty = r ∧ empty.merge r = r) ∧
      ∀ (r : Registry) (sources reordered : List Text),
        sources.Pairwise SharesNoName → sources.Perm reordered → ∀ type,
          (sources.foldl discover r).describe type = (reordered.foldl discover r).describe type ∧
          (sources.foldl discover r).substitute type = (reordered.foldl discover r).substitute type := by
  refine ⟨discover_eq_merge, merge_assoc, fun r => ⟨merge_self r, merge_empty r, empty_merge r⟩, ?_⟩
  intro r sources reordered apart perm type
  have same := definition?_foldl_discover_perm r apart perm
  exact ⟨describe_congr same type, substitute_congr same type⟩

/-- A source may use a type that a source behind it defines. -/
theorem discovery_laws_forward_reference :
    let uses := "struct S \x7b T[2] t; \x7d".toList
    let defines := "type T is uint256;".toList
    [uses, defines].Pairwise SharesNoName ∧ [uses, defines].Perm [defines, uses] ∧
      ([uses, defines].foldl discover empty).describe "S[]".toList =
        ([defines, uses].foldl discover empty).describe "S[]".toList ∧
      ([uses, defines].foldl discover empty).substitute "S[] memory, T".toList =
        ([defines, uses].foldl discover empty).substitute "S[] memory, T".toList ∧
      (([defines, uses].foldl discover empty).describe "S[]".toList).toOption.map (·.canonical) =
        some "(uint256[2])[]".toList := by
  intro uses defines
  have apart : [uses, defines].Pairwise SharesNoName := by
    refine List.pairwise_pair.2 fun name isUsed isDefined => ?_
    rw [typeNames, List.mem_mergeSort] at isUsed isDefined
    revert name
    decide +kernel
  have perm : [uses, defines].Perm [defines, uses] := List.Perm.swap _ _ _
  have laws := discovery_laws.2.2.2 empty _ _ apart perm
  exact ⟨apart, perm, (laws _).1, (laws _).2, by decide +kernel⟩

end Registry

end ContractInterface
