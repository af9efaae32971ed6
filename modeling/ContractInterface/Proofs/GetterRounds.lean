import ContractInterface.Proofs.Expressions
import ContractInterface.Proofs.MappingSpellings
import ContractInterface.Proofs.TypeParts
import Mathlib.Computability.StateTransition

/-! # Getters level by level

The getter of a type comes from a loop that takes one level off the type in each round (`Getter.unwrap?`):
a mapping with all that is nested in it, or one dimension.  A round leaves a shorter type unless the type is a
mapping whose value cannot be told apart (`Getter.IsStuck`), where a round leaves the type as it is.  So the
loop ends within as many rounds as the type has characters exactly if it meets no such mapping, and it ends
with the getter (`Getter.rounds_shorten`).

The innermost value of a mapping is found by a loop of its own, which always ends (`Mapping.exists_unnested`).
-/

namespace ContractInterface

open Text TypeSyntax StateTransition

/-! ## Rounds -/

section Rounds

variable {α : Type} {step : α → Option α} {a b : α}

/-- Where every round makes something smaller, a loop ends within as many rounds as that is large. -/
theorem exists_iterate (size : α → Nat)
    (smaller : ∀ b, Reaches step a b → ∀ c ∈ step b, size c < size b) :
    ∃ n ≤ size a, ∃ b, (Option.bind · step)^[n] (some a) = some b ∧ step b = none := by
  induction hsize : size a using Nat.strong_induction_on generalizing a with
  | _ n ih =>
    cases steps : step a with
    | none => exact ⟨0, Nat.zero_le _, a, rfl, steps⟩
    | some next =>
      have less := smaller a .refl next steps
      obtain ⟨m, within, b, leads, last⟩ := ih (size next) (by omega)
        (fun b reaches => smaller b (.head steps reaches)) rfl
      refine ⟨m + 1, by omega, b, ?_, last⟩
      rw [Function.iterate_succ_apply, Option.bind_some, steps, leads]

theorem reaches_of_iterate {n : Nat} (leads : (Option.bind · step)^[n] (some a) = some b) :
    Reaches step a b := by
  induction n generalizing b with
  | zero =>
    cases leads
    exact .refl
  | succ n ih =>
    rw [Function.iterate_succ_apply'] at leads
    obtain ⟨c, earlier, steps⟩ := Option.bind_eq_some_iff.1 leads
    exact (ih earlier).tail steps

end Rounds

/-! ## Nested mappings -/

namespace TypeSyntax.Mapping

/-- The value of a mapping that has one. -/
def unnest? (type : Text) : Option Text :=
  if isMapping type = true ∧ outerValue type ≠ type then some (outerValue type) else none

theorem unnest?_eq_none_iff {type : Text} :
    unnest? type = none ↔ isMapping type = false ∨ outerValue type = type := by
  unfold unnest?
  cases isMapping type <;> simp

theorem isTrimmed_splitLastWord {s : Text} (trimmed : IsTrimmed s) : IsTrimmed (splitLastWord s).1 := by
  have front : (splitLastWord s).1 <+: s := by
    have words := List.reverse_prefix.2 (List.dropWhile_suffix (!isBlank ·) (l := (trimEnd s).reverse))
    rw [List.reverse_reverse] at words
    exact (Dimension.trimEnd_prefix _).trans (words.trans (Dimension.trimEnd_prefix s))
  refine ⟨fun c first => trimmed.first c ?_, getLast?_trimEnd _⟩
  obtain ⟨rest, whole⟩ := front
  rw [← whole, List.head?_append, Option.mem_def.1 first]
  rfl

theorem isTrimmed_withoutName (s : Text) : IsTrimmed (withoutName s) := by
  unfold withoutName
  simp only
  split
  · exact isTrimmed_trim s
  · split
    · exact isTrimmed_splitLastWord (isTrimmed_trim s)
    · exact isTrimmed_trim s

theorem isTrimmed_outerValue (s : Text) : IsTrimmed (outerValue s) := by
  rw [outerValue_eq]
  split
  · cases behindArrow? (trim s) with
    | none => exact isTrimmed_trim s
    | some value => exact isTrimmed_withoutName value
  · exact isTrimmed_trim s

variable {type : Text}

theorem length_unnest?_lt (trimmed : IsTrimmed type) {value : Text} (found : unnest? type = some value) :
    value.length < type.length := by
  unfold unnest? at found
  split at found
  · rename_i valued
    cases found
    have shorter := outerValue_eq_or_lt type
    rw [trimmed.trim_eq] at shorter
    exact shorter.resolve_left valued.2
  · cases found

theorem isTrimmed_of_reaches {value : Text} (trimmed : IsTrimmed type) (reaches : Reaches unnest? type value) :
    IsTrimmed value := by
  induction reaches with
  | refl => exact trimmed
  | tail _ steps _ =>
    unfold unnest? at steps
    split at steps
    · cases steps
      exact isTrimmed_outerValue _
    · cases steps

theorem mem_eval_finalValue (trimmed : IsTrimmed type) : finalValue type ∈ eval unnest? type := by
  fun_induction finalValue type with
  | case1 type mapping shorter ih =>
    rw [trimmed.trim_eq] at mapping shorter
    have valued : outerValue type ≠ type := fun same => absurd shorter (by rw [same]; exact Nat.lt_irrefl _)
    have steps : unnest? type = some (outerValue type) := if_pos ⟨mapping, valued⟩
    rw [reaches_eval (.single steps)]
    exact ih (isTrimmed_outerValue type)
  | case2 type _ whole =>
    have same := (outerValue_eq_or_lt type).resolve_right whole
    rw [trimmed.trim_eq] at same ⊢
    exact mem_eval.2 ⟨.refl, if_neg fun valued => valued.2 same⟩
  | case3 type plain =>
    rw [trimmed.trim_eq] at plain ⊢
    exact mem_eval.2 ⟨.refl, if_neg fun valued => plain valued.1⟩

/-- The innermost value is found within as many rounds as the type has characters. -/
theorem exists_unnested (type : Text) : ∃ n ≤ type.length,
    (Option.bind · unnest?)^[n] (some (trim type)) = some (finalValue type) ∧
      unnest? (finalValue type) = none := by
  have trimmed := isTrimmed_trim type
  obtain ⟨n, within, value, leads, last⟩ := exists_iterate List.length
    (fun b reaches _ steps => length_unnest?_lt (isTrimmed_of_reaches trimmed reaches) steps)
  have isEnd : value ∈ eval unnest? (trim type) := mem_eval.2 ⟨reaches_of_iterate leads, last⟩
  have same : value = finalValue type := by
    rw [finalValue_of_trim_eq (trim_trim type).symm]
    exact Part.mem_unique isEnd (mem_eval_finalValue trimmed)
  subst same
  exact ⟨n, Nat.le_trans within (length_trim_le type), leads, last⟩

end TypeSyntax.Mapping

/-! ## Levels -/

namespace Getter

/-- The keys that the outermost level of a type takes, and the type that it leads to.  A type without levels
has none. -/
def level? (type : Text) : Option (List Text × Text) :=
  if isMapping type = true ∧ endsWith [']'] type = false then
    some (Mapping.keys type, Mapping.finalValue type)
  else
    (Dimension.trailing? type).bind fun (front, _) =>
      if front = [] then none else some ([indexType], trim front)

/-- A getter with one level of its value taken off. -/
def unwrap? (g : Getter) : Option Getter :=
  (level? g.value).map fun (keys, rest) => ⟨g.keys ++ keys, rest⟩

/-- A type is a mapping whose value cannot be told apart. -/
def IsStuck (type : Text) : Prop :=
  isMapping type = true ∧ endsWith [']'] type = false ∧ Mapping.outerValue type = type

theorem ofTrimmed_eq (type : Text) : ofTrimmed type =
    match level? type with
    | none => .ok ⟨[], type⟩
    | some (keys, rest) =>
      if rest.length < type.length then do return (← ofTrimmed rest).after keys
      else .error (.endlessMapping type) := by
  by_cases mapping : isMapping type = true ∧ endsWith [']'] type = false
  · rw [ofTrimmed_of_mapping mapping, level?, if_pos mapping]
  · rw [ofTrimmed_of_other mapping, level?, if_neg mapping]
    cases found : Dimension.trailing? type with
    | none => rfl
    | some parts =>
      obtain ⟨front, size⟩ := parts
      by_cases bare : front = []
      · simp [bare]
      · -- what stands in front of a dimension is always shorter
        have shorter := Dimension.length_trailing? found
        have noLonger := length_trim_le front
        have less : (trim front).length < type.length := by omega
        simp [bare, less]

section Rounds

variable {type : Text} {g g' start : Getter}

theorem cases_of_level? {keys : List Text} {rest : Text} (found : level? type = some (keys, rest)) :
    (isMapping type = true ∧ endsWith [']'] type = false) ∧ rest = Mapping.finalValue type ∨
      ¬ (isMapping type = true ∧ endsWith [']'] type = false) ∧
        ∃ front size, Dimension.trailing? type = some (front, size) ∧ rest = trim front := by
  unfold level? at found
  split at found
  · rename_i mapping
    cases found
    exact .inl ⟨mapping, rfl⟩
  · rename_i other
    obtain ⟨⟨front, size⟩, isArray, found⟩ := Option.bind_eq_some_iff.1 found
    simp only at found
    split at found
    · cases found
    · cases found
      exact .inr ⟨other, front, size, isArray, rfl⟩

theorem isTrimmed_of_reaches (trimmed : IsTrimmed start.value) (reaches : Reaches unwrap? start g) :
    IsTrimmed g.value := by
  induction reaches with
  | refl => exact trimmed
  | tail _ steps _ =>
    obtain ⟨⟨keys, rest⟩, found, rfl⟩ := Option.map_eq_some_iff.1 steps
    obtain ⟨-, rfl⟩ | ⟨-, front, -, -, rfl⟩ := cases_of_level? found
    · exact isTrimmed_finalValue _
    · exact isTrimmed_trim front

/-- A level leads to a shorter type unless the type is stuck. -/
theorem length_level?_lt_iff (trimmed : IsTrimmed type) {keys : List Text} {rest : Text}
    (found : level? type = some (keys, rest)) : rest.length < type.length ↔ ¬ IsStuck type := by
  obtain ⟨⟨mapping, ends⟩, rfl⟩ | ⟨other, front, size, isArray, rfl⟩ := cases_of_level? found
  · have outer := Mapping.outerValue_eq_or_lt type
    rw [trimmed.trim_eq] at outer
    rw [finalValue_lt_iff trimmed mapping]
    constructor
    · rintro shorter ⟨-, -, same⟩
      exact absurd shorter (by rw [same]; exact Nat.lt_irrefl _)
    · intro free
      exact outer.resolve_left fun same => free ⟨mapping, ends, same⟩
  · have shorter := Dimension.length_trailing? isArray
    have noLonger := length_trim_le front
    exact iff_of_true (by omega) fun stuck => other ⟨stuck.1, stuck.2.1⟩

/-- A stuck type leads to itself. -/
theorem level?_of_isStuck (trimmed : IsTrimmed type) (stuck : IsStuck type) :
    level? type = some (Mapping.keys type, type) := by
  have same : Mapping.finalValue type = type := by
    rw [Mapping.finalValue, trimmed.trim_eq, stuck.2.2]
    simp
  rw [level?, if_pos ⟨stuck.1, stuck.2.1⟩, same]

theorem length_unwrap?_lt_iff (trimmed : IsTrimmed g.value) (steps : g' ∈ unwrap? g) :
    g'.value.length < g.value.length ↔ ¬ IsStuck g.value := by
  obtain ⟨⟨keys, rest⟩, found, rfl⟩ := Option.map_eq_some_iff.1 steps
  exact length_level?_lt_iff trimmed found

theorem isStuck_of_reaches (trimmed : IsTrimmed g.value) (stuck : IsStuck g.value)
    (reaches : Reaches unwrap? g g') : IsStuck g'.value := by
  induction reaches with
  | refl => exact stuck
  | tail earlier steps ih =>
    obtain ⟨⟨keys, rest⟩, found, rfl⟩ := Option.map_eq_some_iff.1 steps
    rw [level?_of_isStuck (isTrimmed_of_reaches trimmed earlier) ih] at found
    cases found
    exact ih

/-- A loop that ends has met nothing stuck. -/
theorem not_isStuck_of_mem_eval (trimmed : IsTrimmed start.value) (ends : g' ∈ eval unwrap? start)
    (reaches : Reaches unwrap? start g) : ¬ IsStuck g.value := by
  intro stuck
  have trimmed' := isTrimmed_of_reaches trimmed reaches
  -- from a stuck type on every round leads to a stuck type, and none is the last one
  rw [reaches_eval reaches] at ends
  obtain ⟨later, last⟩ := mem_eval.1 ends
  have found := level?_of_isStuck (isTrimmed_of_reaches trimmed' later) (isStuck_of_reaches trimmed' stuck later)
  rw [unwrap?, found] at last
  cases last

/-- A loop that ends has found the getter of the type that it started with, behind the keys that it
started with. -/
theorem exists_ofTrimmed_of_mem_eval (trimmed : IsTrimmed start.value) (ends : g ∈ eval unwrap? start) :
    ∃ inner, ofTrimmed start.value = .ok inner ∧ g = inner.after start.keys := by
  -- the keys so far grow from round to round, so the claim is about all keys to start with
  refine evalInduction (C := fun start => IsTrimmed start.value →
    ∃ inner, ofTrimmed start.value = .ok inner ∧ g = inner.after start.keys) ends ?_ trimmed
  intro start ends ih trimmed
  rw [ofTrimmed_eq]
  cases found : level? start.value with
  | none =>
    have last : unwrap? start = none := by rw [unwrap?, found]; rfl
    cases Part.mem_unique ends (mem_eval.2 ⟨.refl, last⟩)
    exact ⟨_, rfl, by simp [after]⟩
  | some level =>
    obtain ⟨keys, rest⟩ := level
    have steps : unwrap? start = some ⟨start.keys ++ keys, rest⟩ := by rw [unwrap?, found]; rfl
    have shorter := (length_level?_lt_iff trimmed found).2 (not_isStuck_of_mem_eval trimmed ends .refl)
    obtain ⟨inner, result, rfl⟩ := ih _ steps (isTrimmed_of_reaches trimmed (.single steps))
    exact ⟨inner.after keys, by simp only [if_pos shorter, result]; rfl, by simp [after]⟩

end Rounds

/-- The loops that take a type apart.  The innermost value of a mapping is always found, within as many
rounds as the type has characters; it is the trimmed type or shorter, and no mapping or one that is its own
value.  A round of the getter's loop shortens the type exactly if that is no stuck mapping.  No stuck mapping
is met exactly if the loop ends within as many rounds as the type has characters, and then it ends with the
getter. -/
theorem rounds_shorten (type : Text) :
    (∃ n ≤ type.length, (Option.bind · Mapping.unnest?)^[n] (some (trim type)) =
        some (Mapping.finalValue type) ∧ Mapping.unnest? (Mapping.finalValue type) = none) ∧
      (Mapping.finalValue type = trim type ∨ (Mapping.finalValue type).length < (trim type).length) ∧
      (isMapping (Mapping.finalValue type) = false ∨
        Mapping.outerValue (Mapping.finalValue type) = Mapping.finalValue type) ∧
      (∀ g, Reaches unwrap? ⟨[], trim type⟩ g → ∀ g' ∈ unwrap? g,
        (g'.value.length < g.value.length ↔ ¬ IsStuck g.value)) ∧
      ((∀ g, Reaches unwrap? ⟨[], trim type⟩ g → ¬ IsStuck g.value) ↔
        ∃ n ≤ type.length, ∃ g, (Option.bind · unwrap?)^[n] (some ⟨[], trim type⟩) = some g ∧
          unwrap? g = none ∧ ofType type = .ok g) := by
  have trimmed := isTrimmed_trim type
  obtain ⟨rounds, within, unnested, whole⟩ := Mapping.exists_unnested type
  refine ⟨⟨rounds, within, unnested, whole⟩, ?_, Mapping.unnest?_eq_none_iff.1 whole,
    fun g reaches g' steps => ?_, fun free => ?_, ?_⟩
  · rw [← Mapping.finalValue_of_trim_eq (trim_trim type)]
    exact Mapping.finalValue_eq_or_lt (trim type)
  · exact length_unwrap?_lt_iff (isTrimmed_of_reaches trimmed reaches) steps
  · obtain ⟨n, within, g, leads, last⟩ := exists_iterate (fun g : Getter => g.value.length)
      fun b reaches c steps =>
        (length_unwrap?_lt_iff (isTrimmed_of_reaches trimmed reaches) steps).2 (free b reaches)
    obtain ⟨inner, result, rfl⟩ := exists_ofTrimmed_of_mem_eval trimmed
      (mem_eval.2 ⟨reaches_of_iterate leads, last⟩)
    exact ⟨n, Nat.le_trans within (length_trim_le type), inner, leads, last, result⟩
  · rintro ⟨n, -, g, leads, last, -⟩
    exact fun g' => not_isStuck_of_mem_eval trimmed (mem_eval.2 ⟨reaches_of_iterate leads, last⟩)

theorem rounds_shorten_nested :
    let type := " mapping(address => mapping(bytes32 => bool)[2]) []".toList
    (∀ g, Reaches unwrap? ⟨[], trim type⟩ g → ¬ IsStuck g.value) ∧
      ∃ n ≤ type.length, ∃ g, (Option.bind · unwrap?)^[n] (some ⟨[], trim type⟩) = some g ∧
        unwrap? g = none ∧ ofType type = .ok g := by
  intro type
  obtain ⟨-, -, -, -, ends_iff⟩ := rounds_shorten type
  have free := ends_iff.2 ⟨2, by decide, ⟨[indexType, "address".toList, "bytes32".toList], "bool".toList⟩,
    by decide +kernel, by decide +kernel, by decide +kernel⟩
  exact ⟨free, ends_iff.1 free⟩

end Getter

end ContractInterface
