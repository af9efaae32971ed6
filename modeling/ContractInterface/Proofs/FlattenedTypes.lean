import ContractInterface.Proofs.DiscoveredTypes
import ContractInterface.Proofs.Expressions
import ContractInterface.Proofs.NormalizedTypes
import ContractInterface.Proofs.Numerals
import ContractInterface.Proofs.TypeGraph
import Mathlib.Algebra.Group.Nat.Defs

/-! # Mappings that are taken apart

Nested mappings are read in one step: what a mapping ends in is the value of the innermost one.  That value is no
mapping itself, and no array of mappings either: an array is read as the value only if no mapping is in front of its
dimensions, or if that mapping has no value to give, and then the whole has no meaning
(`isFlattened_of_resolveWith`).  An alias does not bring a mapping back in where aliases stand for names only, as
they do in a registry that was built from sources (`IsBuilt`).

A length that was read is short enough to be written and read again (`arrayLength_sizeText`).
-/

namespace ContractInterface

open Text TypeSyntax Delimiter

/-! ## Lengths that were read -/

theorem decimalValue?_lt {c : Char} {n : Nat} (value : decimalValue? c = some n) : n < 10 := by
  obtain ⟨first, found, rfl⟩ := Option.map_eq_some_iff.1 value
  have inBlock := List.find?_some found
  simp only [Bool.and_eq_true, decide_eq_true_eq] at inBlock
  omega

/-- A number is bounded by how many digits it has. -/
theorem decimalNumber_lt (s : Text) : decimalNumber s < 10 ^ s.length := by
  have general : ∀ start : Nat, s.foldl (fun n c => 10 * n + (decimalValue? c).getD 0) start <
      (start + 1) * 10 ^ s.length := by
    induction s with
    | nil => simp
    | cons c s ih =>
      intro start
      have digit : (decimalValue? c).getD 0 < 10 := by
        cases value : decimalValue? c with
        | none => decide
        | some n => exact decimalValue?_lt value
      have others := ih (10 * start + (decimalValue? c).getD 0)
      have bound : (10 * start + (decimalValue? c).getD 0 + 1) * 10 ^ s.length ≤
          (start + 1) * 10 * 10 ^ s.length := Nat.mul_le_mul_right _ (by omega)
      rw [List.foldl_cons, List.length_cons, Nat.pow_succ, Nat.mul_comm (10 ^ s.length), ← Nat.mul_assoc]
      exact Nat.lt_of_lt_of_le others bound
  have whole := general 0
  rwa [Nat.zero_add, Nat.one_mul] at whole

/-- A length that was read is within the limit when it is written. -/
theorem arrayLength_sizeText {size : Text} {length : Option Nat} (reads : arrayLength size = .ok length) :
    arrayLength (sizeText length) = .ok length := by
  cases length with
  | none => rfl
  | some n =>
    have short : (digits n).length ≤ maxLengthDigits := by
      obtain ⟨_, within, whole, rfl⟩ := arrayLength_eq_some_iff.1 reads
      refine (Nat.length_toDigits_le_iff (by decide) (by decide)).2 ?_
      exact Nat.lt_of_lt_of_le (decimalNumber_lt size) (Nat.pow_le_pow_right (by decide) (whole.trans within))
    have decimal : ∀ c ∈ digits n, isDecimal c = true := fun _ member => isDecimal_of_mem_digits member
    have all : (digits n).all isDigit = true :=
      List.all_eq_true.2 fun c member => isDigit_of_isDecimal (decimal c member)
    have leading : (digits n).takeWhile isDecimal = digits n := List.takeWhile_eq_self_iff.2 decimal
    change arrayLength (digits n) = .ok (some n)
    refine arrayLength_eq_some_iff.2 ⟨⟨Nat.toDigits_ne_nil, all⟩, ?_, ?_, decimalNumber_digits n⟩
    · rwa [leading]
    · rw [leading]

/-! ## Flattened descriptors -/

namespace Descriptor

/-- Whether a type is a mapping. -/
def isMapping : Descriptor → Bool
  | .mapping _ _ => true
  | _ => false

/-- What a type is an array of, however many dimensions the array has. -/
def base : Descriptor → Descriptor
  | .array element _ => element.base
  | d => d

/-- A type whose mappings end in neither mappings nor arrays of mappings, and whose lengths can be written.  The
members of structs are left aside. -/
def IsFlattened : Descriptor → Prop
  | .array element length => element.IsFlattened ∧ arrayLength (sizeText length) = .ok length
  | .mapping key value => key.IsFlattened ∧ value.IsFlattened ∧
      (value.isMapping = true ∨ value.base.isMapping = false)
  | _ => True

theorem base_foldl_array (d : Descriptor) (lengths : List (Option Nat)) :
    (lengths.foldl .array d).base = d.base := by
  induction lengths generalizing d with
  | nil => rfl
  | cons length lengths ih => exact ih _

theorem IsFlattened.foldl_array {d : Descriptor} (flattened : d.IsFlattened) {lengths : List (Option Nat)}
    (readable : ∀ length ∈ lengths, arrayLength (sizeText length) = .ok length) :
    (lengths.foldl .array d).IsFlattened := by
  induction lengths generalizing d with
  | nil => exact flattened
  | cons length lengths ih =>
    obtain ⟨first, others⟩ := List.forall_mem_cons.1 readable
    exact ih (d := .array d length) ⟨flattened, first⟩ others

theorem IsFlattened.foldr_mapping {final : Descriptor} (flattened : final.IsFlattened)
    (noMapping : final.base.isMapping = false) {keys : List Descriptor} (each : ∀ key ∈ keys, key.IsFlattened) :
    (keys.foldr .mapping final).IsFlattened ∧
      ((keys.foldr .mapping final).isMapping = true ∨ (keys.foldr .mapping final).base.isMapping = false) := by
  induction keys with
  | nil => exact ⟨flattened, .inr noMapping⟩
  | cons key keys ih =>
    obtain ⟨first, others⟩ := List.forall_mem_cons.1 each
    exact ⟨⟨first, ih others⟩, .inl rfl⟩

end Descriptor

namespace TypeSyntax

/-! ## Final values -/

/-- A type that is no mapping with a value. -/
def IsFinal (type : Text) : Prop :=
  isMapping (normalized type) = true → Mapping.behindArrow? (normalized type) = none

/-- A part of a normalized type is final if it is no mapping with a value as it stands. -/
theorem isFinal_of_unlocated {s : Text} (trimmed : IsTrimmed s) (unlocated : blankStorage s = s)
    (final : isMapping s = true → Mapping.behindArrow? s = none) : IsFinal s := by
  intro mapping
  rw [isMapping_normalized trimmed unlocated] at mapping
  refine Option.not_isSome_iff_eq_none.1 fun valued => ?_
  have valued' := isSome_behindArrow?_of_normalized trimmed unlocated valued
  rw [final mapping] at valued'
  cases valued'

namespace Mapping

theorem behindArrow?_finalValue (s : Text) (mapping : isMapping (finalValue s) = true) :
    behindArrow? (finalValue s) = none := by
  fun_induction finalValue s with
  | case1 s _ _ ih => exact ih mapping
  | case2 s isMapping_ whole =>
    have absent : ¬ _ := fun valued => whole ((outerValue_lt_iff s).2 ⟨isMapping_, valued⟩)
    exact Option.not_isSome_iff_eq_none.1 absent
  | case3 s plain => exact absurd mapping plain

theorem isMapping_append_of_isMapping {s : Text} (mapping : isMapping s = true) (t : Text) :
    isMapping (s ++ t) = true := by
  obtain ⟨before, gap, inner, blanks, gap_blanks, rfl⟩ := exists_of_isMapping mapping
  rw [List.append_assoc, List.append_assoc, isMapping_blanks_append blanks]
  exact isMapping_head_append gap_blanks _

/-- What is found in a text is found there whatever follows. -/
theorem findAtDepth?_append {h : Char} {needle : Text} {target depth : Int} {s : Text} {k : Nat}
    (found : findAtDepth? (h :: needle) target depth s = some k) (t : Text) :
    findAtDepth? (h :: needle) target depth (s ++ t) = some k := by
  induction s generalizing depth k with
  | nil => cases found
  | cons c s ih =>
    rw [findAtDepth?] at found
    rw [List.cons_append, findAtDepth?]
    split at found
    · cases found
    rename_i goesOn
    rw [if_neg goesOn]
    split at found
    · rename_i here
      cases found
      have starts : startsWith (h :: needle) (c :: (s ++ t)) = true :=
        List.isPrefixOf_iff_prefix.2 ((List.isPrefixOf_iff_prefix.1 here.2).trans (List.prefix_append _ t))
      rw [if_pos ⟨here.1, starts⟩]
    · rename_i notHere
      obtain ⟨j, found', rfl⟩ := Option.map_eq_some_iff.1 found
      -- the needle is found further on, so it does not reach beyond the text here
      obtain ⟨rest, behind⟩ := exists_of_findAtDepth? found'
      have long := congrArg List.length behind
      simp only [List.length_drop, List.length_append, List.length_cons] at long
      have absent : ¬ (depth + parenStep c = target ∧ startsWith (h :: needle) (c :: (s ++ t)) = true) := by
        rintro ⟨atTarget, starts⟩
        refine notHere ⟨atTarget, List.isPrefixOf_iff_prefix.2 ?_⟩
        refine List.prefix_of_prefix_length_le (List.isPrefixOf_iff_prefix.1 starts)
          (List.prefix_append (c :: s) t) ?_
        simp only [List.length_cons]
        omega
      rw [if_neg absent, ih found']
      rfl

theorem isSome_behindArrow?_append {s : Text} (valued : (behindArrow? s).isSome = true) (t : Text) :
    (behindArrow? (s ++ t)).isSome = true := by
  obtain ⟨arrowAt, close, isArrow, isClose, inside⟩ := isSome_behindArrow?_iff.1 valued
  exact isSome_behindArrow?_iff.2
    ⟨arrowAt, close, findAtDepth?_append isArrow t, closeIndex?_append isClose t, inside⟩

end Mapping

/-- Normalizing brings in nothing but spaces. -/
theorem mem_of_mem_normalized {c : Char} (visible : isBlank c = false) {s : Text} (member : c ∈ normalized s) :
    c ∈ s := by
  have notSpace : c ≠ ' ' := by
    rintro rfl
    exact absurd visible (by decide)
  have located : c ∈ blankStorage s := by
    have inSpaced := plainAddress_subset _ member
    rw [withoutStorage, spaced_eq_trim_collapsed] at inSpaced
    rw [← List.contains_iff_mem, ← contains_collapsed visible, List.contains_iff_mem]
    exact trim_subset _ inSpaced
  -- by now only `storage` may have been replaced, and that by a space
  clear member
  induction s using spans_induction (p := isWordChar) with
  | nil => rwa [blankStorage_nil] at located
  | plain d s plain ih =>
    rw [blankStorage_cons plain] at located
    exact List.mem_cons.2 ((List.mem_cons.1 located).imp id ih)
  | run run rest nonempty isRun edge ih =>
    have others := ih 0
    rw [List.drop_zero] at others
    rw [blankStorage_append edge, blankStorage_word nonempty isRun, List.mem_append] at located
    refine List.mem_append.2 (located.imp (fun inRun => ?_) others)
    split at inRun
    · exact absurd (List.mem_singleton.1 inRun) notSpace
    · exact inRun

theorem isFinal_of_noOpen {type : Text} (noOpen : '(' ∉ type) : IsFinal type := by
  intro mapping
  rw [isMapping_eq_false fun member => noOpen (mem_of_mem_normalized (by decide) member)] at mapping
  cases mapping

/-- What an array is an array of is final if the array is. -/
theorem IsFinal.splitTrailing {type : Text} (final : IsFinal type) :
    IsFinal (Dimension.splitTrailing (normalized type)).1 := by
  obtain ⟨behind, whole⟩ := Dimension.splitTrailing_prefix (isTrimmed_normalized type)
  have unlocated := (IsPart.splitTrailing (normalized type)).blankStorage_eq (blankStorage_normalized type)
  refine isFinal_of_unlocated (Dimension.isTrimmed_splitTrailing _) unlocated fun mapping => ?_
  refine Option.not_isSome_iff_eq_none.1 fun valued => ?_
  have mapping' := Mapping.isMapping_append_of_isMapping mapping behind
  have valued' := Mapping.isSome_behindArrow?_append valued behind
  rw [whole] at mapping' valued'
  rw [final mapping'] at valued'
  cases valued'

theorem isFinal_finalValue (type : Text) : IsFinal (Mapping.finalValue (normalized type)) :=
  isFinal_of_unlocated (Getter.isTrimmed_finalValue _)
    ((IsPart.finalValue (normalized type)).blankStorage_eq (blankStorage_normalized type))
    (Mapping.behindArrow?_finalValue _)

/-- A mapping with a reachable value is not final. -/
theorem not_isFinal_of_shorter {type : Text} (mapping : isMapping (normalized type) = true)
    (shorter : (Mapping.finalValue (normalized type)).length < (normalized type).length) : ¬IsFinal type := by
  intro final
  have trimmed := isTrimmed_normalized type
  have valued := Mapping.outerValue_lt_iff (normalized type)
  rw [trimmed.trim_eq, ← Getter.finalValue_lt_iff trimmed mapping, final mapping] at valued
  exact Bool.false_ne_true (valued.1 shorter).2

/-! ## Expressions -/

namespace Expr

variable {resolve : Text → Except ResolutionError Descriptor}

/-- A mapping of several keys resolves to one, and its keys and its value resolve. -/
theorem exists_of_foldr_mapping {keys : List Text} {value : Expr} {d : Descriptor}
    (resolves : (keys.foldr (fun key value => .mapping (ofText key) value) value).resolveWith resolve = .ok d) :
    ∃ types final, (keys.mapM fun key => (ofText key).resolveWith resolve) = .ok types ∧
      value.resolveWith resolve = .ok final ∧ d = types.foldr .mapping final := by
  simp only [mapM_eq_ok_iff]
  induction keys generalizing d with
  | nil => exact ⟨[], d, rfl, resolves, rfl⟩
  | cons key keys ih =>
    obtain ⟨type, rest, resolvesKey, resolvesRest, rfl⟩ := resolveWith_mapping_eq_ok_iff.1 resolves
    obtain ⟨types, final, resolvesKeys, resolvesFinal, rfl⟩ := ih resolvesRest
    exact ⟨type :: types, final, List.cons_eq_cons.2 ⟨resolvesKey, resolvesKeys⟩, resolvesFinal, rfl⟩

/-- Where names stand for no mappings, types resolve to flattened ones, and only mappings with a value to
mappings. -/
theorem isFlattened_of_resolveWith
    (names : ∀ x d, resolve x = .ok d → d.IsFlattened ∧ d.base.isMapping = false) (type : Text) {d : Descriptor}
    (resolves : (ofText type).resolveWith resolve = .ok d) :
    d.IsFlattened ∧ (IsFinal type → d.base.isMapping = false) := by
  -- the cases are those in which `ofText` tells the forms of a type apart; both parts go to shorter types
  by_cases blank : normalized type = []
  · rw [ofText_blank blank] at resolves
    cases resolves
    exact ⟨trivial, fun _ => rfl⟩
  have noLonger := length_normalized_le type
  by_cases sized : (Dimension.splitTrailing (normalized type)).2 ≠ []
  · have shorter := Dimension.length_splitTrailing_lt sized
    rw [ofText_array sized] at resolves
    obtain ⟨lengths, element, reads, resolvesElement, rfl⟩ := resolveWith_array_eq_ok_iff.1 resolves
    obtain ⟨flattened, noMapping⟩ := isFlattened_of_resolveWith names _ resolvesElement
    have readable : ∀ length ∈ lengths, arrayLength (sizeText length) = .ok length := by
      intro length member
      obtain ⟨size, _, readsSize⟩ := exists_of_mem_mapM reads member
      exact arrayLength_sizeText readsSize
    refine ⟨flattened.foldl_array readable, fun final => ?_⟩
    rw [Descriptor.base_foldl_array]
    exact noMapping final.splitTrailing
  have unsized := not_not.1 sized
  cases mapping : isMapping (normalized type) with
  | true =>
    by_cases keyless : Mapping.keys (normalized type) = []
    · rw [ofText_keyless unsized mapping keyless] at resolves
      cases resolves
      exact ⟨trivial, fun _ => rfl⟩
    · rw [ofText_mapping unsized mapping keyless] at resolves
      obtain ⟨types, final, resolvesKeys, resolvesFinal, rfl⟩ := exists_of_foldr_mapping resolves
      split at resolvesFinal
      · rename_i shorter
        obtain ⟨flattened, noMapping⟩ := isFlattened_of_resolveWith names _ resolvesFinal
        have each : ∀ t ∈ types, t.IsFlattened := by
          intro t member
          obtain ⟨key, isKey, resolvesKey⟩ := exists_of_mem_mapM resolvesKeys member
          have shorterKey := Mapping.length_lt_of_mem_keys isKey
          exact (isFlattened_of_resolveWith names _ resolvesKey).1
        exact ⟨(flattened.foldr_mapping (noMapping (isFinal_finalValue type)) each).1,
          fun isFinal => absurd isFinal (not_isFinal_of_shorter mapping shorter)⟩
      · cases resolvesFinal
  | false =>
    rw [ofText_name unsized blank mapping] at resolves
    obtain ⟨flattened, noMapping⟩ := names _ _ resolves
    exact ⟨flattened, fun _ => noMapping⟩
termination_by type.length
decreasing_by all_goals omega

end Expr

end TypeSyntax

namespace Registry

/-! ## Registries built from sources -/

/-- A registry that sources and other registries were added to. -/
inductive IsBuilt : Registry → Prop
  | empty : IsBuilt .empty
  | discover {r : Registry} (built : IsBuilt r) (source : Text) : IsBuilt (r.discover source)
  | merge {r other : Registry} (built : IsBuilt r) (built' : IsBuilt other) : IsBuilt (r.merge other)

theorem IsBuilt.ofSource (source : Text) : (ofSource source).IsBuilt :=
  .discover .empty source

/-- In a registry that was built, aliases stand for dotted names. -/
theorem IsBuilt.noOpen_of_mem_aliases {r : Registry} (built : r.IsBuilt) :
    ∀ d ∈ r.aliases.entries, '(' ∉ d.2 := by
  induction built with
  | empty => exact fun _ member => nomatch member
  | discover _ source ih =>
    exact fun d member => (Table.mem_of_mem_insertAll member).elim (ih d) fun isNew isOpen =>
      absurd ((aliasDefinitions_spec d isNew).2 '(' isOpen) (by decide)
  | merge _ _ ih ih' => exact fun d member => (Table.mem_of_mem_insertAll member).elim (ih d) (ih' d)

/-- Where aliases stand for names, no name stands for a mapping or an array of mappings. -/
theorem isFlattened_of_resolveName {r : Registry} (named : ∀ d ∈ r.aliases.entries, '(' ∉ d.2)
    (visiting : List Text) (x : Text) :
    ∀ d, r.resolveName visiting x = .ok d → d.IsFlattened ∧ d.base.isMapping = false := by
  fun_induction resolveName r visiting x with
  | case3 visiting text members isDefined fresh ih =>
    intro d resolves
    obtain ⟨ms, _, whole⟩ := bind_eq_ok_iff.1 resolves
    cases pure_eq_ok_iff.1 whole
    exact ⟨trivial, rfl⟩
  | case5 visiting text underlying isDefined fresh ih =>
    intro d resolves
    obtain ⟨type, resolvesType, whole⟩ := bind_eq_ok_iff.1 resolves
    cases pure_eq_ok_iff.1 whole
    split
    · exact ⟨trivial, rfl⟩
    · obtain ⟨flattened, noMapping⟩ := Expr.isFlattened_of_resolveWith ih underlying resolvesType
      exact ⟨flattened, noMapping (isFinal_of_noOpen (named _ (Table.mem_entries_of_get? (get?_aliases isDefined))))⟩
  | case7 visiting text isUndefined =>
    rintro _ ⟨⟩
    cases isCustom text <;> exact ⟨trivial, rfl⟩
  | _ =>
    rintro _ ⟨⟩
    exact ⟨trivial, rfl⟩

theorem IsBuilt.isFlattened_of_describe {r : Registry} (built : r.IsBuilt) {type : Text} {d : Descriptor}
    (describes : r.describe type = .ok d) : d.IsFlattened :=
  (Expr.isFlattened_of_resolveWith (isFlattened_of_resolveName built.noOpen_of_mem_aliases []) type describes).1

end Registry

end ContractInterface
