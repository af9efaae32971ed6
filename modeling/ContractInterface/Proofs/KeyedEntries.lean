import ContractInterface.Entries
import Mathlib.Data.List.Dedup

/-! # Entries collected by key

Entries that are assigned one after the other are collected into a list with one entry for each key: the
keys stand in the order in which they first came, and each has the value that came last.
-/

namespace ContractInterface.Entries

variable {κ α : Type} [DecidableEq κ]

/-- Entries with more of them assigned. -/
def assignAll (entries more : List (κ × α)) : List (κ × α) :=
  more.foldl (fun entries e => assign entries e.1 e.2) entries

variable {entries more : List (κ × α)} {key : κ} {value : α}

/-! ## Keys -/

theorem keys_assign (entries : List (κ × α)) (key : κ) (value : α) :
    keys (assign entries key value) =
      if key ∈ keys entries then keys entries else keys entries ++ [key] := by
  unfold assign
  split
  case isTrue =>
    rw [keys, keys, List.map_map]
    refine List.map_congr_left fun e _ => ?_
    by_cases same : e.1 = key <;> simp [same]
  case isFalse => simp [keys]

theorem mem_keys_assign {other : κ} :
    other ∈ keys (assign entries key value) ↔ other ∈ keys entries ∨ other = key := by
  rw [keys_assign]
  split
  case isTrue member =>
    refine ⟨.inl, ?_⟩
    rintro (old | rfl)
    exacts [old, member]
  case isFalse => simp

theorem nodup_keys_assign (nodup : (keys entries).Nodup) : (keys (assign entries key value)).Nodup := by
  rw [keys_assign]
  split
  case isTrue => exact nodup
  case isFalse absent => simpa using nodup.concat absent

theorem mem_keys_assignAll {other : κ} :
    other ∈ keys (assignAll entries more) ↔ other ∈ keys entries ∨ other ∈ keys more := by
  induction more generalizing entries with
  | nil => simp [assignAll, keys]
  | cons e more ih =>
    rw [assignAll, List.foldl_cons, ← assignAll, ih, mem_keys_assign, or_assoc]
    simp [keys]

theorem nodup_keys_assignAll (nodup : (keys entries).Nodup) : (keys (assignAll entries more)).Nodup := by
  induction more generalizing entries with
  | nil => exact nodup
  | cons e more ih => exact ih (nodup_keys_assign nodup)

theorem nodup_keys_assignAll_nil (entries : List (κ × α)) : (keys (assignAll [] entries)).Nodup :=
  nodup_keys_assignAll (by simp [keys])

/-- There are as many collected entries as different keys. -/
theorem length_assignAll (entries : List (κ × α)) :
    (assignAll [] entries).length = (keys entries).dedup.length := by
  have sameKeys : (keys (assignAll [] entries)).Perm (keys entries).dedup := by
    refine (List.perm_ext_iff_of_nodup (nodup_keys_assignAll_nil entries)
      (List.nodup_dedup _)).2 fun key => ?_
    rw [mem_keys_assignAll, List.mem_dedup]
    simp [keys]
  simpa [keys] using sameKeys.length_eq

/-- No entry is lost exactly if all keys are different. -/
theorem length_assignAll_eq_iff {entries : List (κ × α)} :
    (assignAll [] entries).length = entries.length ↔ (keys entries).Nodup := by
  have lengths : entries.length = (keys entries).length := (List.length_map _).symm
  rw [length_assignAll, lengths, ← List.dedup_eq_self]
  exact ⟨(List.dedup_sublist _).eq_of_length, congrArg _⟩

/-- Entries with different keys are collected as they are. -/
theorem assignAll_of_nodup (nodup : (keys (entries ++ more)).Nodup) :
    assignAll entries more = entries ++ more := by
  induction more generalizing entries with
  | nil => exact (List.append_nil entries).symm
  | cons e more ih =>
    have absent : e.1 ∉ keys entries := by
      rw [keys, List.map_append, List.map_cons, List.nodup_middle] at nodup
      exact fun member => (List.nodup_cons.1 nodup).1 (List.mem_append_left _ member)
    have added : assign entries e.1 e.2 = entries ++ [e] := if_neg absent
    rw [assignAll, List.foldl_cons, ← assignAll, added, ih (by simpa using nodup)]
    simp

theorem assignAll_eq_self_iff {entries : List (κ × α)} :
    assignAll [] entries = entries ↔ (keys entries).Nodup :=
  ⟨fun same => length_assignAll_eq_iff.1 (congrArg List.length same),
    fun nodup => assignAll_of_nodup (by simpa using nodup)⟩

/-! ## Values -/

section Values

-- values are looked up with whatever equality test the keys have
variable [BEq κ] [LawfulBEq κ]

theorem lookup_cons_eq (e : κ × α) (entries : List (κ × α)) (key : κ) :
    (e :: entries).lookup key = if key = e.1 then some e.2 else entries.lookup key := by
  obtain ⟨first, value⟩ := e
  rw [List.lookup_cons]
  by_cases same : key = first
  · simp [same]
  · simp [same, beq_false_of_ne same]

theorem lookup_eq_none_iff_notMem_keys : entries.lookup key = none ↔ key ∉ keys entries := by
  rw [List.lookup_eq_none_iff, keys]
  grind

/-- Entries of another key stay as they are when a value is replaced. -/
theorem lookup_replace (entries : List (κ × α)) (key : κ) (value : α) (other : κ) :
    (entries.map fun e => if e.1 = key then (key, value) else e).lookup other =
      if other = key ∧ key ∈ keys entries then some value else entries.lookup other := by
  induction entries with
  | nil => simp [keys]
  | cons e entries ih =>
    rw [List.map_cons, lookup_cons_eq, lookup_cons_eq, ih]
    have keysCons : key ∈ keys (e :: entries) ↔ e.1 = key ∨ key ∈ keys entries := by
      simp [keys, eq_comm]
    by_cases first : e.1 = key <;> by_cases same : other = key <;> simp [keysCons, first, same]
    grind

theorem lookup_assign (entries : List (κ × α)) (key : κ) (value : α) (other : κ) :
    (assign entries key value).lookup other =
      if other = key then some value else entries.lookup other := by
  unfold assign
  split
  case isTrue member => simp [lookup_replace, member]
  case isFalse absent =>
    rw [List.lookup_append, lookup_cons_eq]
    by_cases same : other = key
    · simp [same, lookup_eq_none_iff_notMem_keys.2 absent]
    · simp [same]

/-- The value of a key is the one that was assigned last. -/
theorem lookup_assignAll (entries more : List (κ × α)) (key : κ) :
    (assignAll entries more).lookup key = (more.reverse.lookup key).or (entries.lookup key) := by
  induction more generalizing entries with
  | nil => rfl
  | cons e more ih =>
    rw [assignAll, List.foldl_cons, ← assignAll, ih, lookup_assign, List.reverse_cons,
      List.lookup_append, Option.or_assoc, lookup_cons_eq]
    by_cases same : key = e.1 <;> simp [same]

end Values

end ContractInterface.Entries
