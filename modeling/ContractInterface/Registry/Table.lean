import ContractInterface.Text.Basic

/-! # Tables of definitions

A table lists names with their definitions in the order of their first definition.  A name is
defined once: a later definition of a name that is there already changes nothing.

A table is seen through `entries` and `get?`; `insert` adds one definition and `merge` all the
definitions of another table. -/

namespace ContractInterface.Registry

/-- A table from names to definitions, in order of definition. -/
structure Table (α : Type) where
  entries : List (Text × α)
  distinct : (entries.map Prod.fst).Nodup
deriving Repr

namespace Table

variable {α : Type}

/-- The table without definitions. -/
def empty : Table α := ⟨[], by simp⟩

/-- The names that a table defines, in order. -/
def names (t : Table α) : List Text :=
  t.entries.map Prod.fst

/-- The definition of a name. -/
def get? (t : Table α) (name : Text) : Option α :=
  t.entries.lookup name

/-- Adds a definition unless the name is defined already. -/
def insert (t : Table α) (name : Text) (definition : α) : Table α :=
  if h : name ∈ t.names then t
  else ⟨t.entries ++ [(name, definition)], by
    simp only [List.map_append, List.map_cons, List.map_nil, List.nodup_append]
    exact ⟨t.distinct, by simp, fun a ha b hb => by
      rintro rfl
      simp only [List.mem_singleton] at hb
      exact h (hb ▸ ha)⟩⟩

/-- Adds definitions one after the other. -/
def insertAll (t : Table α) (definitions : List (Text × α)) : Table α :=
  definitions.foldl (fun t d => t.insert d.1 d.2) t

/-- Adds the definitions of another table; those that are there already stay. -/
def merge (t other : Table α) : Table α :=
  t.insertAll other.entries

theorem get?_eq_none_iff {t : Table α} {name : Text} : t.get? name = none ↔ name ∉ t.names := by
  obtain ⟨entries, _⟩ := t
  simp only [get?, names]
  induction entries with
  | nil => simp
  | cons e entries ih =>
    by_cases h : name = e.1
    · simp [h]
    · have hb : (name == e.1) = false := by simpa using h
      rw [List.lookup_cons, hb]
      simp only [List.map_cons, List.mem_cons, h, false_or]
      exact ih (List.nodup_cons.1 (by assumption)).2

theorem mem_names_of_get? {t : Table α} {name : Text} {a : α} (h : t.get? name = some a) :
    name ∈ t.names := by
  apply Classical.byContradiction
  intro hn
  simp [get?_eq_none_iff.2 hn] at h

theorem entries_insert (t : Table α) (name : Text) (a : α) :
    (t.insert name a).entries =
      if name ∈ t.names then t.entries else t.entries ++ [(name, a)] := by
  unfold insert
  split <;> rfl

@[simp] theorem names_empty : (empty : Table α).names = [] := rfl

@[simp] theorem get?_empty (name : Text) : (empty : Table α).get? name = none := rfl

@[ext] theorem ext {t u : Table α} (h : t.entries = u.entries) : t = u := by
  cases t
  cases u
  simp only at h
  subst h
  rfl

end Table

end ContractInterface.Registry
