import ContractInterface.Registry.Table
import ContractInterface.Text.Order
import ContractInterface.TypeSyntax.Spelling

/-! # The registry of user-defined types

A registry knows the types that source code defines: structs with their members, enums, aliases of
other types, contracts and interfaces.  Each kind has a table of its own, in which the first
definition of a name wins.

A name may stand in several tables.  `definition?` says what it then means: an enum comes before a
struct, a struct before an alias, an alias before a contract or interface. -/

namespace ContractInterface

open Text

/-- A struct member: its name, and its type as the source spells it. -/
structure Member where
  name : Text
  type : Text
deriving DecidableEq, Repr

/-- The user-defined types of some sources. -/
structure Registry where
  structs : Registry.Table (List Member)
  enums : Registry.Table Unit
  aliases : Registry.Table Text
  contracts : Registry.Table Unit
  interfaces : Registry.Table Unit
deriving Repr

namespace Registry

/-- What a name means. -/
inductive Definition where
  | enumeration
  | struct (members : List Member)
  | alias (underlying : Text)
  | contract
deriving DecidableEq, Repr

/-- The registry without definitions. -/
def empty : Registry :=
  ⟨.empty, .empty, .empty, .empty, .empty⟩

/-- What a name means, if it is defined. -/
def definition? (r : Registry) (name : Text) : Option Definition :=
  if r.enums.names.contains name then some .enumeration
  else match r.structs.get? name with
    | some members => some (.struct members)
    | none =>
      match r.aliases.get? name with
      | some underlying => some (.alias underlying)
      | none =>
        if r.contracts.names.contains name || r.interfaces.names.contains name then some .contract
        else none

/-- Adds the definitions of another registry; those that are there already stay. -/
def merge (r other : Registry) : Registry where
  structs := r.structs.merge other.structs
  enums := r.enums.merge other.enums
  aliases := r.aliases.merge other.aliases
  contracts := r.contracts.merge other.contracts
  interfaces := r.interfaces.merge other.interfaces

/-- The names whose meaning refers to other types. -/
def referringNames (r : Registry) : List Text :=
  r.structs.names ++ r.aliases.names

/-- The order in which names are substituted: a longer name before a shorter one, names of one
length by code point. -/
def comesBefore (a b : Text) : Bool :=
  if a.length = b.length then inOrder a b else decide (b.length < a.length)

/-- The names of all user-defined types, the longest first. -/
def typeNames (r : Registry) : List Text :=
  (r.structs.names ++ r.enums.names ++ r.aliases.names ++ r.contracts.names ++
    r.interfaces.names).eraseDups.mergeSort comesBefore

/-- The names of a table in the order of their code points. -/
def sortedNames {α : Type} (t : Table α) : List Text :=
  t.names.mergeSort inOrder

theorem get?_structs {r : Registry} {name : Text} {members : List Member}
    (h : r.definition? name = some (.struct members)) : r.structs.get? name = some members := by
  unfold definition? at h
  split at h
  · cases h
  · split at h
    · rename_i hs
      cases h
      exact hs
    · split at h
      · cases h
      · split at h <;> cases h

theorem get?_aliases {r : Registry} {name underlying : Text}
    (h : r.definition? name = some (.alias underlying)) : r.aliases.get? name = some underlying := by
  unfold definition? at h
  split at h
  · cases h
  · split at h
    · cases h
    · split at h
      · rename_i ha
        cases h
        exact ha
      · split at h <;> cases h

theorem mem_referringNames_of_struct {r : Registry} {name : Text} {members : List Member}
    (h : r.definition? name = some (.struct members)) : name ∈ r.referringNames :=
  List.mem_append_left _ (Table.mem_names_of_get? (get?_structs h))

theorem mem_referringNames_of_alias {r : Registry} {name underlying : Text}
    (h : r.definition? name = some (.alias underlying)) : name ∈ r.referringNames :=
  List.mem_append_right _ (Table.mem_names_of_get? (get?_aliases h))

end Registry

end ContractInterface
