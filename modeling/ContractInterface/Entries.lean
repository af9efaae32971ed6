/-! # Entries by key

A list of entries has at most one entry for a key as long as it is only changed with `assign`, which
puts a new entry in the place of the old one of the same key. -/

namespace ContractInterface.Entries

variable {κ α : Type} [DecidableEq κ]

/-- The keys of some entries, in order. -/
def keys (entries : List (κ × α)) : List κ :=
  entries.map Prod.fst

/-- Sets the entry of a key: in the place of the old one, or else at the end. -/
def assign (entries : List (κ × α)) (key : κ) (value : α) : List (κ × α) :=
  if key ∈ keys entries then entries.map fun e => if e.1 = key then (key, value) else e
  else entries ++ [(key, value)]

end ContractInterface.Entries
