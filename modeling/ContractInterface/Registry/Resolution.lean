import ContractInterface.Descriptor
import ContractInterface.Registry.Basic
import ContractInterface.TypeSyntax.Elementary
import ContractInterface.TypeSyntax.Expr
import ContractInterface.TypeSyntax.Length

/-! # Resolving types

Resolution replaces every name in a type expression by what the registry says it means: an enum by
`uint8`, a struct by the tuple of its resolved members, an alias by what it stands for, a contract
or interface by `address`.  A name that is not defined is elementary, or unresolved if it looks like
a user-defined one.

Definitions may be circular.  `resolveName` therefore carries the names that are being expanded, and
a name met inside its own expansion is unresolved.  Every expansion leaves fewer names to expand,
which is why resolution ends. -/

namespace ContractInterface

open Text TypeSyntax

/-! ## Expressions over resolved names -/

/-- The descriptor of an expression whose names are resolved by `resolve`.  The sizes of an array
are read before its element is resolved. -/
def TypeSyntax.Expr.resolveWith (resolve : Text → Except ResolutionError Descriptor) :
    Expr → Except ResolutionError Descriptor
  | .name text => resolve text
  | .array element sizes => do
    let lengths ← sizes.mapM arrayLength
    let type ← element.resolveWith resolve
    return lengths.foldl .array type
  | .mapping key value => do
    let keyType ← key.resolveWith resolve
    let valueType ← value.resolveWith resolve
    return .mapping keyType valueType
  | .unknown text => return .unresolved text
  | .endless text => throw (.endlessMapping text)

namespace Registry

/-- The resolved members of a struct. -/
def resolveMembers (resolve : Text → Except ResolutionError Descriptor) :
    List Member → Except ResolutionError (List (Text × Descriptor))
  | [] => return []
  | m :: more => do
    let type ← (Expr.ofText m.type).resolveWith resolve
    let rest ← resolveMembers resolve more
    return (m.name, type) :: rest

/-- The names that may still be expanded. -/
def unvisited (r : Registry) (visiting : List Text) : List Text :=
  r.referringNames.filter fun name => !visiting.contains name

theorem length_unvisited_lt {r : Registry} {visiting : List Text} {name : Text}
    (known : name ∈ r.referringNames) (fresh : name ∉ visiting) :
    (r.unvisited (name :: visiting)).length < (r.unvisited visiting).length := by
  unfold unvisited
  rw [← List.countP_eq_length_filter, ← List.countP_eq_length_filter]
  generalize r.referringNames = names at known
  induction names with
  | nil => simp at known
  | cons n names ih =>
    have mono : names.countP (fun x => !(name :: visiting).contains x) ≤
        names.countP (fun x => !visiting.contains x) :=
      List.countP_mono_left fun x _ hx => by
        simp only [List.contains_cons, Bool.not_eq_true', Bool.or_eq_false_iff] at hx ⊢
        exact hx.2
    rw [List.countP_cons, List.countP_cons]
    by_cases hn : n = name
    · subst hn
      have hin : (!(n :: visiting).contains n) = false := by simp
      have hout : (!visiting.contains n) = true := by simpa using fresh
      rw [hin, hout]
      simp only [Bool.false_eq_true, if_false, if_true]
      omega
    · have known' : name ∈ names := by
        rcases List.mem_cons.1 known with h | h
        · exact absurd h.symm hn
        · exact h
      have := ih known'
      have hc : (name :: visiting).contains n = visiting.contains n := by
        simp [hn]
      rw [hc]
      omega

/-- The descriptor of a name, when the names in `visiting` are being expanded. -/
def resolveName (r : Registry) (visiting : List Text) (text : Text) :
    Except ResolutionError Descriptor :=
  match _hd : r.definition? (unqualified text) with
  | some .enumeration => return .primitive "uint8".toList
  | some (.struct members) =>
    if _hv : unqualified text ∈ visiting then return .unresolved text
    else do
      let resolved ← resolveMembers (r.resolveName (unqualified text :: visiting)) members
      return .tuple (unqualified text) resolved
  | some (.alias underlying) =>
    if _hv : unqualified text ∈ visiting then return .unresolved text
    else do
      let type ← (Expr.ofText underlying).resolveWith
        (r.resolveName (unqualified text :: visiting))
      -- an alias of nothing is itself the missing name
      return if type.isUnresolved then .unresolved text else type
  | some .contract => return .primitive "address".toList
  -- a name that does not look user-defined is taken at its word
  | none => return if isCustom text then .unresolved text else .primitive (canonicalName text)
termination_by (r.unvisited visiting).length
decreasing_by
  · exact length_unvisited_lt (mem_referringNames_of_struct _hd) _hv
  · exact length_unvisited_lt (mem_referringNames_of_alias _hd) _hv

/-- The descriptor of a type spelling. -/
def describe (r : Registry) (type : Text) : Except ResolutionError Descriptor :=
  (Expr.ofText type).resolveWith (r.resolveName [])

/-- The descriptor of a type spelling, or nothing if the type as a whole has no meaning. -/
def resolve? (r : Registry) (type : Text) : Except ResolutionError (Option Descriptor) := do
  let d ← r.describe type
  return if d.isUnresolved then none else some d

/-- Whether every name in a type spelling has a meaning. -/
def canResolve (r : Registry) (type : Text) : Except ResolutionError Bool :=
  return (← r.describe type).isResolved

/-- The spelling of a type in a signature. -/
def canonicalType (r : Registry) (type : Text) : Except ResolutionError Text :=
  return (← r.describe type).canonical

/-- Why the components of a struct cannot be listed. -/
inductive ComponentsError where
  | resolution (cause : ResolutionError)
  /-- The struct's name means something else. -/
  | shadowed
deriving DecidableEq, Repr

/-- The wording of an error. -/
def ComponentsError.message : ComponentsError → Text
  | .resolution cause => cause.message
  | .shadowed => "'components'".toList

/-- The components of a struct in an interface description; nothing if there is no such struct. -/
def structComponents? (r : Registry) (name : Text) :
    Except ComponentsError (Option (List Abi.Parameter)) :=
  if unqualified name ∈ r.structs.names then
    match r.describe (unqualified name) with
    | .error cause => .error (.resolution cause)
    | .ok d =>
      match (d.toParameter []).components? with
      | some components => .ok (some components)
      | none => .error .shadowed
  else .ok none

end Registry

end ContractInterface
