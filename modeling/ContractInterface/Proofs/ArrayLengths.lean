import ContractInterface.Proofs.TypeGraph
import Mathlib.Data.List.Forall2

/-! # The lengths of arrays

Every dimension of a type becomes an array in its descriptor, in the order in which the dimensions are
written once the names are expanded.  Its size alone decides the length: a size of digits is its
number, and any other size leaves the array dynamic (`lengths_of_resolveName`).

So the descriptor says what is written in the brackets exactly if each pair of brackets is a dimension
and holds digits or nothing (`forall₂_isRead_iff`).  A constant between the brackets does not count.
-/

namespace ContractInterface

open Text TypeSyntax

/-! ## The arrays of a descriptor -/

namespace Descriptor

mutual

/-- The lengths of the arrays in a type, in reading order. -/
def lengths : Descriptor → List (Option Nat)
  | .array element length => element.lengths ++ [length]
  | .mapping key value => key.lengths ++ value.lengths
  | .tuple _ members => lengthsAmong members
  | .primitive _ => []
  | .unresolved _ => []
  | .unspecified => []

/-- The lengths of the arrays in the members of a struct. -/
def lengthsAmong : List (Text × Descriptor) → List (Option Nat)
  | [] => []
  | (_, type) :: more => lengths type ++ lengthsAmong more

end

theorem lengths_foldl_array (d : Descriptor) (sizes : List (Option Nat)) :
    (sizes.foldl .array d).lengths = d.lengths ++ sizes := by
  induction sizes generalizing d with
  | nil => simp
  | cons size sizes ih =>
    rw [List.foldl_cons, ih, lengths, List.append_assoc]
    rfl

theorem lengths_of_isUnresolved {d : Descriptor} (isUnresolved : d.isUnresolved = true) :
    d.lengths = [] := by
  cases d with
  | unresolved _ => rfl
  | _ => cases isUnresolved

end Descriptor

/-! ## The brackets of a type -/

/-- What stands between a pair of brackets, and whether the pair is read as a dimension. -/
structure Bracket where
  content : Text
  isDimension : Bool
deriving DecidableEq, Repr

/-- What stands behind each opening bracket of a text, up to the next bracket. -/
def bracketContents : Text → List Text
  | [] => []
  | c :: s =>
    if c = '[' then trim (s.takeWhile fun d => d ≠ '[' && d ≠ ']') :: bracketContents s
    else bracketContents s

namespace Bracket

/-- The brackets of an expression, and those behind its names. -/
def ofExpr (ofName : Text → List Bracket) : Expr → List Bracket
  | .name text => ofName text
  | .array element sizes => ofExpr ofName element ++ sizes.map (⟨·, true⟩)
  | .mapping key value => ofExpr ofName key ++ ofExpr ofName value
  | .unknown _ => []
  | .endless _ => []

/-- The brackets of a text that are left over when it is read as an expression. -/
def leftOver (text : Text) (e : Expr) : List Bracket :=
  ((bracketContents (normalized text)).drop (ofExpr (fun _ => []) e).length).map (⟨·, false⟩)

/-- The brackets of a type. -/
def ofType (ofName : Text → List Bracket) (type : Text) : List Bracket :=
  ofExpr ofName (Expr.ofText type) ++ leftOver type (Expr.ofText type)

/-- The brackets in the definition of a name, when the names in `visiting` are being expanded. -/
def ofName (r : Registry) (visiting : List Text) (text : Text) : List Bracket :=
  match _hd : r.definition? (unqualified text) with
  | some (.struct members) =>
    if _hv : unqualified text ∈ visiting then []
    else members.flatMap fun m => ofType (ofName r (unqualified text :: visiting)) m.type
  | some (.alias underlying) =>
    if _hv : unqualified text ∈ visiting then []
    else ofType (ofName r (unqualified text :: visiting)) underlying
  | some .enumeration => []
  | some .contract => []
  | none => []
termination_by (r.unvisited visiting).length
decreasing_by
  · exact Registry.length_unvisited_lt (Registry.mem_referringNames_of_struct _hd) _hv
  · exact Registry.length_unvisited_lt (Registry.mem_referringNames_of_alias _hd) _hv

/-- The brackets of a parameter, storage locations and layout aside. -/
def ofClause (r : Registry) (clause : Text) : List Bracket :=
  let e := Expr.ofText (Clause.ofText clause).type
  ofExpr (ofName r []) e ++ leftOver clause e

-- what is no word between brackets is no size
example : ofClause .empty "uint256[2*3] memory a".toList = [⟨"2*3".toList, false⟩] := by
  decide +kernel

section Names

variable {r : Registry} {visiting : List Text} {text : Text}

theorem ofName_struct {members : List Member}
    (isStruct : r.definition? (unqualified text) = some (.struct members))
    (fresh : unqualified text ∉ visiting) :
    ofName r visiting text =
      members.flatMap fun m => ofType (ofName r (unqualified text :: visiting)) m.type := by
  rw [ofName]
  split <;> simp_all

theorem ofName_alias {underlying : Text}
    (isAlias : r.definition? (unqualified text) = some (.alias underlying))
    (fresh : unqualified text ∉ visiting) :
    ofName r visiting text = ofType (ofName r (unqualified text :: visiting)) underlying := by
  rw [ofName]
  split <;> simp_all

theorem ofName_visited (visited : unqualified text ∈ visiting) : ofName r visiting text = [] := by
  rw [ofName]
  split <;> simp_all

theorem ofName_final
    (isFinal : ∀ definition ∈ r.definition? (unqualified text),
      definition = .enumeration ∨ definition = .contract) :
    ofName r visiting text = [] := by
  rw [ofName]
  split <;> simp_all

end Names

/-- The length that a size gives an array. -/
def length? (b : Bracket) : Option Nat :=
  if b.content ≠ [] ∧ b.content.all isDigit then some (decimalNumber b.content) else none

/-- The lengths that the dimensions among some brackets give. -/
def lengths (bs : List Bracket) : List (Option Nat) :=
  (bs.filter (·.isDimension)).map length?

@[simp] theorem lengths_nil : lengths [] = [] := rfl

@[simp] theorem lengths_append (xs ys : List Bracket) :
    lengths (xs ++ ys) = lengths xs ++ lengths ys := by
  simp [lengths]

@[simp] theorem lengths_leftOver (text : Text) (e : Expr) : lengths (leftOver text e) = [] := by
  unfold lengths
  rw [List.map_eq_nil_iff, List.filter_eq_nil_iff]
  intro b member
  obtain ⟨_, _, rfl⟩ := List.mem_map.1 member
  exact Bool.false_ne_true

end Bracket

/-! ## Resolving keeps the dimensions -/

theorem length?_of_arrayLength {size : Text} {length : Option Nat}
    (reads : arrayLength size = .ok length) : length = Bracket.length? ⟨size, true⟩ := by
  unfold Bracket.length?
  cases length with
  | none => rw [if_neg (arrayLength_eq_none_iff.1 reads)]
  | some n =>
    obtain ⟨isNumber, _, _, rfl⟩ := arrayLength_eq_some_iff.1 reads
    rw [if_pos isNumber]

theorem lengths_of_mapM_arrayLength {sizes : List Text} {lengths : List (Option Nat)}
    (reads : sizes.mapM arrayLength = .ok lengths) :
    lengths = Bracket.lengths (sizes.map (⟨·, true⟩)) := by
  have same := mapM_eq_ok_iff.1 reads
  clear reads
  induction sizes generalizing lengths with
  | nil =>
    cases lengths with
    | nil => rfl
    | cons _ _ => cases same
  | cons size sizes ih =>
    cases lengths with
    | nil => cases same
    | cons length lengths =>
      obtain ⟨first, rest⟩ := List.cons.inj same
      rw [length?_of_arrayLength first, ih rest]
      rfl

theorem lengths_of_resolveWith {resolve : Text → Except ResolutionError Descriptor}
    {ofName : Text → List Bracket}
    (names : ∀ text d, resolve text = .ok d → d.lengths = Bracket.lengths (ofName text))
    {e : Expr} {d : Descriptor} (resolves : e.resolveWith resolve = .ok d) :
    d.lengths = Bracket.lengths (Bracket.ofExpr ofName e) := by
  induction e generalizing d with
  | name text => exact names text d resolves
  | array element sizes ih =>
    obtain ⟨lengths, type, reads, resolvesElement, rfl⟩ := Expr.resolveWith_array_eq_ok_iff.1 resolves
    rw [Descriptor.lengths_foldl_array, ih resolvesElement, lengths_of_mapM_arrayLength reads,
      Bracket.ofExpr, Bracket.lengths_append]
  | mapping key value ihKey ihValue =>
    obtain ⟨keyType, valueType, resolvesKey, resolvesValue, rfl⟩ := Expr.resolveWith_mapping_eq_ok_iff.1 resolves
    rw [Descriptor.lengths, ihKey resolvesKey, ihValue resolvesValue, Bracket.ofExpr,
      Bracket.lengths_append]
  | unknown text =>
    cases resolves
    rfl
  | endless text => cases resolves

theorem lengths_of_resolveMembers {resolve : Text → Except ResolutionError Descriptor}
    {ofName : Text → List Bracket}
    (names : ∀ text d, resolve text = .ok d → d.lengths = Bracket.lengths (ofName text))
    {members : List Member} {resolved : List (Text × Descriptor)}
    (resolves : Registry.resolveMembers resolve members = .ok resolved) :
    Descriptor.lengthsAmong resolved =
      Bracket.lengths (members.flatMap fun m => Bracket.ofType ofName m.type) := by
  induction members generalizing resolved with
  | nil =>
    cases resolves
    rfl
  | cons m more ih =>
    obtain ⟨type, rest, resolvesType, resolvesRest, rfl⟩ := Expr.resolveMembers_cons_eq_ok_iff.1 resolves
    rw [Descriptor.lengthsAmong, lengths_of_resolveWith names resolvesType, ih resolvesRest]
    simp [Bracket.ofType]

/-- The arrays of a resolved name are the dimensions in its definition. -/
theorem lengths_of_resolveName {r : Registry} {visiting : List Text} {text : Text} {d : Descriptor}
    (resolves : r.resolveName visiting text = .ok d) :
    d.lengths = Bracket.lengths (Bracket.ofName r visiting text) := by
  -- names that are not opened have no dimensions; the others have those of the types in their definition
  fun_induction Registry.resolveName r visiting text generalizing d with
  | case1 visiting text isEnum =>
    cases pure_eq_ok_iff.1 resolves
    rw [Bracket.ofName_final (by simp [isEnum])]
    rfl
  | case2 visiting text members isStruct visited =>
    cases pure_eq_ok_iff.1 resolves
    rw [Bracket.ofName_visited visited]
    rfl
  | case3 visiting text members isStruct fresh ih =>
    obtain ⟨resolved, resolvesMembers, whole⟩ := bind_eq_ok_iff.1 resolves
    cases pure_eq_ok_iff.1 whole
    rw [Bracket.ofName_struct isStruct fresh]
    exact lengths_of_resolveMembers (fun _ _ => ih _) resolvesMembers
  | case4 visiting text underlying isAlias visited =>
    cases pure_eq_ok_iff.1 resolves
    rw [Bracket.ofName_visited visited]
    rfl
  | case5 visiting text underlying isAlias fresh ih =>
    obtain ⟨type, resolvesType, whole⟩ := bind_eq_ok_iff.1 resolves
    have known := lengths_of_resolveWith (fun _ _ => ih _) resolvesType
    rw [Bracket.ofName_alias isAlias fresh, Bracket.ofType, Bracket.lengths_append,
      Bracket.lengths_leftOver, List.append_nil, ← known]
    cases pure_eq_ok_iff.1 whole
    split
    · rename_i isUnresolved
      exact (Descriptor.lengths_of_isUnresolved isUnresolved).symm
    · rfl
  | case6 visiting text isContract =>
    cases pure_eq_ok_iff.1 resolves
    rw [Bracket.ofName_final (by simp [isContract])]
    rfl
  | case7 visiting text undefined =>
    cases pure_eq_ok_iff.1 resolves
    rw [Bracket.ofName_final (by simp [undefined])]
    split <;> rfl

/-! ## What is written is what is read -/

/-- A length that says what stands between the brackets: none between empty ones, and a number
between others. -/
def IsRead (b : Bracket) (length : Option Nat) : Prop :=
  (b.content = [] ∧ length = none) ∨
    (b.content ≠ [] ∧ b.content.all isDigit = true ∧ length = some (decimalNumber b.content))

theorem isRead_length?_iff {b : Bracket} :
    IsRead b b.length? ↔ b.content.all isDigit = true := by
  unfold IsRead Bracket.length?
  by_cases empty : b.content = []
  · simp [empty]
  · by_cases digits_ : b.content.all isDigit = true
    · simp [empty, digits_]
    · simp [empty, digits_]

theorem forall₂_isRead_lengths_iff {bs : List Bracket} :
    List.Forall₂ IsRead bs (Bracket.lengths bs) ↔
      ∀ b ∈ bs, b.isDimension = true ∧ b.content.all isDigit = true := by
  constructor
  · intro reads
    have count := reads.length_eq
    unfold Bracket.lengths at count reads
    rw [List.length_map] at count
    have dimensions : bs.filter (·.isDimension) = bs :=
      List.filter_eq_self.2 (List.length_filter_eq_length_iff.1 count.symm)
    rw [dimensions, List.forall₂_map_right_iff, List.forall₂_same] at reads
    intro b member
    exact ⟨List.filter_eq_self.1 dimensions b member, isRead_length?_iff.1 (reads b member)⟩
  · intro all
    have dimensions : bs.filter (·.isDimension) = bs :=
      List.filter_eq_self.2 fun b member => (all b member).1
    unfold Bracket.lengths
    rw [dimensions, List.forall₂_map_right_iff, List.forall₂_same]
    intro b member
    exact isRead_length?_iff.2 (all b member).2

theorem lengths_of_paramOfClause? {r : Registry} {clause : Text} {p : Param}
    (resolves : paramOfClause? r clause = .ok (some p)) :
    p.descriptor.lengths = Bracket.lengths (Bracket.ofClause r clause) := by
  obtain ⟨_, isType, described⟩ := paramOfClause?_eq_ok resolves
  rw [isType] at described
  unfold Bracket.ofClause
  simp only [Bracket.lengths_append, Bracket.lengths_leftOver, List.append_nil]
  exact lengths_of_resolveWith (fun _ _ => lengths_of_resolveName) described

/-- The lengths in a declaration say what is written in the brackets of its header exactly if every
pair of brackets is a dimension and holds nothing but digits. -/
theorem forall₂_isRead_iff {shared : Option Registry} {source : Text} {e : Extraction}
    {d : Declaration} (succeeds : extract .default shared source = .ok e)
    (member : d ∈ e.declarations) (isFunction : d.kind = .function) :
    let r := registryOf (Comment.strip source) shared
    ∃ f ∈ Candidate.reportedFunctions .default (Comment.strip source), IsDeclared r f d ∧
      ∀ clause ∈ f.clauses, ∀ p, paramOfClause? r clause = .ok (some p) →
        p ∈ d.inputs ++ d.outputs ∧
        (List.Forall₂ IsRead (Bracket.ofClause r clause) p.descriptor.lengths ↔
          ∀ b ∈ Bracket.ofClause r clause, b.isDimension = true ∧ b.content.all isDigit = true) := by
  obtain ⟨f, isReported, declared⟩ := exists_header_of_function succeeds member isFunction
  refine ⟨f, isReported, declared, fun clause isClause p isParam => ⟨?_, ?_⟩⟩
  · exact mem_of_mem_clauses declared isClause isParam
  · rw [lengths_of_paramOfClause? isParam]
    exact forall₂_isRead_lengths_iff

theorem forall₂_isRead_number :
    let source :=
      "contract C { function f(uint256[3] memory a) public view returns (uint256) {} }".toList
    let r := registryOf (Comment.strip source) none
    ∃ e d, extract .default none source = .ok e ∧ d ∈ e.declarations ∧ d.kind = .function ∧
      ∃ f ∈ Candidate.reportedFunctions .default (Comment.strip source), IsDeclared r f d ∧
        ∀ clause ∈ f.clauses, ∀ p, paramOfClause? r clause = .ok (some p) →
          p ∈ d.inputs ++ d.outputs ∧
          (List.Forall₂ IsRead (Bracket.ofClause r clause) p.descriptor.lengths ↔
            ∀ b ∈ Bracket.ofClause r clause,
              b.isDimension = true ∧ b.content.all isDigit = true) := by
  intro source r
  have shows : (extract .default none source).toOption.map
      (fun e => e.declarations.map Declaration.kind) = some [.function] := by
    decide +kernel
  obtain ⟨e, d, succeeds, member, isFunction⟩ := exists_of_view _ _ shows
  exact ⟨e, d, succeeds, member, isFunction, forall₂_isRead_iff succeeds member isFunction⟩

/-- A constant between the brackets makes the array dynamic. -/
theorem lengths_of_constant :
    let source :=
      "contract C { uint constant N = 3; function f(uint[N] memory a) public view {} }".toList
    (Candidate.reportedFunctions .default (Comment.strip source)).map FunctionHeader.clauses =
        [["uint[N] memory a".toList]] ∧
      Bracket.ofClause (registryOf (Comment.strip source) none) "uint[N] memory a".toList =
        [⟨"N".toList, true⟩] ∧
      (extract .default none source).toOption.map (fun e => e.declarations.map fun d =>
          d.inputs.map fun p => p.descriptor.lengths) = some [[[none]]] := by
  refine ⟨by decide +kernel, by decide +kernel, by decide +kernel⟩

end ContractInterface
