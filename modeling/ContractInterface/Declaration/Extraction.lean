import ContractInterface.Abi.Item
import ContractInterface.Declaration.FunctionHeader
import ContractInterface.Declaration.Getter
import ContractInterface.Declaration.StateVariable
import ContractInterface.Diagnostic
import ContractInterface.Registry.Discovery
import ContractInterface.Registry.Resolution
import ContractInterface.Signature
import ContractInterface.TypeSyntax.Clause

/-! # Extracting the queryable interface

The queryable interface of a contract consists of its public state variables, through their getters,
and of its view and pure functions.

A source is scanned for candidates: its state variables in order, then its function headers in order,
of each name the first only.  Every candidate has one outcome: it is declared, or dropped with a
diagnostic because a type in it has no meaning, or passed over because it has a result list without a
result.  `extract` collects the outcomes. -/

namespace ContractInterface

open Text TypeSyntax

/-- What to extract. -/
structure Options where
  /-- Whether private and internal declarations count as candidates. -/
  includePrivate : Bool
  /-- Whether a declaration with an unresolved type is dropped. -/
  validateTypes : Bool
deriving DecidableEq, Repr

/-- The options that hold unless others are given. -/
def Options.default : Options := ⟨false, true⟩

/-- A parameter or result: the type as the source spells it, and what it means. -/
structure Param where
  name : Text
  type : Text
  descriptor : Descriptor
deriving Repr

/-- What a declaration is in the source. -/
inductive DeclarationKind where
  | variable
  | function
deriving DecidableEq, Repr

/-- The word for a kind. -/
def DeclarationKind.word : DeclarationKind → Text
  | .variable => "variable".toList
  | .function => "function".toList

/-- An item of the queryable interface. -/
structure Declaration where
  name : Text
  inputs : List Param
  outputs : List Param
  mutability : Mutability
  kind : DeclarationKind
  line : Nat
deriving Repr

/-- The parameter of an interface description that a parameter makes. -/
def Param.toAbi (p : Param) : Abi.Parameter :=
  p.descriptor.toParameter p.name

namespace Declaration

/-- The signature of a declaration. -/
def signature (d : Declaration) : Text :=
  Signature.spell d.name (d.inputs.map fun p => p.descriptor.canonical)

/-- The selector of a declaration. -/
def selector (d : Declaration) : Text :=
  Signature.selector d.signature

/-- The item of an interface description that a declaration makes. -/
def toItem (d : Declaration) : Abi.Item where
  name := d.name
  inputs := d.inputs.map Param.toAbi
  outputs := d.outputs.map Param.toAbi
  mutability := d.mutability.keyword

end Declaration

/-! ## Candidates -/

/-- A declaration found in a source, before its types are resolved. -/
inductive Candidate where
  | variable (v : StateVariable)
  | function (f : FunctionHeader)
deriving DecidableEq, Repr

namespace Candidate

def name : Candidate → Text
  | .variable v => v.name
  | .function f => f.name

/-- The index at which a candidate starts in the source without comments. -/
def index : Candidate → Nat
  | .variable v => v.index
  | .function f => f.index

/-- The state variables that are reported. -/
def reportedVariables (options : Options) (cleaned : Text) : List StateVariable :=
  (StateVariable.ofText cleaned).filter fun v =>
    v.visibility = .publicly || options.includePrivate

/-- The functions that are reported. -/
def reportedFunctions (options : Options) (cleaned : Text) : List FunctionHeader :=
  (FunctionHeader.ofText cleaned).filter fun f =>
    f.mutability.isQueryable && (!f.visibility.isHidden || options.includePrivate)

/-- The candidates of a source without comments, state variables first. -/
def all (options : Options) (cleaned : Text) : List Candidate :=
  (reportedVariables options cleaned).map .variable ++
    (reportedFunctions options cleaned).map .function

/-- The candidates whose names are not among `seen`, of each name the first only. -/
def firstOfEachName (seen : List Text) : List Candidate → List Candidate
  | [] => []
  | c :: more =>
    if c.name ∈ seen then firstOfEachName seen more
    else c :: firstOfEachName (c.name :: seen) more

end Candidate

/-! ## Outcomes -/

/-- What becomes of a candidate. -/
inductive Outcome where
  | declared (d : Declaration)
  | dropped (d : Diagnostic)
  | passedOver
deriving Repr

/-- The first name without a meaning among the types of some parameters.  If it is empty there is
nothing to report, and the parameters count as resolved. -/
def firstUnresolved? (params : List Param) : Option Text :=
  (params.flatMap fun p => p.descriptor.unresolvedNames).head?.filter (· ≠ [])

/-- The parameters of a getter: `key1`, `key2` and so on. -/
def getterInputs (r : Registry) (number : Nat) : List Text → Except ResolutionError (List Param)
  | [] => return []
  | key :: more => do
    let descriptor ← r.describe key
    let rest ← getterInputs r (number + 1) more
    return ⟨"key".toList ++ digits number, key, descriptor⟩ :: rest

/-- The name of a result that the source does not name. -/
def valueName : Text := "value".toList

/-- The outcome of a declaration whose types are resolved.  The checks are pairs of parameters and of
the finding that a missing type among them makes, in order. -/
def checkedOutcome (options : Options) (line : Nat) (checks : List (List Param × (Text → Finding)))
    (result : Outcome) : Outcome :=
  if options.validateTypes then
    match checks.findSome? fun (params, finding) => (firstUnresolved? params).map finding with
    | some finding => .dropped ⟨finding, [], some line⟩
    | none => result
  else result

/-- The outcome of a state variable in a line. -/
def variableOutcome (options : Options) (r : Registry) (line : Nat) (v : StateVariable) :
    Except ResolutionError Outcome := do
  let getter ← Getter.ofType v.type
  let inputs ← getterInputs r 1 getter.keys
  let output : Param := ⟨valueName, getter.value, ← r.describe getter.value⟩
  return checkedOutcome options line
    [([output], .variableType v.name), (inputs, fun missing => .inputType v.name missing false)]
    (.declared ⟨v.name, inputs, [output], .view, .variable, line⟩)

/-- The parameter that a clause makes; a clause without a type makes none. -/
def paramOfClause? (r : Registry) (clause : Text) : Except ResolutionError (Option Param) :=
  let c := Clause.ofText clause
  if c.type = [] then return none
  else do
    let descriptor ← r.describe c.type
    return some ⟨c.name, c.type, descriptor⟩

/-- The parameters of a list. -/
def paramsOfList (r : Registry) (text : Text) : Except ResolutionError (List Param) := do
  return (← (Delimiter.splitCommas text).mapM (paramOfClause? r)).filterMap id

/-- The result of a function that has no result list. -/
def impliedOutput : Param :=
  ⟨valueName, "uint256".toList, .primitive "uint256".toList⟩

/-- The outcome of a function in a line. -/
def functionOutcome (options : Options) (r : Registry) (line : Nat) (f : FunctionHeader) :
    Except ResolutionError Outcome := do
  let inputs ← paramsOfList r f.params
  let outputs ← paramsOfList r (f.returns.getD [])
  let declared (results : List Param) : Outcome :=
    .declared ⟨f.name, inputs, results, f.mutability, .function, line⟩
  let result :=
    match f.returns with
    | none => declared [impliedOutput]
    -- a result list without a result gives the function no place in an interface
    | some _ => if outputs.isEmpty then .passedOver else declared outputs
  return checkedOutcome options line
    [(inputs, fun missing => .inputType f.name missing true), (outputs, .returnType f.name)] result

/-- The outcome of a candidate of a source without comments. -/
def Candidate.outcome (options : Options) (r : Registry) (cleaned : Text) (c : Candidate) :
    Except ResolutionError Outcome :=
  let line := Comment.lineAt cleaned c.index
  match c with
  | .variable v => variableOutcome options r line v
  | .function f => functionOutcome options r line f

/-! ## Extraction -/

/-- The queryable interface of a source. -/
structure Extraction where
  declarations : List Declaration
  diagnostics : List Diagnostic
deriving Repr

namespace Outcome

def declaration? : Outcome → Option Declaration
  | .declared d => some d
  | _ => none

def diagnostic? : Outcome → Option Diagnostic
  | .dropped d => some d
  | _ => none

end Outcome

namespace Extraction

/-- The outcomes collected, each kind in order. -/
def ofOutcomes (outcomes : List Outcome) : Extraction :=
  ⟨outcomes.filterMap Outcome.declaration?, outcomes.filterMap Outcome.diagnostic?⟩

/-- The items of the interface description. -/
def items (e : Extraction) : List Abi.Item :=
  e.declarations.map Declaration.toItem

/-- The messages of the diagnostics. -/
def warnings (e : Extraction) : List Text :=
  e.diagnostics.map Diagnostic.message

end Extraction

/-- The registry that a source without comments is resolved with: its own types come before those of
the shared registry. -/
def registryOf (cleaned : Text) (shared : Option Registry) : Registry :=
  shared.elim (Registry.ofSource cleaned) (Registry.ofSource cleaned).merge

/-- The queryable interface of a source. -/
def extract (options : Options) (shared : Option Registry) (source : Text) :
    Except ResolutionError Extraction := do
  let cleaned := Comment.strip source
  let r := registryOf cleaned shared
  let candidates := Candidate.firstOfEachName [] (Candidate.all options cleaned)
  return Extraction.ofOutcomes (← candidates.mapM (Candidate.outcome options r cleaned))

end ContractInterface
