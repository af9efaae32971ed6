import ContractInterface.Declaration.FunctionHeader
import ContractInterface.Declaration.Getter
import ContractInterface.Declaration.StateVariable
import ContractInterface.Keccak
import ContractInterface.Registry.Discovery
import ContractInterface.Registry.Substitution
import ContractInterface.TypeSyntax.Clause

/-! # Signatures and selectors

The signature of a function is its name and the canonical types of its parameters; its selector is
the start of the signature's hash.  Signatures are read from text alone: user-defined names are
substituted first, and what is then left has to be elementary types, tuples of such types, and arrays
of either.

* `canonicalParam` is the canonical type of a parameter clause;
* `ofDefinition` is the signature of a function definition or of a bare signature;
* `ofGetter` is the signature of a state variable's getter;
* `entries` lists the signatures of a source text, `listing` shows them one to a line. -/

namespace ContractInterface

open Text TypeSyntax Delimiter

/-- Why a definition has no signature. -/
inductive SignatureError where
  | unbalancedClause (clause : Text)
  | unreadableClause (clause : Text)
  | mappingParameter
  | unknownType (type : Text)
  | notASignature (text : Text)
  | unbalancedSignature (text : Text)
deriving DecidableEq, Repr

/-- A text between double quotes, as it is. -/
def inDoubleQuotes (s : Text) : Text :=
  '"' :: s ++ ['"']

/-- The wording of an error. -/
def SignatureError.message : SignatureError → Text
  | .unbalancedClause clause => "Unbalanced parentheses in ".toList ++ inDoubleQuotes clause
  | .unreadableClause clause => "Cannot parse parameter ".toList ++ inDoubleQuotes clause
  | .mappingParameter => "Mapping types cannot appear in a function signature".toList
  | .unknownType type => "Unknown type ".toList ++ inDoubleQuotes type
  | .notASignature text => "Not a function signature: ".toList ++ inDoubleQuotes text
  | .unbalancedSignature text => "Unbalanced parentheses in ".toList ++ inDoubleQuotes text

/-- Why reading a signature stopped: the definition has none, or one of its types cannot be
resolved. -/
inductive SignatureFailure where
  | definition (cause : SignatureError)
  | resolution (cause : ResolutionError)
deriving DecidableEq, Repr

/-- The wording of a failure. -/
def SignatureFailure.message : SignatureFailure → Text
  | .definition cause => cause.message
  | .resolution cause => cause.message

namespace Signature

/-- The spelling of a function: its name and its parameter types. -/
def spell (name : Text) (types : List Text) : Text :=
  name ++ '(' :: joined [','] types ++ [')']

/-! ## Selectors -/

/-- The selector of a signature: the first four bytes of its hash in hexadecimal digits. -/
def selector (signature : Text) : Text :=
  "0x".toList ++ ((Keccak.hash (utf8Bytes signature)).take 4).flatMap fun byte =>
    hexadecimal 2 byte.toNat

/-! ## Parameters -/

/-- A text without the word `tuple` in front of a parenthesis. -/
def withoutTupleWord (s : Text) : Text :=
  match after? Abi.tupleType s with
  | some rest => if startsWith ['('] (trimStart rest) then trimStart rest else s
  | none => s

theorem length_withoutTupleWord_le (s : Text) : (withoutTupleWord s).length ≤ s.length := by
  unfold withoutTupleWord
  split
  · rename_i rest h
    have h1 := length_trimStart_le rest
    have h2 := congrArg List.length (after?_eq_some.1 h)
    simp only [List.length_append] at h2
    split <;> omega
  · exact Nat.le_refl _

/-- The size of a dimension that consists of decimal digits only, at the front of a text, and the
text behind it. -/
def decimalDimension? (s : Text) : Option (Text × Text) :=
  match trimStart s with
  | '[' :: inner =>
    let size := (trimStart inner).takeWhile isDecimal
    match trimStart ((trimStart inner).dropWhile isDecimal) with
    | ']' :: rest => some (size, rest)
    | _ => none
  | _ => none

theorem length_decimalDimension? {s size rest : Text}
    (h : decimalDimension? s = some (size, rest)) : rest.length < s.length := by
  unfold decimalDimension? at h
  split at h
  · rename_i inner hs
    simp only at h
    split at h
    · rename_i rest' heq
      simp only [Option.some.injEq, Prod.mk.injEq] at h
      have h1 := length_trimStart_le s
      have h2 := length_trimStart_le inner
      have h3 := length_dropWhile_le isDecimal (trimStart inner)
      have h4 := length_trimStart_le ((trimStart inner).dropWhile isDecimal)
      rw [hs] at h1
      rw [heq] at h4
      simp only [← h.2, List.length_cons] at h1 h4 ⊢
      omega
    · simp at h
  · simp at h

/-- The sizes of the decimal dimensions at the front of a text, and the text behind them. -/
def decimalDimensions (s : Text) : List Text × Text :=
  match _h : decimalDimension? s with
  | some (size, rest) => (size :: (decimalDimensions rest).1, (decimalDimensions rest).2)
  | none => ([], s)
termination_by s.length
decreasing_by exact length_decimalDimension? _h

/-- The suffix of a tuple type whose closing parenthesis the given text follows: dimensions, and
perhaps a parameter name, which the suffix leaves out. -/
def tupleSuffix? (s : Text) : Option Text :=
  let (sizes, behind) := decimalDimensions s
  let name := trimStart behind
  if name = [] ∨ Identifier.isIdentifier name then some (sizes.flatMap bracketed) else none

/-- The canonical type of a clause that is neither a tuple nor a mapping. -/
def canonicalPlain (clause : Text) : Except SignatureError Text :=
  let (base, sizes) := Dimension.splitTrailing (Clause.ofText clause).type
  if isElementary base then .ok (canonicalName base ++ sizes.flatMap bracketed)
  else .error (.unknownType base)

/-- A clause as signatures are read: a tuple of further clauses with a suffix, or anything else. -/
inductive ClauseShape where
  | tuple (parts : List Text) (suffix : Text)
  | plain (text : Text)
deriving DecidableEq, Repr

/-- The shape of a respaced clause that starts with a parenthesis; errors show `shown`. -/
def tupleShape (shown text : Text) : Except SignatureError ClauseShape :=
  match matchingParen? text with
  | none => .error (.unbalancedClause shown)
  | some close =>
    match tupleSuffix? (text.drop (close + 1)) with
    | none => .error (.unreadableClause shown)
    | some suffix => .ok (.tuple (splitCommas ((text.take close).drop 1)) suffix)

/-- The shape of a clause. -/
def clauseShape (clause : Text) : Except SignatureError ClauseShape :=
  let text := withoutTupleWord (normalized clause)
  if startsWith ['('] text then tupleShape (trim clause) text
  else if isMapping text then .error .mappingParameter
  else .ok (.plain text)

theorem tupleShape_eq_ok_iff {shown text : Text} {shape : ClauseShape} :
    tupleShape shown text = .ok shape ↔
      ∃ close suffix, matchingParen? text = some close ∧ tupleSuffix? (text.drop (close + 1)) = some suffix ∧
        .tuple (splitCommas ((text.take close).drop 1)) suffix = shape := by
  unfold tupleShape
  cases matchingParen? text with
  | none => simp
  | some close => cases found : tupleSuffix? (text.drop (close + 1)) <;> simp [found]

theorem clauseShape_eq_tuple_iff {clause suffix : Text} {parts : List Text} :
    clauseShape clause = .ok (.tuple parts suffix) ↔
      startsWith ['('] (withoutTupleWord (normalized clause)) = true ∧
        ∃ close, matchingParen? (withoutTupleWord (normalized clause)) = some close ∧
          tupleSuffix? ((withoutTupleWord (normalized clause)).drop (close + 1)) = some suffix ∧
            splitCommas (((withoutTupleWord (normalized clause)).take close).drop 1) = parts := by
  simp only [clauseShape]
  split
  · rename_i opens
    rw [tupleShape_eq_ok_iff, and_iff_right opens]
    refine exists_congr fun close => ⟨?_, ?_⟩
    · rintro ⟨_, closes, isSuffix, same⟩
      cases same
      exact ⟨closes, isSuffix, rfl⟩
    · rintro ⟨closes, isSuffix, rfl⟩
      exact ⟨suffix, closes, isSuffix, rfl⟩
  · rename_i other
    split <;> simp [other]

theorem clauseShape_eq_plain_iff {clause text : Text} : clauseShape clause = .ok (.plain text) ↔
    startsWith ['('] (withoutTupleWord (normalized clause)) = false ∧
      isMapping (withoutTupleWord (normalized clause)) = false ∧ withoutTupleWord (normalized clause) = text := by
  simp only [clauseShape]
  split
  · rename_i opens
    simp [tupleShape_eq_ok_iff, opens]
  · rename_i other
    split
    · rename_i mapping
      simp [mapping]
    · rename_i plain
      simp [other, plain]

theorem length_lt_of_clauseShape {clause suffix part : Text} {parts : List Text}
    (h : clauseShape clause = .ok (.tuple parts suffix)) (hp : part ∈ parts) :
    part.length < clause.length := by
  obtain ⟨_, close, hclose, _, rfl⟩ := clauseShape_eq_tuple_iff.1 h
  have h1 := matchingParen?_lt hclose
  have h2 := length_le_of_mem_splitTopLevel hp
  have h3 := length_withoutTupleWord_le (normalized clause)
  have h4 := length_normalized_le clause
  simp only [List.length_drop, List.length_take] at h2
  omega

/-- The canonical type of a parameter clause. -/
def canonicalParam (clause : Text) : Except SignatureError Text :=
  match _h : clauseShape clause with
  | .error cause => .error cause
  | .ok (.plain text) => canonicalPlain text
  | .ok (.tuple parts suffix) => do
    let types ← parts.attach.mapM fun part => canonicalParam part.1
    return '(' :: joined [','] types ++ ')' :: suffix
termination_by clause.length
decreasing_by exact length_lt_of_clauseShape _h part.2

/-! ## Definitions -/

/-- The name of a function and the text from its parenthesis on, at the front of a text without the
keyword. -/
def nameAndParen? (s : Text) : Option (Text × Text) :=
  match Identifier.leading? s with
  | some (name, behind) =>
    if startsWith ['('] (trimStart behind) then some (name, trimStart behind) else none
  | none => none

/-- The name of a function and the text from its parenthesis on.  The word `function` in front of the
name is optional, and may itself be the name. -/
def head? (s : Text) : Option (Text × Text) :=
  let withKeyword :=
    match after? "function".toList s with
    | some rest => if rest.head?.any isBlank then nameAndParen? (trimStart rest) else none
    | none => none
  -- a function may be called `function`
  withKeyword.or (nameAndParen? s)

/-- A definition on one line, without the semicolons behind it. -/
def statementText (definition : Text) : Text :=
  trim ((spaced definition).reverse.dropWhile (· == ';')).reverse

/-- The types of a registry substituted in a text; without a registry it stays as it is. -/
def substituteWith (registry : Option Registry) (s : Text) : Except SignatureFailure Text :=
  match registry with
  | some r => (r.substitute s).mapError .resolution
  | none => .ok s

/-- The signature of a function definition or of a bare signature.  What follows the parameter list
does not matter. -/
def ofDefinition (definition : Text) (registry : Option Registry) :
    Except SignatureFailure Text := do
  let text := statementText definition
  match head? text with
  | none => throw (.definition (.notASignature text))
  | some (name, fromParen) =>
    match parenthesised? fromParen with
    | none => throw (.definition (.unbalancedSignature text))
    | some (params, _) =>
      let substituted ← substituteWith registry params
      let types ← ((splitCommas substituted).mapM canonicalParam).mapError .definition
      return spell name types

/-- The signature of a getter with the given key types. -/
def ofGetter (name : Text) (keys : List Text) (registry : Option Registry) :
    Except SignatureFailure Text := do
  let substituted ← keys.mapM (substituteWith registry)
  let types ← (substituted.mapM canonicalParam).mapError .definition
  return spell name types

/-! ## Source texts -/

/-- A definition with its signature and selector, or with the reason why it has none. -/
structure Entry where
  definition : Text
  signature : Text
  selector : Text
  error : Option SignatureError
deriving DecidableEq, Repr

/-- The entry of a definition.  A type that cannot be resolved is no matter of the definition alone
and is passed on. -/
def entry (definition : Text) (signature : Except SignatureFailure Text) :
    Except ResolutionError Entry :=
  match signature with
  | .ok text => .ok ⟨definition, text, selector text, none⟩
  | .error (.definition cause) => .ok ⟨definition, [], [], some cause⟩
  | .error (.resolution cause) => .error cause

/-- The entries of the functions in a text without comments. -/
def functionEntries (cleaned : Text) (r : Registry) : Except ResolutionError (List Entry) :=
  (FunctionHeader.definitions cleaned).mapM fun definition =>
    entry definition (ofDefinition definition (some r))

/-- The entry of a statement, if it declares a public state variable. -/
def entryOfStatement? (r : Registry) (statement : Statement) : Except ResolutionError (Option Entry) :=
  match StateVariable.ofStatement? statement.text statement.index with
  | some v =>
    if v.visibility = .publicly then do
      let getter ← Getter.ofType v.type
      return some (← entry (spaced statement.text) (ofGetter v.name getter.keys (some r)))
    else return none
  | none => return none

/-- The entries of the public state variables in a text without comments. -/
def getterEntries (cleaned : Text) (r : Registry) : Except ResolutionError (List Entry) := do
  return (← (Statement.ofText cleaned).mapM (entryOfStatement? r)).filterMap id

/-- The entries of the lines of a text that hold a parenthesis, each read as a bare signature. -/
def lineEntries (cleaned : Text) (r : Registry) : Except ResolutionError (List Entry) :=
  (((fields '\n' cleaned).map trim).filter (·.contains '(')).mapM fun line =>
    entry line (ofDefinition line (some r))

/-- The signatures of all functions and public getters of a source text.  A text with neither is read
as a list of bare signatures.  The source's own types come before those of the shared registry. -/
def entries (source : Text) (shared : Option Registry) : Except ResolutionError (List Entry) := do
  let cleaned := Comment.strip source
  let own := Registry.ofSource cleaned
  let r := shared.elim own own.merge
  let functions ← functionEntries cleaned r
  let getters ← getterEntries cleaned r
  -- a list of bare signatures is no contract, so it has neither
  if functions ++ getters = [] then lineEntries cleaned r else return functions ++ getters

/-- One line for an entry: its selector and signature, or the definition and the error. -/
def Entry.line (e : Entry) : Text :=
  match e.error with
  | some cause => "# ".toList ++ e.definition ++ ": ".toList ++ cause.message
  | none => e.selector ++ ' ' :: e.signature

/-- The lines of several entries. -/
def listing (es : List Entry) : Text :=
  joined ['\n'] (es.map Entry.line)

end Signature

end ContractInterface
