import ContractInterface.Comment
import ContractInterface.Registry.Basic
import ContractInterface.TypeSyntax.Mapping

/-! # Discovering types

Type definitions are found by their heads: a keyword standing as a whole word, a blank, the name, and
what has to follow it.

* an enum is `enum Name {`, a struct `struct Name {` with a body that closes;
* an alias is `type Name is Other;`;
* a contract or interface needs its name only.  A library has a head too, but it is no type.

The members of a struct are the pieces of its body between semicolons that end in an identifier set
off by a blank. -/

namespace ContractInterface.Registry

open Text Delimiter

/-! ## Heads -/

/-- The name that `keyword` and a blank introduce, followed, blanks aside, by an opening brace: the
name and the text from the brace on. -/
def bracedHead? (keyword word rest : Text) : Option (Text × Text) :=
  if word = keyword then
    match Identifier.afterBlanks? rest with
    | some (name, behind) =>
      if startsWith ['{'] (trimStart behind) then some (name, trimStart behind) else none
    | none => none
  else none

theorem bracedHead?_eq_some_iff {keyword word rest name body : Text} :
    bracedHead? keyword word rest = some (name, body) ↔
      word = keyword ∧ ∃ behind, Identifier.afterBlanks? rest = some (name, behind) ∧
        startsWith ['{'] (trimStart behind) = true ∧ trimStart behind = body := by
  unfold bracedHead?
  rw [Option.ite_none_right_eq_some]
  refine and_congr_right fun _ => ?_
  split
  · rename_i name' behind isName
    simp only [isName, Option.some.injEq, Prod.mk.injEq, Option.ite_none_right_eq_some]
    exact ⟨fun ⟨opens, isName, isBody⟩ => ⟨behind, ⟨isName, rfl⟩, opens, isBody⟩,
      fun ⟨_, ⟨isName, rfl⟩, opens, isBody⟩ => ⟨opens, isName, isBody⟩⟩
  · rename_i none_
    simp [none_]

/-- A braced head as a reader: it takes everything up to and with the brace. -/
def readBracedHead? (keyword word rest : Text) : Option ((Text × Text) × Nat) :=
  (bracedHead? keyword word rest).map fun (name, body) =>
    ((name, body), rest.length - body.length + 1)

/-- A character that the name of an underlying type may go on with. -/
def isUnderlyingMember (c : Char) : Bool :=
  Identifier.isMember c || c == '.'

/-- The dotted name at the front of a text, and the text behind it. -/
def dottedName? : Text → Option (Text × Text)
  | [] => none
  | c :: s =>
    if Identifier.isStart c then
      some (c :: s.takeWhile isUnderlyingMember, s.dropWhile isUnderlyingMember)
    else none

/-- A text without the blanks in front, of which there has to be one. -/
def dropBlanks? : Text → Option Text
  | c :: s => if isBlank c then some (trimStart s) else none
  | [] => none

/-- The head of an alias: its name, its underlying type, and what is left behind the semicolon. -/
def aliasHead? (word rest : Text) : Option (Text × Text × Text) :=
  if word = "type".toList then do
    let (name, behindName) ← Identifier.afterBlanks? rest
    let behindIs ← after? "is".toList (← dropBlanks? behindName)
    let (underlying, behind) ← dottedName? (← dropBlanks? behindIs)
    match trimStart behind with
    -- the semicolon may be set off by blanks
    | ';' :: last => some (name, underlying, last)
    | _ => none
  else none

theorem aliasHead?_eq_some_iff {word rest name underlying last : Text} :
    aliasHead? word rest = some (name, underlying, last) ↔
      word = "type".toList ∧ ∃ behindName fromIs behindIs fromType behind,
        Identifier.afterBlanks? rest = some (name, behindName) ∧ dropBlanks? behindName = some fromIs ∧
          after? "is".toList fromIs = some behindIs ∧ dropBlanks? behindIs = some fromType ∧
            dottedName? fromType = some (underlying, behind) ∧ trimStart behind = ';' :: last := by
  unfold aliasHead?
  rw [Option.ite_none_right_eq_some]
  refine and_congr_right fun _ => ?_
  simp only [Option.bind_eq_bind, Option.bind_eq_some_iff]
  constructor
  · rintro ⟨⟨name', behindName⟩, isName, fromIs, isFromIs, behindIs, isIs, fromType, isFromType,
      ⟨underlying', behind⟩, isType, isEnd⟩
    simp only at isEnd
    split at isEnd
    · rename_i ends
      cases isEnd
      exact ⟨behindName, fromIs, behindIs, fromType, behind, isName, isFromIs, isIs, isFromType, isType, ends⟩
    · cases isEnd
  · rintro ⟨behindName, fromIs, behindIs, fromType, behind, isName, isFromIs, isIs, isFromType, isType, ends⟩
    refine ⟨_, isName, fromIs, isFromIs, behindIs, isIs, fromType, isFromType, _, isType, ?_⟩
    simp only [ends]

/-- An alias head as a reader. -/
def readAliasHead? (word rest : Text) : Option ((Text × Text) × Nat) :=
  (aliasHead? word rest).map fun (name, underlying, last) =>
    ((name, underlying), rest.length - last.length)

/-- The kinds of contract-like definitions. -/
inductive ContractKind where
  | contract
  | interface
  | library
deriving DecidableEq, Repr

/-- The kind that a keyword introduces. -/
def contractKind? (word : Text) : Option ContractKind :=
  if word = "contract".toList then some .contract
  else if word = "interface".toList then some .interface
  else if word = "library".toList then some .library
  else none

/-- A contract head as a reader. -/
def readContractHead? (word rest : Text) : Option ((ContractKind × Text) × Nat) := do
  let kind ← contractKind? word
  let (name, behind) ← Identifier.afterBlanks? rest
  return ((kind, name), rest.length - behind.length)

/-! ## Definitions in a text without comments -/

/-- The names of the enums that a text defines. -/
def enumNames (s : Text) : List Text :=
  (locate isWordChar (readBracedHead? "enum".toList) s).map fun (_, name, _) => name

/-- The member that a piece of a struct body declares. -/
def member? (piece : Text) : Option Member :=
  let (type, name) := splitLastWord (spaced piece)
  if type ≠ [] ∧ Identifier.isIdentifier name then some ⟨name, type⟩ else none

/-- The members that a struct body declares. -/
def membersOf (body : Text) : List Member :=
  (splitTopLevel (· == ';') body).filterMap member?

/-- The structs that a text defines; one without members is none. -/
def structDefinitions (s : Text) : List (Text × List Member) :=
  (locate isWordChar (readBracedHead? "struct".toList) s).filterMap fun (_, name, fromBrace) =>
    match balanced? ['{'] ['}'] fromBrace with
    -- the body may itself be malformed; what reads as a member counts
    | some (body, _) => if membersOf body = [] then none else some (name, membersOf body)
    | none => none

/-- The aliases that a text defines. -/
def aliasDefinitions (s : Text) : List (Text × Text) :=
  (locate isWordChar readAliasHead? s).map Prod.snd

/-- The contract-like definitions of a text. -/
def contractDefinitions (s : Text) : List (ContractKind × Text) :=
  (locate isWordChar readContractHead? s).map Prod.snd

/-- The names that a text defines as contract-like definitions of one kind. -/
def namesOfKind (kind : ContractKind) (s : Text) : List (Text × Unit) :=
  (contractDefinitions s).filterMap fun (k, name) => if k = kind then some (name, ()) else none

/-! ## Sources -/

/-- A registry with the definitions of a source text added. -/
def discover (r : Registry) (source : Text) : Registry :=
  let cleaned := Comment.strip source
  { structs := r.structs.insertAll (structDefinitions cleaned)
    enums := r.enums.insertAll ((enumNames cleaned).map (·, ()))
    aliases := r.aliases.insertAll (aliasDefinitions cleaned)
    contracts := r.contracts.insertAll (namesOfKind .contract cleaned)
    interfaces := r.interfaces.insertAll (namesOfKind .interface cleaned) }

/-- The registry of one source text. -/
def ofSource (source : Text) : Registry :=
  empty.discover source

/-- The registry of several source texts, read in order. -/
def ofSources (sources : List Text) : Registry :=
  sources.foldl discover empty

end ContractInterface.Registry
