import ContractInterface.Declaration.Extraction
import ContractInterface.Proofs.Lexemes

/-! # What extraction finds in a source

Extraction reads a source for the types that it defines and for its candidates, and of the place at
which a candidate stands it uses the line only.  So two sources in which the same is found have the same
interface (`extract_eq_of_findings`).
-/

namespace ContractInterface

open Text TypeSyntax Delimiter

/-! ## Lines -/

namespace Comment

theorem lineAt_append_of_le {s : Text} {index : Nat} (within : index ≤ s.length) (t : Text) :
    lineAt (s ++ t) index = lineAt s index := by
  unfold lineAt
  rw [List.take_append_of_le_length within]

theorem lineAt_append (s t : Text) (index : Nat) :
    lineAt (s ++ t) (s.length + index) = s.count '\n' + lineAt t index := by
  unfold lineAt
  rw [List.take_length_add_append, List.count_append]
  omega

/-- A text without line breaks stands in one line. -/
theorem lineAt_of_not_mem {s : Text} (unbroken : '\n' ∉ s) (index : Nat) : lineAt s index = 1 := by
  have unbroken' : '\n' ∉ s.take index := fun member => unbroken (List.mem_of_mem_take member)
  unfold lineAt
  rw [List.count_eq_zero.2 unbroken']

end Comment

/-! ## Candidates apart from their place -/

/-- A variable apart from where it starts. -/
def StateVariable.atStart (v : StateVariable) : StateVariable :=
  { v with index := 0 }

/-- A variable that starts further behind. -/
def StateVariable.shifted (n : Nat) (v : StateVariable) : StateVariable :=
  { v with index := v.index + n }

/-- A header apart from where it starts. -/
def FunctionHeader.atStart (f : FunctionHeader) : FunctionHeader :=
  { f with index := 0 }

/-- A header that starts further behind. -/
def FunctionHeader.shifted (n : Nat) (f : FunctionHeader) : FunctionHeader :=
  { f with index := f.index + n }

namespace Candidate

/-- A candidate apart from where it starts. -/
def atStart : Candidate → Candidate
  | .variable v => .variable v.atStart
  | .function f => .function f.atStart

/-- A candidate that starts further behind. -/
def shifted (n : Nat) : Candidate → Candidate
  | .variable v => .variable (v.shifted n)
  | .function f => .function (f.shifted n)

@[simp] theorem name_atStart (c : Candidate) : c.atStart.name = c.name := by
  cases c <;> rfl

@[simp] theorem atStart_shifted (n : Nat) (c : Candidate) : (c.shifted n).atStart = c.atStart := by
  cases c <;> rfl

@[simp] theorem index_shifted (n : Nat) (c : Candidate) : (c.shifted n).index = c.index + n := by
  cases c <;> rfl

/-- A candidate apart from where it starts, with its line. -/
def placed (cleaned : Text) (c : Candidate) : Candidate × Nat :=
  (c.atStart, Comment.lineAt cleaned c.index)

/-- Whether a candidate is reported. -/
def isReported (options : Options) : Candidate → Bool
  | .variable v => v.visibility = .publicly || options.includePrivate
  | .function f => f.mutability.isQueryable && (!f.visibility.isHidden || options.includePrivate)

/-- What a source without comments declares, whether it is reported or not. -/
def found (cleaned : Text) : List Candidate :=
  (StateVariable.ofText cleaned).map .variable ++ (FunctionHeader.ofText cleaned).map .function

theorem all_eq_filter_found (options : Options) (cleaned : Text) :
    all options cleaned = (found cleaned).filter (isReported options) := by
  unfold all found
  rw [List.filter_append, List.filter_map, List.filter_map]
  rfl

theorem isReported_atStart (options : Options) (c : Candidate) :
    isReported options c.atStart = isReported options c := by
  cases c <;> rfl

/-- A view of the candidates that shows whether they are reported. -/
theorem map_all {α : Type} (view : Candidate → α) (shows : α → Bool) {options : Options}
    (reported : ∀ c, shows (view c) = isReported options c) (cleaned : Text) :
    (all options cleaned).map view = ((found cleaned).map view).filter shows := by
  rw [all_eq_filter_found, List.filter_map]
  exact congrArg (List.map view) (List.filter_congr fun c _ => (reported c).symm)

theorem map_placed_all (options : Options) (cleaned : Text) :
    (all options cleaned).map (placed cleaned) =
      ((found cleaned).map (placed cleaned)).filter fun p => isReported options p.1 :=
  map_all (placed cleaned) (fun p => isReported options p.1) (isReported_atStart options) cleaned

/-- The outcome of a candidate whose line is known. -/
def outcomeInLine (options : Options) (r : Registry) : Candidate × Nat →
    Except ResolutionError Outcome
  | (.variable v, line) => variableOutcome options r line v
  | (.function f, line) => functionOutcome options r line f

theorem outcomeInLine_placed (options : Options) (r : Registry) (cleaned : Text) (c : Candidate) :
    outcomeInLine options r (c.placed cleaned) = c.outcome options r cleaned := by
  cases c <;> rfl

/-- Which candidate is the first of its name is a matter of names. -/
theorem map_firstOfEachName_eq {α : Type} {f f' : Candidate → α}
    (named : ∀ c c', f c = f' c' → c.name = c'.name) {cs cs' : List Candidate}
    (same : cs.map f = cs'.map f') (seen : List Text) :
    (firstOfEachName seen cs).map f = (firstOfEachName seen cs').map f' := by
  have step : ∀ (seen : List Text) (c : Candidate) (more : List Candidate),
      firstOfEachName seen (c :: more) =
        if c.name ∈ seen then firstOfEachName seen more
        else c :: firstOfEachName (c.name :: seen) more := fun _ _ _ => rfl
  induction cs generalizing seen cs' with
  | nil =>
    cases cs' with
    | nil => rfl
    | cons c' more' => cases same
  | cons c more ih =>
    cases cs' with
    | nil => cases same
    | cons c' more' =>
      obtain ⟨first, others⟩ := List.cons.inj same
      rw [step, step, named c c' first]
      split
      · exact ih others seen
      · rw [List.map_cons, List.map_cons, first, ih others]

theorem map_placed_firstOfEachName {cleaned cleaned' : Text} {cs cs' : List Candidate}
    (same : cs.map (placed cleaned) = cs'.map (placed cleaned')) (seen : List Text) :
    (firstOfEachName seen cs).map (placed cleaned) =
      (firstOfEachName seen cs').map (placed cleaned') := by
  refine map_firstOfEachName_eq (fun c c' same => ?_) same seen
  rw [← name_atStart c, ← name_atStart c']
  exact congrArg (fun p => p.1.name) same

/-- The outcomes of candidates depend on what is seen of them apart from their place. -/
theorem mapM_outcome_eq (options : Options) (r : Registry) (cleaned : Text) (cs : List Candidate) :
    cs.mapM (Candidate.outcome options r cleaned) =
      (cs.map (placed cleaned)).mapM (outcomeInLine options r) := by
  rw [List.mapM_map]
  congr 1
  funext c
  exact (outcomeInLine_placed options r cleaned c).symm

end Candidate

namespace Registry

/-- The struct that a head and the text from its brace on define. -/
def structOf? (name fromBrace : Text) : Option (Text × List Member) :=
  match balanced? ['{'] ['}'] fromBrace with
  | some (body, _) => if membersOf body = [] then none else some (name, membersOf body)
  | none => none

theorem structDefinitions_eq (s : Text) :
    structDefinitions s = (locate isWordChar (readBracedHead? "struct".toList) s).filterMap
      fun found => structOf? found.2.1 found.2.2 := rfl

end Registry

/-- What is found in a source without comments: the types that it defines, and what it declares in
which line. -/
structure Findings where
  structs : List (Text × List Member)
  enums : List Text
  aliases : List (Text × Text)
  contracts : List (Text × Unit)
  interfaces : List (Text × Unit)
  candidates : List (Candidate × Nat)

def Findings.ofText (cleaned : Text) : Findings where
  structs := Registry.structDefinitions cleaned
  enums := Registry.enumNames cleaned
  aliases := Registry.aliasDefinitions cleaned
  contracts := Registry.namesOfKind .contract cleaned
  interfaces := Registry.namesOfKind .interface cleaned
  candidates := (Candidate.found cleaned).map (Candidate.placed cleaned)

/-- The registry of the types that are found. -/
def Findings.registry (f : Findings) : Registry where
  structs := Registry.empty.structs.insertAll f.structs
  enums := Registry.empty.enums.insertAll (f.enums.map (·, ()))
  aliases := Registry.empty.aliases.insertAll f.aliases
  contracts := Registry.empty.contracts.insertAll f.contracts
  interfaces := Registry.empty.interfaces.insertAll f.interfaces

/-- The registry of a stripped source holds what is found in it. -/
theorem ofSource_strip (source : Text) :
    Registry.ofSource (Comment.strip source) = (Findings.ofText (Comment.strip source)).registry := by
  unfold Registry.ofSource Registry.discover
  rw [Comment.strip_strip]
  rfl

/-- The interface of a source depends on what is found in it. -/
theorem extract_eq_of_findings {source source' : Text} (options : Options) (shared : Option Registry)
    (same : Findings.ofText (Comment.strip source) = Findings.ofText (Comment.strip source')) :
    extract options shared source = extract options shared source' := by
  have types : registryOf (Comment.strip source) shared =
      registryOf (Comment.strip source') shared := by
    unfold registryOf
    rw [ofSource_strip, ofSource_strip, same]
  have found : (Candidate.found (Comment.strip source)).map
        (Candidate.placed (Comment.strip source)) =
      (Candidate.found (Comment.strip source')).map (Candidate.placed (Comment.strip source')) :=
    congrArg Findings.candidates same
  have all : (Candidate.all options (Comment.strip source)).map
        (Candidate.placed (Comment.strip source)) =
      (Candidate.all options (Comment.strip source')).map
        (Candidate.placed (Comment.strip source')) := by
    rw [Candidate.map_placed_all, Candidate.map_placed_all, found]
  have candidates := Candidate.map_placed_firstOfEachName all []
  unfold extract
  simp only [Candidate.mapM_outcome_eq, candidates, types]

end ContractInterface
