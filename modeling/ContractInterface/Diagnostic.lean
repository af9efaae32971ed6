import ContractInterface.Text.Order

/-! # Diagnostics

A declaration that mentions a type without a known definition is left out of the interface, and a
diagnostic says so; this is to be expected of a source read without its imports.  A file without any
queryable declaration gets a diagnostic too.

* `Finding` is what a diagnostic reports, `Diagnostic` adds where;
* `summaryLine` counts the warnings of a run by missing type on one line, `report` prints them. -/

namespace ContractInterface

open Text

/-- How serious a diagnostic is. -/
inductive Severity where
  | warning
  | info
deriving DecidableEq, Repr

/-- The word for a severity. -/
def Severity.word : Severity → Text
  | .warning => "warning".toList
  | .info => "info".toList

/-- What a diagnostic reports. -/
inductive Finding where
  /-- A state variable was left out because of the type of its value. -/
  | variableType (subject missing : Text)
  /-- A function, or else a state variable, was left out because of the type of an input. -/
  | inputType (subject missing : Text) (isFunction : Bool)
  /-- A function was left out because of the type of a result. -/
  | returnType (subject missing : Text)
  /-- A file has nothing to query. -/
  | nothingQueryable
deriving DecidableEq, Repr

/-- A finding, with the file it was made in, if that is known, and the line. -/
structure Diagnostic where
  finding : Finding
  file : Text
  line : Option Nat
deriving DecidableEq, Repr

namespace Finding

/-- The advice that ends every warning. -/
def advice : Text :=
  "Please add the struct definition to the contract source or provide the ABI JSON.".toList

/-- A text between double quotes. -/
def named (s : Text) : Text :=
  '"' :: s ++ ['"']

def severity : Finding → Severity
  | .nothingQueryable => .info
  | _ => .warning

def code : Finding → Text
  | .variableType _ _ => "W001".toList
  | .inputType _ _ _ => "W002".toList
  | .returnType _ _ => "W003".toList
  | .nothingQueryable => "I001".toList

/-- The declaration that a finding is about; empty if there is none. -/
def subject : Finding → Text
  | .variableType subject _ => subject
  | .inputType subject _ _ => subject
  | .returnType subject _ => subject
  | .nothingQueryable => []

/-- The type without a definition; empty if there is none. -/
def missing : Finding → Text
  | .variableType _ missing => missing
  | .inputType _ missing _ => missing
  | .returnType _ missing => missing
  | .nothingQueryable => []

/-- The wording of a warning about a labelled declaration. -/
def skipping (label kind missing : Text) : Text :=
  "Skipping ".toList ++ label ++ ": Missing struct definition for ".toList ++ kind ++
    named missing ++ ". ".toList ++ advice

/-- The wording of a finding. -/
def message : Finding → Text
  | .variableType subject missing => skipping (named subject) [] missing
  | .inputType subject missing isFunction =>
    skipping ((if isFunction then "function ".toList else []) ++ named subject)
      "input type ".toList missing
  | .returnType subject missing =>
    skipping ("function ".toList ++ named subject) "return type ".toList missing
  | .nothingQueryable => "No public state variables or view/pure functions found.".toList

end Finding

namespace Diagnostic

def severity (d : Diagnostic) : Severity := d.finding.severity

def message (d : Diagnostic) : Text := d.finding.message

def isWarning (d : Diagnostic) : Bool := d.severity = .warning

/-- File and line of a diagnostic.  A line of number zero is not shown. -/
def location (d : Diagnostic) : Text :=
  match d.line with
  | some (line + 1) => d.file ++ ':' :: digits (line + 1)
  | _ => d.file

/-- A diagnostic on one line. -/
def shown (d : Diagnostic) : Text :=
  let place := if d.location = [] then [] else d.location ++ ": ".toList
  '[' :: d.severity.word ++ "] ".toList ++ place ++ d.message ++ " (".toList ++ d.finding.code ++
    [')']

/-- A diagnostic placed in a file; without a file's name it stays as it is. -/
def placedIn (file : Text) (d : Diagnostic) : Diagnostic :=
  if file = [] then d else { d with file }

/-- The missing type that a warning is counted under. -/
def group (d : Diagnostic) : Text :=
  if d.finding.missing = [] then "other".toList else d.finding.missing

/-- The groups of some warnings, in the order of their code points. -/
def groups (warnings : List Diagnostic) : List Text :=
  (warnings.map group).eraseDups.mergeSort inOrder

/-- The warnings of one group, in order. -/
def inGroup (warnings : List Diagnostic) (name : Text) : List Diagnostic :=
  warnings.filter fun d => d.group = name

/-- The number of warnings for each missing type, on one line. -/
def summaryLine (diagnostics : List Diagnostic) : Text :=
  let warnings := diagnostics.filter isWarning
  if warnings = [] then "No extraction warnings.".toList
  else "Extraction warnings: ".toList ++
    joined ", ".toList ((groups warnings).map fun name =>
      digits (inGroup warnings name).length ++ " missing ".toList ++ name)

/-- A heading with the number of diagnostics below it, and a blank line before it. -/
def heading (title : Text) (ds : List Diagnostic) : List Text :=
  [[], title ++ " (".toList ++ digits ds.length ++ "):".toList]

/-- The lines for the warnings of one group. -/
def groupLines (verbose : Bool) (warnings : List Diagnostic) (name : Text) : List Text :=
  let members := inGroup warnings name
  ("  ".toList ++ name ++ ": ".toList ++ digits members.length ++
    " declaration(s) skipped".toList) ::
    if verbose then members.map fun d => "    ".toList ++ d.shown else []

/-- The lines of a report: the warnings by missing type, and in a verbose one every diagnostic. -/
def reportLines (verbose : Bool) (diagnostics : List Diagnostic) : List Text :=
  let warnings := diagnostics.filter isWarning
  let infos := diagnostics.filter (!isWarning ·)
  (if warnings = [] then []
    else heading "Extraction warnings".toList warnings ++
      (groups warnings).flatMap (groupLines verbose warnings)) ++
  (if infos = [] ∨ verbose = false then []
    else heading "Extraction info".toList infos ++ infos.map fun d => "  ".toList ++ d.shown)

/-- A report as it is printed, every line closed by a line break. -/
def report (verbose : Bool) (diagnostics : List Diagnostic) : Text :=
  (reportLines verbose diagnostics).flatMap asLine

end Diagnostic

end ContractInterface
