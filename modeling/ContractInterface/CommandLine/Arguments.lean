import ContractInterface.CommandLine.Switch
import ContractInterface.Text.Digit
import ContractInterface.Text.Quoted

/-! # Arguments of the command line

The command line names one input; options may stand before it and behind it.  An argument is read in
two steps.  `Argument.ofText` says what it is when it is seen alone: an operand, one long option, or
short options in a row.  `Reading.next` then gives it its part: an operand is the value of the option
in front of it if that waits for one, and else the input.

Behind two dashes alone everything is an operand.  The two dashes have to stand next to the input.

Reading does not stop at an argument that has no part.  It is told of at the end, so that an option
for help has its way before. -/

namespace ContractInterface.CommandLine

open Text

/-- What is wrong with a command line. -/
inductive UsageError where
  | ambiguous (argument : Text) (candidates : List Switch)
  | unexpectedValue (option : Switch) (value : Text)
  | missingValue (option : Switch)
  | missingInput
  | unrecognized (arguments : List Text)
deriving DecidableEq, Repr

/-- The wording of an error. -/
def UsageError.message : UsageError → Text
  | .ambiguous argument candidates =>
    "ambiguous option: ".toList ++ argument ++ " could match ".toList ++
      joined ", ".toList (candidates.map Switch.long)
  | .unexpectedValue option value =>
    "argument ".toList ++ option.spellings ++ ": ignored explicit argument ".toList ++ quoted value
  | .missingValue option =>
    "argument ".toList ++ option.spellings ++ ": expected one argument".toList
  | .missingInput => "the following arguments are required: input".toList
  | .unrecognized arguments => "unrecognized arguments: ".toList ++ joined [' '] arguments

/-- Why a command line asks for no extraction. -/
inductive Refusal where
  | help
  | usage (cause : UsageError)
deriving DecidableEq, Repr

/-! ## Single arguments -/

/-- What an argument is when it is seen alone. -/
inductive Argument where
  | operand (text : Text)
  /-- A long option, with the value behind its equals sign. -/
  | long (option : Switch) (value : Option Text)
  /-- A short option and what is attached to it, without the dash. -/
  | short (letters : Text)
  | unknown (text : Text)
deriving DecidableEq, Repr

/-- Whether a text is a number with decimal digits and perhaps a point, which a line break may
follow. -/
def isNumber (s : Text) : Bool :=
  let body := if endsWith ['\n'] s then s.dropLast else s
  match fields '.' body with
  | [whole] => whole ≠ [] && whole.all isDecimal
  | [whole, fraction] => whole.all isDecimal && fraction ≠ [] && fraction.all isDecimal
  | _ => false

namespace Argument

/-- What stands behind the first equals sign, if there is one. -/
def value? (s : Text) : Option Text :=
  match s.dropWhile (· ≠ '=') with
  | _ :: value => some value
  | [] => none

/-- An argument that starts with a dash and is no option: an operand if it is a negative number or
holds a space. -/
def notAnOption (s : Text) : Argument :=
  if isNumber (s.drop 1) ∨ ' ' ∈ s then .operand s else .unknown s

/-- What an argument is when it is seen alone. -/
def ofText (s : Text) : Except UsageError Argument :=
  match s with
  | '-' :: '-' :: _ =>
    match Switch.startingWith (s.takeWhile (· ≠ '=')) with
    | [] => .ok (notAnOption s)
    | [option] => .ok (.long option (value? s))
    | candidates => .error (.ambiguous s candidates)
  | '-' :: c :: more =>
    if (Switch.ofShort? c).isSome then .ok (.short (c :: more)) else .ok (notAnOption s)
  | _ => .ok (.operand s)

end Argument

/-- The use of an option. -/
inductive Use where
  | option (option : Switch) (value : Option Text)
  | unknown (text : Text)
deriving DecidableEq, Repr

/-- The uses in a row of short options.  A flag may be followed by further options; what follows an
option that takes a value is the value, behind an equals sign or at once. -/
def shortUses : Text → Except UsageError (List Use)
  | [] => .ok []
  | c :: rest =>
    match Switch.ofShort? c with
    | none => .ok [.unknown ('-' :: c :: rest)]
    | some option =>
      match rest with
      | [] => .ok [.option option none]
      | '=' :: value =>
        if option.takesValue then .ok [.option option (some value)]
        else .error (.unexpectedValue option value)
      | d :: _ =>
        if option.takesValue then .ok [.option option (some rest)]
        -- a dash is no option letter
        else if d = '-' then .error (.unexpectedValue option rest)
        else (shortUses rest).map (.option option none :: ·)

/-- The uses of options that an argument makes. -/
def Argument.uses : Argument → Except UsageError (List Use)
  | .operand _ => .ok []
  | .long option none => .ok [.option option none]
  | .long option (some value) =>
    if option.takesValue then .ok [.option option (some value)]
    else .error (.unexpectedValue option value)
  | .short letters => shortUses letters
  | .unknown text => .ok [.unknown text]

/-! ## Whole command lines -/

/-- What the options ask for. -/
structure Choices where
  outputDirectory : Text
  /-- The directories to discover types in; empty if none is named. -/
  discoveryDirectories : List Text
  toStdout : Bool
  signatures : Bool
  includePrivate : Bool
  noValidate : Bool
  verbose : Bool
deriving DecidableEq, Repr

namespace Choices

/-- What holds without options. -/
def default : Choices :=
  ⟨"abi-output".toList, [], false, false, false, false, false⟩

/-- The choices with a flag set. -/
def set (choices : Choices) : Switch → Choices
  | .stdout => { choices with toStdout := true }
  | .signatures => { choices with signatures := true }
  | .includePrivate => { choices with includePrivate := true }
  | .noValidate => { choices with noValidate := true }
  | .verbose => { choices with verbose := true }
  | .help | .output | .discover => choices

/-- The choices with the value of an option. -/
def setValue (choices : Choices) (value : Text) : Switch → Choices
  | .output => { choices with outputDirectory := value }
  | .discover =>
    { choices with discoveryDirectories := choices.discoveryDirectories ++ [value] }
  | .help | .stdout | .signatures | .includePrivate | .noValidate | .verbose => choices

end Choices

/-- A request for extraction. -/
structure Request where
  input : Text
  choices : Choices
deriving DecidableEq, Repr

/-- How far a command line has been read. -/
structure Reading where
  choices : Choices
  input : Option Text
  /-- Whether the input is what was read last. -/
  inputIsLast : Bool
  /-- The option that waits for its value. -/
  waiting : Option Switch
  unrecognized : List Text
deriving DecidableEq, Repr

namespace Reading

/-- The start of a command line. -/
def start : Reading :=
  ⟨.default, none, false, none, []⟩

/-- Gives an operand its part. -/
def operand (r : Reading) (text : Text) : Reading :=
  match r.waiting, r.input with
  | some option, _ => { r with choices := r.choices.setValue text option, waiting := none }
  | none, none => { r with input := some text, inputIsLast := true }
  | none, some _ => { r with unrecognized := r.unrecognized ++ [text], inputIsLast := false }

/-- Applies the use of an option. -/
def use (r : Reading) : Use → Except Refusal Reading
  | .unknown text => .ok { r with unrecognized := r.unrecognized ++ [text] }
  | .option .help _ => .error .help
  | .option option (some value) => .ok { r with choices := r.choices.setValue value option }
  | .option option none =>
    if option.takesValue then .ok { r with waiting := some option }
    else .ok { r with choices := r.choices.set option }

/-- Reads one more argument. -/
def next (r : Reading) (argument : Argument) : Except Refusal Reading :=
  match argument, r.waiting with
  | .operand text, _ => .ok (r.operand text)
  -- no option stands for a value
  | _, some option => .error (.usage (.missingValue option))
  | _, none => do
    let uses ← argument.uses.mapError .usage
    uses.foldlM use { r with inputIsLast := false }

/-- Two dashes alone, which mean nothing but have to stand next to the input. -/
def separator : Text := ['-', '-']

/-- The input, and the operands too many.  `behind` is what follows two dashes, if there are any. -/
def operands (r : Reading) (behind : Option (List Text)) : Except UsageError (Text × List Text) :=
  match r.input, behind with
  | some input, none => .ok (input, r.unrecognized)
  | some input, some more =>
    .ok (input, r.unrecognized ++ if r.inputIsLast then more else separator :: more)
  -- the dashes go unmentioned where the input follows them
  | none, some (input :: more) => .ok (input, r.unrecognized ++ more)
  | none, _ => .error .missingInput

/-- The request that a command line makes when it ends. -/
def finish (r : Reading) (behind : Option (List Text)) : Except UsageError Request := do
  if let some option := r.waiting then
    throw (.missingValue option)
  let (input, unrecognized) ← r.operands behind
  if unrecognized ≠ [] then
    throw (.unrecognized unrecognized)
  return ⟨input, r.choices⟩

end Reading

/-- What follows two dashes alone, if there are any. -/
def behindSeparator? (arguments : List Text) : Option (List Text) :=
  match arguments.dropWhile (· ≠ Reading.separator) with
  | _ :: behind => some behind
  | [] => none

/-- The request that the arguments of a command line make. -/
def Request.ofArguments (arguments : List Text) : Except Refusal Request := do
  let before ← ((arguments.takeWhile (· ≠ Reading.separator)).mapM Argument.ofText).mapError .usage
  let reading ← before.foldlM Reading.next .start
  (reading.finish (behindSeparator? arguments)).mapError .usage

end ContractInterface.CommandLine
