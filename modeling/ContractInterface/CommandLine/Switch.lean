import ContractInterface.Text.Basic

/-! # Options of the command line

Every option has a long spelling behind two dashes, and some have a short one, a character behind one
dash.  An option either is a flag or takes a value.  A long spelling may be cut short as long as it
stays the start of one option only. -/

namespace ContractInterface.CommandLine

open Text

/-- An option of the command line. -/
inductive Switch where
  | help
  | output
  | stdout
  | discover
  | signatures
  | includePrivate
  | noValidate
  | verbose
deriving DecidableEq, Repr

namespace Switch

/-- All options. -/
def all : List Switch :=
  [.help, .output, .stdout, .discover, .signatures, .includePrivate, .noValidate, .verbose]

/-- The long spelling of an option, its dashes included. -/
def long : Switch → Text
  | .help => "--help".toList
  | .output => "--output".toList
  | .stdout => "--stdout".toList
  | .discover => "--discover".toList
  | .signatures => "--signatures".toList
  | .includePrivate => "--include-private".toList
  | .noValidate => "--no-validate".toList
  | .verbose => "--verbose".toList

/-- The character of an option's short spelling. -/
def short? : Switch → Option Char
  | .help => some 'h'
  | .output => some 'o'
  | .discover => some 'd'
  | .verbose => some 'v'
  | .stdout | .signatures | .includePrivate | .noValidate => none

/-- Whether an option takes a value. -/
def takesValue : Switch → Bool
  | .output | .discover => true
  | .help | .stdout | .signatures | .includePrivate | .noValidate | .verbose => false

/-- The spellings of an option, as messages show them. -/
def spellings (o : Switch) : Text :=
  match o.short? with
  | some c => '-' :: c :: '/' :: o.long
  | none => o.long

/-- The option with a short spelling. -/
def ofShort? (c : Char) : Option Switch :=
  all.find? fun o => o.short? == some c

/-- The options whose long spelling starts with a text. -/
def startingWith (s : Text) : List Switch :=
  all.filter fun o => startsWith s o.long

end Switch

/-- How the program is called. -/
def usage : Text :=
  asLine "usage: contract-interface [-h] [-o DIR] [--stdout] [-d DIR] [--signatures]".toList ++
  asLine "                          [--include-private] [--no-validate] [-v] input".toList

/-- The meaning of every argument. -/
def manual : Text :=
  usage ++ [
    "",
    "Extract the queryable interface of Solidity sources.",
    "",
    "  input                 a Solidity file, or a directory of them",
    "  -h, --help            show this text",
    "  -o, --output DIR      the output directory (abi-output unless given)",
    "  --stdout              print to standard output instead of files",
    "  -d, --discover DIR    a directory to discover types in; may be repeated",
    "  --signatures          emit signatures and selectors instead of a description",
    "  --include-private     include private and internal declarations",
    "  --no-validate         keep declarations with types that have no definition",
    "  -v, --verbose         print every diagnostic, not just the summary"].flatMap fun line =>
      asLine line.toList

end ContractInterface.CommandLine
