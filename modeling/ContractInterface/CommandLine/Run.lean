import ContractInterface.CommandLine.Arguments
import ContractInterface.Session

/-! # Running a command line

A run reads its arguments and then works in one session, on a single file or on a directory.  What it
renders is printed or stored, and a report on the diagnostics ends it.

A failure ends a run at once.  What has been printed and stored until then stays. -/

namespace ContractInterface.CommandLine

open Text

/-- How a run ends. -/
inductive Ending where
  | finished
  | invalidInput
  | refused (cause : Refusal)
  | failed (cause : Failure)
deriving DecidableEq, Repr

/-- The exit code of an ending. -/
def Ending.exitCode : Ending → Nat
  | .finished | .refused .help => 0
  | .invalidInput | .failed _ => 1
  | .refused (.usage _) => 2

/-- What a run leaves behind. -/
structure Result where
  ending : Ending
  stdout : Text
  stderr : Text
  tree : FileTree
deriving Repr

/-- The result of a run that ends with a session. -/
def Result.ofSession (ending : Ending) (s : Session) : Result :=
  ⟨ending, s.stdout, s.stderr, s.tree⟩

namespace Request

/-- The path of the input. -/
def path (r : Request) : Path :=
  Path.ofText r.input

/-- The extraction options of a request. -/
def options (r : Request) : Options :=
  ⟨r.choices.includePrivate, !r.choices.noValidate⟩

/-- What a request wants rendered. -/
def rendering (r : Request) : Rendering :=
  if r.choices.signatures then .selectors else .interface

/-- The directories to discover types in: those that are named, or else the directory `given`. -/
def directories (r : Request) (given : Path) : List Text :=
  if r.choices.discoveryDirectories = [] then [given.toText] else r.choices.discoveryDirectories

/-- The session of a request, with a source directory. -/
def session (r : Request) (tree : FileTree) (source : Path) : Session :=
  .start ⟨source, Path.ofText r.choices.outputDirectory, r.options, r.choices.verbose⟩ tree
    (r.directories source)

/-- Where the rendering of a single file is stored: in the output directory itself. -/
def outputPath (r : Request) : Path :=
  (Path.ofText r.choices.outputDirectory).append
    ⟨[], [(r.path.withSuffix r.rendering.suffix).name]⟩

/-- The rendering of a single file. -/
def renderFile (r : Request) (s : Session) : Except Failure Outputs × Session :=
  match s.render r.rendering r.path.toText with
  | .ok (content, s) => (.ok [(r.outputPath, content)], s)
  | .error cause => (.error cause, s)

/-- What is printed for a single file: its rendering alone. -/
def printedFile (outputs : Outputs) : Text :=
  outputs.flatMap fun (_, content) => asLine content

/-- What is printed for a directory: every rendering below the path of its file. -/
def printedDirectory (outputs : Outputs) : Text :=
  outputs.flatMap fun (path, content) => asLine ("// ".toList ++ path.toText) ++ asLine content

/-- Prints or stores what was rendered, and reports on the diagnostics. -/
def deliver (r : Request) (printed : Outputs → Text) :
    Except Failure Outputs × Session → Result
  | (.error cause, s) => .ofSession (.failed cause) s
  | (.ok outputs, s) =>
    if r.choices.toStdout then .ofSession .finished (s.print (printed outputs)).printReport
    else
      match s.writeOutput outputs with
      | (.ok (), s) => .ofSession .finished s.printReport
      | (.error cause, s) => .ofSession (.failed cause) s

/-- Runs a request. -/
def run (r : Request) (tree : FileTree) : Result :=
  if tree.isFile r.path.toText then
    r.deliver printedFile (r.renderFile (r.session tree r.path.parent))
  else if tree.isDirectory r.path.toText then
    r.deliver printedDirectory
      ((r.session tree r.path).extractDirectory .sources r.rendering)
  else
    ⟨.invalidInput, [],
      asLine ("Error: ".toList ++ r.input ++ " is not a valid file or directory".toList), tree⟩

end Request

/-- The result of a run that does not start. -/
def refused (tree : FileTree) : Refusal → Result
  | .help => ⟨.refused .help, manual, [], tree⟩
  | .usage cause =>
    ⟨.refused (.usage cause), [], usage ++ asLine ("error: ".toList ++ cause.message), tree⟩

/-- Runs a command line on the files of a tree. -/
def run (tree : FileTree) (arguments : List Text) : Result :=
  match Request.ofArguments arguments with
  | .ok request => request.run tree
  | .error refusal => refused tree refusal

end ContractInterface.CommandLine
