import ContractInterface.Declaration.Extraction
import ContractInterface.FileTree.Basic

/-! # Sessions

A session extracts interfaces from the files of a tree.  It starts by discovering the types that some
directories define, and every file it extracts is resolved with them.

* `discover` reads the types of a directory's files into the session's registry;
* `extractFile` gives the interface of a file, `signaturesOfFile` its signatures;
* `extractDirectory` renders every file of the source directory, `writeOutput` stores what was
  rendered in the output directory.

What a session prints is kept in it.  A file that cannot be read is reported there, and discovery and
the extraction of a directory go on with the next file; a type that cannot be resolved ends them. -/

namespace ContractInterface

open Text

/-- Why a step of a session has no result. -/
inductive Failure where
  | file (cause : FileError)
  | utf8 (cause : Utf8Error)
  | resolution (cause : TypeSyntax.ResolutionError)
deriving DecidableEq, Repr

/-- The wording of a failure. -/
def Failure.message : Failure → Text
  | .file cause => cause.message
  | .utf8 cause => cause.message
  | .resolution cause => cause.message

/-- The failure of a step that needs a file which cannot be read. -/
def ReadError.toFailure : ReadError → Failure
  | .file cause => .file cause
  | .utf8 cause => .utf8 cause

/-- What is rendered for a file: the description of its interface, or its selectors. -/
inductive Rendering where
  | interface
  | selectors
deriving DecidableEq, Repr

/-- The suffix of the files that hold a rendering. -/
def Rendering.suffix : Rendering → Text
  | .interface => ".abi.json".toList
  | .selectors => ".selectors.txt".toList

/-- What a session works on, and how. -/
structure Settings where
  sourceDirectory : Path
  outputDirectory : Path
  options : Options
  verbose : Bool
deriving DecidableEq, Repr

/-- Rendered files: where each is to be stored, and its text. -/
abbrev Outputs := List (Path × Text)

/-- A session: its settings, the files it sees, what it has found, and what it has printed. -/
structure Session where
  settings : Settings
  tree : FileTree
  registry : Registry
  diagnostics : List Diagnostic
  results : List (Text × Extraction)
  stdout : Text
  stderr : Text
deriving Repr

namespace Session

/-- Prints on standard output. -/
def print (s : Session) (text : Text) : Session :=
  { s with stdout := s.stdout ++ text }

/-- Prints on standard error. -/
def complain (s : Session) (text : Text) : Session :=
  { s with stderr := s.stderr ++ text }

/-! ## Discovery -/

/-- The line that reports a file left out of discovery. -/
def discoveryWarning (path : Path) (cause : ReadError) : Text :=
  asLine ("Warning: Could not read ".toList ++ path.toText ++ " for type discovery: ".toList ++
    cause.message)

/-- Adds the types that a file defines. -/
def discoverFile (s : Session) (path : Path) : Session :=
  match s.tree.read path.toText with
  | .ok source => { s with registry := s.registry.discover source }
  | .error cause => s.print (discoveryWarning path cause)

/-- Adds the types that the fitting files of a directory define, file by file. -/
def discover (s : Session) (directory : Text) (pattern : Pattern) : Session :=
  (s.tree.matching (Path.ofText directory) pattern).foldl discoverFile s

/-- A session that has discovered the types of some directories. -/
def start (settings : Settings) (tree : FileTree) (directories : List Text) : Session :=
  directories.foldl (fun s directory => s.discover directory .sources)
    ⟨settings, tree, .empty, [], [], [], []⟩

/-! ## Single files -/

/-- The text of a file. -/
def source (s : Session) (path : Text) : Except Failure Text :=
  (s.tree.read path).mapError ReadError.toFailure

/-- The diagnostics of a file, each placed in it; a file without declarations gets one more. -/
def diagnosticsOf (path : Text) (e : Extraction) : List Diagnostic :=
  e.diagnostics.map (Diagnostic.placedIn path) ++
    if e.declarations.isEmpty then [⟨.nothingQueryable, path, none⟩] else []

/-- Keeps the interface of a file and its diagnostics. -/
def record (s : Session) (path : Text) (e : Extraction) : Session :=
  { s with
    results := Entries.assign s.results path e
    diagnostics := s.diagnostics ++ diagnosticsOf path e }

/-- The interface of a file, which the session keeps. -/
def extractFile (s : Session) (path : Text) : Except Failure (Extraction × Session) := do
  let source ← s.source path
  let e ← (extract s.settings.options (some s.registry) source).mapError .resolution
  return (e, s.record path e)

/-- The signatures of a file. -/
def signaturesOfFile (s : Session) (path : Text) : Except Failure (List Signature.Entry) := do
  let source ← s.source path
  (Signature.entries source (some s.registry)).mapError .resolution

/-- The text of an interface description. -/
def descriptionOf (e : Extraction) : Text :=
  Abi.render 2 e.items

/-- A file rendered.  An interface is kept, signatures are not. -/
def render (s : Session) (rendering : Rendering) (path : Text) : Except Failure (Text × Session) :=
  match rendering with
  | .interface => do
    let (e, s) ← s.extractFile path
    return (descriptionOf e, s)
  | .selectors => do
    let entries ← s.signaturesOfFile path
    return (Signature.listing entries, s)

/-! ## Directories -/

/-- Where the rendering of a file in the source directory is stored: under the same path in the
output directory, with its own suffix. -/
def outputPath (s : Session) (rendering : Rendering) (path : Path) : Path :=
  s.settings.outputDirectory.append
    ((s.settings.sourceDirectory.behind path).withSuffix rendering.suffix)

/-- The line that reports a file left out of the extraction of a directory. -/
def readingError (path : Path) (cause : Failure) : Text :=
  asLine ("Error reading ".toList ++ path.toText ++ ": ".toList ++ cause.message)

/-- Renders files in order and adds them to what was rendered before. -/
def renderEach (rendering : Rendering) (s : Session) (outputs : Outputs) :
    List Path → Except Failure Outputs × Session
  | [] => (.ok outputs, s)
  | path :: more =>
    match s.render rendering path.toText with
    | .ok (content, s) =>
      renderEach rendering s (Entries.assign outputs (s.outputPath rendering path) content) more
    -- a file that cannot be read is left out; a type that cannot be resolved ends the run
    | .error (.resolution cause) => (.error (.resolution cause), s)
    | .error cause => renderEach rendering (s.complain (readingError path cause)) outputs more

/-- Renders the fitting files of the source directory. -/
def extractDirectory (s : Session) (pattern : Pattern) (rendering : Rendering) :
    Except Failure Outputs × Session :=
  renderEach rendering s [] (s.tree.matching s.settings.sourceDirectory pattern)

/-! ## Output -/

/-- Stores a rendered file, making the directories that it needs. -/
def writeFile (s : Session) (path : Path) (content : Text) : Except FileError Unit × Session :=
  match s.tree.makeDirectories path.parent with
  | (.error cause, tree) => (.error cause, { s with tree })
  | (.ok (), tree) =>
    match tree.write path (asLine content) with
    | .error cause => (.error cause, { s with tree })
    | .ok tree =>
      (.ok (), { s with tree }.print (asLine ("Written: ".toList ++ path.toText)))

/-- Stores rendered files in order, up to the first that cannot be stored. -/
def writeOutput (s : Session) : Outputs → Except Failure Unit × Session
  | [] => (.ok (), s)
  | (path, content) :: more =>
    match s.writeFile path content with
    | (.ok (), s) => s.writeOutput more
    | (.error cause, s) => (.error (.file cause), s)

/-- Prints the report on all diagnostics. -/
def printReport (s : Session) : Session :=
  s.complain (Diagnostic.report s.settings.verbose s.diagnostics)

end Session

end ContractInterface
