import ContractInterface.Entries
import ContractInterface.FileTree.Path
import ContractInterface.FileTree.Pattern
import ContractInterface.Text.Quoted
import ContractInterface.Text.Utf8

/-! # File trees

A file tree holds the files and directories that a run can see, each at its location, the list of
names that lead to it from the root.  One location is the working directory, from which relative
paths start.

Paths are followed name by name.  Every name but the last has to lead to a directory, also where two
dots lead back out of it.

* `read` gives the text of a file, `matching` the paths under a directory that fit a pattern;
* `makeDirectory` makes one directory, `makeDirectories` all that are missing on a path;
* `write` stores a text in a file. -/

namespace ContractInterface

open Text

/-- The names that lead to a file or directory from the root. -/
abbrev Location := List Text

/-- What there is at a location. -/
inductive Node where
  | directory
  | file (content : List UInt8)
deriving DecidableEq, Repr

/-- Files and directories, and the working directory.  The root is a directory without being
listed. -/
structure FileTree where
  nodes : List (Location × Node)
  workingDirectory : Location
deriving Repr

/-- What is wrong with a path. -/
inductive FileFault where
  | notFound
  | exists
  | notDirectory
  | isDirectory
deriving DecidableEq, Repr

/-- A fault of a path, as the path was given. -/
structure FileError where
  fault : FileFault
  path : Text
deriving DecidableEq, Repr

/-- Why a file cannot be read. -/
inductive ReadError where
  | file (cause : FileError)
  | utf8 (cause : Utf8Error)
deriving DecidableEq, Repr

/-- The number of a fault. -/
def FileFault.number : FileFault → Nat
  | .notFound => 2
  | .exists => 17
  | .notDirectory => 20
  | .isDirectory => 21

/-- The wording of a fault. -/
def FileFault.message : FileFault → Text
  | .notFound => "No such file or directory".toList
  | .exists => "File exists".toList
  | .notDirectory => "Not a directory".toList
  | .isDirectory => "Is a directory".toList

/-- The wording of an error. -/
def FileError.message (e : FileError) : Text :=
  "[Errno ".toList ++ digits e.fault.number ++ "] ".toList ++ e.fault.message ++ ": ".toList ++
    quoted e.path

/-- The wording of an error. -/
def ReadError.message : ReadError → Text
  | .file cause => cause.message
  | .utf8 cause => cause.message

namespace FileTree

/-- What there is at a location. -/
def node? (tree : FileTree) (location : Location) : Option Node :=
  if location = [] then some .directory else tree.nodes.lookup location

/-- Puts a node at a location. -/
def put (tree : FileTree) (location : Location) (node : Node) : FileTree :=
  { tree with nodes := Entries.assign tree.nodes location node }

/-- The locations of the directories that a location lies in, the outermost first. -/
def ancestors (location : Location) : List Location :=
  (List.range location.length).map location.take

/-- Puts a node at a location and directories where they are missing on the way to it. -/
def plant (tree : FileTree) (location : Location) (node : Node) : FileTree :=
  ((ancestors location).foldl
    (fun tree place => if (tree.node? place).isSome then tree else tree.put place .directory)
    tree).put location node

/-! ## Following paths -/

/-- Where the names of a path lead from a location; a fault if one of them but the last does not lead
to a directory. -/
def follow (tree : FileTree) : (location : Location) → List Text → Except FileFault Location
  | location, [] => .ok location
  | location, name :: names =>
    match tree.node? location with
    | none => .error .notFound
    | some (.file _) => .error .notDirectory
    | some .directory =>
      if name = [] ∨ name = ['.'] then tree.follow location names
      -- above the root is the root
      else if name = ['.', '.'] then tree.follow location.dropLast names
      else tree.follow (location ++ [name]) names

/-- The location that a path leads to, whether or not there is anything. -/
def locate (tree : FileTree) (path : Text) : Except FileFault Location :=
  if path = [] then .error .notFound
  else tree.follow (if startsWith ['/'] path then [] else tree.workingDirectory) (fields '/' path)

/-- What a path leads to, if there is anything. -/
def find? (tree : FileTree) (path : Text) : Option Node :=
  match tree.locate path with
  | .ok location => tree.node? location
  | .error _ => none

/-- Whether a path leads to a directory. -/
def isDirectory (tree : FileTree) (path : Text) : Bool :=
  tree.find? path == some .directory

/-- Whether a path leads to a file. -/
def isFile (tree : FileTree) (path : Text) : Bool :=
  match tree.find? path with
  | some (.file _) => true
  | _ => false

/-! ## Reading -/

/-- The bytes of the file that a path leads to. -/
def readBytes (tree : FileTree) (path : Text) : Except FileError (List UInt8) :=
  match tree.locate path with
  | .error fault => .error ⟨fault, path⟩
  | .ok location =>
    match tree.node? location with
    | none => .error ⟨.notFound, path⟩
    | some .directory => .error ⟨.isDirectory, path⟩
    | some (.file content) => .ok content

/-- The text of the file that a path leads to, its lines ended by line feeds. -/
def read (tree : FileTree) (path : Text) : Except ReadError Text :=
  match tree.readBytes path with
  | .error cause => .error (.file cause)
  | .ok bytes =>
    match ofUtf8 bytes with
    | .error cause => .error (.utf8 cause)
    | .ok s => .ok (withLineFeeds s)

/-- The names that lead from a location to another one inside it. -/
def relativeTo? : (base location : Location) → Option Location
  | [], location => some location
  | b :: base, n :: location => if b = n then relativeTo? base location else none
  | _ :: _, [] => none

/-- Whether a node under a location fits a pattern, and the names that lead to it. -/
def fitting? (pattern : Pattern) (base : Location) (n : Location × Node) : Option Location :=
  match relativeTo? base n.1 with
  | some names =>
    if Pattern.fitsParts pattern.parts names ∧ (pattern.directoriesOnly → n.2 = .directory) then
      some names
    else none
  | none => none

/-- The paths of the files and directories under a directory that fit a pattern, in the order of
their parts.  A path that leads to no directory has none. -/
def matching (tree : FileTree) (directory : Path) (pattern : Pattern) : List Path :=
  match tree.locate directory.toText with
  | .ok base =>
    if tree.node? base = some .directory then
      (tree.nodes.filterMap fun n =>
        (fitting? pattern base n).map fun names =>
          (⟨directory.root, directory.parts ++ names⟩ : Path)).mergeSort Path.comesBefore
    else []
  | .error _ => []

/-! ## Writing -/

/-- Makes a directory where there is nothing yet. -/
def makeDirectory (tree : FileTree) (path : Path) : Except FileError FileTree :=
  match tree.locate path.toText with
  | .error fault => .error ⟨fault, path.toText⟩
  | .ok location =>
    match tree.node? location with
    | some _ => .error ⟨.exists, path.toText⟩
    | none => .ok (tree.put location .directory)

/-- A tree as a failed attempt to make a directory leaves it: unchanged, and this is an error unless
the directory is there already. -/
def keepDirectory (tree : FileTree) (path : Path) (cause : FileError) :
    Except FileError Unit × FileTree :=
  (if tree.isDirectory path.toText then .ok () else .error cause, tree)

/-- Makes a directory, or keeps the one that is there. -/
def ensureDirectory (tree : FileTree) (path : Path) : Except FileError Unit × FileTree :=
  match tree.makeDirectory path with
  | .ok tree => (.ok (), tree)
  | .error cause => tree.keepDirectory path cause

/-- Makes the directories that are missing on a path given by its root and its parts from the last to
the first. -/
def makeReversed (tree : FileTree) (root : Text) : List Text → Except FileError Unit × FileTree
  | [] => tree.ensureDirectory ⟨root, []⟩
  | part :: more =>
    let path : Path := ⟨root, (part :: more).reverse⟩
    match tree.makeDirectory path with
    | .ok tree => (.ok (), tree)
    -- only a missing parent is worth another attempt
    | .error ⟨.notFound, _⟩ =>
      match tree.makeReversed root more with
      | (.ok (), tree) => tree.ensureDirectory path
      | (.error cause, tree) => (.error cause, tree)
    | .error cause => tree.keepDirectory path cause

/-- Makes the directories that are missing on a path.  Those that are made before an error stay. -/
def makeDirectories (tree : FileTree) (path : Path) : Except FileError Unit × FileTree :=
  tree.makeReversed path.root path.parts.reverse

/-- Stores a text in the file that a path leads to; whatever the file held is lost. -/
def write (tree : FileTree) (path : Path) (content : Text) : Except FileError FileTree :=
  match tree.locate path.toText with
  | .error fault => .error ⟨fault, path.toText⟩
  | .ok location =>
    match tree.node? location with
    | some .directory => .error ⟨.isDirectory, path.toText⟩
    | some (.file _) => .ok (tree.put location (.file (utf8Bytes content)))
    | none =>
      -- a new file needs its directory
      if tree.node? location.dropLast = some .directory then
        .ok (tree.put location (.file (utf8Bytes content)))
      else .error ⟨.notFound, path.toText⟩

/-! ## Changes -/

/-- The files of a tree that another tree does not hold with the same content. -/
def changedSince (before tree : FileTree) : List (Location × List UInt8) :=
  tree.nodes.filterMap fun
    | (location, .file content) =>
      if before.node? location = some (.file content) then none else some (location, content)
    | (_, .directory) => none

end FileTree

end ContractInterface
