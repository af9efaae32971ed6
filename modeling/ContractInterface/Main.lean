import ContractInterface.CommandLine.Run

/-! # The program

The program loads the part of the file system that its arguments name, runs the command line on it,
stores the files that the run changed, and prints what the run printed.

Only sources are loaded with their content; of every other file it matters only where it lies.  A
link to a directory is followed where an argument names it, but not inside a directory. -/

namespace ContractInterface.Program

open Text CommandLine

/-- The path of a location in the file system. -/
def pathOf (location : Location) : String :=
  String.ofList ('/' :: joined ['/'] location)

/-- Where the parts of a path lead from the working directory when no part of it is a link. -/
def locationOf (workingDirectory : Location) (p : Path) : Location :=
  p.parts.foldl (fun place part => if part = "..".toList then place.dropLast else place ++ [part])
    (if p.root = [] then workingDirectory else [])

/-- Loads a file, with its content or without.  A file that cannot be opened is left out. -/
def loadFile (tree : FileTree) (location : Location) (withContent : Bool) : IO FileTree := do
  try
    let content ← if withContent then IO.FS.readBinFile (pathOf location) else pure ByteArray.empty
    return tree.plant location (.file content.toList)
  catch _ => return tree

/-- Loads everything inside a directory. -/
partial def loadInside (tree : FileTree) (location : Location) : IO FileTree := do
  let root ← IO.FS.realPath (pathOf location)
  (← root.readDir).foldlM (fun tree entry => do
    let place := location ++ [entry.fileName.toList]
    match (← entry.path.symlinkMetadata).type, ← entry.path.isDir with
    | .dir, _ => loadInside (tree.plant place .directory) place
    | _, true => return tree.plant place .directory
    | _, false => loadFile tree place (endsWith ".sol".toList entry.fileName.toList)) tree

/-- Loads what lies on the way of a path, and everything inside the directory that it leads to. -/
def loadPath (workingDirectory : Location) (tree : FileTree) (p : Path) : IO FileTree := do
  let mut tree := tree
  for length in List.range (p.parts.length + 1) do
    let place := locationOf workingDirectory ⟨p.root, p.parts.take length⟩
    let found := (← IO.currentDir) / pathOf place
    if ← found.isDir then
      tree := tree.plant place .directory
      if length = p.parts.length then
        tree ← loadInside tree place
    else if ← found.pathExists then
      tree ← loadFile tree place true
  return tree

/-- The paths that a request needs: its output directory, the directories to discover types in, and
its input.  The input comes last, because it is loaded with its content whatever its name is. -/
def pathsOf (r : Request) : List Path :=
  Path.ofText r.choices.outputDirectory ::
    (r.directories r.path.parent).map Path.ofText ++ [r.path]

/-- The files that a command line may touch. -/
def loadTree (arguments : List Text) : IO FileTree := do
  let workingDirectory := (Path.ofText (toString (← IO.currentDir)).toList).parts
  let tree : FileTree := ⟨[], workingDirectory⟩
  let tree := tree.plant workingDirectory .directory
  match Request.ofArguments arguments with
  | .ok r => (pathsOf r).foldlM (loadPath workingDirectory) tree
  | .error _ => return tree

/-- Stores what a run changed. -/
def storeTree (before tree : FileTree) : IO Unit :=
  tree.nodes.forM fun (location, node) => do
    if before.node? location ≠ some node then
      match node with
      | .directory => IO.FS.createDirAll (pathOf location)
      | .file content => IO.FS.writeBinFile (pathOf location) ⟨content.toArray⟩

end ContractInterface.Program

open ContractInterface Program in
/-- Runs the command line on the file system. -/
def main (args : List String) : IO UInt32 := do
  let arguments := args.map String.toList
  let tree ← loadTree arguments
  let result := CommandLine.run tree arguments
  storeTree tree result.tree
  IO.print (String.ofList result.stdout)
  IO.eprint (String.ofList result.stderr)
  if let .failed cause := result.ending then
    IO.eprintln (String.ofList cause.message)
  return UInt32.ofNat result.ending.exitCode
