import ContractInterface.CommandLine.Run
import ContractInterface.Proofs.Matching
import ContractInterface.Proofs.Renderings
import Mathlib.Data.List.TakeWhile

/-! # Standard output

A command line may ask for the rendering of a single file on standard output.  A run that can render the
file prints the rendering there, but discovery has printed a line on every file that it could not read
before.  Standard output is the rendering alone exactly if discovery could read everything that it found
(`stdout_of_printing`).
-/

namespace ContractInterface.CommandLine

open Text

/-! ## The command line -/

/-- Whether an argument that stands alone is an operand. -/
def IsOperand (s : Text) : Prop :=
  Argument.ofText s = .ok (.operand s)

/-- Two dashes alone are no operand. -/
theorem IsOperand.ne_separator {s : Text} (operand : IsOperand s) : s ≠ Reading.separator := by
  rintro rfl
  have ambiguous : Argument.ofText Reading.separator =
      .error (.ambiguous Reading.separator Switch.all) := rfl
  simp [IsOperand, ambiguous] at operand

/-- An option that may stand beside the one for standard output. -/
inductive PrintingOption where
  | discover (directory : Text)
  | signatures
  | includePrivate
  | noValidate
  | verbose

namespace PrintingOption

/-- The arguments that an option consists of. -/
def arguments : PrintingOption → List Text
  | .discover directory => ["-d".toList, directory]
  | .signatures => [Switch.signatures.long]
  | .includePrivate => [Switch.includePrivate.long]
  | .noValidate => [Switch.noValidate.long]
  | .verbose => ["-v".toList]

/-- What the arguments of an option are when they are seen alone. -/
def seen : PrintingOption → List Argument
  | .discover directory => [.short ['d'], .operand directory]
  | .signatures => [.long .signatures none]
  | .includePrivate => [.long .includePrivate none]
  | .noValidate => [.long .noValidate none]
  | .verbose => [.short ['v']]

/-- The choices with those of an option added. -/
def addTo (choices : Choices) : PrintingOption → Choices
  | .discover directory => choices.setValue directory .discover
  | .signatures => choices.set .signatures
  | .includePrivate => choices.set .includePrivate
  | .noValidate => choices.set .noValidate
  | .verbose => choices.set .verbose

theorem addTo_toStdout (choices : Choices) (o : PrintingOption) :
    (o.addTo choices).toStdout = choices.toStdout := by
  cases o <;> rfl

/-- Whether an option can be read back: the directory that it names is an operand. -/
def IsReadable : PrintingOption → Prop
  | .discover directory => IsOperand directory
  | .signatures | .includePrivate | .noValidate | .verbose => True

variable {o : PrintingOption}

theorem ne_separator_of_mem (readable : o.IsReadable) :
    ∀ argument ∈ o.arguments, argument ≠ Reading.separator := by
  cases o with
  | discover directory =>
    simp only [arguments, List.forall_mem_cons, List.not_mem_nil, false_imp_iff, implies_true, and_true]
    exact ⟨by decide, IsOperand.ne_separator readable⟩
  | signatures | includePrivate | noValidate | verbose => exact (by decide)

theorem mapM_ofText_arguments (readable : o.IsReadable) :
    o.arguments.mapM Argument.ofText = .ok o.seen := by
  cases o with
  | discover directory =>
    have short : Argument.ofText "-d".toList = .ok (.short ['d']) := rfl
    have operand : Argument.ofText directory = .ok (.operand directory) := readable
    rw [arguments, List.mapM_cons, short, List.mapM_cons, operand]
    rfl
  | signatures | includePrivate | noValidate | verbose => rfl

end PrintingOption

/-- A command line that asks for the rendering of its input on standard output. -/
def printingLine (input : Text) (options : List PrintingOption) : List Text :=
  input :: Switch.stdout.long :: options.flatMap PrintingOption.arguments

/-- The request that it makes. -/
def printingRequest (input : Text) (options : List PrintingOption) : Request :=
  ⟨input, options.foldl PrintingOption.addTo (Choices.default.set .stdout)⟩

/-- What has been read of a command line when its input and whole options have been read. -/
def Reading.settled (input : Text) (choices : Choices) : Reading :=
  ⟨choices, some input, false, none, []⟩

theorem Reading.next_settled (input : Text) (choices : Choices) (o : PrintingOption) :
    o.seen.foldlM Reading.next (.settled input choices) =
      .ok (.settled input (o.addTo choices)) := by
  cases o <;> rfl

theorem Reading.foldlM_settled (input : Text) (options : List PrintingOption) (choices : Choices) :
    (options.flatMap PrintingOption.seen).foldlM Reading.next (.settled input choices) =
      .ok (.settled input (options.foldl PrintingOption.addTo choices)) := by
  induction options generalizing choices with
  | nil => rfl
  | cons o options ih =>
    rw [List.flatMap_cons, List.foldlM_append, next_settled]
    exact ih (o.addTo choices)

theorem foldl_addTo_toStdout {choices : Choices} (toStdout : choices.toStdout = true)
    (options : List PrintingOption) :
    (options.foldl PrintingOption.addTo choices).toStdout = true := by
  induction options generalizing choices with
  | nil => exact toStdout
  | cons o options ih => exact ih ((o.addTo_toStdout choices).trans toStdout)

theorem mapM_ofText_options {options : List PrintingOption} (readable : ∀ o ∈ options, o.IsReadable) :
    (options.flatMap PrintingOption.arguments).mapM Argument.ofText =
      .ok (options.flatMap PrintingOption.seen) := by
  induction options with
  | nil => rfl
  | cons o options ih =>
    rw [List.forall_mem_cons] at readable
    rw [List.flatMap_cons, List.mapM_append, PrintingOption.mapM_ofText_arguments readable.1, ih readable.2]
    rfl

theorem ofArguments_printingLine {input : Text} {options : List PrintingOption}
    (operand : IsOperand input) (readable : ∀ o ∈ options, o.IsReadable) :
    Request.ofArguments (printingLine input options) = .ok (printingRequest input options) := by
  -- without a separator every argument is read as an option or an operand
  have inseparable : ∀ argument ∈ printingLine input options, argument ≠ Reading.separator := by
    simp only [printingLine, List.forall_mem_cons, List.forall_mem_flatMap]
    exact ⟨operand.ne_separator, by decide, fun o member =>
      PrintingOption.ne_separator_of_mem (readable o member)⟩
  have before : (printingLine input options).takeWhile (· ≠ Reading.separator) =
      printingLine input options :=
    List.takeWhile_eq_self_iff.2 (by simpa using inseparable)
  have behind : behindSeparator? (printingLine input options) = none := by
    rw [behindSeparator?, List.dropWhile_eq_nil_iff.2 (by simpa using inseparable)]
  have seen : (printingLine input options).mapM Argument.ofText =
      .ok (.operand input :: .long .stdout none :: options.flatMap PrintingOption.seen) := by
    have long : Argument.ofText Switch.stdout.long = .ok (.long .stdout none) := rfl
    have operand : Argument.ofText input = .ok (.operand input) := operand
    rw [printingLine, List.mapM_cons, operand, List.mapM_cons, long, mapM_ofText_options readable]
    rfl
  have read : (Argument.operand input :: .long .stdout none :: options.flatMap PrintingOption.seen).foldlM
      Reading.next .start =
        .ok (.settled input (options.foldl PrintingOption.addTo (Choices.default.set .stdout))) :=
    Reading.foldlM_settled input options _
  rw [Request.ofArguments, before, seen, behind]
  change (List.foldlM Reading.next .start _ >>= fun reading => (reading.finish none).mapError .usage) = _
  rw [read]
  rfl

/-! ## The run -/

variable {tree : FileTree} {r : Request} {content : Text} {s : Session}

/-- The paths that lead to no readable file among those at which the session of a request looks for
types. -/
def Request.unreadable (r : Request) (tree : FileTree) : List (Path × ReadError) :=
  tree.unreadable (Session.sourcePaths tree (r.directories r.path.parent))

/-- A run that prints the rendering of a file. -/
theorem Request.run_toStdout (toStdout : r.choices.toStdout = true)
    (renders : (r.session tree r.path.parent).render r.rendering r.path.toText = .ok (content, s)) :
    r.run tree =
      ⟨.finished, Session.discoveryWarnings (r.unreadable tree) ++ asLine content,
        Diagnostic.report r.choices.verbose s.diagnostics, tree⟩ := by
  have rendersFile : r.renderFile (r.session tree r.path.parent) = (.ok [(r.outputPath, content)], s) := by
    rw [renderFile, renders]
  obtain ⟨source, rendered, reads, -, -, rfl⟩ := Session.render_eq_ok_iff.1 renders
  have isFile : tree.isFile r.path.toText = true := by
    rw [session, Session.start_eq] at reads
    exact FileTree.isFile_of_read reads
  rw [run, if_pos isFile, rendersFile, deliver, if_pos toStdout]
  simp [Result.ofSession, Session.print, Session.printReport, Session.complain, printedFile, unreadable,
    session, Session.start_eq]

/-- Standard output is the rendering alone exactly if everything that discovery finds can be read. -/
theorem Request.stdout_run_eq_iff (toStdout : r.choices.toStdout = true)
    (renders : (r.session tree r.path.parent).render r.rendering r.path.toText = .ok (content, s)) :
    (r.run tree).stdout = asLine content ↔
      ∀ path ∈ Session.sourcePaths tree (r.directories r.path.parent), tree.isReadable path = true := by
  rw [run_toStdout toStdout renders]
  show Session.discoveryWarnings (r.unreadable tree) ++ asLine content = asLine content ↔ _
  rw [List.append_left_eq_self, Session.discoveryWarnings_eq_nil_iff, unreadable,
    FileTree.unreadable_eq_nil_iff]

/-- A command line that asks for the rendering of a file on standard output, whatever its options, gets it
there behind the lines on what discovery cannot read; without such lines the rendering stands alone.  The
report on the diagnostics is all that standard error gets. -/
theorem stdout_of_printing (tree : FileTree) {input : Text} {options : List PrintingOption}
    (operand : IsOperand input) (readable : ∀ o ∈ options, o.IsReadable) {content : Text} {s : Session}
    (renders : ((printingRequest input options).session tree (Path.ofText input).parent).render
      (printingRequest input options).rendering (Path.ofText input).toText = .ok (content, s)) :
    let r := printingRequest input options
    run tree (printingLine input options) =
        ⟨.finished, Session.discoveryWarnings (r.unreadable tree) ++ asLine content,
          Diagnostic.report r.choices.verbose s.diagnostics, tree⟩ ∧
      ((run tree (printingLine input options)).stdout = asLine content ↔
        ∀ path ∈ Session.sourcePaths tree (r.directories r.path.parent), tree.isReadable path = true) := by
  intro r
  have toStdout : r.choices.toStdout = true := foldl_addTo_toStdout rfl options
  have runs : run tree (printingLine input options) = r.run tree := by
    rw [run, ofArguments_printingLine operand readable]
  rw [runs]
  exact ⟨Request.run_toStdout toStdout renders, Request.stdout_run_eq_iff toStdout renders⟩

/-! ## A library that can be read, and one that cannot -/

/-- A contract, and something named like a source in a directory beside it. -/
def contractWithLibrary (node : Node) : FileTree :=
  ⟨[(["C.sol".toList], .file (utf8Bytes "contract C { S public s; }".toList)),
    (["lib".toList], .directory), (["lib".toList, "S.sol".toList], node)], []⟩

/-- A request for the contract, with the types of the library. -/
def libraryRequest : Request :=
  printingRequest "C.sol".toList [.discover "lib".toList, .verbose]

theorem sourcePaths_contractWithLibrary (node : Node) :
    Session.sourcePaths (contractWithLibrary node)
      (libraryRequest.directories libraryRequest.path.parent) =
        [⟨[], ["lib".toList, "S.sol".toList]⟩] := by
  have directory : (contractWithLibrary node).locate (Path.ofText "lib".toList).toText =
      .ok ["lib".toList] := rfl
  have fitting : (contractWithLibrary node).fittingPaths (Path.ofText "lib".toList) .sources
      ["lib".toList] = [⟨[], ["lib".toList, "S.sol".toList]⟩] := by
    have outside : FileTree.fitting? .sources ["lib".toList]
        (["C.sol".toList], .file (utf8Bytes "contract C { S public s; }".toList)) = none := by
      decide +kernel
    have itself : FileTree.fitting? .sources ["lib".toList] (["lib".toList], .directory) = none := by
      decide +kernel
    have inside : FileTree.fitting? .sources ["lib".toList] (["lib".toList, "S.sol".toList], node) =
        some ["S.sol".toList] :=
      FileTree.fitting?_sources_of_names (rfl : _ = [] ++ ["S".toList ++ ".sol".toList])
    rw [contractWithLibrary, FileTree.fittingPaths_cons, outside, FileTree.fittingPaths_cons, itself,
      FileTree.fittingPaths_cons, inside]
    rfl
  have matching : (contractWithLibrary node).matching (Path.ofText "lib".toList) .sources =
      [⟨[], ["lib".toList, "S.sol".toList]⟩] := by
    rw [FileTree.matching_of_sorted directory rfl (by rw [fitting]; exact List.pairwise_singleton ..),
      fitting]
  exact congrArg (· ++ []) matching

theorem stdout_of_printing_library :
    let tree := contractWithLibrary (.file (utf8Bytes "struct S { uint256 a; }".toList))
    ∃ content s,
      (libraryRequest.session tree libraryRequest.path.parent).render libraryRequest.rendering
        libraryRequest.path.toText = .ok (content, s) ∧
      (run tree (["C.sol", "--stdout", "-d", "lib", "-v"].map String.toList)).stdout = asLine content := by
  intro tree
  obtain ⟨content, s, renders⟩ := Session.exists_render_iff.2 (by
    rw [Request.session, Session.start_eq, sourcePaths_contractWithLibrary]
    decide +kernel : ((libraryRequest.session tree libraryRequest.path.parent).contentOf?
      libraryRequest.rendering libraryRequest.path).isSome = true)
  have readable : ∀ o ∈ [PrintingOption.discover "lib".toList, .verbose], o.IsReadable :=
    List.forall_mem_cons.2 ⟨rfl, List.forall_mem_singleton.2 trivial⟩
  have operand : IsOperand "C.sol".toList := rfl
  refine ⟨content, s, renders, (stdout_of_printing tree operand readable renders).2.2 ?_⟩
  show ∀ path ∈ Session.sourcePaths tree (libraryRequest.directories libraryRequest.path.parent), _
  rw [sourcePaths_contractWithLibrary, List.forall_mem_singleton]
  decide +kernel

/-- What cannot be read has a line on standard output. -/
theorem stdout_of_unreadable_library :
    let tree := contractWithLibrary .directory
    ∃ content s,
      (libraryRequest.session tree libraryRequest.path.parent).render libraryRequest.rendering
        libraryRequest.path.toText = .ok (content, s) ∧
      (run tree (["C.sol", "--stdout", "-d", "lib", "-v"].map String.toList)).stdout ≠ asLine content := by
  intro tree
  obtain ⟨content, s, renders⟩ := Session.exists_render_iff.2 (by
    rw [Request.session, Session.start_eq, sourcePaths_contractWithLibrary]
    decide +kernel : ((libraryRequest.session tree libraryRequest.path.parent).contentOf?
      libraryRequest.rendering libraryRequest.path).isSome = true)
  have isUnreadable : ¬ ∀ path ∈ Session.sourcePaths tree
      (libraryRequest.directories libraryRequest.path.parent), tree.isReadable path = true := by
    rw [sourcePaths_contractWithLibrary, List.forall_mem_singleton]
    decide +kernel
  exact ⟨content, s, renders, mt (Request.stdout_run_eq_iff rfl renders).1 isUnreadable⟩

end ContractInterface.CommandLine
