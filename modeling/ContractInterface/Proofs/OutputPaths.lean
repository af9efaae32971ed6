import ContractInterface.Proofs.DirectoryRuns
import ContractInterface.Proofs.Matching
import ContractInterface.Proofs.StoredFiles

/-! # Output paths

The path at which the rendering of a file is stored has the names of the file under the source directory,
but for the last, where a new suffix takes the place of the old one.  So two files have the same output
path exactly if they lie in one directory and share what is left of their names without the suffix
(`outputPath_eq_iff`).  Of such files only the last is kept: a run over a directory has one output for each
file exactly if no two files share a stem (`outputs_of_directory`).  Among sources only a file that is named
by the ending alone can share its stem with another one (`eq_of_sharesStem`).
-/

namespace ContractInterface

open Text

namespace Path

/-- Whether two paths differ in the suffixes of their names only. -/
def SharesStem (p q : Path) : Prop :=
  p.parent = q.parent ∧ stem p.name = stem q.name

instance : DecidableRel SharesStem := fun _ _ => inferInstanceAs (Decidable (_ ∧ _))

theorem mem_of_mem_stem {name : Text} {c : Char} (member : c ∈ stem name) : c ∈ name := by
  unfold stem at member
  dsimp only at member
  split at member
  · exact member
  · exact List.mem_of_mem_take member

/-- The stem of a source is what stands in front of its ending, if anything does. -/
theorem stem_append_sol {front : Text} (ne_nil : front ≠ []) : stem (front ++ ".sol".toList) = front := by
  have behind : ((front ++ ".sol".toList).reverse.takeWhile (· ≠ '.')).reverse = "sol".toList := by
    rw [List.reverse_append]
    rfl
  have before : (front ++ ".sol".toList).take ((front ++ ".sol".toList).length - 3 - 1) = front := by
    rw [List.length_append]
    exact List.take_left
  unfold stem
  rw [behind]
  exact (if_neg (by simp [ne_nil])).trans before

theorem two_lt_length_suffix (rendering : Rendering) : 2 < rendering.suffix.length := by
  cases rendering <;> decide

/-- A name with the suffix of a rendering is a name. -/
theorem isName_stem_append {name : Text} (slashless : '/' ∉ name) (rendering : Rendering) :
    IsName (stem name ++ rendering.suffix) := by
  have long : 2 < (stem name ++ rendering.suffix).length := by
    have := two_lt_length_suffix rendering
    rw [List.length_append]
    omega
  refine ⟨?ne_nil, ?slashless, ?ne_dot, ?ne_dots⟩
  case slashless =>
    have inSuffix : '/' ∉ rendering.suffix := by cases rendering <;> decide
    rw [List.mem_append, not_or]
    exact ⟨fun member => slashless (mem_of_mem_stem member), inSuffix⟩
  all_goals
    intro same
    rw [same] at long
    simp at long

end Path

namespace Session

variable {s : Session} {rendering : Rendering} {pattern : Pattern} {p q : Path}

/-! ## Files under the source directory -/

/-- The files among the matching paths that can be read. -/
def files (s : Session) (pattern : Pattern) : List Path :=
  (s.tree.matching s.settings.sourceDirectory pattern).filter s.tree.isReadable

theorem mem_files_iff : p ∈ s.files pattern ↔
    p ∈ s.tree.matching s.settings.sourceDirectory pattern ∧ s.tree.isReadable p = true :=
  List.mem_filter

/-- A file has a name of its own under the source directory. -/
theorem exists_names_of_mem_files (isFile : p ∈ s.files pattern) :
    ∃ base names name, base ++ (names ++ [name]) ∈ Entries.keys s.tree.nodes ∧
      p = ⟨s.settings.sourceDirectory.root, s.settings.sourceDirectory.parts ++ (names ++ [name])⟩ := by
  obtain ⟨member, readable⟩ := mem_files_iff.1 isFile
  obtain ⟨base, names, node, located, isDirectory, listed, -, -, rfl⟩ := FileTree.mem_matching_iff.1 member
  obtain rfl | ⟨names, name, rfl⟩ := List.eq_nil_or_concat' names
  · -- the source directory itself is no file
    obtain ⟨source, reads⟩ := FileTree.isReadable_iff.1 readable
    rw [List.append_nil] at reads
    simp [FileTree.read, FileTree.readBytes, located, isDirectory] at reads
  · exact ⟨base, names, name, List.mem_map_of_mem listed, rfl⟩

theorem outputPath_of_names (s : Session) (rendering : Rendering) (names : List Text) (name : Text) :
    s.outputPath rendering
        ⟨s.settings.sourceDirectory.root, s.settings.sourceDirectory.parts ++ (names ++ [name])⟩ =
      ⟨s.settings.outputDirectory.root,
        s.settings.outputDirectory.parts ++ (names ++ [Path.stem name ++ rendering.suffix])⟩ := by
  simp [outputPath, Path.append, Path.behind, Path.withSuffix, Path.name]

/-- Two files have the same output path exactly if they lie in one directory and share a stem. -/
theorem outputPath_eq_iff (ofP : p ∈ s.files pattern) (ofQ : q ∈ s.files pattern) :
    s.outputPath rendering p = s.outputPath rendering q ↔ p.SharesStem q := by
  obtain ⟨-, names, name, -, rfl⟩ := exists_names_of_mem_files ofP
  obtain ⟨-, names', name', -, rfl⟩ := exists_names_of_mem_files ofQ
  rw [outputPath_of_names, outputPath_of_names]
  simp [Path.SharesStem, Path.parent, Path.name, ← List.append_assoc]

/-- The output path of a file goes on from the output directory with names. -/
theorem exists_names_of_outputPath (proper : s.tree.IsProper) (rendering : Rendering)
    (isFile : p ∈ s.files pattern) :
    ∃ names, (∀ name ∈ names, Path.IsName name) ∧ s.outputPath rendering p =
      ⟨s.settings.outputDirectory.root, s.settings.outputDirectory.parts ++ names⟩ := by
  obtain ⟨base, names, name, listed, rfl⟩ := exists_names_of_mem_files isFile
  have areNames := proper.areNames _ listed
  simp only [List.forall_mem_append, List.forall_mem_singleton] at areNames
  refine ⟨_, ?_, outputPath_of_names s rendering names name⟩
  rw [List.forall_mem_append, List.forall_mem_singleton]
  exact ⟨areNames.2.1, Path.isName_stem_append areNames.2.2.slashless rendering⟩

/-- The name of a source ends as the pattern says. -/
theorem exists_front_of_mem_files (isFile : p ∈ s.files .sources) :
    ∃ front, p.name = front ++ ".sol".toList ∧ p = ⟨p.parent.root, p.parent.parts ++ [p.name]⟩ := by
  obtain ⟨base, names, node, -, -, -, fits, -, rfl⟩ :=
    FileTree.mem_matching_iff.1 (mem_files_iff.1 isFile).1
  obtain ⟨directories, front, rfl⟩ := Pattern.fitsParts_sources_iff.1 fits
  exact ⟨front, by simp [Path.name], by simp [Path.parent, Path.name, ← List.append_assoc]⟩

/-- Sources never share a stem as long as none is named by the ending alone. -/
theorem eq_of_sharesStem (named : ∀ p ∈ s.files .sources, p.name ≠ ".sol".toList)
    (ofP : p ∈ s.files .sources) (ofQ : q ∈ s.files .sources) (shared : p.SharesStem q) : p = q := by
  obtain ⟨front, name, ends⟩ := exists_front_of_mem_files ofP
  obtain ⟨front', name', ends'⟩ := exists_front_of_mem_files ofQ
  have ne_nil : front ≠ [] := by
    rintro rfl
    exact named p ofP name
  have ne_nil' : front' ≠ [] := by
    rintro rfl
    exact named q ofQ name'
  obtain ⟨sameParent, sameStem⟩ := shared
  rw [name, name', Path.stem_append_sol ne_nil, Path.stem_append_sol ne_nil'] at sameStem
  rw [ends, ends', sameParent, name, name', sameStem]

/-! ## Outputs of a directory -/

/-- A run over a directory has a result exactly if no file ends it. -/
theorem extractDirectory_eq_ok_iff {outputs : Outputs} :
    (s.extractDirectory pattern rendering).1 = .ok outputs ↔
      (∀ file ∈ s.files pattern, (s.contentOf? rendering file).isSome = true) ∧
        Entries.assignAll [] (s.renderings rendering (s.files pattern)) = outputs := by
  rw [extractDirectory, renderEach_eq_ok_iff, files, renderings_filter_isReadable, RendersAll]
  simp only [List.mem_filter, and_imp]

/-- Output paths are all different exactly if no two files share a stem. -/
theorem nodup_outputPaths_iff (proper : s.tree.IsProper) :
    ((s.files pattern).map (s.outputPath rendering)).Nodup ↔
      ∀ p ∈ s.files pattern, ∀ q ∈ s.files pattern, p.SharesStem q → p = q := by
  have nodup : (s.files pattern).Nodup := (FileTree.nodup_matching proper.nodup).filter _
  rw [List.nodup_map_iff_inj_on nodup]
  refine forall₂_congr fun p ofP => forall₂_congr fun q ofQ => ?_
  rw [outputPath_eq_iff ofP ofQ]

/-- Different output paths lead to different places. -/
theorem nodup_places (proper : s.tree.IsProper) {paths : List Path} (nodup : paths.Nodup)
    (areOutputs : ∀ path ∈ paths, ∃ file ∈ s.files pattern, s.outputPath rendering file = path) :
    (paths.map (FileTree.place s.tree.workingDirectory)).Nodup := by
  refine nodup.map_on fun path member path' member' same => ?_
  obtain ⟨file, isFile, rfl⟩ := areOutputs path member
  obtain ⟨file', isFile', rfl⟩ := areOutputs path' member'
  obtain ⟨names, areNames, isPath⟩ := exists_names_of_outputPath proper rendering isFile
  obtain ⟨names', areNames', isPath'⟩ := exists_names_of_outputPath proper rendering isFile'
  rw [isPath, isPath', FileTree.place_append _ _ areNames, FileTree.place_append _ _ areNames',
    List.append_cancel_left_eq] at same
  rw [isPath, isPath', same]

theorem isProper_outputPath (proper : s.tree.IsProper) (isPath : s.settings.outputDirectory.IsProper)
    (isFile : p ∈ s.files pattern) (rendering : Rendering) : (s.outputPath rendering p).IsProper := by
  obtain ⟨names, areNames, same⟩ := exists_names_of_outputPath proper rendering isFile
  rw [same]
  exact isPath.append_names areNames

/-- The outputs of a run are stored, up to the first that cannot be. -/
theorem writeOutput_of_extractDirectory (proper : s.tree.IsProper)
    (isPath : s.settings.outputDirectory.IsProper) {outputs : Outputs}
    (runs : (s.extractDirectory pattern rendering).1 = .ok outputs) {t : Session}
    (sameTree : t.tree = s.tree) :
    ∃ stored rest, outputs = stored ++ rest ∧ ((t.writeOutput outputs).1 = .ok () ↔ rest = []) ∧
      (t.writeOutput outputs).2.stdout = t.stdout ++ stored.flatMap (fun o => storedLine o.1) ∧
      ∀ o ∈ stored,
        (t.writeOutput outputs).2.tree.readBytes o.1.toText = .ok (utf8Bytes (asLine o.2)) := by
  obtain ⟨rendered, rfl⟩ := extractDirectory_eq_ok_iff.1 runs
  have areOutputs : ∀ path ∈ Entries.keys (Entries.assignAll [] (s.renderings rendering (s.files pattern))),
      ∃ file ∈ s.files pattern, s.outputPath rendering file = path := by
    intro path member
    rw [Entries.mem_keys_assignAll, keys_renderings rendered] at member
    simpa [Entries.keys] using member
  have apart := nodup_places proper (Entries.nodup_keys_assignAll_nil _) areOutputs
  rw [← sameTree, Entries.keys, List.map_map] at apart
  have areProper : ∀ o ∈ Entries.assignAll [] (s.renderings rendering (s.files pattern)),
      o.1.IsProper := by
    intro o member
    obtain ⟨file, isFile, same⟩ := areOutputs o.1 (List.mem_map_of_mem member)
    exact same ▸ isProper_outputPath proper isPath isFile rendering
  obtain ⟨stored, rest, parts, done, printed, there, -⟩ := writeOutput_stores t areProper apart
  exact ⟨stored, rest, parts, done, printed, there⟩

/-- A session over a directory with two contracts, whose names are given up to their ending. -/
def ofTwoContracts (first second : Text) : Session :=
  start ⟨Path.ofText "src".toList, Path.ofText "out".toList, ⟨false, true⟩, false⟩
    ⟨[(["src".toList], .directory),
      (["src".toList, first ++ ".sol".toList], .file (utf8Bytes "contract A { uint256 public x; }".toList)),
      (["src".toList, second ++ ".sol".toList],
        .file (utf8Bytes "contract B { uint256 public y; }".toList))], []⟩ []

theorem files_ofTwoContracts {first second : Text}
    (sorted : Path.comesBefore ⟨[], ["src".toList, first ++ ".sol".toList]⟩
      ⟨[], ["src".toList, second ++ ".sol".toList]⟩ = true)
    (readable : ∀ path ∈ [(⟨[], ["src".toList, first ++ ".sol".toList]⟩ : Path),
        ⟨[], ["src".toList, second ++ ".sol".toList]⟩],
      (ofTwoContracts first second).tree.isReadable path = true) :
    (ofTwoContracts first second).files .sources =
      [⟨[], ["src".toList, first ++ ".sol".toList]⟩, ⟨[], ["src".toList, second ++ ".sol".toList]⟩] := by
  -- the directory itself does not fit the pattern, the two files in it do
  have itself : FileTree.fitting? .sources ["src".toList] (["src".toList], .directory) = none := by
    decide +kernel
  have inside (stem : Text) (node : Node) : FileTree.fitting? .sources ["src".toList]
      (["src".toList, stem ++ ".sol".toList], node) = some [stem ++ ".sol".toList] :=
    FileTree.fitting?_sources_of_names (rfl : _ = [] ++ [stem ++ ".sol".toList])
  have fitting : (ofTwoContracts first second).tree.fittingPaths (Path.ofText "src".toList) .sources
      ["src".toList] = [⟨[], ["src".toList, first ++ ".sol".toList]⟩,
        ⟨[], ["src".toList, second ++ ".sol".toList]⟩] := by
    rw [ofTwoContracts, start, List.foldl_nil, FileTree.fittingPaths_cons, itself,
      FileTree.fittingPaths_cons, inside, FileTree.fittingPaths_cons, inside]
    rfl
  have located : (ofTwoContracts first second).tree.locate (Path.ofText "src".toList).toText =
      .ok ["src".toList] := rfl
  have matching : (ofTwoContracts first second).tree.matching (Path.ofText "src".toList) .sources =
      [⟨[], ["src".toList, first ++ ".sol".toList]⟩, ⟨[], ["src".toList, second ++ ".sol".toList]⟩] := by
    rw [FileTree.matching_of_sorted located rfl (by rw [fitting]; simpa using sorted), fitting]
  have source : (ofTwoContracts first second).settings.sourceDirectory = Path.ofText "src".toList := rfl
  rw [files, source, matching, List.filter_eq_self.2 readable]

end Session

end ContractInterface
