import ContractInterface.FileTree.Basic
import Mathlib.Data.List.Basic

/-! # Matching paths

What `matching` gives are the paths of the nodes that lie under a directory and fit the pattern, sorted.
They start with the path of the directory, and where a tree holds one node for each location, no path is
given twice.  The paths of sources are those whose last name ends as a source does
(`fitsParts_sources_iff`).
-/

namespace ContractInterface

open Text

/-! ## Patterns -/

namespace Pattern

variable {spelling name : Text} {more : List PatternPart} {names : List Text}

/-- A spelling without stars and question marks stands for itself. -/
theorem fits_literal_iff (literal : ∀ c ∈ spelling, c ≠ '*' ∧ c ≠ '?') :
    fits spelling name = true ↔ name = spelling := by
  induction spelling generalizing name with
  | nil => cases name <;> simp [fits]
  | cons s spelling ih =>
    obtain ⟨ofFirst, ofOthers⟩ := List.forall_mem_cons.1 literal
    cases name with
    | nil =>
      rw [fits]
      · simp
      · exact ofFirst.1
    | cons c name =>
      rw [fits]
      · simp [ofFirst.2, ih ofOthers, @eq_comm _ s c]
      · exact ofFirst.1

/-- A star stands for any characters. -/
theorem fits_star_iff : fits ('*' :: spelling) name = true ↔
    ∃ front rest, name = front ++ rest ∧ fits spelling rest = true := by
  induction name with
  | nil => simp [fits]
  | cons c name ih =>
    rw [fits, Bool.or_eq_true, ih]
    constructor
    · rintro (fitsHere | ⟨front, rest, rfl, fitsRest⟩)
      · exact ⟨[], _, rfl, fitsHere⟩
      · exact ⟨c :: front, rest, rfl, fitsRest⟩
    · rintro ⟨front, rest, same, fitsRest⟩
      obtain ⟨rfl, rfl⟩ | ⟨front', rfl, rfl⟩ := List.cons_eq_append_iff.1 same
      · exact .inl fitsRest
      · exact .inr ⟨front', rest, rfl, fitsRest⟩

/-- Two stars stand for any directories. -/
theorem fitsParts_anyDirectories_iff : fitsParts (.anyDirectories :: more) names = true ↔
    ∃ directories rest, names = directories ++ rest ∧ fitsParts more rest = true := by
  induction names with
  | nil => simp [fitsParts]
  | cons name names ih =>
    rw [fitsParts, Bool.or_eq_true, ih]
    constructor
    · rintro (fitsHere | ⟨directories, rest, rfl, fitsRest⟩)
      · exact ⟨[], _, rfl, fitsHere⟩
      · exact ⟨name :: directories, rest, rfl, fitsRest⟩
    · rintro ⟨directories, rest, same, fitsRest⟩
      obtain ⟨rfl, rfl⟩ | ⟨directories', rfl, rfl⟩ := List.cons_eq_append_iff.1 same
      · exact .inl fitsRest
      · exact .inr ⟨directories', rest, rfl, fitsRest⟩

theorem fitsParts_named_iff : fitsParts [.named spelling] names = true ↔
    ∃ name, names = [name] ∧ fits spelling name = true := by
  cases names with
  | nil => simp [fitsParts]
  | cons name names => cases names <;> simp [fitsParts]

/-- The sources are the files with a name that ends as a source does, however deep they lie. -/
theorem fitsParts_sources_iff : fitsParts sources.parts names = true ↔
    ∃ directories stem, names = directories ++ [stem ++ ".sol".toList] := by
  have parts : sources.parts = [.anyDirectories, .named ('*' :: ".sol".toList)] := rfl
  have literal : ∀ c ∈ ".sol".toList, c ≠ '*' ∧ c ≠ '?' := by simp
  simp only [parts, fitsParts_anyDirectories_iff, fitsParts_named_iff, fits_star_iff,
    fits_literal_iff literal]
  constructor
  · rintro ⟨directories, _, rfl, _, rfl, stem, _, rfl, rfl⟩
    exact ⟨directories, stem, rfl⟩
  · rintro ⟨directories, stem, rfl⟩
    exact ⟨directories, _, rfl, _, rfl, stem, _, rfl, rfl⟩

end Pattern

namespace FileTree

variable {tree : FileTree} {directory : Path} {pattern : Pattern} {base : Location}

/-! ## Locations under a directory -/

theorem relativeTo?_eq_some_iff {location names : Location} :
    relativeTo? base location = some names ↔ location = base ++ names := by
  fun_induction relativeTo? base location with
  | case1 location => simp [eq_comm]
  | case2 b base location ih => simp [ih]
  | case3 b base n location differs => simp [Ne.symm differs]
  | case4 => simp

theorem fitting?_eq_some_iff {n : Location × Node} {names : Location} :
    fitting? pattern base n = some names ↔
      n.1 = base ++ names ∧ Pattern.fitsParts pattern.parts names ∧
        (pattern.directoriesOnly → n.2 = .directory) := by
  unfold fitting?
  cases relative : relativeTo? base n.1 with
  | none =>
    have outside : n.1 ≠ base ++ names := fun inside => by
      simp [relativeTo?_eq_some_iff.2 inside] at relative
    simp [outside]
  | some inner =>
    have inside : n.1 = base ++ inner := relativeTo?_eq_some_iff.1 relative
    simp only [inside, List.append_cancel_left_eq, Option.ite_none_right_eq_some, Option.some.injEq]
    constructor
    · rintro ⟨fits, rfl⟩
      exact ⟨rfl, fits⟩
    · rintro ⟨rfl, fits⟩
      exact ⟨fits, rfl⟩

theorem fitting?_sources_of_names {names directories : List Text} {stem : Text} {node : Node}
    (sameNames : names = directories ++ [stem ++ ".sol".toList]) :
    fitting? .sources base (base ++ names, node) = some names :=
  fitting?_eq_some_iff.2 ⟨rfl, Pattern.fitsParts_sources_iff.2 ⟨directories, stem, sameNames⟩,
    fun directoriesOnly => absurd directoriesOnly (by decide)⟩

/-! ## Paths under a directory -/

/-- The paths of the nodes under a directory that fit a pattern; `base` is where the directory lies. -/
def fittingPaths (tree : FileTree) (directory : Path) (pattern : Pattern) (base : Location) : List Path :=
  tree.nodes.filterMap fun n =>
    (fitting? pattern base n).map fun names => ⟨directory.root, directory.parts ++ names⟩

theorem fittingPaths_cons (n : Location × Node) (nodes : List (Location × Node)) (place : Location)
    (directory : Path) (pattern : Pattern) (base : Location) :
    fittingPaths ⟨n :: nodes, place⟩ directory pattern base =
      ((fitting? pattern base n).map fun names => (⟨directory.root, directory.parts ++ names⟩ : Path)).toList ++
        fittingPaths ⟨nodes, place⟩ directory pattern base := by
  rw [fittingPaths, fittingPaths, List.filterMap_cons]
  cases fitting? pattern base n <;> rfl

theorem matching_of_directory (located : tree.locate directory.toText = .ok base)
    (isDirectory : tree.node? base = some .directory) :
    tree.matching directory pattern =
      (tree.fittingPaths directory pattern base).mergeSort Path.comesBefore := by
  rw [matching, located]
  exact if_pos isDirectory

/-- The paths of nodes that are listed in order. -/
theorem matching_of_sorted (located : tree.locate directory.toText = .ok base)
    (isDirectory : tree.node? base = some .directory)
    (sorted : (tree.fittingPaths directory pattern base).Pairwise (Path.comesBefore · · = true)) :
    tree.matching directory pattern = tree.fittingPaths directory pattern base := by
  rw [matching_of_directory located isDirectory, List.mergeSort_of_pairwise sorted]

theorem exists_directory_of_mem {path : Path} (member : path ∈ tree.matching directory pattern) :
    ∃ base, tree.locate directory.toText = .ok base ∧ tree.node? base = some .directory := by
  unfold matching at member
  cases located : tree.locate directory.toText with
  | error fault => simp [located] at member
  | ok base =>
    refine ⟨base, rfl, ?_⟩
    by_contra notDirectory
    simp [located, notDirectory] at member

theorem mem_matching_iff {path : Path} : path ∈ tree.matching directory pattern ↔
    ∃ base names node, tree.locate directory.toText = .ok base ∧
      tree.node? base = some .directory ∧ (base ++ names, node) ∈ tree.nodes ∧
      Pattern.fitsParts pattern.parts names ∧ (pattern.directoriesOnly → node = .directory) ∧
      path = ⟨directory.root, directory.parts ++ names⟩ := by
  constructor
  · intro member
    obtain ⟨base, located, isDirectory⟩ := exists_directory_of_mem member
    rw [matching_of_directory located isDirectory, List.mem_mergeSort, fittingPaths,
      List.mem_filterMap] at member
    obtain ⟨⟨location, node⟩, listed, found⟩ := member
    obtain ⟨names, fitting, rfl⟩ := Option.map_eq_some_iff.1 found
    obtain ⟨rfl, fits⟩ := fitting?_eq_some_iff.1 fitting
    exact ⟨base, names, node, located, isDirectory, listed, fits.1, fits.2, rfl⟩
  · rintro ⟨base, names, node, located, isDirectory, listed, fits, kind, rfl⟩
    rw [matching_of_directory located isDirectory, List.mem_mergeSort, fittingPaths, List.mem_filterMap]
    have fitting : fitting? pattern base (base ++ names, node) = some names :=
      fitting?_eq_some_iff.2 ⟨rfl, fits, kind⟩
    exact ⟨(base ++ names, node), listed, by rw [fitting]; rfl⟩

/-- No path is given twice, because the path of a node tells its location. -/
theorem nodup_matching (nodup : (Entries.keys tree.nodes).Nodup) :
    (tree.matching directory pattern).Nodup := by
  by_cases none_ : tree.matching directory pattern = []
  · rw [none_]
    exact List.nodup_nil
  obtain ⟨path, member⟩ := List.exists_mem_of_ne_nil _ none_
  obtain ⟨base, located, isDirectory⟩ := exists_directory_of_mem member
  rw [matching_of_directory located isDirectory, (List.mergeSort_perm _ _).nodup_iff, fittingPaths,
    List.Nodup, List.pairwise_filterMap]
  refine (List.pairwise_map.1 nodup).imp fun {n m} differ path found path' found' => ?_
  obtain ⟨names, fitting, rfl⟩ := Option.map_eq_some_iff.1 found
  obtain ⟨names', fitting', rfl⟩ := Option.map_eq_some_iff.1 found'
  intro same
  have sameNames : names = names' := by simpa using same
  exact differ (by rw [(fitting?_eq_some_iff.1 fitting).1, (fitting?_eq_some_iff.1 fitting').1, sameNames])

end FileTree

end ContractInterface
