import ContractInterface.Proofs.KeyedEntries
import ContractInterface.Proofs.Locations
import ContractInterface.Session

/-! # Stored files

Making directories and storing files changes a tree only where there was nothing and where a file is
stored: directories stay, and so do all other files (`Grows`).  Outputs that lead to different locations
are therefore all there in the end, up to the first that cannot be stored (`writeOutput_stores`).
-/

namespace ContractInterface

open Text

namespace FileTree

variable {tree tree' tree'' : FileTree} {location found : Location} {path : Path} {content : Text}

/-! ## Nodes -/

theorem node?_put (tree : FileTree) (location : Location) (node : Node) (other : Location) :
    (tree.put location node).node? other =
      if other = [] then some .directory else if other = location then some node else tree.node? other := by
  simp only [node?, put, Entries.lookup_assign]
  split_ifs <;> rfl

/-- Whether the nodes of a tree have different locations, made of names. -/
structure IsProper (tree : FileTree) : Prop where
  nodup : (Entries.keys tree.nodes).Nodup
  areNames : ∀ location ∈ Entries.keys tree.nodes, ∀ name ∈ location, Path.IsName name

theorem IsProper.put (proper : tree.IsProper) (areNames : ∀ name ∈ location, Path.IsName name)
    (node : Node) : (tree.put location node).IsProper where
  nodup := Entries.nodup_keys_assign proper.nodup
  areNames other member := by
    obtain member | rfl := Entries.mem_keys_assign.1 member
    exacts [proper.areNames other member, areNames]

/-- A tree stays proper when a node is planted in it. -/
theorem IsProper.plant (proper : tree.IsProper) (areNames : ∀ name ∈ location, Path.IsName name)
    (node : Node) : (tree.plant location node).IsProper := by
  refine IsProper.put ?_ areNames node
  have above : ∀ place ∈ ancestors location, ∀ name ∈ place, Path.IsName name := by
    rintro place member name inPlace
    obtain ⟨length, -, rfl⟩ := List.mem_map.1 member
    exact areNames name (List.mem_of_mem_take inPlace)
  generalize ancestors location = places at above
  induction places generalizing tree with
  | nil => exact proper
  | cons place places ih =>
    obtain ⟨ofPlace, ofOthers⟩ := List.forall_mem_cons.1 above
    refine ih ?_ ofOthers
    dsimp only
    split_ifs
    exacts [proper, proper.put ofPlace .directory]

/-- What a tree can become when directories are made in it and files are stored at some locations. -/
structure Grows (tree tree' : FileTree) (stored : List Location) : Prop where
  workingDirectory : tree'.workingDirectory = tree.workingDirectory
  directory : ∀ location, tree.node? location = some .directory → tree'.node? location = some .directory
  file : ∀ location bytes, location ∉ stored → tree.node? location = some (.file bytes) →
    tree'.node? location = some (.file bytes)

namespace Grows

variable {stored stored' : List Location}

theorem refl (tree : FileTree) (stored : List Location) : tree.Grows tree stored :=
  ⟨rfl, fun _ => id, fun _ _ _ => id⟩

theorem trans (grows : tree.Grows tree' stored) (grows' : tree'.Grows tree'' stored') :
    tree.Grows tree'' (stored ++ stored') where
  workingDirectory := grows'.workingDirectory.trans grows.workingDirectory
  directory location isDirectory := grows'.directory location (grows.directory location isDirectory)
  file location bytes absent isFile := by
    rw [List.mem_append, not_or] at absent
    exact grows'.file location bytes absent.2 (grows.file location bytes absent.1 isFile)

theorem put_directory (absent : tree.node? location = none) :
    tree.Grows (tree.put location .directory) [] where
  workingDirectory := rfl
  directory other isDirectory := by
    rw [node?_put]
    split_ifs <;> trivial
  file other bytes _ isFile := by
    have notRoot : other ≠ [] := by
      rintro rfl
      simp [node?] at isFile
    have differs : other ≠ location := by
      rintro rfl
      simp [absent] at isFile
    rw [node?_put, if_neg notRoot, if_neg differs, isFile]

theorem put_file (notDirectory : tree.node? location ≠ some .directory) (bytes : List UInt8) :
    tree.Grows (tree.put location (.file bytes)) [location] where
  workingDirectory := rfl
  directory other isDirectory := by
    have differs : other ≠ location := by
      rintro rfl
      exact notDirectory isDirectory
    rw [node?_put, if_neg differs, isDirectory, ite_self]
  file other bytes absent isFile := by
    have notRoot : other ≠ [] := by
      rintro rfl
      simp [node?] at isFile
    rw [node?_put, if_neg notRoot, if_neg (by simpa using absent), isFile]

/-- What can be followed can still be followed. -/
theorem follow (grows : tree.Grows tree' stored) {names : List Text}
    (follows : tree.follow location names = .ok found) : tree'.follow location names = .ok found := by
  induction names generalizing location with
  | nil => exact follows
  | cons name names ih =>
    cases node : tree.node? location with
    | none => simp [FileTree.follow, node] at follows
    | some n =>
      cases n with
      | file bytes => simp [FileTree.follow, node] at follows
      | directory =>
        simp only [FileTree.follow, node] at follows
        simp only [FileTree.follow, grows.directory location node]
        split_ifs at follows ⊢ <;> exact ih follows

theorem locate (grows : tree.Grows tree' stored) {path : Text} (located : tree.locate path = .ok found) :
    tree'.locate path = .ok found := by
  unfold FileTree.locate at located ⊢
  rw [grows.workingDirectory]
  split_ifs at located ⊢
  all_goals exact grows.follow located

end Grows

/-! ## Reading -/

theorem readBytes_eq_ok_iff {path : Text} {bytes : List UInt8} : tree.readBytes path = .ok bytes ↔
    ∃ location, tree.locate path = .ok location ∧ tree.node? location = some (.file bytes) := by
  unfold readBytes
  cases tree.locate path with
  | error fault => simp
  | ok location =>
    cases node : tree.node? location with
    | none => simp [node]
    | some n => cases n <;> simp [node]

/-- A file of another place is read as before. -/
theorem Grows.readBytes {stored : List Location} (grows : tree.Grows tree' stored) (proper : path.IsProper)
    (untouched : place tree.workingDirectory path ∉ stored) {bytes : List UInt8}
    (reads : tree.readBytes path.toText = .ok bytes) : tree'.readBytes path.toText = .ok bytes := by
  obtain ⟨location, located, isFile⟩ := readBytes_eq_ok_iff.1 reads
  rw [place_of_locate proper located] at untouched
  exact readBytes_eq_ok_iff.2 ⟨location, grows.locate located, grows.file location bytes untouched isFile⟩

/-! ## Making directories -/

theorem grows_makeDirectory (made : tree.makeDirectory path = .ok tree') : tree.Grows tree' [] := by
  unfold makeDirectory at made
  cases located : tree.locate path.toText with
  | error fault => simp [located] at made
  | ok location =>
    cases node : tree.node? location with
    | some n => simp [located, node] at made
    | none =>
      simp only [located, node, Except.ok.injEq] at made
      exact made ▸ Grows.put_directory node

theorem grows_ensureDirectory (tree : FileTree) (path : Path) :
    tree.Grows (tree.ensureDirectory path).2 [] := by
  unfold ensureDirectory
  split
  case h_1 tree' made => exact grows_makeDirectory made
  case h_2 => exact .refl tree []

theorem grows_makeReversed (tree : FileTree) (root : Text) (parts : List Text) :
    tree.Grows (tree.makeReversed root parts).2 [] := by
  induction parts with
  | nil => exact grows_ensureDirectory tree _
  | cons part more ih =>
    unfold makeReversed
    cases made : tree.makeDirectory ⟨root, (part :: more).reverse⟩ with
    | ok tree' =>
      simp only [made]
      exact grows_makeDirectory made
    | error cause =>
      obtain ⟨fault, path⟩ := cause
      cases fault with
      -- only a missing parent is made first, and what was made stays even if the rest fails
      | notFound =>
        simp only [made]
        cases above : tree.makeReversed root more with
        | mk outcome tree' =>
          rw [above] at ih
          cases outcome with
          | ok => exact ih.trans (grows_ensureDirectory tree' _)
          | error cause => exact ih
      | _ =>
        simp only [made]
        exact .refl tree []

theorem grows_makeDirectories (tree : FileTree) (path : Path) :
    tree.Grows (tree.makeDirectories path).2 [] :=
  grows_makeReversed tree _ _

/-! ## Storing a file -/

theorem exists_of_write (writes : tree.write path content = .ok tree') :
    ∃ location, tree.locate path.toText = .ok location ∧ tree.node? location ≠ some .directory ∧
      tree.put location (.file (utf8Bytes content)) = tree' := by
  unfold write at writes
  cases located : tree.locate path.toText with
  | error fault => simp [located] at writes
  | ok location =>
    refine ⟨location, rfl, ?_⟩
    simp only [located] at writes
    split at writes
    case h_1 => cases writes
    case h_2 isFile => exact ⟨by simp [isFile], Except.ok.inj writes⟩
    case h_3 absent =>
      split_ifs at writes
      exact ⟨by simp [absent], Except.ok.inj writes⟩

theorem grows_write (proper : path.IsProper) (writes : tree.write path content = .ok tree') :
    tree.Grows tree' [place tree.workingDirectory path] := by
  obtain ⟨location, located, notDirectory, rfl⟩ := exists_of_write writes
  rw [place_of_locate proper located]
  exact .put_file notDirectory _

/-- A stored file is read back. -/
theorem readBytes_of_write (proper : path.IsProper) (writes : tree.write path content = .ok tree') :
    tree'.readBytes path.toText = .ok (utf8Bytes content) := by
  have grows := grows_write proper writes
  obtain ⟨location, located, notDirectory, rfl⟩ := exists_of_write writes
  have notRoot : location ≠ [] := by
    rintro rfl
    exact notDirectory rfl
  refine readBytes_eq_ok_iff.2 ⟨location, grows.locate located, ?_⟩
  rw [node?_put, if_neg notRoot, if_pos rfl]

end FileTree

namespace Session

open FileTree

variable {s : Session} {path : Path} {content : Text}

/-! ## Storing outputs -/

/-- The line that tells of a stored file. -/
def storedLine (path : Path) : Text :=
  asLine ("Written: ".toList ++ path.toText)

/-- What storing a file can come to. -/
theorem writeFile_cases (proper : path.IsProper) (s : Session) (content : Text) :
    (∃ s', s.writeFile path content = (.ok (), s') ∧ s'.stdout = s.stdout ++ storedLine path ∧
        s.tree.Grows s'.tree [place s.tree.workingDirectory path] ∧
        s'.tree.readBytes path.toText = .ok (utf8Bytes (asLine content))) ∨
      ∃ cause s', s.writeFile path content = (.error cause, s') ∧ s'.stdout = s.stdout ∧
        s.tree.Grows s'.tree [] := by
  have grows := grows_makeDirectories s.tree path.parent
  unfold writeFile
  -- the parent directories may have been made even where the file is not written
  cases made : s.tree.makeDirectories path.parent with
  | mk outcome tree =>
    rw [made] at grows
    cases outcome with
    | error cause => exact .inr ⟨cause, _, rfl, rfl, grows⟩
    | ok =>
      cases writes : tree.write path (asLine content) with
      | error cause => exact .inr ⟨cause, { s with tree }, by simp [writes], rfl, grows⟩
      | ok tree' =>
        refine .inl ⟨{ s with tree := tree' }.print (storedLine path), by simp [writes, storedLine], rfl, ?_,
          readBytes_of_write proper writes⟩
        rw [← grows.workingDirectory]
        exact grows.trans (grows_write proper writes)

/-- Outputs of different places are all stored, up to the first that cannot be, and each has a line on
standard output. -/
theorem writeOutput_stores (s : Session) {outputs : Outputs} (proper : ∀ o ∈ outputs, o.1.IsProper)
    (apart : (outputs.map fun o => place s.tree.workingDirectory o.1).Nodup) :
    ∃ stored rest, outputs = stored ++ rest ∧ ((s.writeOutput outputs).1 = .ok () ↔ rest = []) ∧
      (s.writeOutput outputs).2.stdout = s.stdout ++ stored.flatMap (fun o => storedLine o.1) ∧
      (∀ o ∈ stored,
        (s.writeOutput outputs).2.tree.readBytes o.1.toText = .ok (utf8Bytes (asLine o.2))) ∧
      s.tree.Grows (s.writeOutput outputs).2.tree
        (outputs.map fun o => place s.tree.workingDirectory o.1) := by
  induction outputs generalizing s with
  | nil => exact ⟨[], [], rfl, by simp [writeOutput], by simp [writeOutput], by simp, .refl _ _⟩
  | cons o more ih =>
    obtain ⟨path, content⟩ := o
    obtain ⟨isProper, areProper⟩ := List.forall_mem_cons.1 proper
    rw [List.map_cons, List.nodup_cons] at apart
    obtain ⟨s', writes, printed, grows, reads⟩ | ⟨cause, s', fails, printed, grows⟩ :=
      writeFile_cases isProper s content
    · have runs : s.writeOutput ((path, content) :: more) = s'.writeOutput more := by
        rw [writeOutput, writes]
      rw [← grows.workingDirectory] at apart grows
      obtain ⟨stored, rest, parts, done, printed', there, grows'⟩ := ih s' areProper apart.2
      rw [runs]
      refine ⟨(path, content) :: stored, rest, congrArg _ parts, done, ?_, ?_, ?_⟩
      · rw [printed', printed, List.flatMap_cons, List.append_assoc]
      -- the other outputs are stored at other places
      · exact List.forall_mem_cons.2 ⟨grows'.readBytes isProper apart.1 reads, there⟩
      · rw [List.map_cons, ← grows.workingDirectory]
        exact grows.trans grows'
    · have runs : s.writeOutput ((path, content) :: more) = (.error (.file cause), s') := by
        rw [writeOutput, fails]
      rw [runs]
      exact ⟨[], _, rfl, by simp, by simp [printed], by simp, grows.trans (.refl s'.tree _)⟩

end Session

end ContractInterface
