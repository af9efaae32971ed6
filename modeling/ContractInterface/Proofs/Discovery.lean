import ContractInterface.Session

/-! # Discovery

Discovery reads files one after the other.  The types of those that it can read are added to the registry
in order, and each of the others leaves one line on standard output; nothing else in the session changes
(`foldl_discoverFile`).  So a session starts with the registry of the readable files that its directories
hold (`startAmong_eq`).

`startAmong` starts a session that looks at some of the matching paths only; the session that looks at all
of them is `start` (`startAmong_all`).
-/

namespace ContractInterface

open Text

/-! ## Readable files -/

namespace FileTree

variable (tree : FileTree)

/-- Whether a path leads to a file that can be read. -/
def isReadable (path : Path) : Bool :=
  (tree.read path.toText).toOption.isSome

/-- The texts of the files among some paths that can be read. -/
def sources (paths : List Path) : List Text :=
  paths.filterMap fun path => (tree.read path.toText).toOption

/-- Why a path does not lead to a file that can be read. -/
def readError? (path : Path) : Option ReadError :=
  match tree.read path.toText with
  | .ok _ => none
  | .error cause => some cause

/-- The paths that lead to no readable file, each with the reason. -/
def unreadable (paths : List Path) : List (Path × ReadError) :=
  paths.filterMap fun path => (tree.readError? path).map (path, ·)

variable {tree} {path : Path}

theorem isReadable_iff : tree.isReadable path = true ↔ ∃ source, tree.read path.toText = .ok source := by
  unfold isReadable
  cases tree.read path.toText <;> simp [Except.toOption]

theorem isReadable_of_ok {source : Text} (reads : tree.read path.toText = .ok source) :
    tree.isReadable path = true :=
  isReadable_iff.2 ⟨source, reads⟩

theorem isReadable_of_error {cause : ReadError} (fails : tree.read path.toText = .error cause) :
    tree.isReadable path = false := by
  unfold isReadable
  rw [fails]
  rfl

theorem sources_cons_of_ok {source : Text} (reads : tree.read path.toText = .ok source)
    (paths : List Path) : tree.sources (path :: paths) = source :: tree.sources paths :=
  List.filterMap_cons_some (by rw [reads]; rfl)

theorem sources_cons_of_error {cause : ReadError} (fails : tree.read path.toText = .error cause)
    (paths : List Path) : tree.sources (path :: paths) = tree.sources paths :=
  List.filterMap_cons_none (by rw [fails]; rfl)

theorem unreadable_cons_of_ok {source : Text} (reads : tree.read path.toText = .ok source)
    (paths : List Path) : tree.unreadable (path :: paths) = tree.unreadable paths :=
  List.filterMap_cons_none (by rw [readError?, reads]; rfl)

theorem unreadable_cons_of_error {cause : ReadError} (fails : tree.read path.toText = .error cause)
    (paths : List Path) : tree.unreadable (path :: paths) = (path, cause) :: tree.unreadable paths :=
  List.filterMap_cons_some (by rw [readError?, fails]; rfl)

/-- Paths that lead to no readable file contribute no source. -/
theorem sources_filter_isReadable (paths : List Path) :
    tree.sources (paths.filter tree.isReadable) = tree.sources paths := by
  induction paths with
  | nil => rfl
  | cons path paths ih =>
    cases reads : tree.read path.toText with
    | ok source =>
      rw [List.filter_cons_of_pos (isReadable_of_ok reads), sources_cons_of_ok reads,
        sources_cons_of_ok reads, ih]
    | error cause =>
      rw [List.filter_cons_of_neg (by simp [isReadable_of_error reads]), sources_cons_of_error reads, ih]

theorem unreadable_eq_nil_iff {paths : List Path} :
    tree.unreadable paths = [] ↔ ∀ path ∈ paths, tree.isReadable path = true := by
  induction paths with
  | nil => simp [unreadable]
  | cons path paths ih =>
    rw [List.forall_mem_cons, ← ih]
    cases reads : tree.read path.toText with
    | ok source => simp [unreadable_cons_of_ok reads, isReadable_of_ok reads]
    | error cause => simp [unreadable_cons_of_error reads, isReadable_of_error reads]

theorem unreadable_filter_isReadable (paths : List Path) :
    tree.unreadable (paths.filter tree.isReadable) = [] :=
  unreadable_eq_nil_iff.2 fun _ member => (List.mem_filter.1 member).2

/-- The paths that lead to no readable file are those that are not kept. -/
theorem map_fst_unreadable (paths : List Path) :
    (tree.unreadable paths).map Prod.fst = paths.filter fun path => !tree.isReadable path := by
  induction paths with
  | nil => rfl
  | cons path paths ih =>
    cases reads : tree.read path.toText with
    | ok source => simp [unreadable_cons_of_ok reads, isReadable_of_ok reads, ih]
    | error cause => simp [unreadable_cons_of_error reads, isReadable_of_error reads, ih]

theorem readError?_eq_some_iff {cause : ReadError} :
    tree.readError? path = some cause ↔ tree.read path.toText = .error cause := by
  unfold readError?
  cases tree.read path.toText <;> simp

theorem mem_unreadable_iff {paths : List Path} {cause : ReadError} :
    (path, cause) ∈ tree.unreadable paths ↔ path ∈ paths ∧ tree.read path.toText = .error cause := by
  simp only [unreadable, List.mem_filterMap, Option.map_eq_some_iff, Prod.mk.injEq,
    readError?_eq_some_iff]
  constructor
  · rintro ⟨_, member, _, fails, rfl, rfl⟩
    exact ⟨member, fails⟩
  · rintro ⟨member, fails⟩
    exact ⟨path, member, cause, fails, rfl, rfl⟩

end FileTree

/-! ## Sessions -/

namespace Session

/-- The lines that discovery prints for files that cannot be read. -/
def discoveryWarnings (unreadable : List (Path × ReadError)) : Text :=
  unreadable.flatMap fun failure => discoveryWarning failure.1 failure.2

/-- Discovery adds the types of the readable files and prints a line for every other path. -/
theorem foldl_discoverFile (s : Session) (paths : List Path) :
    paths.foldl discoverFile s =
      { s with
        registry := (s.tree.sources paths).foldl Registry.discover s.registry
        stdout := s.stdout ++ discoveryWarnings (s.tree.unreadable paths) } := by
  induction paths generalizing s with
  | nil => simp [FileTree.sources, FileTree.unreadable, discoveryWarnings]
  | cons path paths ih =>
    rw [List.foldl_cons, ih]
    cases reads : s.tree.read path.toText with
    | ok source =>
      have step : s.discoverFile path = { s with registry := s.registry.discover source } := by
        rw [discoverFile, reads]
      rw [step, FileTree.sources_cons_of_ok reads, FileTree.unreadable_cons_of_ok reads]
      rfl
    | error cause =>
      have step : s.discoverFile path = s.print (discoveryWarning path cause) := by
        rw [discoverFile, reads]
      rw [step, FileTree.sources_cons_of_error reads, FileTree.unreadable_cons_of_error reads]
      simp [print, discoveryWarnings]

/-- The paths of the sources that some directories hold. -/
def sourcePaths (tree : FileTree) (directories : List Text) : List Path :=
  directories.flatMap fun directory => tree.matching (Path.ofText directory) .sources

theorem sourcePaths_cons (tree : FileTree) (directory : Text) (directories : List Text) :
    sourcePaths tree (directory :: directories) =
      tree.matching (Path.ofText directory) .sources ++ sourcePaths tree directories :=
  List.flatMap_cons

/-- A session that has discovered the types of some directories, among their matching paths only those
that are kept. -/
def startAmong (kept : Path → Bool) (settings : Settings) (tree : FileTree) (directories : List Text) :
    Session :=
  directories.foldl
    (fun s directory => ((s.tree.matching (Path.ofText directory) .sources).filter kept).foldl discoverFile s)
    ⟨settings, tree, .empty, [], [], [], []⟩

theorem startAmong_all (settings : Settings) (tree : FileTree) (directories : List Text) :
    startAmong (fun _ => true) settings tree directories = start settings tree directories := by
  have unfiltered (paths : List Path) : paths.filter (fun _ => true) = paths :=
    List.filter_eq_self.2 fun _ _ => rfl
  unfold startAmong start discover
  simp only [unfiltered]

/-- The directories are read one after the other. -/
theorem startAmong_eq_foldl (kept : Path → Bool) (settings : Settings) (tree : FileTree)
    (directories : List Text) : startAmong kept settings tree directories =
      ((sourcePaths tree directories).filter kept).foldl discoverFile
        ⟨settings, tree, .empty, [], [], [], []⟩ := by
  suffices general : ∀ s : Session, directories.foldl
      (fun s directory => ((s.tree.matching (Path.ofText directory) .sources).filter kept).foldl
        discoverFile s) s = ((sourcePaths s.tree directories).filter kept).foldl discoverFile s from
    general _
  intro s
  induction directories generalizing s with
  | nil => rfl
  | cons directory directories ih =>
    have sameTree : (((s.tree.matching (Path.ofText directory) .sources).filter kept).foldl
        discoverFile s).tree = s.tree := by
      rw [foldl_discoverFile]
    rw [List.foldl_cons, ih, sameTree, sourcePaths_cons, List.filter_append, List.foldl_append]

/-- The start of a session, field by field. -/
theorem startAmong_eq (kept : Path → Bool) (settings : Settings) (tree : FileTree)
    (directories : List Text) : startAmong kept settings tree directories =
      let paths := (sourcePaths tree directories).filter kept
      ⟨settings, tree, (tree.sources paths).foldl Registry.discover .empty, [], [],
        discoveryWarnings (tree.unreadable paths), []⟩ := by
  rw [startAmong_eq_foldl, foldl_discoverFile]
  rfl

theorem start_eq (settings : Settings) (tree : FileTree) (directories : List Text) :
    start settings tree directories =
      ⟨settings, tree, (tree.sources (sourcePaths tree directories)).foldl Registry.discover .empty, [], [],
        discoveryWarnings (tree.unreadable (sourcePaths tree directories)), []⟩ := by
  rw [← startAmong_all, startAmong_eq, List.filter_eq_self.2 fun _ _ => rfl]

section start

variable (settings : Settings) (tree : FileTree) (directories : List Text)

@[simp]
theorem start_settings : (start settings tree directories).settings = settings := by rw [start_eq]

@[simp]
theorem start_tree : (start settings tree directories).tree = tree := by rw [start_eq]

@[simp]
theorem start_stderr : (start settings tree directories).stderr = [] := by rw [start_eq]

@[simp]
theorem startAmong_stderr (kept : Path → Bool) :
    (startAmong kept settings tree directories).stderr = [] := by
  rw [startAmong_eq]

end start

theorem discoveryWarnings_eq_nil_iff {unreadable : List (Path × ReadError)} :
    discoveryWarnings unreadable = [] ↔ unreadable = [] := by
  cases unreadable with
  | nil => simp [discoveryWarnings]
  | cons f more => simp [discoveryWarnings, discoveryWarning, asLine]

end Session

end ContractInterface
