import ContractInterface.Proofs.KeyedEntries
import ContractInterface.Proofs.Renderings

/-! # Runs over directories

Rendering a directory takes its files one after the other.  A file that cannot be read leaves one line on
standard error, a file whose types cannot be resolved ends the run, and every other file leaves its
rendering.  None of this changes what the files after it are rendered with, so the run has a result exactly
if no readable file ends it, and this result is what the single files render to (`renderEach_eq_ok_iff`).
-/

namespace ContractInterface

open Text

namespace Session

variable {s : Session} {rendering : Rendering} {path : Path} {paths : List Path} {outputs : Outputs}

/-! ## Steps -/

/-- A step over a file that cannot be read. -/
theorem renderEach_of_unreadable {cause : ReadError} (fails : s.tree.read path.toText = .error cause) :
    renderEach rendering s outputs (path :: paths) =
      renderEach rendering (s.complain (readingError path cause.toFailure)) outputs paths := by
  rw [renderEach, render_of_unreadable fails]
  cases cause <;> rfl

/-- A step over a file that is rendered. -/
theorem renderEach_of_rendered {source : Text} {r : Rendered} (reads : s.tree.read path.toText = .ok source)
    (renders : s.renderSource rendering source = .ok r) :
    renderEach rendering s outputs (path :: paths) =
      renderEach rendering (s.keep path.toText r)
        (Entries.assign outputs (s.outputPath rendering path) r.content) paths := by
  have rendered : s.render rendering path.toText = .ok (r.content, s.keep path.toText r) :=
    render_eq_ok_iff.2 ⟨source, r, reads, renders, rfl, rfl⟩
  have samePath : (s.keep path.toText r).outputPath rendering path = s.outputPath rendering path := by
    rw [outputPath, keep_settings, outputPath]
  rw [renderEach, rendered]
  dsimp only
  rw [samePath]

/-- A step over a file whose types cannot be resolved. -/
theorem renderEach_of_unresolvable {source : Text} {cause : TypeSyntax.ResolutionError}
    (reads : s.tree.read path.toText = .ok source)
    (fails : s.renderSource rendering source = .error cause) :
    renderEach rendering s outputs (path :: paths) = (.error (.resolution cause), s) := by
  rw [renderEach, render_of_readable reads, fails]
  rfl

/-- What can become of a file. -/
theorem file_cases (s : Session) (rendering : Rendering) (path : Path) :
    (∃ cause, s.tree.read path.toText = .error cause) ∨
      (∃ source r, s.tree.read path.toText = .ok source ∧ s.renderSource rendering source = .ok r) ∨
      ∃ source cause, s.tree.read path.toText = .ok source ∧
        s.renderSource rendering source = .error cause := by
  cases s.tree.read path.toText with
  | error cause => exact .inl ⟨cause, rfl⟩
  | ok source =>
    cases renders : s.renderSource rendering source with
    | ok r => exact .inr (.inl ⟨source, r, rfl, renders⟩)
    | error cause => exact .inr (.inr ⟨source, cause, rfl, renders⟩)

/-! ## What the files are rendered to -/

/-- Whether no readable file among some paths ends a run. -/
def RendersAll (s : Session) (rendering : Rendering) (paths : List Path) : Prop :=
  ∀ path ∈ paths, s.tree.isReadable path = true → (s.contentOf? rendering path).isSome = true

/-- The renderings of the files among some paths, each with its place. -/
def renderings (s : Session) (rendering : Rendering) (paths : List Path) : Outputs :=
  paths.filterMap fun path =>
    (s.contentOf? rendering path).map fun content => (s.outputPath rendering path, content)

/-- The lines on files that cannot be read. -/
def readingErrors (unreadable : List (Path × ReadError)) : Text :=
  unreadable.flatMap fun failure => readingError failure.1 failure.2.toFailure

theorem renderings_of_none (absent : s.contentOf? rendering path = none) :
    s.renderings rendering (path :: paths) = s.renderings rendering paths :=
  List.filterMap_cons_none (by rw [absent]; rfl)

theorem renderings_of_some {content : Text} (present : s.contentOf? rendering path = some content) :
    s.renderings rendering (path :: paths) =
      (s.outputPath rendering path, content) :: s.renderings rendering paths :=
  List.filterMap_cons_some (by rw [present]; rfl)

/-- Paths that lead to no readable file have no rendering. -/
theorem renderings_filter_isReadable (s : Session) (rendering : Rendering) (paths : List Path) :
    s.renderings rendering (paths.filter s.tree.isReadable) = s.renderings rendering paths := by
  induction paths with
  | nil => rfl
  | cons path paths ih =>
    cases reads : s.tree.read path.toText with
    | error cause =>
      rw [List.filter_cons_of_neg (by simp [FileTree.isReadable_of_error reads]), ih,
        renderings_of_none (contentOf?_of_unreadable reads)]
    | ok source =>
      rw [List.filter_cons_of_pos (FileTree.isReadable_of_ok reads)]
      cases content : s.contentOf? rendering path with
      | none => rw [renderings_of_none content, renderings_of_none content, ih]
      | some text => rw [renderings_of_some content, renderings_of_some content, ih]

section Rendered

variable {files : List Path} (rendered : ∀ file ∈ files, (s.contentOf? rendering file).isSome = true)

include rendered

theorem keys_renderings :
    Entries.keys (s.renderings rendering files) = files.map (s.outputPath rendering) := by
  induction files with
  | nil => rfl
  | cons file files ih =>
    obtain ⟨ofFirst, ofOthers⟩ := List.forall_mem_cons.1 rendered
    obtain ⟨content, present⟩ := Option.isSome_iff_exists.1 ofFirst
    rw [renderings_of_some present, List.map_cons, ← ih ofOthers]
    rfl

theorem length_renderings : (s.renderings rendering files).length = files.length := by
  simpa [Entries.keys] using congrArg List.length (keys_renderings rendered)

theorem lookup_renderings (path : Path) : (s.renderings rendering files).lookup path =
    (files.find? fun file => s.outputPath rendering file = path).bind (s.contentOf? rendering) := by
  induction files with
  | nil => rfl
  | cons file files ih =>
    obtain ⟨ofFirst, ofOthers⟩ := List.forall_mem_cons.1 rendered
    obtain ⟨content, present⟩ := Option.isSome_iff_exists.1 ofFirst
    rw [renderings_of_some present, Entries.lookup_cons_eq]
    by_cases same : path = s.outputPath rendering file
    · simp [same, present]
    · simp [same, Ne.symm same, ih ofOthers]

end Rendered

/-! ## What stays the same during a run -/

/-- Whether two sessions render every file alike: they have the same settings, files and types. -/
structure RendersAlike (s t : Session) : Prop where
  settings : s.settings = t.settings
  tree : s.tree = t.tree
  registry : s.registry = t.registry

theorem RendersAlike.refl (s : Session) : s.RendersAlike s :=
  ⟨rfl, rfl, rfl⟩

theorem rendersAlike_keep (s : Session) (path : Text) (r : Rendered) : (s.keep path r).RendersAlike s :=
  ⟨keep_settings s path r, keep_tree s path r, keep_registry s path r⟩

theorem rendersAlike_complain (s : Session) (text : Text) : (s.complain text).RendersAlike s :=
  ⟨rfl, rfl, rfl⟩

namespace RendersAlike

variable {t u : Session}

theorem trans (alike : s.RendersAlike t) (alike' : t.RendersAlike u) : s.RendersAlike u :=
  ⟨alike.settings.trans alike'.settings, alike.tree.trans alike'.tree, alike.registry.trans alike'.registry⟩

theorem renderSource (alike : s.RendersAlike t) (rendering : Rendering) (source : Text) :
    s.renderSource rendering source = t.renderSource rendering source := by
  unfold Session.renderSource
  rw [alike.settings, alike.registry]

theorem contentOf? (alike : s.RendersAlike t) (rendering : Rendering) (path : Path) :
    s.contentOf? rendering path = t.contentOf? rendering path := by
  cases reads : t.tree.read path.toText with
  | error cause =>
    rw [contentOf?_of_unreadable (alike.tree ▸ reads), contentOf?_of_unreadable reads]
  | ok source =>
    rw [contentOf?_of_readable (alike.tree ▸ reads), contentOf?_of_readable reads, alike.renderSource]

theorem outputPath (alike : s.RendersAlike t) (rendering : Rendering) (path : Path) :
    s.outputPath rendering path = t.outputPath rendering path := by
  unfold Session.outputPath
  rw [alike.settings]

theorem renderings (alike : s.RendersAlike t) (rendering : Rendering) (paths : List Path) :
    s.renderings rendering paths = t.renderings rendering paths := by
  unfold Session.renderings
  simp only [alike.contentOf?, alike.outputPath]

theorem rendersAll_iff (alike : s.RendersAlike t) :
    s.RendersAll rendering paths ↔ t.RendersAll rendering paths := by
  unfold RendersAll
  simp only [alike.contentOf?, alike.tree]

end RendersAlike

/-! ## Whole runs -/

theorem rendersAll_cons_iff : s.RendersAll rendering (path :: paths) ↔
    (s.tree.isReadable path = true → (s.contentOf? rendering path).isSome = true) ∧
      s.RendersAll rendering paths :=
  List.forall_mem_cons

/-- A run leaves settings, files and types as they are. -/
theorem rendersAlike_renderEach (rendering : Rendering) (s : Session) (outputs : Outputs)
    (paths : List Path) : (renderEach rendering s outputs paths).2.RendersAlike s := by
  induction paths generalizing s outputs with
  | nil => exact .refl s
  | cons path paths ih =>
    obtain ⟨cause, fails⟩ | ⟨source, r, reads, renders⟩ | ⟨source, cause, reads, fails⟩ :=
      s.file_cases rendering path
    · rw [renderEach_of_unreadable fails]
      exact (ih _ _).trans (rendersAlike_complain s _)
    · rw [renderEach_of_rendered reads renders]
      exact (ih _ _).trans (rendersAlike_keep s _ r)
    · rw [renderEach_of_unresolvable reads fails]
      exact .refl s

/-- A run prints nothing on standard output. -/
theorem stdout_renderEach (rendering : Rendering) (s : Session) (outputs : Outputs)
    (paths : List Path) : (renderEach rendering s outputs paths).2.stdout = s.stdout := by
  induction paths generalizing s outputs with
  | nil => rfl
  | cons path paths ih =>
    obtain ⟨cause, fails⟩ | ⟨source, r, reads, renders⟩ | ⟨source, cause, reads, fails⟩ :=
      s.file_cases rendering path
    · rw [renderEach_of_unreadable fails, ih]
      rfl
    · rw [renderEach_of_rendered reads renders, ih, keep_stdout]
    · rw [renderEach_of_unresolvable reads fails]

/-- A run has a result exactly if no readable file ends it, and the result is made of what the single
files are rendered to. -/
theorem renderEach_eq_ok_iff {result : Outputs} :
    (renderEach rendering s outputs paths).1 = .ok result ↔
      s.RendersAll rendering paths ∧ Entries.assignAll outputs (s.renderings rendering paths) = result := by
  induction paths generalizing s outputs with
  | nil => simp [renderEach, RendersAll, renderings, Entries.assignAll]
  | cons path paths ih =>
    rw [rendersAll_cons_iff]
    obtain ⟨cause, fails⟩ | ⟨source, r, reads, renders⟩ | ⟨source, cause, reads, fails⟩ :=
      s.file_cases rendering path
    · have alike := rendersAlike_complain s (readingError path cause.toFailure)
      rw [renderEach_of_unreadable fails, ih, alike.rendersAll_iff, alike.renderings,
        renderings_of_none (contentOf?_of_unreadable fails)]
      simp [FileTree.isReadable_of_error fails]
    · have alike := rendersAlike_keep s path.toText r
      have content := contentOf?_of_rendered reads renders
      rw [renderEach_of_rendered reads renders, ih, alike.rendersAll_iff, alike.renderings,
        renderings_of_some content, content]
      simp [Entries.assignAll]
    · rw [renderEach_of_unresolvable reads fails, contentOf?_of_unresolvable reads fails]
      simp [FileTree.isReadable_of_ok reads]

/-- A run that no readable file ends reports every other path once. -/
theorem stderr_renderEach (renders : s.RendersAll rendering paths) :
    (renderEach rendering s outputs paths).2.stderr =
      s.stderr ++ readingErrors (s.tree.unreadable paths) := by
  induction paths generalizing s outputs with
  | nil => simp [renderEach, FileTree.unreadable, readingErrors]
  | cons path paths ih =>
    obtain ⟨ofFirst, ofOthers⟩ := rendersAll_cons_iff.1 renders
    obtain ⟨cause, fails⟩ | ⟨source, r, reads, renders⟩ | ⟨source, cause, reads, fails⟩ :=
      s.file_cases rendering path
    · have alike := rendersAlike_complain s (readingError path cause.toFailure)
      rw [renderEach_of_unreadable fails, ih (alike.rendersAll_iff.2 ofOthers),
        FileTree.unreadable_cons_of_error fails]
      simp [complain, readingErrors]
    · have alike := rendersAlike_keep s path.toText r
      rw [renderEach_of_rendered reads renders, ih (alike.rendersAll_iff.2 ofOthers),
        FileTree.unreadable_cons_of_ok reads, keep_tree, keep_stderr]
    · have rendered := ofFirst (FileTree.isReadable_of_ok reads)
      simp [contentOf?_of_unresolvable reads fails] at rendered

end Session

end ContractInterface
