import ContractInterface.Proofs.DirectoryRuns
import ContractInterface.Proofs.Matching

/-! # Files that cannot be read

A run over directories that meets files it cannot read is compared with the run that never sees them.  The
two find the same types, render the same files, and keep the same interfaces and diagnostics.  They differ
in what they print only: the first one has a line for each of the other files.
-/

namespace ContractInterface.Session

open Text

variable {s t : Session} {rendering : Rendering} {path : Path} {paths : List Path} {outputs : Outputs}

/-! ## Sessions that differ in what they have printed -/

/-- A session that has printed nothing. -/
def silenced (s : Session) : Session :=
  { s with stdout := [], stderr := [] }

theorem silenced_complain (s : Session) (text : Text) : (s.complain text).silenced = s.silenced :=
  rfl

theorem silenced_keep (s : Session) (path : Text) (r : Rendered) :
    (s.keep path r).silenced = s.silenced.keep path r := by
  unfold keep
  cases r.interface? <;> rfl

theorem rendersAlike_of_silenced_eq (same : s.silenced = t.silenced) : s.RendersAlike t :=
  ⟨(congrArg settings same :), (congrArg tree same :), (congrArg registry same :)⟩

theorem found_of_silenced_eq (same : s.silenced = t.silenced) :
    s.registry = t.registry ∧ s.results = t.results ∧ s.diagnostics = t.diagnostics :=
  ⟨(congrArg registry same :), (congrArg results same :), (congrArg diagnostics same :)⟩

/-! ## Runs without the unreadable files -/

/-- The extraction of a directory, among its matching paths only of those that are kept. -/
def extractAmong (kept : Path → Bool) (s : Session) (pattern : Pattern) (rendering : Rendering) :
    Except Failure Outputs × Session :=
  renderEach rendering s [] ((s.tree.matching s.settings.sourceDirectory pattern).filter kept)

theorem extractAmong_all (s : Session) (pattern : Pattern) (rendering : Rendering) :
    s.extractAmong (fun _ => true) pattern rendering = s.extractDirectory pattern rendering := by
  rw [extractAmong, List.filter_eq_self.2 fun _ _ => rfl, extractDirectory]

/-- Steps over unreadable files leave nothing behind but what they print. -/
theorem renderEach_filter_isReadable (rendering : Rendering) (same : s.silenced = t.silenced)
    (outputs : Outputs) (paths : List Path) :
    (renderEach rendering s outputs paths).1 =
        (renderEach rendering t outputs (paths.filter s.tree.isReadable)).1 ∧
      (renderEach rendering s outputs paths).2.silenced =
        (renderEach rendering t outputs (paths.filter s.tree.isReadable)).2.silenced := by
  induction paths generalizing s t outputs with
  | nil => exact ⟨rfl, same⟩
  | cons path paths ih =>
    have alike := rendersAlike_of_silenced_eq same
    obtain ⟨cause, fails⟩ | ⟨source, r, reads, renders⟩ | ⟨source, cause, reads, fails⟩ :=
      s.file_cases rendering path
    -- the file is left out on the right, and on the left it only adds to the messages
    · rw [renderEach_of_unreadable fails,
        List.filter_cons_of_neg (by simp [FileTree.isReadable_of_error fails])]
      exact ih ((silenced_complain s _).trans same) outputs
    · have reads' : t.tree.read path.toText = .ok source := alike.tree ▸ reads
      have renders' : t.renderSource rendering source = .ok r := alike.renderSource _ _ ▸ renders
      rw [renderEach_of_rendered reads renders, List.filter_cons_of_pos (FileTree.isReadable_of_ok reads),
        renderEach_of_rendered reads' renders', alike.outputPath, ← keep_tree s path.toText r]
      exact ih (by rw [silenced_keep, silenced_keep, same]) _
    · have reads' : t.tree.read path.toText = .ok source := alike.tree ▸ reads
      have fails' : t.renderSource rendering source = .error cause := alike.renderSource _ _ ▸ fails
      rw [renderEach_of_unresolvable reads fails, List.filter_cons_of_pos (FileTree.isReadable_of_ok reads),
        renderEach_of_unresolvable reads' fails']
      exact ⟨rfl, same⟩

/-- The extraction of a directory that no readable file ends has the same outcome without the unreadable
files, and reports nothing then. -/
theorem extractAmong_isReadable (same : s.silenced = t.silenced) {pattern : Pattern}
    (renders : s.RendersAll rendering (s.tree.matching s.settings.sourceDirectory pattern)) :
    (∃ outputs, (s.extractDirectory pattern rendering).1 = .ok outputs ∧
        (t.extractAmong s.tree.isReadable pattern rendering).1 = .ok outputs) ∧
      (s.extractDirectory pattern rendering).2.silenced =
        (t.extractAmong s.tree.isReadable pattern rendering).2.silenced ∧
      (t.extractAmong s.tree.isReadable pattern rendering).2.stderr = t.stderr := by
  have alike := rendersAlike_of_silenced_eq same
  obtain ⟨sameOutcome, sameSession⟩ := renderEach_filter_isReadable rendering same []
    (s.tree.matching s.settings.sourceDirectory pattern)
  have ends := renderEach_eq_ok_iff.2 (⟨renders, rfl⟩ : _ ∧ Entries.assignAll [] _ = _)
  have rendersKept : t.RendersAll rendering
      ((s.tree.matching s.settings.sourceDirectory pattern).filter s.tree.isReadable) :=
    alike.rendersAll_iff.1 fun path member => renders path (List.mem_of_mem_filter member)
  have silent : (renderEach rendering t [] _).2.stderr = _ := stderr_renderEach rendersKept
  rw [← alike.tree, FileTree.unreadable_filter_isReadable] at silent
  rw [extractAmong, ← alike.tree, ← alike.settings]
  exact ⟨⟨_, ends, sameOutcome ▸ ends⟩, sameSession, silent.trans (List.append_nil _)⟩

/-- Discovery without the unreadable files starts the same session. -/
theorem silenced_startAmong (settings : Settings) (tree : FileTree) (directories : List Text) :
    (start settings tree directories).silenced =
      (startAmong tree.isReadable settings tree directories).silenced := by
  rw [start_eq, startAmong_eq, silenced, silenced]
  simp only [FileTree.sources_filter_isReadable]

/-! ## Whole sessions -/

end ContractInterface.Session
