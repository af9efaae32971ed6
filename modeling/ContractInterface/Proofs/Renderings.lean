import ContractInterface.Proofs.Discovery

/-! # Renderings

Whether a file is rendered, and as what, depends on its text and on the types, settings and files that a
session has, none of which rendering changes.  So `render` comes down to `renderSource`, which sees the
text alone, and to `keep`, which adds what came of it to the session.
-/

namespace ContractInterface

open Text

/-- What comes of a source: its rendering, and the interface that a session keeps of it, if any. -/
structure Rendered where
  content : Text
  interface? : Option Extraction

/-! ## Readable files are files -/

theorem FileTree.isFile_of_read {tree : FileTree} {path source : Text} (reads : tree.read path = .ok source) :
    tree.isFile path = true := by
  unfold FileTree.read FileTree.readBytes at reads
  unfold FileTree.isFile FileTree.find?
  cases located : tree.locate path with
  | error fault => simp [located] at reads
  | ok location =>
    rw [located] at reads
    cases found : tree.node? location with
    | none => simp [found] at reads
    | some node =>
      cases node with
      | directory => simp [found] at reads
      | file bytes => simp [found]

namespace Session

variable {s : Session} {rendering : Rendering} {path : Text}

/-- A source rendered with the types of a session. -/
def renderSource (s : Session) (rendering : Rendering) (source : Text) :
    Except TypeSyntax.ResolutionError Rendered :=
  match rendering with
  | .interface =>
    (extract s.settings.options (some s.registry) source).map fun e => ⟨descriptionOf e, some e⟩
  | .selectors =>
    (Signature.entries source (some s.registry)).map fun entries => ⟨Signature.listing entries, none⟩

/-- A session that keeps what came of a file. -/
def keep (s : Session) (path : Text) (r : Rendered) : Session :=
  r.interface?.elim s (s.record path)

/-! ## What is kept -/

section keep

variable (s path) (r : Rendered)

@[simp]
theorem keep_tree : (s.keep path r).tree = s.tree := by
  unfold keep
  cases r.interface? <;> rfl

@[simp]
theorem keep_settings : (s.keep path r).settings = s.settings := by
  unfold keep
  cases r.interface? <;> rfl

@[simp]
theorem keep_registry : (s.keep path r).registry = s.registry := by
  unfold keep
  cases r.interface? <;> rfl

@[simp]
theorem keep_stdout : (s.keep path r).stdout = s.stdout := by
  unfold keep
  cases r.interface? <;> rfl

@[simp]
theorem keep_stderr : (s.keep path r).stderr = s.stderr := by
  unfold keep
  cases r.interface? <;> rfl

end keep

/-! ## Rendering -/

theorem render_of_unreadable {cause : ReadError} (fails : s.tree.read path = .error cause) :
    s.render rendering path = .error cause.toFailure := by
  have noSource : s.source path = .error cause.toFailure := by rw [source, fails]; rfl
  cases rendering <;> simp [render, extractFile, signaturesOfFile, noSource, bind, Except.bind]

theorem render_of_readable {source : Text} (reads : s.tree.read path = .ok source) :
    s.render rendering path =
      ((s.renderSource rendering source).map fun r => (r.content, s.keep path r)).mapError
        .resolution := by
  have sourceIs : s.source path = .ok source := by rw [Session.source, reads]; rfl
  cases rendering with
  | interface =>
    simp only [render, extractFile, renderSource, sourceIs, bind, Except.bind]
    cases extract s.settings.options (some s.registry) source <;> rfl
  | selectors =>
    simp only [render, signaturesOfFile, renderSource, sourceIs, bind, Except.bind]
    cases Signature.entries source (some s.registry) <;> rfl

theorem render_eq_ok_iff {content : Text} {s' : Session} :
    s.render rendering path = .ok (content, s') ↔
      ∃ source r, s.tree.read path = .ok source ∧ s.renderSource rendering source = .ok r ∧
        r.content = content ∧ s.keep path r = s' := by
  cases reads : s.tree.read path with
  | error cause => simp [render_of_unreadable reads]
  | ok source =>
    rw [render_of_readable reads]
    cases renders : s.renderSource rendering source with
    | error cause =>
      show Except.error _ = Except.ok _ ↔ _
      simp [renders]
    | ok r =>
      show Except.ok (r.content, s.keep path r) = Except.ok (content, s') ↔ _
      simp [renders]

/-! ## What files are rendered to -/

/-- What a file is rendered to, if it can be read and its types can be resolved. -/
def contentOf? (s : Session) (rendering : Rendering) (path : Path) : Option Text :=
  (s.render rendering path.toText).toOption.map Prod.fst

section contentOf?

variable {path : Path}

theorem exists_render_iff : (∃ content s', s.render rendering path.toText = .ok (content, s')) ↔
    (s.contentOf? rendering path).isSome = true := by
  unfold contentOf?
  cases s.render rendering path.toText with
  | error cause => simp [Except.toOption]
  | ok rendered => exact ⟨fun _ => rfl, fun _ => ⟨rendered.1, rendered.2, rfl⟩⟩

theorem contentOf?_of_unreadable {cause : ReadError} (fails : s.tree.read path.toText = .error cause) :
    s.contentOf? rendering path = none := by
  rw [contentOf?, render_of_unreadable fails]
  rfl

theorem contentOf?_of_readable {source : Text} (reads : s.tree.read path.toText = .ok source) :
    s.contentOf? rendering path = (s.renderSource rendering source).toOption.map Rendered.content := by
  rw [contentOf?, render_of_readable reads]
  cases s.renderSource rendering source <;> rfl

theorem contentOf?_of_rendered {source : Text} {r : Rendered} (reads : s.tree.read path.toText = .ok source)
    (renders : s.renderSource rendering source = .ok r) : s.contentOf? rendering path = some r.content := by
  rw [contentOf?_of_readable reads, renders]
  rfl

theorem contentOf?_of_unresolvable {source : Text} {cause : TypeSyntax.ResolutionError}
    (reads : s.tree.read path.toText = .ok source)
    (fails : s.renderSource rendering source = .error cause) : s.contentOf? rendering path = none := by
  rw [contentOf?_of_readable reads, fails]
  rfl

end contentOf?

end Session

end ContractInterface
