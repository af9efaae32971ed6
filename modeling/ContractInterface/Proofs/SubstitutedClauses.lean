import ContractInterface.Proofs.Clauses

/-! # Substitution in clauses

Before a signature is read, the blanks of a parameter list are collapsed and the type names in it are
replaced.  Neither changes the form of a clause: what stands behind the type stays a decoration
(`IsDecoration.exists_substituted`), and a type becomes what its name stands for, with the dimensions
that it had (`substituted_typeText`).
-/

namespace ContractInterface

open Text TypeSyntax Registry

/-! ## Collapsed blanks -/

theorem gap_ne_nil {b : Text} (apart : b ≠ []) : gap b ≠ [] := by
  unfold gap
  rw [if_neg apart]
  exact List.cons_ne_nil _ _

theorem isSolid_of_letters {word : Text} (letters : ∀ c ∈ word, isWordChar c = true) : IsSolid word :=
  fun c member => isBlank_of_isWordChar (letters c member)

theorem IsDecoration.collapsed {t name : Text} (decorates : IsDecoration t name) :
    IsDecoration (collapsed t) name := by
  induction decorates with
  | nothing => exact .nothing
  | @location b place rest name blanks apart isPlace _ ih =>
    obtain ⟨nonempty, _, _, letters⟩ := isWordChar_of_storageLocations _ isPlace
    have solid := isSolid_of_letters (List.all_eq_true.1 letters)
    rw [collapsed_blanks_append blanks (solid.isTrimmed.first_append nonempty rest), collapsed_solid_append solid]
    exact .location (blanks_gap b) (gap_ne_nil apart) isPlace ih
  | @named b name blanks apart plain =>
    rw [collapsed_blanks_append blanks plain.solid.isTrimmed.first, collapsed_solid plain.solid]
    exact .named (blanks_gap b) (gap_ne_nil apart) plain

theorem isReferenceMember_of_isBlank {c : Char} (blank : isBlank c = true) :
    isReferenceMember c = false := by
  apply Bool.eq_false_iff.2
  intro member
  rcases Bool.or_eq_true_iff.1 member with isMember | dot
  · rw [isBlank_of_isMember isMember] at blank
    cases blank
  · rw [eq_of_beq dot] at blank
    exact absurd blank (by decide)

section Substitution

variable {spelling : Text → Text} {names : List Text}

/-! ## What is replaced -/

theorem substituted_blanks_append {b : Text} (blanks : Blanks b) (t : Text) :
    substituted spelling names (b ++ t) = b ++ substituted spelling names t := by
  induction b with
  | nil => rfl
  | cons c b ih =>
    rw [List.cons_append, substituted_cons_char _ _
      (isReferenceMember_of_isBlank (blanks c List.mem_cons_self)),
      ih fun d member => blanks d (List.mem_cons_of_mem c member)]
    rfl

theorem substituted_of_blanks {b : Text} (blanks : Blanks b) : substituted spelling names b = b := by
  have whole : substituted spelling names (b ++ []) = _ := substituted_blanks_append blanks []
  rwa [List.append_nil, substituted_nil, List.append_nil] at whole

/-- A plain word that is no name stays when any other name is replaced. -/
theorem mapRuns_of_ne {word n : Text} (plain : IsPlainWord word) (other : word ≠ n) :
    mapRuns (replacedRun n (spelling n)) word = word :=
  by
  have stays : substituted spelling [n] word = word := substituted_of_not_mem plain.nonempty
    (isMember_of_isIdentifier plain.identifier) (by simpa using other)
  exact stays

/-- An unobtrusive word becomes a plain word. -/
theorem isPlainWord_substituted {word : Text} (plain : IsPlainWord word)
    (unobtrusive : IsUnobtrusive spelling names word) :
    IsPlainWord (substituted spelling names word) := by
  by_cases member : word ∈ names
  · obtain ⟨plain', absent⟩ := unobtrusive member
    have whole : substituted spelling names (dotted ([] ++ [word])) = spelling word :=
      substituted_dotted member (by simpa using plain.identifier) (fun _ absurd_ => nomatch absurd_)
        fun n isName => mapRuns_of_ne plain' fun same => absent (same ▸ isName)
    rw [List.nil_append, dotted_singleton] at whole
    rwa [whole]
  · rwa [substituted_of_not_mem plain.nonempty (isMember_of_isIdentifier plain.identifier) member]

variable (distinct : AreDistinct names)

include distinct

theorem substituted_place {place : Text} (isPlace : place ∈ storageLocations) :
    substituted spelling names place = place := by
  obtain ⟨nonempty, _, _, letters⟩ := isWordChar_of_storageLocations _ isPlace
  exact substituted_of_not_mem nonempty
    (fun c member => isMember_of_isWordChar (List.all_eq_true.1 letters c member))
    fun member => distinct.free place member (List.mem_cons_of_mem _ isPlace)

theorem IsDecoration.exists_substituted {t name : Text} (decorates : IsDecoration t name)
    (unobtrusive : IsUnobtrusive spelling names name) :
    ∃ name', IsDecoration (substituted spelling names t) name' := by
  induction decorates with
  | nothing =>
    rw [substituted_nil]
    exact ⟨[], .nothing⟩
  | @location b place rest name blanks apart isPlace behind ih =>
    obtain ⟨name', behind'⟩ := ih unobtrusive
    have edge : ∀ c ∈ rest.head?, isReferenceMember c = false := fun c isFirst =>
      isReferenceMember_of_isBlank (behind.first c isFirst)
    rw [substituted_blanks_append blanks, substituted_append _ _ edge, substituted_place distinct isPlace]
    exact ⟨name', .location blanks apart isPlace behind'⟩
  | @named b name blanks apart plain =>
    rw [substituted_blanks_append blanks]
    exact ⟨_, .named blanks apart (isPlainWord_substituted plain unobtrusive)⟩

theorem substituted_append_brackets (s : Text) (lengths : List (Option Nat)) :
    substituted spelling names (s ++ brackets lengths) = substituted spelling names s ++ brackets lengths :=
  fixed_append_brackets (substituted_nil spelling names) (substituted_separator spelling names)
    (distinct.substituted_sizeText spelling) s lengths

/-- A dotted name with dimensions becomes what its last part stands for, with these dimensions. -/
theorem substituted_typeText {qualifiers : List Text} {name : Text} (member : name ∈ names)
    (plain : ∀ part ∈ qualifiers ++ [name], IsPlainWord part)
    (unobtrusive : ∀ q ∈ qualifiers, IsUnobtrusive spelling names q)
    (canonical : IsCanonical (spelling name)) (lengths : List (Option Nat)) :
    substituted spelling names (typeText (qualifiers ++ [name]) lengths) =
      spelling name ++ brackets lengths := by
  have fixed : ∀ n ∈ names, mapRuns (replacedRun n (spelling n)) (spelling name) = spelling name := by
    intro n isName
    have alone : AreDistinct [n] := by
      refine ⟨fun m isN => ?_, fun m isN => ?_, fun m isN => ?_⟩ <;> rw [List.mem_singleton.1 isN]
      · exact distinct.identifiers n isName
      · exact distinct.userDefined n isName
      · exact distinct.free n isName
    exact canonical.substituted_eq alone spelling
  unfold typeText
  rw [substituted_append_brackets distinct, substituted_dotted member
    (fun part isPart => (plain part isPart).identifier) unobtrusive fixed]

/-- A word that is no name stays, with its dimensions. -/
theorem substituted_typeText_of_not_mem {name : Text} (absent : name ∉ names) (plain : IsPlainWord name)
    (lengths : List (Option Nat)) :
    substituted spelling names (typeText [name] lengths) = typeText [name] lengths := by
  unfold typeText
  rw [substituted_append_brackets distinct, dotted_singleton, substituted_of_not_mem plain.nonempty
    (isMember_of_isIdentifier plain.identifier) absent]

end Substitution

end ContractInterface
