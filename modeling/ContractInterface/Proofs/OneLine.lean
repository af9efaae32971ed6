import ContractInterface.Proofs.Fields
import ContractInterface.Proofs.Spacing
import ContractInterface.Proofs.Spelling
import ContractInterface.TypeSyntax.Clause
import ContractInterface.TypeSyntax.Expr

/-! # Texts on one line

Respacing leaves spaces for the only blanks of a text, so what is read from a respaced text never holds
a line feed.  Reading a type respaces it: the type of a clause is on one line if the clause is
(`isOneLine_ofText`).  Lines that hold no line feed are told apart when they are put below each other,
and only these are (`length_fields_joined_iff`).
-/

namespace ContractInterface

namespace Text

/-! ## Lines below each other -/

theorem length_fields (c : Char) (s : Text) : (fields c s).length = s.count c + 1 := by
  induction s with
  | nil => rfl
  | cons d s ih =>
    unfold fields
    split
    · rename_i isSeparator
      rw [List.length_cons, ih, isSeparator, List.count_cons_self]
    · rename_i other
      cases pieces : fields c s with
      | nil => exact absurd pieces (fields_ne_nil c s)
      | cons piece more =>
        rw [List.count_cons_of_ne (by simpa using other), ← ih, pieces]
        rfl

/-- Pieces with a separator between neighbours are as many as before exactly if none holds the
separator. -/
theorem length_fields_joined_iff {c : Char} {pieces : List Text} (nonempty : pieces ≠ []) :
    (fields c (joined [c] pieces)).length = pieces.length ↔ ∀ piece ∈ pieces, c ∉ piece := by
  refine ⟨fun same => ?_, fun absent => by rw [fields_joined nonempty absent]⟩
  -- one more field for each separator
  have counts : ∀ piece more, (joined [c] (piece :: more)).count c =
      (piece :: more).flatten.count c + more.length := by
    intro piece more
    induction more generalizing piece with
    | nil => simp [joined]
    | cons next more ih =>
      rw [joined_cons_cons, List.count_append, List.count_append, ih]
      simp only [List.count_singleton_self, List.flatten_cons, List.count_append, List.length_cons]
      omega
  obtain ⟨piece, more, rfl⟩ := List.exists_cons_of_ne_nil nonempty
  rw [length_fields, counts, List.length_cons] at same
  have none_ : (piece :: more).flatten.count c = 0 := by omega
  exact fun found member inPiece =>
    List.count_eq_zero.1 none_ (List.mem_flatten_of_mem member inPiece)

/-! ## Parts of texts -/

theorem mem_fields_subset {c : Char} {s piece : Text} (member : piece ∈ fields c s) : piece ⊆ s := by
  induction s generalizing piece with
  | nil =>
    rw [List.mem_singleton.1 member]
    exact List.nil_subset _
  | cons d s ih =>
    rw [fields] at member
    split at member
    · rcases List.mem_cons.1 member with rfl | member
      · exact List.nil_subset _
      · exact List.subset_cons_of_subset d (ih member)
    · cases pieces : fields c s with
      | nil => exact absurd pieces (fields_ne_nil c s)
      | cons first more =>
        rw [pieces] at member ih
        rcases List.mem_cons.1 member with rfl | member
        · exact List.cons_subset_cons d (ih List.mem_cons_self)
        · exact List.subset_cons_of_subset d (ih (List.mem_cons_of_mem first member))

theorem mem_joined_subset {separator piece : Text} {pieces : List Text} (member : piece ∈ pieces) :
    piece ⊆ joined separator pieces := by
  induction pieces with
  | nil => cases member
  | cons first more ih =>
    cases more with
    | nil =>
      rw [List.mem_singleton.1 member]
      simp [joined]
    | cons next more =>
      rw [joined_cons_cons]
      rcases List.mem_cons.1 member with rfl | member
      · exact List.subset_append_left _ _
      · exact List.subset_append_of_subset_right _ (List.subset_append_of_subset_right _ (ih member))

theorem splitLastWord_fst_subset (s : Text) : (splitLastWord s).1 ⊆ s := by
  intro c member
  have inFront := trimEnd_subset _ member
  exact trimEnd_subset s (List.mem_reverse.1 (List.dropWhile_subset _ (List.mem_reverse.1 inFront)))

/-! ## One line -/

/-- A text without a line feed. -/
def IsOneLine (s : Text) : Prop :=
  '\n' ∉ s

instance (s : Text) : Decidable (IsOneLine s) :=
  inferInstanceAs (Decidable (¬ _))

theorem isOneLine_nil : IsOneLine [] :=
  List.not_mem_nil

theorem IsOneLine.of_subset {s t : Text} (whole : IsOneLine t) (within : s ⊆ t) : IsOneLine s :=
  fun member => whole (within member)

theorem IsOneLine.append {s t : Text} (left : IsOneLine s) (right : IsOneLine t) : IsOneLine (s ++ t) :=
  fun member => (List.mem_append.1 member).elim left right

theorem IsOneLine.cons {c : Char} {s : Text} (other : c ≠ '\n') (behind : IsOneLine s) :
    IsOneLine (c :: s) :=
  List.not_mem_cons_of_ne_of_not_mem (Ne.symm other) behind

theorem isOneLine_of_chars {p : Char → Bool} (other : p '\n' = false) {s : Text}
    (all : ∀ c ∈ s, p c = true) : IsOneLine s := by
  intro member
  rw [all _ member] at other
  cases other

theorem isOneLine_joined {separator : Text} {pieces : List Text} (between : IsOneLine separator)
    (each : ∀ piece ∈ pieces, IsOneLine piece) : IsOneLine (joined separator pieces) := by
  induction pieces with
  | nil => exact isOneLine_nil
  | cons piece more ih =>
    rw [List.forall_mem_cons] at each
    cases more with
    | nil => simpa [joined] using each.1
    | cons next more =>
      rw [joined_cons_cons]
      exact each.1.append (between.append (ih each.2))

/-- Collapsing leaves no other blank than a space. -/
theorem isOneLine_collapsed (s : Text) : IsOneLine (collapsed s) := by
  induction s with
  | nil => exact isOneLine_nil
  | cons c s ih =>
    rw [collapsed]
    split
    · split
      · exact ih
      · exact ih.cons (by decide)
    · rename_i visible
      refine ih.cons ?_
      rintro rfl
      exact visible (by decide)

theorem isOneLine_spaced (s : Text) : IsOneLine (spaced s) := by
  rw [spaced_eq_trim_collapsed]
  exact (isOneLine_collapsed s).of_subset (trim_subset _)

end Text

open Text

namespace TypeSyntax

/-! ## Types -/

theorem isOneLine_normalized (s : Text) : IsOneLine (normalized s) :=
  (isOneLine_spaced _).of_subset (plainAddress_subset _)

namespace Dimension

theorem leading?_subset {s size rest : Text} (found : leading? s = some (size, rest)) :
    bracketed size ++ rest ⊆ s := by
  unfold leading? at found
  split at found
  · rename_i s
    split at found
    · rename_i rest' isRest
      simp only [Option.some.injEq, Prod.mk.injEq] at found
      obtain ⟨rfl, rfl⟩ := found
      have inner : (trimStart s).takeWhile isWordChar ++ (trimStart s).dropWhile isWordChar ⊆ s := by
        rw [List.takeWhile_append_dropWhile]
        exact trimStart_subset s
      have behind : ']' :: rest' ⊆ (trimStart s).dropWhile isWordChar :=
        isRest ▸ trimStart_subset _
      intro c member
      simp only [bracketed, List.cons_append, List.mem_cons, List.mem_append, List.append_assoc,
        List.not_mem_nil, false_or] at member
      rcases member with rfl | inSize | inRest
      · exact List.mem_cons_self
      · exact List.mem_cons_of_mem _ (inner (List.mem_append_left _ inSize))
      · exact List.mem_cons_of_mem _ (inner (List.mem_append_right _ (behind (List.mem_cons.2 inRest))))
    · cases found
  · cases found

theorem tightened_subset (s : Text) : tightened s ⊆ s := by
  fun_induction tightened s with
  | case1 => exact List.Subset.refl _
  | case2 c s size rest found ih =>
    have within := leading?_subset found
    intro d member
    refine trimStart_subset _ (within ?_)
    exact (List.mem_append.1 member).elim (List.mem_append_left _) fun inRest =>
      List.mem_append_right _ (ih inRest)
  | case3 c s _ ih => exact List.cons_subset_cons c ih

theorem trailing?_subset {s front size : Text} (found : trailing? s = some (front, size)) : front ⊆ s := by
  unfold trailing? at found
  split at found
  · rename_i r isReverse
    split at found
    · rename_i front' isFront
      cases found
      intro c member
      have inRest : c ∈ trimStart ((trimStart r).dropWhile isWordChar) := by
        rw [isFront]
        exact List.mem_cons_of_mem _ (trimStart_subset _ (List.mem_reverse.1 member))
      have inReverse : c ∈ r := trimStart_subset r (List.dropWhile_subset _ (trimStart_subset _ inRest))
      exact List.mem_reverse.1 (isReverse ▸ List.mem_cons_of_mem _ inReverse)
    · cases found
  · cases found

theorem peel_fst_subset (s : Text) : (peel s).1 ⊆ s := by
  fun_induction peel s with
  | case1 s front size found ih => exact List.Subset.trans ih (trailing?_subset found)
  | case2 => exact List.Subset.refl _

theorem splitTrailing_fst_subset (s : Text) : (splitTrailing s).1 ⊆ s := by
  unfold splitTrailing
  simp only
  split
  · exact trim_subset s
  · exact List.Subset.trans (trim_subset _) (List.Subset.trans (peel_fst_subset _) (trimEnd_subset s))

end Dimension

namespace Clause

theorem leadingType?_subset {s type rest : Text} (found : leadingType? s = some (type, rest)) :
    type ⊆ s := by
  cases s with
  | nil => cases found
  | cons c s =>
    rw [leadingType?] at found
    split at found
    · cases found
      exact List.cons_subset_cons c (List.takeWhile_subset _)
    · cases found

theorem plain?_type_subset {s : Text} {clause : Clause} (found : plain? s = some clause) :
    clause.type ⊆ s := by
  unfold plain? at found
  split at found
  · rename_i isType
    cases found
    exact leadingType?_subset isType
  · rename_i isType
    split at found
    · cases found
      exact leadingType?_subset isType
    · cases found
  · cases found

/-- The type of a clause is on one line if the clause is; of a clause without a mapping it always is. -/
theorem isOneLine_ofText {clause : Text} (oneLine : IsOneLine clause) :
    IsOneLine (ofText clause).type := by
  unfold ofText
  simp only
  split
  · rename_i type rest isMapping
    obtain ⟨_, close, _, rfl, _⟩ := Mapping.split?_eq_some_iff.1 isMapping
    refine oneLine.of_subset fun c member => ?_
    exact trim_subset _ (plainAddress_subset _ (trim_subset _ (List.take_subset _ _ member)))
  · have whole := (isOneLine_spaced _).of_subset
      (Dimension.tightened_subset (withoutStorage (plainAddress (trim clause))))
    cases isPlain : plain? (Dimension.tightened (withoutStorage (plainAddress (trim clause)))) with
    | none => exact whole
    | some c => exact whole.of_subset (plain?_type_subset isPlain)

end Clause

namespace Mapping

theorem withoutName_subset (s : Text) : withoutName s ⊆ s := by
  unfold withoutName
  simp only
  split
  · exact trim_subset s
  · split
    · exact List.Subset.trans (splitLastWord_fst_subset _) (trim_subset s)
    · exact trim_subset s

theorem mem_keys_subset {s key : Text} (isKey : key ∈ keys s) : key ⊆ s := by
  fun_induction keys s with
  | case1 s _ arrowAt _ ih =>
    rcases List.mem_cons.1 isKey with rfl | isKey
    · exact List.Subset.trans (withoutName_subset _) (List.Subset.trans (List.drop_subset _ _)
        (List.Subset.trans (List.take_subset _ _) (trim_subset s)))
    · exact List.Subset.trans (ih isKey) (List.Subset.trans (List.drop_subset _ _) (trim_subset s))
  | case2 => cases isKey
  | case3 => cases isKey

theorem outerValue_subset (s : Text) : outerValue s ⊆ s := by
  unfold outerValue
  simp only
  split
  · split
    · split
      · exact List.Subset.trans (withoutName_subset _) (List.Subset.trans (List.drop_subset _ _)
          (List.Subset.trans (List.take_subset _ _) (trim_subset s)))
      · exact trim_subset s
    · exact trim_subset s
  · exact trim_subset s

theorem finalValue_subset (s : Text) : finalValue s ⊆ s := by
  fun_induction finalValue s with
  | case1 s _ _ ih => exact List.Subset.trans ih (outerValue_subset s)
  | case2 s _ _ => exact trim_subset s
  | case3 s _ => exact trim_subset s

end Mapping

end TypeSyntax

end ContractInterface
