import ContractInterface.Proofs.ArrayLengths
import ContractInterface.Proofs.ElementaryTypes
import ContractInterface.Proofs.Results

/-! # What signatures are made of

A signature that is read from text is a name with types in parentheses, and every type is an elementary
type in full or a list of such types in parentheses, with brackets behind it (`IsCanonicalType`).  This
holds whatever is read; what is left open is only what the brackets hold, and they hold the sizes that are
written in the clauses, in their order (`isReadOff_of_canonicalParam`).

A size behind a tuple has to be decimal to be read at all.  Any word is taken for the size of another type,
so a signature is canonical exactly if all sizes in its clauses are decimal
(`isCanonicalSignature_iff`), and the name of a constant for a size gets through
(`entries_of_constant_size`).
-/

namespace ContractInterface

open Text TypeSyntax Delimiter

/-! ## Sizes -/

namespace TypeSyntax.Dimension

theorem isWordChar_of_trailing? {s front size : Text} (found : trailing? s = some (front, size)) :
    ∀ c ∈ size, isWordChar c = true := by
  unfold trailing? at found
  split at found
  · split at found
    · cases found
      intro c member
      exact List.all_eq_true.1 List.all_takeWhile c (List.mem_reverse.1 member)
    · cases found
  · cases found

theorem isWordChar_of_mem_peel (s : Text) : ∀ size ∈ (peel s).2, ∀ c ∈ size, isWordChar c = true := by
  fun_induction peel s with
  | case1 s front size found ih =>
    intro size' member
    rcases List.mem_append.1 member with inFront | isLast
    · exact ih size' inFront
    · exact List.mem_singleton.1 isLast ▸ isWordChar_of_trailing? found
  | case2 =>
    intro size member
    cases member

theorem isWordChar_of_mem_splitTrailing {s size : Text} (member : size ∈ (splitTrailing s).2) :
    ∀ c ∈ size, isWordChar c = true := by
  unfold splitTrailing at member
  simp only at member
  split at member
  · cases member
  · exact isWordChar_of_mem_peel _ size member

end TypeSyntax.Dimension

namespace Signature

theorem isDecimal_of_decimalDimension? {s size rest : Text}
    (found : decimalDimension? s = some (size, rest)) : ∀ c ∈ size, isDecimal c = true := by
  unfold decimalDimension? at found
  split at found
  · simp only at found
    split at found
    · cases found
      exact List.all_eq_true.1 List.all_takeWhile
    · cases found
  · cases found

theorem isDecimal_of_mem_decimalDimensions (s : Text) :
    ∀ size ∈ (decimalDimensions s).1, ∀ c ∈ size, isDecimal c = true := by
  fun_induction decimalDimensions s with
  | case1 s size rest found ih =>
    exact List.forall_mem_cons.2 ⟨isDecimal_of_decimalDimension? found, ih⟩
  | case2 => exact fun _ member => nomatch member

/-- The suffix of a tuple consists of dimensions with decimal sizes. -/
theorem exists_sizes_of_tupleSuffix? {s suffix : Text} (found : tupleSuffix? s = some suffix) :
    ∃ sizes : List Text, suffix = sizes.flatMap bracketed ∧ ∀ size ∈ sizes, ∀ c ∈ size, isDecimal c = true := by
  unfold tupleSuffix? at found
  simp only at found
  split at found
  · cases found
    exact ⟨_, rfl, isDecimal_of_mem_decimalDimensions s⟩
  · cases found

theorem exists_sizes_of_clauseShape {clause suffix : Text} {parts : List Text}
    (shape : clauseShape clause = .ok (.tuple parts suffix)) :
    ∃ sizes : List Text, suffix = sizes.flatMap bracketed ∧ ∀ size ∈ sizes, ∀ c ∈ size, isDecimal c = true := by
  obtain ⟨_, _, _, isSuffix, _⟩ := clauseShape_eq_tuple_iff.1 shape
  exact exists_sizes_of_tupleSuffix? isSuffix

/-- The sizes that are written in a clause, as signatures read it. -/
def sizesIn (clause : Text) : List Text :=
  match _h : clauseShape clause with
  | .error _ => []
  | .ok (.plain text) => (Dimension.splitTrailing (Clause.ofText text).type).2
  | .ok (.tuple parts suffix) => parts.attach.flatMap (fun part => sizesIn part.1) ++ bracketContents suffix
termination_by clause.length
decreasing_by exact length_lt_of_clauseShape _h part.2

end Signature

/-! ## Brackets -/

section Forall₂

variable {α β : Type}

theorem exists_forall₂ {R : α → β → Prop} {xs : List α} (each : ∀ x ∈ xs, ∃ y, R x y) :
    ∃ ys, List.Forall₂ R xs ys := by
  induction xs with
  | nil => exact ⟨[], .nil⟩
  | cons x xs ih =>
    obtain ⟨first, others⟩ := List.forall_mem_cons.1 each
    obtain ⟨y, related⟩ := first
    obtain ⟨ys, related'⟩ := ih others
    exact ⟨y :: ys, .cons related related'⟩

theorem exists_of_mem_right {R : α → β → Prop} {xs : List α} {ys : List β} (each : List.Forall₂ R xs ys) {y : β}
    (member : y ∈ ys) : ∃ x ∈ xs, R x y := by
  induction each with
  | nil => cases member
  | @cons x _ xs _ first _ ih =>
    rcases List.mem_cons.1 member with rfl | member
    · exact ⟨x, List.mem_cons_self, first⟩
    · obtain ⟨x', inRest, related⟩ := ih member
      exact ⟨x', List.mem_cons_of_mem _ inRest, related⟩

theorem forall_mem_flatten {p : β → Prop} {xs : List α} {yss : List (List β)}
    (each : List.Forall₂ (fun _ ys => ∀ y ∈ ys, p y) xs yss) : ∀ y ∈ yss.flatten, p y := by
  induction each with
  | nil => exact fun _ member => nomatch member
  | cons first _ ih => exact List.forall_mem_append.2 ⟨first, ih⟩

theorem mapError_eq_ok_iff {ε ε' : Type} {x : Except ε α} {f : ε → ε'} {a : α} :
    x.mapError f = .ok a ↔ x = .ok a := by
  cases x <;> simp [Except.mapError]

theorem mapError_eq_error_iff {ε ε' : Type} {x : Except ε α} {f : ε → ε'} {cause : ε'} :
    x.mapError f = .error cause ↔ ∃ inner, x = .error inner ∧ f inner = cause := by
  cases x <;> simp [Except.mapError]

theorem forall₂_of_mapM {ε : Type} {f : α → Except ε β} {xs : List α} {ys : List β}
    (succeeds : xs.mapM f = .ok ys) : List.Forall₂ (fun x y => f x = .ok y) xs ys := by
  have same := mapM_eq_ok_iff.1 succeeds
  rwa [← List.forall₂_eq_eq_eq, List.forall₂_map_left_iff, List.forall₂_map_right_iff] at same

end Forall₂

/-- The brackets of a text hold some sizes, whatever stands behind it. -/
def HoldsSizes (s : Text) (sizes : List Text) : Prop :=
  ∀ rest, bracketContents (s ++ rest) = sizes ++ bracketContents rest

theorem HoldsSizes.append {s t : Text} {xs ys : List Text} (first : HoldsSizes s xs) (second : HoldsSizes t ys) :
    HoldsSizes (s ++ t) (xs ++ ys) := by
  intro rest
  rw [List.append_assoc, first, second, List.append_assoc]

theorem holdsSizes_of_not_mem {s : Text} (absent : '[' ∉ s) : HoldsSizes s [] := by
  intro rest
  induction s with
  | nil => rfl
  | cons c s ih =>
    have other : c ≠ '[' := (List.ne_of_not_mem_cons absent).symm
    rw [List.cons_append, bracketContents, if_neg other, ih (List.not_mem_of_not_mem_cons absent)]

theorem HoldsSizes.eq {s : Text} {sizes : List Text} (holds : HoldsSizes s sizes) : bracketContents s = sizes := by
  have whole := holds []
  rwa [List.append_nil, bracketContents, List.append_nil] at whole

theorem holdsSizes_bracketed {size : Text} (word : ∀ c ∈ size, isWordChar c = true) :
    HoldsSizes (bracketed size) [size] := by
  intro rest
  have noBracket : ∀ c ∈ size, (c ≠ '[' && c ≠ ']') = true := by
    intro c member
    rw [Bool.and_eq_true, decide_eq_true_eq, decide_eq_true_eq]
    constructor <;> rintro rfl <;> exact absurd (word _ member) (by decide)
  have solid : IsSolid size := fun c member => isBlank_of_isWordChar (word c member)
  have inside : (size ++ ']' :: rest).takeWhile (fun d => d ≠ '[' && d ≠ ']') = size := by
    rw [List.takeWhile_append_of_pos noBracket, List.takeWhile_cons_of_neg (by decide), List.append_nil]
  have behind : HoldsSizes (size ++ [']']) [] := holdsSizes_of_not_mem fun member => by
    rcases List.mem_append.1 member with inSize | isClose
    · exact absurd (noBracket _ inSize) (by decide)
    · exact absurd (List.mem_singleton.1 isClose) (by decide)
  have split : bracketed size ++ rest = '[' :: (size ++ ']' :: rest) := by simp [bracketed]
  have others := behind rest
  rw [List.append_assoc] at others
  rw [split, bracketContents, if_pos rfl, inside, solid.isTrimmed.trim_eq]
  exact congrArg (size :: ·) others

theorem holdsSizes_dimensions {sizes : List Text} (words : ∀ size ∈ sizes, ∀ c ∈ size, isWordChar c = true) :
    HoldsSizes (sizes.flatMap bracketed) sizes := by
  induction sizes with
  | nil => exact holdsSizes_of_not_mem List.not_mem_nil
  | cons size sizes ih =>
    obtain ⟨first, others⟩ := List.forall_mem_cons.1 words
    exact (holdsSizes_bracketed first).append (ih others)

theorem holdsSizes_joined {types : List Text} {sizes : List (List Text)}
    (each : List.Forall₂ HoldsSizes types sizes) : HoldsSizes (joined [','] types) sizes.flatten := by
  induction each with
  | nil => exact holdsSizes_of_not_mem List.not_mem_nil
  | @cons t xs types sizes first others ih =>
    cases others with
    | nil => simpa [joined] using first
    | cons second more =>
      rw [joined_cons_cons]
      exact first.append ((holdsSizes_of_not_mem (by decide)).append ih)

/-! ## Canonical types -/

namespace Signature

/-- A text that spells a type in a signature: an elementary type in full or a list of types in
parentheses, with sizes of some kind in the brackets behind it. -/
inductive IsCanonicalType (isSize : Text → Prop) : Text → Prop
  | elementary {name : Text} {sizes : List Text} (isName : isElementary name = true)
      (isFull : canonicalName name = name) (areSizes : ∀ size ∈ sizes, isSize size) :
      IsCanonicalType isSize (name ++ sizes.flatMap bracketed)
  | tuple {types sizes : List Text} (areTypes : ∀ t ∈ types, IsCanonicalType isSize t)
      (areSizes : ∀ size ∈ sizes, isSize size) :
      IsCanonicalType isSize ('(' :: (joined [','] types ++ ')' :: sizes.flatMap bracketed))

/-- A text that is a name with canonical types in parentheses. -/
def IsCanonicalSignature (isSize : Text → Prop) (s : Text) : Prop :=
  ∃ name types, Identifier.isIdentifier name = true ∧ (∀ t ∈ types, IsCanonicalType isSize t) ∧
    s = spell name types

/-- A size of decimal digits, or an empty one. -/
def IsDecimalSize (size : Text) : Prop :=
  size.all Char.isDigit = true

variable {isSize isSize' : Text → Prop}

theorem IsCanonicalType.mono (weaker : ∀ size, isSize size → isSize' size) {t : Text}
    (canonical : IsCanonicalType isSize t) : IsCanonicalType isSize' t := by
  induction canonical with
  | elementary isName isFull areSizes =>
    exact .elementary isName isFull fun size member => weaker size (areSizes size member)
  | tuple _ areSizes ih => exact .tuple ih fun size member => weaker size (areSizes size member)

theorem not_mem_of_isFull {name : Text} (isName : isElementary name = true)
    (isFull : canonicalName name = name) : '[' ∉ name := by
  have isSpaced : spaced name = name := by
    rw [← isFull]
    exact spaced_canonicalName name
  rw [isElementary, isSpaced] at isName
  intro member
  exact absurd (isWordChar_of_isElementaryName isName (ne_addressPayable isFull) '[' member) (by decide)

theorem holdsSizes_tuple {types : List Text} {sizes : List (List Text)}
    (each : List.Forall₂ HoldsSizes types sizes) {suffix : Text} {outer : List Text} (behind : HoldsSizes suffix outer) :
    HoldsSizes ('(' :: (joined [','] types ++ ')' :: suffix)) (sizes.flatten ++ outer) := by
  have close : HoldsSizes [')'] [] := holdsSizes_of_not_mem (by decide)
  have opens : HoldsSizes ['('] [] := holdsSizes_of_not_mem (by decide)
  exact opens.append ((holdsSizes_joined each).append (close.append behind))

theorem holdsSizes_spell {name : Text} (isName : Identifier.isIdentifier name = true) {types : List Text}
    {sizes : List (List Text)} (each : List.Forall₂ HoldsSizes types sizes) :
    HoldsSizes (spell name types) sizes.flatten := by
  have front : HoldsSizes name [] := holdsSizes_of_not_mem fun member =>
    absurd (isMember_of_isIdentifier isName '[' member) (by decide)
  have close : HoldsSizes [')'] [] := holdsSizes_of_not_mem (by decide)
  have opens : HoldsSizes ['('] [] := holdsSizes_of_not_mem (by decide)
  have whole := front.append (opens.append ((holdsSizes_joined each).append close))
  simpa [spell] using whole

/-- Only sizes stand in the brackets of a canonical type. -/
theorem IsCanonicalType.exists_sizes (words : ∀ size, isSize size → ∀ c ∈ size, isWordChar c = true) {t : Text}
    (canonical : IsCanonicalType isSize t) : ∃ sizes, HoldsSizes t sizes ∧ ∀ size ∈ sizes, isSize size := by
  induction canonical with
  | @elementary name sizes isName isFull areSizes =>
    have behind := holdsSizes_dimensions fun size member => words size (areSizes size member)
    exact ⟨sizes, (holdsSizes_of_not_mem (not_mem_of_isFull isName isFull)).append behind, areSizes⟩
  | @tuple types sizes _ areSizes ih =>
    have behind := holdsSizes_dimensions fun size member => words size (areSizes size member)
    obtain ⟨inner, each⟩ := exists_forall₂ ih
    refine ⟨_, holdsSizes_tuple (each.imp fun _ _ => And.left) behind, List.forall_mem_append.2 ⟨?_, areSizes⟩⟩
    exact forall_mem_flatten (each.imp fun _ _ => And.right)

/-- Only sizes stand in the brackets of a canonical signature. -/
theorem IsCanonicalSignature.forall_mem (words : ∀ size, isSize size → ∀ c ∈ size, isWordChar c = true)
    {s : Text} (canonical : IsCanonicalSignature isSize s) : ∀ size ∈ bracketContents s, isSize size := by
  obtain ⟨name, types, isName, areTypes, rfl⟩ := canonical
  obtain ⟨sizes, each⟩ := exists_forall₂ fun t member => (areTypes t member).exists_sizes words
  rw [(holdsSizes_spell isName (each.imp fun _ _ => And.left)).eq]
  exact forall_mem_flatten (each.imp fun _ _ => And.right)

theorem isWordChar_of_isDecimalSize {size : Text} (decimal : IsDecimalSize size) :
    ∀ c ∈ size, isWordChar c = true := by
  intro c member
  have digit : c.isDigit = true := List.all_eq_true.1 decimal c member
  refine isWordChar_of_isDecimal ?_
  rw [isDecimal, decimalValue?_of_isDigit digit]
  rfl

/-! ## Clauses -/

theorem sizesIn_of_plain {clause text : Text} (shape : clauseShape clause = .ok (.plain text)) :
    sizesIn clause = (Dimension.splitTrailing (Clause.ofText text).type).2 := by
  rw [sizesIn.eq_def]
  split
  · rename_i isShape
    rw [shape] at isShape
    cases isShape
  · rename_i isShape
    rw [shape] at isShape
    cases isShape
    rfl
  · rename_i isShape
    rw [shape] at isShape
    cases isShape

theorem sizesIn_of_tuple {clause suffix : Text} {parts : List Text}
    (shape : clauseShape clause = .ok (.tuple parts suffix)) :
    sizesIn clause = parts.flatMap sizesIn ++ bracketContents suffix := by
  rw [sizesIn.eq_def]
  split
  · rename_i isShape
    rw [shape] at isShape
    cases isShape
  · rename_i isShape
    rw [shape] at isShape
    cases isShape
  · rename_i isShape
    rw [shape] at isShape
    cases isShape
    rw [List.flatMap_def, List.flatMap_def]
    exact congrArg (·.flatten ++ bracketContents suffix) List.attach_map_val

/-- The type of a clause as far as it is read: canonical but for the sizes in it, which are those of the
clause. -/
structure IsReadOff (clause t : Text) : Prop where
  canonical : IsCanonicalType (· ∈ sizesIn clause) t
  words : ∀ size ∈ sizesIn clause, ∀ c ∈ size, isWordChar c = true
  holds : HoldsSizes t (sizesIn clause)

theorem isReadOff_of_canonicalPlain {clause text t : Text} (shape : clauseShape clause = .ok (.plain text))
    (reads : canonicalPlain text = .ok t) : IsReadOff clause t := by
  have sizes := sizesIn_of_plain shape
  unfold canonicalPlain at reads
  simp only at reads
  split at reads
  · rename_i elementary
    cases reads
    have isName : isElementary (canonicalName (Dimension.splitTrailing (Clause.ofText text).type).1) = true := by
      rwa [isElementary_canonicalName]
    have isFull := canonicalName_canonicalName (Dimension.splitTrailing (Clause.ofText text).type).1
    have words : ∀ size ∈ sizesIn clause, ∀ c ∈ size, isWordChar c = true := fun size member =>
      Dimension.isWordChar_of_mem_splitTrailing (sizes ▸ member)
    rw [← sizes]
    exact ⟨.elementary isName isFull fun _ => id, words,
      (holdsSizes_of_not_mem (not_mem_of_isFull isName isFull)).append (holdsSizes_dimensions words)⟩
  · cases reads

section Clauses

variable {clauses types : List Text} (reads : List.Forall₂ IsReadOff clauses types)

include reads

theorem IsReadOff.holds_all : List.Forall₂ HoldsSizes types (clauses.map sizesIn) :=
  List.forall₂_map_right_iff.2 (reads.imp fun _ _ readOff => readOff.holds).flip

theorem IsReadOff.canonical_all (areSizes : ∀ clause ∈ clauses, ∀ size ∈ sizesIn clause, isSize size) :
    ∀ t ∈ types, IsCanonicalType isSize t := by
  intro t member
  obtain ⟨clause, isClause, readOff⟩ := exists_of_mem_right reads member
  exact readOff.canonical.mono (areSizes clause isClause)

theorem IsReadOff.words_all : ∀ size ∈ clauses.flatMap sizesIn, ∀ c ∈ size, isWordChar c = true := by
  intro size member
  obtain ⟨clause, isClause, inClause⟩ := List.mem_flatMap.1 member
  obtain ⟨t, _, readOff⟩ := exists_of_mem_right reads.flip isClause
  exact readOff.words size inClause

end Clauses

theorem isReadOff_tuple {clause suffix : Text} {parts types : List Text}
    (shape : clauseShape clause = .ok (.tuple parts suffix)) (reads : List.Forall₂ IsReadOff parts types) :
    IsReadOff clause ('(' :: joined [','] types ++ ')' :: suffix) := by
  obtain ⟨outer, rfl, decimal⟩ := exists_sizes_of_clauseShape shape
  have words : ∀ size ∈ outer, ∀ c ∈ size, isWordChar c = true := fun size member c inSize =>
    isWordChar_of_isDecimal (decimal size member c inSize)
  have behind := holdsSizes_dimensions words
  have sizes : sizesIn clause = parts.flatMap sizesIn ++ outer := by
    rw [sizesIn_of_tuple shape, behind.eq]
  refine ⟨.tuple (IsReadOff.canonical_all reads fun part isPart size member => ?_) fun size member => ?_, ?_, ?_⟩
  · rw [sizes]
    exact List.mem_append_left _ (List.mem_flatMap.2 ⟨part, isPart, member⟩)
  · rw [sizes]
    exact List.mem_append_right _ member
  · rw [sizes]
    exact List.forall_mem_append.2 ⟨IsReadOff.words_all reads, words⟩
  · rw [sizes, List.flatMap_def]
    exact holdsSizes_tuple (IsReadOff.holds_all reads) behind

theorem isReadOff_of_canonicalParam (clause : Text) : ∀ t, canonicalParam clause = .ok t → IsReadOff clause t := by
  fun_induction canonicalParam clause with
  | case1 clause cause shape => exact fun _ reads => nomatch reads
  | case2 clause text shape => exact fun t reads => isReadOff_of_canonicalPlain shape reads
  | case3 clause parts suffix shape ih =>
    intro t reads
    obtain ⟨types, inner, whole⟩ := bind_eq_ok_iff.1 reads
    cases pure_eq_ok_iff.1 whole
    have each : List.Forall₂ (fun part t => IsReadOff part.1 t) parts.attach types :=
      (forall₂_of_mapM inner).imp fun part t gives => ih part t gives
    rw [← List.forall₂_map_left_iff, List.attach_map_subtype_val] at each
    exact isReadOff_tuple shape each

/-! ## Signatures -/

/-- The sizes in the clauses of a signature are all that may keep it from being canonical. -/
theorem isCanonicalSignature_spell {name : Text} (isName : Identifier.isIdentifier name = true)
    {clauses types : List Text} (reads : clauses.mapM canonicalParam = .ok types) :
    IsCanonicalSignature (· ∈ clauses.flatMap sizesIn) (spell name types) ∧
      (IsCanonicalSignature IsDecimalSize (spell name types) ↔
        ∀ size ∈ clauses.flatMap sizesIn, IsDecimalSize size) := by
  have each : List.Forall₂ IsReadOff clauses types :=
    (forall₂_of_mapM reads).imp fun clause t gives => isReadOff_of_canonicalParam clause t gives
  have inClauses {clause size : Text} (isClause : clause ∈ clauses) (member : size ∈ sizesIn clause) :
      size ∈ clauses.flatMap sizesIn := List.mem_flatMap.2 ⟨clause, isClause, member⟩
  refine ⟨⟨name, types, isName, IsReadOff.canonical_all each fun _ isClause _ => inClauses isClause, rfl⟩,
    fun canonical => ?_, fun decimal => ⟨name, types, isName, ?_, rfl⟩⟩
  · have contents := canonical.forall_mem fun _ => isWordChar_of_isDecimalSize
    rwa [(holdsSizes_spell isName (IsReadOff.holds_all each)).eq, ← List.flatMap_def] at contents
  · exact IsReadOff.canonical_all each fun _ isClause size member => decimal size (inClauses isClause member)

/-- The name and the parameter clauses that a definition is read as, once names are substituted. -/
def clausesOf? (r : Registry) (definition : Text) : Option (Text × List Text) :=
  (head? (statementText definition)).bind fun found =>
    (parenthesised? found.2).bind fun list =>
      (r.substitute list.1).toOption.map fun params => (found.1, splitCommas params)

/-- The name and the key clauses that a state variable is read as, once names are substituted. -/
def keyClausesOf? (r : Registry) (v : StateVariable) : Option (Text × List Text) :=
  v.getter?.bind fun getter => (getter.keys.mapM r.substitute).toOption.map (v.name, ·)

/-- What an entry of a text without comments is made of: the clauses of a function, the keys of a public
state variable, or in a text with neither the clauses of a line. -/
inductive Entry.IsMadeOf (cleaned : Text) (r : Registry) (e : Entry) (name : Text) (clauses : List Text) : Prop
  | ofFunction (isDefinition : e.definition ∈ FunctionHeader.definitions cleaned)
      (reads : clausesOf? r e.definition = some (name, clauses))
  | ofVariable {v : StateVariable} (isPublic : v ∈ publicVariables cleaned)
      (reads : keyClausesOf? r v = some (name, clauses))
  | ofLine (isLine : e.definition ∈ signatureLines cleaned)
      (reads : clausesOf? r e.definition = some (name, clauses))

variable {r : Registry}

theorem nameAndParen?_spec {s name fromParen : Text} (found : nameAndParen? s = some (name, fromParen)) :
    Identifier.isIdentifier name = true ∧ fromParen ⊆ s := by
  unfold nameAndParen? at found
  split at found
  · rename_i isName
    obtain ⟨whole, isIdentifier⟩ := Identifier.leading?_eq_some isName
    split at found
    · cases found
      rw [whole]
      exact ⟨isIdentifier, List.subset_append_of_subset_right _ (trimStart_subset _)⟩
    · cases found
  · cases found

/-- The head of a definition names it, with or without the keyword in front. -/
theorem head?_spec {s name fromParen : Text} (found : head? s = some (name, fromParen)) :
    Identifier.isIdentifier name = true ∧ fromParen ⊆ s := by
  unfold head? at found
  rcases Option.or_eq_some_iff.1 found with withKeyword | ⟨_, isFirst⟩
  · split at withKeyword
    · rename_i rest isRest
      split at withKeyword
      · obtain ⟨isIdentifier, behind⟩ := nameAndParen?_spec withKeyword
        rw [after?_eq_some.1 isRest]
        exact ⟨isIdentifier,
          List.subset_append_of_subset_right _ (List.Subset.trans behind (trimStart_subset rest))⟩
      · cases withKeyword
    · cases withKeyword
  · exact nameAndParen?_spec isFirst

/-- A definition has a signature if it has a head and a parameter list, and the names and clauses in the list
can be read. -/
theorem ofDefinition_eq_ok_iff {definition signature : Text} {registry : Option Registry} :
    ofDefinition definition registry = .ok signature ↔ ∃ name fromParen params behind substituted types,
      head? (statementText definition) = some (name, fromParen) ∧ parenthesised? fromParen = some (params, behind) ∧
        substituteWith registry params = .ok substituted ∧ (splitCommas substituted).mapM canonicalParam = .ok types ∧
          spell name types = signature := by
  unfold ofDefinition
  simp only
  constructor
  · intro renders
    split at renders
    · cases renders
    · rename_i name fromParen isHead
      split at renders
      · cases renders
      · rename_i params behind isList
        obtain ⟨substituted, substitutes, rest⟩ := bind_eq_ok_iff.1 renders
        obtain ⟨types, reads, whole⟩ := bind_eq_ok_iff.1 rest
        exact ⟨name, fromParen, params, behind, substituted, types, isHead, isList, substitutes,
          mapError_eq_ok_iff.1 reads, pure_eq_ok_iff.1 whole⟩
  · rintro ⟨name, fromParen, params, behind, substituted, types, isHead, isList, substitutes, reads, rfl⟩
    simp only [isHead, isList]
    exact bind_eq_ok_iff.2 ⟨substituted, substitutes, bind_eq_ok_iff.2 ⟨types, mapError_eq_ok_iff.2 reads, rfl⟩⟩

theorem exists_clauses_of_ofDefinition {definition signature : Text}
    (renders : ofDefinition definition (some r) = .ok signature) :
    ∃ name clauses types, clausesOf? r definition = some (name, clauses) ∧
      Identifier.isIdentifier name = true ∧ clauses.mapM canonicalParam = .ok types ∧
      signature = spell name types := by
  obtain ⟨name, _, params, _, substituted, types, isHead, isList, substitutes, reads, rfl⟩ :=
    ofDefinition_eq_ok_iff.1 renders
  have isText : r.substitute params = .ok substituted := mapError_eq_ok_iff.1 substitutes
  refine ⟨name, _, types, ?_, (head?_spec isHead).1, reads, rfl⟩
  simp [clausesOf?, isHead, isList, isText, Except.toOption]

theorem exists_clauses_of_ofGetter {v : StateVariable} {getter : Getter} (isGetter : v.getter? = some getter)
    {signature : Text} (renders : ofGetter v.name getter.keys (some r) = .ok signature) :
    ∃ clauses types, keyClausesOf? r v = some (v.name, clauses) ∧
      clauses.mapM canonicalParam = .ok types ∧ signature = spell v.name types := by
  unfold ofGetter at renders
  obtain ⟨substituted, substitutes, rest⟩ := bind_eq_ok_iff.1 renders
  obtain ⟨types, reads, whole⟩ := bind_eq_ok_iff.1 rest
  cases pure_eq_ok_iff.1 whole
  rw [mapM_substituteWith] at substitutes
  refine ⟨substituted, types, ?_, mapError_eq_ok_iff.1 reads, rfl⟩
  simp [keyClausesOf?, isGetter, mapError_eq_ok_iff.1 substitutes, Except.toOption]

theorem of_entry_eq_ok {definition : Text} {signature : Except SignatureFailure Text} {e : Entry}
    (gives : entry definition signature = .ok e) (renders : e.error = none) :
    e.definition = definition ∧ signature = .ok e.signature ∧ e.selector = selector e.signature := by
  unfold entry at gives
  split at gives
  · cases gives
    exact ⟨rfl, rfl, rfl⟩
  · cases gives
    cases renders
  · cases gives

/-- An entry without an error is the signature of clauses that are read off the source, and its selector. -/
structure Entry.IsRendered (e : Entry) (cleaned : Text) (r : Registry) (name : Text) (clauses types : List Text) :
    Prop where
  isMadeOf : e.IsMadeOf cleaned r name clauses
  identifier : Identifier.isIdentifier name = true
  reads : clauses.mapM canonicalParam = .ok types
  signature : e.signature = spell name types
  selector : e.selector = Signature.selector e.signature

theorem exists_isRendered_of_definition {cleaned definition : Text} {e : Entry}
    (gives : entry definition (ofDefinition definition (some r)) = .ok e) (renders : e.error = none)
    (isDefinition : definition ∈ FunctionHeader.definitions cleaned ∨ definition ∈ signatureLines cleaned) :
    ∃ name clauses types, e.IsRendered cleaned r name clauses types := by
  obtain ⟨rfl, isSignature, isSelector⟩ := of_entry_eq_ok gives renders
  obtain ⟨name, clauses, types, isClauses, isName, reads, same⟩ := exists_clauses_of_ofDefinition isSignature
  refine ⟨name, clauses, types, ?_, isName, reads, same, isSelector⟩
  rcases isDefinition with isFunction | isLine
  · exact .ofFunction isFunction isClauses
  · exact .ofLine isLine isClauses

theorem exists_isRendered_of_statement {cleaned : Text} {statement : Statement}
    (isStatement : statement ∈ Statement.ofText cleaned) {e : Entry}
    (gives : entryOfStatement? r statement = .ok (some e)) (renders : e.error = none) :
    ∃ name clauses types, e.IsRendered cleaned r name clauses types := by
  obtain ⟨v, getter, isVariable, isPublic, isGetter, isEntry⟩ := entryOfStatement?_eq_some_iff.1 gives
  obtain ⟨_, isSignature, isSelector⟩ := of_entry_eq_ok isEntry renders
  obtain ⟨clauses, types, isClauses, reads, same⟩ :=
    exists_clauses_of_ofGetter (StateVariable.getter?_eq_some_iff.2 isGetter) isSignature
  have declares : v ∈ publicVariables cleaned := List.mem_filter.2
    ⟨List.mem_filterMap.2 ⟨statement, isStatement, isVariable⟩, decide_eq_true isPublic⟩
  exact ⟨v.name, clauses, types, .ofVariable declares isClauses, StateVariable.isIdentifier_name isVariable, reads,
    same, isSelector⟩

/-- An entry is made from the definition of a function, from a line, or from a statement. -/
theorem cases_of_mem_entries {source : Text} {shared : Option Registry} {es : List Entry}
    (succeeds : entries source shared = .ok es) {e : Entry} (member : e ∈ es) :
    (∃ definition, (definition ∈ FunctionHeader.definitions (Comment.strip source) ∨
        definition ∈ signatureLines (Comment.strip source)) ∧
      entry definition (ofDefinition definition (some (registryOf (Comment.strip source) shared))) = .ok e) ∨
    ∃ statement ∈ Statement.ofText (Comment.strip source),
      entryOfStatement? (registryOf (Comment.strip source) shared) statement = .ok (some e) := by
  obtain ⟨functions, isFunctions, rest⟩ := bind_eq_ok_iff.1 succeeds
  obtain ⟨getters, isGetters, rest⟩ := bind_eq_ok_iff.1 rest
  -- without functions and getters every line with a parenthesis is taken for a definition
  split at rest
  · obtain ⟨line, isLine, gives⟩ := exists_of_mem_mapM rest member
    exact .inl ⟨line, .inr isLine, gives⟩
  · cases pure_eq_ok_iff.1 rest
    rcases List.mem_append.1 member with ofFunction | ofGetter
    · obtain ⟨definition, isDefinition, gives⟩ := exists_of_mem_mapM isFunctions ofFunction
      exact .inl ⟨definition, .inl isDefinition, gives⟩
    · obtain ⟨found, isFound, whole⟩ := bind_eq_ok_iff.1 isGetters
      cases pure_eq_ok_iff.1 whole
      obtain ⟨e?, isMember, same⟩ := List.mem_filterMap.1 ofGetter
      obtain ⟨statement, isStatement, gives⟩ := exists_of_mem_mapM isFound isMember
      cases same
      exact .inr ⟨statement, isStatement, gives⟩

theorem exists_isRendered {source : Text} {shared : Option Registry} {es : List Entry}
    (succeeds : entries source shared = .ok es) {e : Entry} (member : e ∈ es) (renders : e.error = none) :
    ∃ name clauses types, e.IsRendered (Comment.strip source) (registryOf (Comment.strip source) shared) name
      clauses types := by
  rcases cases_of_mem_entries succeeds member with
    ⟨definition, isDefinition, gives⟩ | ⟨statement, isStatement, gives⟩
  · exact exists_isRendered_of_definition gives renders isDefinition
  · exact exists_isRendered_of_statement isStatement gives renders

/-- The selector of every entry without an error is that of its signature, which is a name with canonical types
in parentheses, and the sizes in it are those of the clauses that the entry is made of.  So the signature
is canonical, sizes included, exactly if the clauses hold decimal sizes only. -/
theorem isCanonicalSignature_iff {source : Text} {shared : Option Registry} {es : List Entry}
    (succeeds : entries source shared = .ok es) {e : Entry} (member : e ∈ es) (renders : e.error = none) :
    e.selector = selector e.signature ∧
      ∃ name clauses, e.IsMadeOf (Comment.strip source) (registryOf (Comment.strip source) shared) name clauses ∧
        IsCanonicalSignature (· ∈ clauses.flatMap sizesIn) e.signature ∧
        (IsCanonicalSignature IsDecimalSize e.signature ↔
          ∀ size ∈ clauses.flatMap sizesIn, IsDecimalSize size) := by
  obtain ⟨name, clauses, types, rendered⟩ := exists_isRendered succeeds member renders
  refine ⟨rendered.selector, name, clauses, rendered.isMadeOf, ?_⟩
  rw [rendered.signature]
  exact isCanonicalSignature_spell rendered.identifier rendered.reads

/-- The entries of a source with one function and no public variable. -/
theorem exists_entry_of_function {source signature : Text}
    (functions : (functionEntries (Comment.strip source) (registryOf (Comment.strip source) none)).toOption.map
      (fun es => es.map fun e => (e.signature, e.error)) = some [(signature, none)])
    (getters : getterEntries (Comment.strip source) (registryOf (Comment.strip source) none) = .ok []) :
    ∃ es, entries source none = .ok es ∧ ∃ e ∈ es, e.error = none ∧ e.signature = signature := by
  obtain ⟨es, isFunctions, shows⟩ := exists_of_toOption_map functions
  obtain ⟨e, rfl, same⟩ := List.map_eq_singleton_iff.1 shows
  obtain ⟨rfl, noError⟩ := Prod.mk.inj same
  refine ⟨[e], ?_, e, List.mem_cons_self, noError, rfl⟩
  exact bind_eq_ok_iff.2 ⟨[e], isFunctions, bind_eq_ok_iff.2 ⟨[], getters, rfl⟩⟩

/-- A function with a tuple and an array has a signature of types in full. -/
theorem isCanonicalSignature_contract :
    let source := ("contract C \x7b function f(tuple(bool, byte)[2] memory p, uint[7][] q) " ++
      "public view returns (bool) \x7b\x7d \x7d").toList
    ∃ es, entries source none = .ok es ∧ ∃ e ∈ es, e.error = none ∧
      e.signature = "f((bool,bytes1)[2],uint256[7][])".toList ∧ e.selector = selector e.signature ∧
      ∃ name clauses,
        e.IsMadeOf (Comment.strip source) (registryOf (Comment.strip source) none) name clauses ∧
          IsCanonicalSignature (· ∈ clauses.flatMap sizesIn) e.signature ∧
          (IsCanonicalSignature IsDecimalSize e.signature ↔
            ∀ size ∈ clauses.flatMap sizesIn, IsDecimalSize size) := by
  intro source
  -- a single name is sorted
  have sorted : (registryOf (Comment.strip source) none).typeNames = ["C".toList] := by
    unfold Registry.typeNames
    rw [List.mergeSort_of_pairwise (by decide +kernel)]
    decide +kernel
  have functions : (functionEntries (Comment.strip source) (registryOf (Comment.strip source) none)).toOption.map
      (fun es => es.map fun e => (e.signature, e.error)) =
        some [("f((bool,bytes1)[2],uint256[7][])".toList, none)] := by
    unfold functionEntries ofDefinition substituteWith Registry.substitute
    simp only [sorted]
    decide +kernel
  obtain ⟨es, succeeds, e, member, renders, isSignature⟩ :=
    exists_entry_of_function functions (by decide +kernel)
  exact ⟨es, succeeds, e, member, renders, isSignature, isCanonicalSignature_iff succeeds member renders⟩

/-- The name of a constant for a size is kept, and the signature has a selector all the same. -/
theorem entries_of_constant_size :
    let source := ("contract C \x7b uint256 constant N = 3; " ++
      "function f(uint256[N] memory a) public view returns (uint256) \x7b\x7d \x7d").toList
    ∃ es, entries source none = .ok es ∧ ∃ e ∈ es, e.error = none ∧
      e.signature = "f(uint256[N])".toList ∧ ¬ IsCanonicalSignature IsDecimalSize e.signature := by
  intro source
  have sorted : (registryOf (Comment.strip source) none).typeNames = ["C".toList] := by
    unfold Registry.typeNames
    rw [List.mergeSort_of_pairwise (by decide +kernel)]
    decide +kernel
  have functions : (functionEntries (Comment.strip source) (registryOf (Comment.strip source) none)).toOption.map
      (fun es => es.map fun e => (e.signature, e.error)) = some [("f(uint256[N])".toList, none)] := by
    unfold functionEntries ofDefinition substituteWith Registry.substitute
    simp only [sorted]
    decide +kernel
  obtain ⟨es, succeeds, e, member, renders, isSignature⟩ :=
    exists_entry_of_function functions (by decide +kernel)
  refine ⟨es, succeeds, e, member, renders, isSignature, fun canonical => ?_⟩
  rw [isSignature] at canonical
  have contents : "N".toList ∈ bracketContents "f(uint256[N])".toList := by decide
  exact absurd (canonical.forall_mem (fun _ => isWordChar_of_isDecimalSize) _ contents) (by unfold IsDecimalSize; decide)

end Signature

end ContractInterface
