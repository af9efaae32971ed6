import ContractInterface.Proofs.Words
import ContractInterface.TypeSyntax.Elementary
import ContractInterface.TypeSyntax.Length

/-! # Numerals and the names of elementary types

The decimal spelling of a number consists of decimal digits and stands for that number
(`decimalNumber_digits`).  The name of an elementary type is an identifier, unless it is
`address payable` (`isIdentifier_of_isElementaryName`).
-/

namespace ContractInterface

open Text TypeSyntax

namespace Text

/-- Whether one of the intervals holds a whole block of ten. -/
def coversBlock (intervals : List Interval) (first : Nat) : Bool :=
  intervals.any fun i => i.1 ≤ first && first + 9 ≤ i.2

theorem covered_of_coversBlock {intervals : List Interval} {first : Nat} {c : Char}
    (covers : coversBlock intervals first = true) (inBlock : first ≤ c.toNat ∧ c.toNat < first + 10) :
    covered intervals c = true := by
  obtain ⟨i, member, holds⟩ := List.any_eq_true.1 covers
  simp only [Bool.and_eq_true, decide_eq_true_eq] at holds
  refine List.any_eq_true.2 ⟨i, member, ?_⟩
  simp only [Bool.and_eq_true, decide_eq_true_eq]
  omega

/-- Every block of decimal digits beyond ASCII lies in an interval of alphanumeric characters. -/
theorem coversBlock_of_decimalZeros : (decimalZeros.drop 1).all (fun first => 0x80 ≤ first &&
    (coversBlock alphanumericAlphabets first || coversBlock alphanumericBasicPlane first ||
      coversBlock alphanumericSupplementary first)) = true := by
  decide +kernel

theorem isWordChar_of_isDecimal {c : Char} (decimal : isDecimal c = true) : isWordChar c = true := by
  unfold isDecimal decimalValue? at decimal
  rw [Option.isSome_map] at decimal
  obtain ⟨first, found⟩ := Option.isSome_iff_exists.1 decimal
  have inBlock := List.find?_some found
  simp only [Bool.and_eq_true, decide_eq_true_eq] at inBlock
  have split : decimalZeros = 0x30 :: decimalZeros.drop 1 := rfl
  -- the digits of the first block are ASCII, the other blocks are covered by the alphanumeric ones
  refine Bool.or_eq_true_iff.2 (.inl ?_)
  rcases List.mem_cons.1 (split ▸ List.mem_of_find?_eq_some found) with rfl | beyond
  · have ascii : ∀ k ∈ List.range 10, isAlphanumeric (Char.ofNat (0x30 + k)) = true := by
      decide +kernel
    have result := ascii (c.toNat - 0x30) (List.mem_range.2 (by omega))
    rwa [show 0x30 + (c.toNat - 0x30) = c.toNat by omega, Char.ofNat_toNat] at result
  · have covers := List.all_eq_true.1 coversBlock_of_decimalZeros first beyond
    simp only [Bool.and_eq_true, Bool.or_eq_true, decide_eq_true_eq] at covers
    have notAscii : isAscii c = false := decide_eq_false (by omega)
    unfold isAlphanumeric
    rw [notAscii]
    simp only [Bool.false_eq_true, if_false, Bool.or_eq_true]
    exact covers.2.imp (.imp (covered_of_coversBlock · inBlock) (covered_of_coversBlock · inBlock))
      (covered_of_coversBlock · inBlock)

theorem toNat_of_isDigit {c : Char} (digit : c.isDigit = true) : 48 ≤ c.toNat ∧ c.toNat ≤ 57 := by
  obtain ⟨low, high⟩ := Bool.and_eq_true_iff.1 digit
  exact ⟨UInt32.le_iff_toNat_le.1 (of_decide_eq_true low),
    UInt32.le_iff_toNat_le.1 (of_decide_eq_true high)⟩

theorem decimalValue?_of_isDigit {c : Char} (digit : c.isDigit = true) :
    decimalValue? c = some (c.toNat - 48) := by
  have values : ∀ k ∈ List.range 10, decimalValue? (Char.ofNat (48 + k)) = some k := by
    decide +kernel
  obtain ⟨low, high⟩ := toNat_of_isDigit digit
  have result := values (c.toNat - 48) (List.mem_range.2 (by omega))
  rwa [show 48 + (c.toNat - 48) = c.toNat by omega, Char.ofNat_toNat] at result

theorem isDigit_of_mem_digits {c : Char} {n : Nat} (member : c ∈ digits n) : c.isDigit = true :=
  Nat.isDigit_of_mem_toDigits (by decide) (by decide) member

theorem isDecimal_of_mem_digits {c : Char} {n : Nat} (member : c ∈ digits n) :
    isDecimal c = true := by
  unfold isDecimal
  rw [decimalValue?_of_isDigit (isDigit_of_mem_digits member)]
  rfl

theorem isWordChar_of_mem_digits {c : Char} {n : Nat} (member : c ∈ digits n) :
    isWordChar c = true :=
  isWordChar_of_isDecimal (isDecimal_of_mem_digits member)

theorem decimalNumber_digits (n : Nat) : decimalNumber (digits n) = n := by
  have general : ∀ (s : Text) (start : Nat), (∀ c ∈ s, c.isDigit = true) →
      s.foldl (fun n c => 10 * n + (decimalValue? c).getD 0) start = Nat.ofDigitChars 10 s start := by
    intro s
    induction s with
    | nil => exact fun _ _ => rfl
    | cons c s ih =>
      intro start all
      have value := decimalValue?_of_isDigit (all c List.mem_cons_self)
      rw [List.foldl_cons, value, Nat.ofDigitChars_cons]
      exact ih _ fun d member => all d (List.mem_cons_of_mem c member)
  unfold decimalNumber
  rw [general _ 0 fun c member => isDigit_of_mem_digits member]
  exact Nat.ofDigitChars_ten_toDigits

end Text

/-! ## Lengths -/

/-- A length as it is written between brackets. -/
def sizeText : Option Nat → Text
  | some n => digits n
  | none => []

theorem isDecimal_of_mem_sizeText {c : Char} {length : Option Nat} (member : c ∈ sizeText length) :
    isDecimal c = true := by
  cases length with
  | none => cases member
  | some n => exact isDecimal_of_mem_digits member

theorem isWordChar_of_mem_sizeText {c : Char} {length : Option Nat}
    (member : c ∈ sizeText length) : isWordChar c = true :=
  isWordChar_of_isDecimal (isDecimal_of_mem_sizeText member)

/-- A length is none of some words that start with other characters than digits. -/
theorem sizeText_not_mem {words : List Text}
    (others : ∀ word ∈ words, word.head?.any Char.isDigit = false) {length : Option Nat}
    (nonempty : sizeText length ≠ []) : sizeText length ∉ words := by
  intro member
  have other := others _ member
  cases length with
  | none => exact nonempty rfl
  | some n =>
    obtain ⟨c, s, split⟩ := List.exists_cons_of_ne_nil nonempty
    have inDigits : c ∈ digits n := by
      rw [show digits n = c :: s from split]
      exact List.mem_cons_self
    rw [split, show (c :: s).head?.any Char.isDigit = c.isDigit from rfl,
      isDigit_of_mem_digits inDigits] at other
    cases other

theorem isStart_of_isDigit {c : Char} (digit : c.isDigit = true) : Identifier.isStart c = false := by
  have all : ∀ k ∈ List.range 10, Identifier.isStart (Char.ofNat (48 + k)) = false := by decide
  obtain ⟨low, high⟩ := toNat_of_isDigit digit
  have result := all (c.toNat - 48) (List.mem_range.2 (by omega))
  rwa [show 48 + (c.toNat - 48) = c.toNat by omega, Char.ofNat_toNat] at result

/-- A length that is written in full is read as itself. -/
theorem eq_of_arrayLength_sizeText {length found : Option Nat}
    (reads : arrayLength (sizeText length) = .ok found) : found = length := by
  cases length with
  | none => cases reads; rfl
  | some n =>
    have all : (digits n).all isDigit = true :=
      List.all_eq_true.2 fun c member => isDigit_of_isDecimal (isDecimal_of_mem_digits member)
    change arrayLength (digits n) = .ok found at reads
    cases found with
    | none => exact absurd ⟨Nat.toDigits_ne_nil, all⟩ (arrayLength_eq_none_iff.1 reads)
    | some m =>
      obtain ⟨_, _, _, isNumber⟩ := arrayLength_eq_some_iff.1 reads
      rw [← isNumber, decimalNumber_digits]

/-! ## Elementary types -/

theorem isMember_of_isWordChar {c : Char} (word : isWordChar c = true) :
    Identifier.isMember c = true :=
  Bool.or_eq_true_iff.2 (.inl word)

/-- The words that the names of elementary types start with. -/
def elementaryHeads : List Text :=
  ["uint".toList, "int".toList, "bytes".toList, "fixed".toList, "ufixed".toList] ++ sizelessTypes

theorem exists_of_isSized {head : Text} {sizes : List Text}
    (all : ∀ size ∈ sizes, ∃ n, size = digits n) {name : Text}
    (sized : isSized head sizes name = true) :
    ∃ size, name = head ++ size ∧ ∀ c ∈ size, isWordChar c = true := by
  unfold isSized at sized
  split at sized
  · rename_i size isRest
    refine ⟨size, after?_eq_some.1 isRest, ?_⟩
    rcases Bool.or_eq_true_iff.1 sized with empty | listed
    · rw [eq_of_beq empty]
      exact fun c member => nomatch member
    · obtain ⟨n, rfl⟩ := all size (List.contains_iff_mem.1 listed)
      exact fun c member => isWordChar_of_mem_digits member
  · cases sized

theorem isWordChar_of_isFixedPointSize {s : Text} (isSize : isFixedPointSize s = true) :
    ∀ c ∈ s, isWordChar c = true := by
  intro c member
  unfold isFixedPointSize at isSize
  split at isSize
  · cases member
  · simp only at isSize
    split at isSize
    · rename_i scale isBehind
      simp only [Bool.and_eq_true, List.all_eq_true] at isSize
      rw [← List.takeWhile_append_dropWhile (p := isDecimal) (l := s), isBehind] at member
      rcases List.mem_append.1 member with decimal | inScale
      · exact isWordChar_of_isDecimal (List.all_eq_true.1 List.all_takeWhile c decimal)
      · rcases List.mem_cons.1 inScale with rfl | inScale
        · decide
        · exact isWordChar_of_isDecimal (isSize.2 c inScale)
    · cases isSize

theorem exists_of_fixedPoint {head name : Text}
    (isName : (after? head name).elim false isFixedPointSize = true) :
    ∃ size, name = head ++ size ∧ ∀ c ∈ size, isWordChar c = true := by
  cases isRest : after? head name with
  | none =>
    rw [isRest] at isName
    cases isName
  | some size =>
    rw [isRest] at isName
    exact ⟨size, after?_eq_some.1 isRest, isWordChar_of_isFixedPointSize isName⟩

/-- The name of an elementary type is one of a few words with a size behind it, but for one. -/
theorem exists_head_of_isElementaryName {name : Text} (elementary : isElementaryName name = true)
    (plain : name ≠ "address payable".toList) :
    ∃ head ∈ elementaryHeads, ∃ size, name = head ++ size ∧ ∀ c ∈ size, isWordChar c = true := by
  have widths : ∀ size ∈ integerWidths, ∃ n, size = digits n := by
    intro size member
    obtain ⟨k, _, rfl⟩ := List.mem_map.1 member
    exact ⟨_, rfl⟩
  have lengths : ∀ size ∈ byteLengths, ∃ n, size = digits n := by
    intro size member
    obtain ⟨k, _, rfl⟩ := List.mem_map.1 member
    exact ⟨_, rfl⟩
  unfold isElementaryName at elementary
  simp only [Bool.or_eq_true, beq_iff_eq] at elementary
  rcases elementary with (((((uint | int) | bytes) | fixed) | ufixed) | other) | payable
  · exact ⟨_, by decide, exists_of_isSized widths uint⟩
  · exact ⟨_, by decide, exists_of_isSized widths int⟩
  · exact ⟨_, by decide, exists_of_isSized lengths bytes⟩
  · exact ⟨_, by decide, exists_of_fixedPoint fixed⟩
  · exact ⟨_, by decide, exists_of_fixedPoint ufixed⟩
  · exact ⟨name, List.mem_append_right _ (List.contains_iff_mem.1 other), [], by simp, by simp⟩
  · exact absurd payable plain

theorem isWordChar_of_isElementaryName {name : Text} (elementary : isElementaryName name = true)
    (plain : name ≠ "address payable".toList) : ∀ c ∈ name, isWordChar c = true := by
  obtain ⟨head, isHead, size, rfl, inSize⟩ := exists_head_of_isElementaryName elementary plain
  have heads : elementaryHeads.all (·.all isWordChar) = true := by decide
  intro c member
  rcases List.mem_append.1 member with inHead | member
  · exact List.all_eq_true.1 (List.all_eq_true.1 heads head isHead) c inHead
  · exact inSize c member

theorem isIdentifier_of_isElementaryName {name : Text} (elementary : isElementaryName name = true)
    (plain : name ≠ "address payable".toList) : Identifier.isIdentifier name = true := by
  have word := isWordChar_of_isElementaryName elementary plain
  obtain ⟨head, isHead, size, rfl, _⟩ := exists_head_of_isElementaryName elementary plain
  have heads : elementaryHeads.all (·.head?.any Identifier.isStart) = true := by decide
  have starts := List.all_eq_true.1 heads head isHead
  cases head with
  | nil => cases starts
  | cons c head =>
    refine Bool.and_eq_true_iff.2 ⟨starts, List.all_eq_true.2 fun d member => ?_⟩
    exact isMember_of_isWordChar (word d (List.mem_cons_of_mem c member))

end ContractInterface
