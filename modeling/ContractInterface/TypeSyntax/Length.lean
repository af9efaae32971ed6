import ContractInterface.Text.Digit
import ContractInterface.Text.Quoted

/-! # Array lengths

The size between the brackets of a dimension is a length if it consists of digits.  An empty size,
and one with a letter or a low line in it, leaves the array dynamic.

Digits without a place in a decimal number, such as superscripts, make a size that cannot be read;
so does a size of more than 4300 decimal digits. -/

namespace ContractInterface.TypeSyntax

open Text

/-- Why a type cannot be resolved. -/
inductive ResolutionError where
  /-- A size of digits of which one is not decimal. -/
  | lengthNotDecimal (size : Text)
  /-- A size whose leading decimal digits are too many. -/
  | lengthTooLong (digitCount : Nat)
  /-- A mapping that is its own value. -/
  | endlessMapping (text : Text)
deriving DecidableEq, Repr

/-- The greatest number of decimal digits that a length may have. -/
def maxLengthDigits : Nat := 4300

/-- The greatest number of characters of a size that an error shows, quotes included. -/
def maxShownSize : Nat := 200

/-- The wording of an error. -/
def ResolutionError.message : ResolutionError → Text
  | .lengthNotDecimal size =>
    "invalid literal for int() with base 10: ".toList ++ (quoted size).take maxShownSize
  | .lengthTooLong digitCount =>
    "Exceeds the limit (4300 digits) for integer string conversion: value has ".toList ++
      digits digitCount ++
      " digits; use sys.set_int_max_str_digits() to increase the limit".toList
  | .endlessMapping text =>
    "a mapping without a reachable value: ".toList ++ quoted text

/-- The length that a size stands for; none for a dynamic array. -/
def arrayLength (size : Text) : Except ResolutionError (Option Nat) :=
  if size ≠ [] ∧ size.all isDigit then
    -- the count of digits is looked at before what kind of digits they are
    let leading := size.takeWhile isDecimal
    if maxLengthDigits < leading.length then .error (.lengthTooLong leading.length)
    else if leading.length < size.length then .error (.lengthNotDecimal size)
    else .ok (some (decimalNumber size))
  else .ok none

theorem arrayLength_eq_some_iff {size : Text} {n : Nat} : arrayLength size = .ok (some n) ↔
    (size ≠ [] ∧ size.all isDigit = true) ∧ (size.takeWhile isDecimal).length ≤ maxLengthDigits ∧
      size.length ≤ (size.takeWhile isDecimal).length ∧ decimalNumber size = n := by
  simp only [arrayLength]
  split
  · rename_i isNumber
    rw [and_iff_right isNumber]
    split
    · rename_i long
      simp [Nat.not_le.2 long]
    · rename_i within
      rw [and_iff_right (Nat.not_lt.1 within)]
      split
      · rename_i stops
        simp [Nat.not_le.2 stops]
      · rename_i whole
        simp [Nat.not_lt.1 whole]
  · rename_i other
    exact iff_of_false nofun fun found => other found.1

theorem arrayLength_eq_none_iff {size : Text} :
    arrayLength size = .ok none ↔ ¬(size ≠ [] ∧ size.all isDigit = true) := by
  simp only [arrayLength]
  split
  · rename_i isNumber
    refine iff_of_false ?_ (not_not_intro isNumber)
    split
    · exact nofun
    · split <;> exact nofun
  · rename_i other
    exact iff_of_true rfl other

theorem arrayLength_ne_endlessMapping (size text : Text) : arrayLength size ≠ .error (.endlessMapping text) := by
  simp only [arrayLength]
  split
  · split
    · exact nofun
    · split <;> exact nofun
  · exact nofun

end ContractInterface.TypeSyntax
