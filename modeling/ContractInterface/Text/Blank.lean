import ContractInterface.Text.Basic

/-! # Blank characters

The blanks are the control characters U+0009 to U+000D and U+001C to U+001F, the space, and the
separators of Unicode: 29 characters.  A zero width space and a byte order mark are not blank.

* `trim` drops the blanks at both ends;
* `words` are the maximal runs of characters that are not blank;
* `spaced` writes the words with one space between neighbours, the form in which two layouts of one
  spelling agree. -/

namespace ContractInterface.Text

/-- A blank character. -/
def isBlank (c : Char) : Bool :=
  let n := c.toNat
  (0x09 ≤ n && n ≤ 0x0d) || (0x1c ≤ n && n ≤ 0x20) || n == 0x85 || n == 0xa0 || n == 0x1680 ||
    (0x2000 ≤ n && n ≤ 0x200a) || n == 0x2028 || n == 0x2029 || n == 0x202f || n == 0x205f ||
    n == 0x3000

/-- A text without the blanks in front. -/
def trimStart (s : Text) : Text :=
  s.dropWhile isBlank

/-- A text without the blanks behind. -/
def trimEnd (s : Text) : Text :=
  (s.reverse.dropWhile isBlank).reverse

/-- A text without the blanks at either end. -/
def trim (s : Text) : Text :=
  trimEnd (trimStart s)

/-- The maximal runs of characters that are not blank, in order. -/
def words : Text → List Text
  | [] => []
  | c :: s =>
    if isBlank c then words s
    else match s with
      | [] => [[c]]
      | d :: _ => if isBlank d then [c] :: words s else onFirst c (words s)

/-- The words with one space between neighbours. -/
def spaced (s : Text) : Text :=
  joined [' '] (words s)

/-- The last word of a text and what stands in front of it, without the blanks between them. -/
def splitLastWord (s : Text) : Text × Text :=
  let reversed := (trimEnd s).reverse
  (trimEnd (reversed.dropWhile (!isBlank ·)).reverse, (reversed.takeWhile (!isBlank ·)).reverse)

/-! ## Lengths

Trimming and respacing never lengthen a text; the recursions over nested types rest on it. -/

theorem length_dropWhile_le (p : Char → Bool) (s : Text) : (s.dropWhile p).length ≤ s.length :=
  (List.dropWhile_sublist p).length_le

theorem length_trimStart_le (s : Text) : (trimStart s).length ≤ s.length :=
  length_dropWhile_le isBlank s

theorem length_trimEnd_le (s : Text) : (trimEnd s).length ≤ s.length := by
  simpa [trimEnd] using length_dropWhile_le isBlank s.reverse

theorem length_trim_le (s : Text) : (trim s).length ≤ s.length :=
  Nat.le_trans (length_trimEnd_le _) (length_trimStart_le _)

theorem length_joined_onFirst (separator : Text) (c : Char) (pieces : List Text) :
    (joined separator (onFirst c pieces)).length = (joined separator pieces).length + 1 := by
  match pieces with
  | [] => simp [onFirst, joined]
  | [_] => simp [onFirst, joined]
  | _ :: _ :: _ => simp [onFirst, joined, List.intercalate_cons_cons]

theorem length_joined_cons_le (separator piece : Text) (pieces : List Text) :
    (joined separator (piece :: pieces)).length ≤
      piece.length + separator.length + (joined separator pieces).length := by
  match pieces with
  | [] => simp [joined]
  | _ :: _ => simp [joined, List.intercalate_cons_cons]; omega

@[simp] theorem words_nil : words [] = [] := rfl

theorem words_blank {c : Char} (h : isBlank c = true) (s : Text) : words (c :: s) = words s := by
  rw [words.eq_def]
  simp [h]

theorem words_last {c : Char} (h : isBlank c = false) : words [c] = [[c]] := by
  simp [words, h]

theorem words_before_blank {c d : Char} (hc : isBlank c = false) (hd : isBlank d = true)
    (s : Text) : words (c :: d :: s) = [c] :: words s := by
  rw [words.eq_def]
  simp [hc, hd, words_blank hd]

theorem words_within {c d : Char} (hc : isBlank c = false) (hd : isBlank d = false) (s : Text) :
    words (c :: d :: s) = onFirst c (words (d :: s)) := by
  rw [words.eq_def]
  simp [hc, hd]

theorem length_spaced_le : ∀ s : Text, (spaced s).length ≤ s.length
  | [] => by simp [spaced, joined]
  | [c] => by
    cases hc : isBlank c
    · simp [spaced, words_last hc, joined]
    · simp [spaced, words_blank hc, joined]
  | c :: d :: s => by
    have ih := length_spaced_le (d :: s)
    have ih' := length_spaced_le s
    unfold spaced at ih ih' ⊢
    simp only [List.length_cons] at ih ⊢
    cases hc : isBlank c
    · cases hd : isBlank d
      · rw [words_within hc hd, length_joined_onFirst]; omega
      · rw [words_before_blank hc hd]
        have := length_joined_cons_le [' '] [c] (words s)
        simp only [List.length_cons, List.length_nil] at this
        omega
    · rw [words_blank hc]; omega

end ContractInterface.Text
