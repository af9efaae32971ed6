import ContractInterface.Delimiter
import ContractInterface.Identifier

/-! # Mapping types

A mapping type is spelled `mapping(K => V)`.  The value may be a mapping again, a key or value may
carry a name, and blanks may stand anywhere between the parts.

* `isMapping` recognises a mapping by its start;
* `keys` lists the keys of nested mappings from the outside in;
* `outerValue` is the value of the outermost mapping, `finalValue` the value of the innermost one;
* `split?` separates a leading mapping from the text behind it, and `shape?` describes a
  mapping or an array of mappings.

A mapping whose value cannot be told apart is its own `outerValue`; such a mapping is called
irreducible. -/

namespace ContractInterface.TypeSyntax

open Text Delimiter

/-- Whether a text, blanks in front aside, starts a mapping type. -/
def isMapping (s : Text) : Bool :=
  match after? "mapping".toList (trimStart s) with
  | some rest => startsWith ['('] (trimStart rest)
  | none => false

namespace Mapping

/-- The arrow between key and value. -/
def arrow : Text := "=>".toList

/-- The index of the first opening parenthesis, or the length of a text without one. -/
def openIndex (s : Text) : Nat :=
  s.findIdx isOpenParen

/-- The index of the arrow of the outermost mapping. -/
def arrowIndex? (s : Text) : Option Nat :=
  findAtDepth? arrow 1 0 s

/-- The index of the parenthesis that closes the outermost mapping.  There are no literals in a
type, so every parenthesis counts. -/
def closeIndex? (s : Text) : Option Nat :=
  (matchingPlainParen? (s.drop (openIndex s))).map (openIndex s + ·)

/-- A key or value without its name.  A mapping is left as it is, and so is a text whose last word
is no name. -/
def withoutName (s : Text) : Text :=
  let t := trim s
  if isMapping t then t
  else
    let (front, last) := splitLastWord t
    if front ≠ [] ∧ Identifier.isIdentifier last ∧ ¬ endsWith arrow front then front else t

/-- A leading mapping type, and the trimmed text behind it. -/
def split? (s : Text) : Option (Text × Text) :=
  let t := trim s
  if isMapping t then
    (closeIndex? t).map fun close => (t.take (close + 1), trim (t.drop (close + 1)))
  else none

theorem split?_eq_some_iff {s type behind : Text} : split? s = some (type, behind) ↔
    isMapping (trim s) = true ∧ ∃ close, closeIndex? (trim s) = some close ∧
      (trim s).take (close + 1) = type ∧ trim ((trim s).drop (close + 1)) = behind := by
  simp only [split?, Option.ite_none_right_eq_some, Option.map_eq_some_iff, Prod.mk.injEq]

theorem split?_of_not_isMapping {s : Text} (other : isMapping (trim s) = false) : split? s = none := by
  simp [split?, other]

/-- The value of the outermost mapping.  What is no mapping, or one without a value, is its own
value. -/
def outerValue (s : Text) : Text :=
  let t := trim s
  if isMapping t then
    match arrowIndex? t, closeIndex? t with
    | some arrowAt, some close =>
      -- an arrow without a character behind it has no value to give
      if arrowAt + 2 < close then withoutName ((t.take close).drop (arrowAt + 2)) else t
    | _, _ => t
  else t

/-! ## Lengths -/

theorem length_splitLastWord_fst_le (s : Text) : (splitLastWord s).1.length ≤ s.length := by
  unfold splitLastWord
  have h1 := length_trimEnd_le ((trimEnd s).reverse.dropWhile (!isBlank ·)).reverse
  have h2 := length_dropWhile_le (!isBlank ·) (trimEnd s).reverse
  have h3 := length_trimEnd_le s
  simp only [List.length_reverse] at h1 h2 ⊢
  omega

theorem length_withoutName_le (s : Text) : (withoutName s).length ≤ s.length := by
  unfold withoutName
  have h1 := length_trim_le s
  have h2 := length_splitLastWord_fst_le (trim s)
  simp only
  split
  · exact h1
  · split
    · omega
    · exact h1

theorem not_isMapping_nil : isMapping [] = false := by
  decide +kernel

theorem length_pos_of_isMapping {s : Text} (h : isMapping s = true) : 0 < s.length := by
  cases s with
  | nil => rw [not_isMapping_nil] at h; exact Bool.noConfusion h
  | cons c s => simp

/-- The value of a mapping is the trimmed mapping itself or shorter than it. -/
theorem outerValue_eq_or_lt (s : Text) :
    outerValue s = trim s ∨ (outerValue s).length < (trim s).length := by
  unfold outerValue
  simp only
  split
  · rename_i hm
    have hpos := length_pos_of_isMapping hm
    split
    · rename_i arrowAt close _ _
      split
      · right
        have h := length_withoutName_le (((trim s).take close).drop (arrowAt + 2))
        simp only [List.length_drop, List.length_take] at h
        omega
      · exact .inl rfl
    · exact .inl rfl
  · exact .inl rfl

/-- The keys of nested mappings, the outermost first. -/
def keys (s : Text) : List Text :=
  if _h : isMapping (trim s) = true then
    match arrowIndex? (trim s) with
    | some arrowAt =>
      withoutName (((trim s).take arrowAt).drop (openIndex (trim s) + 1)) ::
        -- the parentheses that close outside stay behind the inner mapping and do no harm
        keys ((trim s).drop (arrowAt + 2))
    | none => []
  else []
termination_by s.length
decreasing_by
  have h1 := length_pos_of_isMapping _h
  have h2 := length_trim_le s
  simp only [List.length_drop]
  omega

/-- The value of the innermost mapping, or the irreducible mapping that nesting ends in. -/
def finalValue (s : Text) : Text :=
  if isMapping (trim s) = true then
    if _h : (outerValue s).length < (trim s).length then finalValue (outerValue s) else trim s
  else trim s
termination_by s.length
decreasing_by
  have := length_trim_le s
  omega

/-- Keys, final value and whether the whole is an array of mappings. -/
structure Shape where
  keys : List Text
  value : Text
  isArray : Bool
deriving DecidableEq, Repr

/-- The shape of a mapping or of a dynamic array of mappings. -/
def shape? (s : Text) : Option Shape :=
  if isMapping s then
    let t := trim s
    let isArray := endsWith "[]".toList t
    let body := if isArray then trimEnd (t.take (t.length - 2)) else t
    some ⟨keys body, finalValue body, isArray⟩
  else none

theorem length_finalValue_le (s : Text) : (finalValue s).length ≤ s.length := by
  fun_induction finalValue s with
  | case1 s _ h ih =>
    have := length_trim_le s
    omega
  | case2 s _ _ => exact length_trim_le s
  | case3 s _ => exact length_trim_le s

/-- A key is shorter than the mapping it is a key of. -/
theorem length_lt_of_mem_keys {s key : Text} (h : key ∈ keys s) : key.length < s.length := by
  fun_induction keys s with
  | case1 s hm arrowAt _ ih =>
    have h1 := length_pos_of_isMapping hm
    have h2 := length_trim_le s
    rcases List.mem_cons.1 h with rfl | h
    · have h3 := length_withoutName_le (((trim s).take arrowAt).drop (openIndex (trim s) + 1))
      simp only [List.length_drop, List.length_take] at h3
      omega
    · have := ih h
      simp only [List.length_drop] at this
      omega
  | case2 s => simp at h
  | case3 s => simp at h

end Mapping

end ContractInterface.TypeSyntax
