import ContractInterface.Proofs.Reading
import Mathlib.Algebra.Group.Nat.Even
import Mathlib.Order.Bounds.Defs

/-! # Where literals end

A literal is read from its opening quote on, an escape at a time.  Looked at from its end, it closes at the
first quote that has an even number of backslashes directly in front of it, and without such a quote it
reaches to the end of the text (`exists_end?`).

Both views agree because an escape is a pair of characters: it makes a run of backslashes behind it two
longer, or leaves it as it is (`even_trailingEscapes_escape`).
-/

namespace ContractInterface.Literal

/-! ## Runs of backslashes -/

/-- The number of backslashes that a text ends with. -/
def trailingEscapes (t : Text) : Nat :=
  (t.reverse.takeWhile (· == '\\')).length

/-- A run of backslashes goes on into the text in front only if there is nothing else behind that. -/
theorem trailingEscapes_append (front t : Text) : trailingEscapes (front ++ t) =
    if trailingEscapes t = t.length then t.length + trailingEscapes front else trailingEscapes t := by
  unfold trailingEscapes
  rw [List.reverse_append, List.takeWhile_append, List.length_reverse]
  split
  · rw [List.length_append, List.length_reverse]
  · rfl

theorem trailingEscapes_cons {c : Char} (plain : c ≠ '\\') (t : Text) :
    trailingEscapes (c :: t) = trailingEscapes t := by
  have alone : trailingEscapes [c] = 0 := by simp [trailingEscapes, plain]
  rw [← List.singleton_append, trailingEscapes_append, alone]
  split
  · rename_i run
    exact run.symm
  · rfl

theorem even_trailingEscapes_escape (d : Char) (t : Text) :
    Even (trailingEscapes ('\\' :: d :: t)) ↔ Even (trailingEscapes t) := by
  have pair : Even (trailingEscapes ['\\', d]) := by
    by_cases isEscape : d = '\\'
    · subst isEscape
      exact ⟨1, by decide⟩
    · have none_ : trailingEscapes ['\\', d] = 0 := by simp [trailingEscapes, isEscape]
      exact none_ ▸ Even.zero
  have split_ : '\\' :: d :: t = ['\\', d] ++ t := rfl
  rw [split_, trailingEscapes_append]
  split
  · rename_i run
    rw [run, Nat.even_add, iff_true_right pair]
  · rfl

/-! ## Closing quotes -/

/-- The character at an index closes a literal of which the text is what stands behind its quote: it is
that quote, and it is not escaped. -/
structure ClosesBehind (quote : Char) (t : Text) (index : Nat) : Prop where
  sameQuote : t[index]? = some quote
  unescaped : Even (trailingEscapes (t.take index))

section Behind

variable {quote : Char} {t : Text} {index : Nat}

theorem closesBehind_cons {c : Char} (plain : c ≠ '\\') :
    ClosesBehind quote (c :: t) (index + 1) ↔ ClosesBehind quote t index := by
  constructor
  · rintro ⟨sameQuote, unescaped⟩
    rw [List.take_succ_cons, trailingEscapes_cons plain] at unescaped
    exact ⟨sameQuote, unescaped⟩
  · rintro ⟨sameQuote, unescaped⟩
    refine ⟨sameQuote, ?_⟩
    rwa [List.take_succ_cons, trailingEscapes_cons plain]

theorem closesBehind_escape {d : Char} :
    ClosesBehind quote ('\\' :: d :: t) (index + 2) ↔ ClosesBehind quote t index := by
  constructor
  · rintro ⟨sameQuote, unescaped⟩
    exact ⟨sameQuote, (even_trailingEscapes_escape d _).1 unescaped⟩
  · rintro ⟨sameQuote, unescaped⟩
    exact ⟨sameQuote, (even_trailingEscapes_escape d _).2 unescaped⟩

/-- No quote closes inside an escape. -/
theorem two_le_of_closesBehind (noEscape : quote ≠ '\\') {d : Char}
    (closes : ClosesBehind quote ('\\' :: d :: t) index) : 2 ≤ index := by
  obtain ⟨sameQuote, unescaped⟩ := closes
  match index with
  | 0 => exact absurd (Option.some.inj sameQuote).symm noEscape
  | 1 =>
    have odd : ¬ Even (trailingEscapes ['\\']) := by decide
    exact absurd unescaped odd
  | index + 2 => omega

/-- A literal of some size behind its quote ends behind the first quote that closes it, or with the text. -/
def EndsAfter (quote : Char) (t : Text) (size : Nat) : Prop :=
  (∃ index, size = index + 1 ∧ IsLeast {k | ClosesBehind quote t k} index) ∨
    size = t.length ∧ ∀ k, ¬ ClosesBehind quote t k

/-- Characters in front that no quote closes among make a literal longer. -/
theorem EndsAfter.shift {t' : Text} {size front : Nat} (ends : EndsAfter quote t size)
    (longer : t'.length = t.length + front) (later : ∀ k, ClosesBehind quote t' k → front ≤ k)
    (closes_iff : ∀ k, ClosesBehind quote t' (k + front) ↔ ClosesBehind quote t k) :
    EndsAfter quote t' (size + front) := by
  rcases ends with ⟨index, rfl, closes, least⟩ | ⟨rfl, open_⟩
  · refine .inl ⟨index + front, Nat.add_right_comm .., (closes_iff index).2 closes, fun k closes' => ?_⟩
    obtain ⟨k, rfl⟩ := Nat.exists_eq_add_of_le' (later k closes')
    exact Nat.add_le_add_right (least ((closes_iff k).1 closes')) front
  · refine .inr ⟨longer.symm, fun k closes' => ?_⟩
    obtain ⟨k, rfl⟩ := Nat.exists_eq_add_of_le' (later k closes')
    exact open_ k ((closes_iff k).1 closes')

theorem endsAfter_lengthBehind (noEscape : quote ≠ '\\') (t : Text) :
    EndsAfter quote t (lengthBehind quote t) := by
  fun_induction lengthBehind quote t with
  | case1 d t ih =>
    -- a closing quote behind an escape has the same backslashes in front of it, or two more
    exact ih.shift rfl (fun _ closes => two_le_of_closesBehind noEscape closes) fun _ => closesBehind_escape
  | case2 t => exact .inl ⟨0, rfl, ⟨rfl, Even.zero⟩, fun k _ => Nat.zero_le k⟩
  | case3 c t single stays_ ih =>
    have later (k : Nat) (closes : ClosesBehind quote (c :: t) k) : 1 ≤ k := by
      refine Nat.one_le_iff_ne_zero.2 fun first => stays_ ?_
      subst first
      exact Option.some.inj closes.sameQuote
    by_cases plain : c = '\\'
    · -- a backslash that ends the text takes nothing along
      have ends : t = [] := by
        cases t with
        | nil => rfl
        | cons d t => exact absurd rfl (single d t plain)
      subst ends
      refine .inr ⟨rfl, fun k closes => ?_⟩
      obtain ⟨k, rfl⟩ := Nat.exists_eq_add_of_le' (later k closes)
      cases closes.sameQuote
    · exact ih.shift rfl later fun _ => closesBehind_cons plain
  | case4 =>
    refine .inr ⟨rfl, fun k closes => ?_⟩
    cases closes.sameQuote

end Behind

/-! ## Literals in a text -/

/-- The character in front of an index closes the literal that opens at `position`: it is a second quote
like the one there, with an even number of backslashes directly in front of it. -/
structure Closes (s : Text) (position index : Nat) : Prop where
  behind : position + 1 < index
  sameQuote : s[index - 1]? = s[position]?
  unescaped : Even (trailingEscapes ((s.take (index - 1)).drop (position + 1)))

section Positions

variable {s : Text} {position index : Nat} {quote : Char}

theorem end?_eq (opens : s[position]? = some quote) : end? s position =
    some (position + 1 + lengthBehind quote (s.drop (position + 1))) := by
  obtain ⟨inside, rfl⟩ := List.getElem?_eq_some_iff.1 opens
  unfold end?
  rw [List.drop_eq_getElem_cons inside]

theorem end?_eq_none_iff : end? s position = none ↔ s.length ≤ position := by
  rw [← List.getElem?_eq_none_iff]
  constructor
  · intro none_
    cases opens : s[position]? with
    | none => rfl
    | some quote => simp [end?_eq opens] at none_
  · intro outside
    unfold end?
    rw [List.drop_eq_nil_of_le (List.getElem?_eq_none_iff.1 outside)]

theorem lt_of_end? (ends : end? s position = some index) : position < index := by
  unfold end? at ends
  split at ends
  · cases ends
    omega
  · cases ends

theorem end?_le_length (ends : end? s position = some index) : index ≤ s.length := by
  cases opens : s[position]? with
  | none =>
    rw [end?_eq_none_iff.2 (List.getElem?_eq_none_iff.1 opens)] at ends
    cases ends
  | some quote =>
    have inside := (List.getElem?_eq_some_iff.1 opens).1
    have within := lengthBehind_le quote (s.drop (position + 1))
    rw [List.length_drop] at within
    cases (end?_eq opens).symm.trans ends
    omega

theorem closes_iff (opens : s[position]? = some quote) : Closes s position index ↔
    ∃ k, index = position + 2 + k ∧ ClosesBehind quote (s.drop (position + 1)) k := by
  constructor
  · rintro ⟨behind, sameQuote, unescaped⟩
    obtain ⟨k, rfl⟩ := Nat.exists_eq_add_of_le (Nat.succ_le_of_lt behind)
    have before : position + 1 + 1 + k - 1 = position + 1 + k := by omega
    rw [before] at sameQuote unescaped
    refine ⟨k, by omega, ?_, ?_⟩
    · rw [List.getElem?_drop, sameQuote, opens]
    · rwa [List.drop_take, Nat.add_sub_cancel_left] at unescaped
  · rintro ⟨k, rfl, sameQuote, unescaped⟩
    have before : position + 2 + k - 1 = position + 1 + k := by omega
    refine ⟨by omega, ?_, ?_⟩
    · rw [before, ← List.getElem?_drop, sameQuote, opens]
    · rwa [before, List.drop_take, Nat.add_sub_cancel_left]

/-- What opens at a character of a text ends behind that character and within the text.  If the character is
a quote, it ends behind the first quote like it with an even number of backslashes in front, and where there
is none, with the text. -/
theorem exists_end? (opens : s[position]? = some quote) :
    ∃ e, end? s position = some e ∧ position < e ∧ e ≤ s.length ∧
      (isQuote quote = true →
        IsLeast {index | Closes s position index} e ∨
          (∀ index, ¬ Closes s position index) ∧ e = s.length) := by
  have ends := end?_eq opens
  refine ⟨_, ends, lt_of_end? ends, end?_le_length ends, fun isQuoted => ?_⟩
  rcases endsAfter_lengthBehind (isQuote_ne_backslash isQuoted) (s.drop (position + 1)) with
    ⟨k, size, closes, least⟩ | ⟨size, open_⟩
  · refine .inl ⟨(closes_iff opens).2 ⟨k, by omega, closes⟩, fun index closes' => ?_⟩
    obtain ⟨j, rfl, closesBehind⟩ := (closes_iff opens).1 closes'
    have first := least closesBehind
    omega
  · refine .inr ⟨fun index closes' => ?_, ?_⟩
    · obtain ⟨j, -, closesBehind⟩ := (closes_iff opens).1 closes'
      exact open_ j closesBehind
    · have inside := (List.getElem?_eq_some_iff.1 opens).1
      rw [size, List.length_drop]
      omega

/-- Behind an escaped quote and an escaped backslash. -/
theorem exists_end?_escapes :
    let s := "x = 'a\\'\\\\' + y;".toList
    s[4]? = some '\'' ∧ isQuote '\'' = true ∧
      ∃ e, end? s 4 = some e ∧ 4 < e ∧ e ≤ s.length ∧
        (isQuote '\'' = true →
          IsLeast {index | Closes s 4 index} e ∨ (∀ index, ¬ Closes s 4 index) ∧ e = s.length) :=
  ⟨by decide, by decide, exists_end? (by decide)⟩

end Positions

end ContractInterface.Literal
