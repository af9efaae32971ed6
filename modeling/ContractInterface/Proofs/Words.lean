import ContractInterface.Identifier
import ContractInterface.Proofs.Layout
import ContractInterface.Proofs.Spans
import Mathlib.Data.List.TakeWhile

/-! # Words and identifiers

The words of a text are its maximal runs of characters that are not blank, so every such character
stands in one of them (`exists_mem_words`).  Identifiers are told apart by any character that cannot go
on with one (`identifiers_append`).
-/

namespace ContractInterface

open Text

theorem isMember_of_isIdentifier {word : Text} (identifier : Identifier.isIdentifier word = true) :
    ∀ c ∈ word, Identifier.isMember c = true := by
  intro c member
  cases word with
  | nil => cases member
  | cons d word =>
    simp only [Identifier.isIdentifier, Bool.and_eq_true, List.all_eq_true] at identifier
    rcases List.mem_cons.1 member with rfl | member
    · exact Identifier.isStart_isMember identifier.1
    · exact identifier.2 c member

theorem ne_nil_of_isIdentifier {name : Text} (identifier : Identifier.isIdentifier name = true) :
    name ≠ [] := by
  rintro rfl
  cases identifier

theorem isBlank_of_isMember {c : Char} (member : Identifier.isMember c = true) :
    isBlank c = false := by
  apply Bool.eq_false_iff.2
  intro blank
  have notWord := isWordChar_of_isBlank blank
  rcases Bool.or_eq_true_iff.1 member with word | dollar
  · rw [notWord] at word
    cases word
  · rw [eq_of_beq dollar] at blank
    exact absurd blank (by decide)

/-! ## Identifiers in front of other characters -/

theorem leading?_identifier_append {name t : Text} (identifier : Identifier.isIdentifier name = true)
    (edge : ∀ c ∈ t.head?, Identifier.isMember c = false) :
    Identifier.leading? (name ++ t) = some (name, t) := by
  cases name with
  | nil => cases identifier
  | cons c s =>
    obtain ⟨starts, members⟩ := Bool.and_eq_true_iff.1 identifier
    rw [List.all_eq_true] at members
    rw [List.cons_append, Identifier.leading?, if_pos starts, takeWhile_append_of_head? edge,
      dropWhile_append_of_head? edge, List.takeWhile_eq_self_iff.2 members,
      List.dropWhile_eq_nil_iff.2 members]
    rfl

/-- The name that blanks set off at the front of a text. -/
theorem afterBlanks?_identifier_append {b name t : Text} (blanks : Blanks b) (apart : b ≠ [])
    (identifier : Identifier.isIdentifier name = true)
    (edge : ∀ c ∈ t.head?, Identifier.isMember c = false) :
    Identifier.afterBlanks? (b ++ (name ++ t)) = some (name, t) := by
  obtain ⟨c, more, rfl⟩ := List.exists_cons_of_ne_nil apart
  obtain ⟨d, others, isName⟩ := List.exists_cons_of_ne_nil (ne_nil_of_isIdentifier identifier)
  have visible : isBlank d = false :=
    isBlank_of_isMember (isMember_of_isIdentifier identifier d (isName ▸ List.mem_cons_self))
  have start : trimStart (name ++ t) = name ++ t := trimStart_of_first (by simpa [isName] using visible)
  rw [List.cons_append, Identifier.afterBlanks?, if_pos (blanks c List.mem_cons_self),
    trimStart_blanks (fun e member => blanks e (List.mem_cons_of_mem c member)), start]
  exact leading?_identifier_append identifier edge

theorem exists_blanks_of_afterBlanks? {rest name behind : Text}
    (found : Identifier.afterBlanks? rest = some (name, behind)) :
    ∃ b, rest = b ++ (name ++ behind) ∧ Blanks b ∧ b ≠ [] ∧ Identifier.isIdentifier name = true := by
  unfold Identifier.afterBlanks? at found
  split at found
  · rename_i c more
    split at found
    · rename_i blank
      obtain ⟨isName, identifier⟩ := Identifier.leading?_eq_some found
      refine ⟨c :: more.takeWhile isBlank, ?_, List.forall_mem_cons.2 ⟨blank, blanks_takeWhile more⟩,
        List.cons_ne_nil _ _, identifier⟩
      rw [← isName, List.cons_append, takeWhile_append_trimStart]
    · cases found
  · cases found

theorem afterBlanks?_suffix {s name behind : Text}
    (found : Identifier.afterBlanks? s = some (name, behind)) : behind <:+ s := by
  obtain ⟨front, whole, _⟩ := exists_blanks_of_afterBlanks? found
  rw [whole]
  exact (List.suffix_append _ _).trans (List.suffix_append _ _)

/-- What is read greedily at the front of a text is its first identifier. -/
theorem identifiers_of_leading? {s name rest : Text} (leads : Identifier.leading? s = some (name, rest)) :
    Identifier.identifiers s = name :: Identifier.identifiers rest := by
  cases s with
  | nil => cases leads
  | cons c s =>
    rw [Identifier.leading?] at leads
    split at leads
    · rename_i starts
      cases leads
      rw [Identifier.identifiers, if_pos starts]
    · cases leads

theorem identifiers_append {c : Char} (notMember : Identifier.isMember c = false) (s t : Text) :
    Identifier.identifiers (s ++ c :: t) = Identifier.identifiers s ++ Identifier.identifiers t := by
  have edge : ∀ d ∈ (c :: t).head?, Identifier.isMember d = false := by
    simpa using notMember
  have notStart : ¬Identifier.isStart c = true := fun starts => by
    rw [Identifier.isStart_isMember starts] at notMember
    cases notMember
  have behind : Identifier.identifiers (c :: t) = Identifier.identifiers t := by
    rw [Identifier.identifiers, if_neg notStart]
  fun_induction Identifier.identifiers s with
  | case1 => exact behind
  | case2 d s starts ih =>
    rw [List.cons_append, Identifier.identifiers, if_pos starts, takeWhile_append_of_head? edge,
      dropWhile_append_of_head? edge, ih]
    rfl
  | case3 d s plain ih => rw [List.cons_append, Identifier.identifiers, if_neg plain, ih]

namespace Text

theorem exists_mem_words {c : Char} {s : Text} (member : c ∈ s) (visible : isBlank c = false) :
    ∃ word ∈ words s, c ∈ word := by
  fun_induction words s generalizing c with
  | case1 => cases member
  | case2 d s blank ih =>
    rcases List.mem_cons.1 member with rfl | member
    · simp [blank] at visible
    · exact ih member visible
  | case3 d _ =>
    exact ⟨[d], List.mem_singleton_self _, member⟩
  | case4 d _ e s blank ih =>
    rcases List.mem_cons.1 member with rfl | member
    · exact ⟨[c], List.mem_cons_self, List.mem_singleton_self _⟩
    · obtain ⟨word, inWords, inWord⟩ := ih member visible
      exact ⟨word, List.mem_cons_of_mem _ inWords, inWord⟩
  | case5 d _ e s plain ih =>
    -- `e` is visible, so the rest has a first word, which `d` is put in front of
    have split : ∃ first more, words (e :: s) = first :: more := by
      obtain ⟨word, inWords, _⟩ := ih List.mem_cons_self (by simpa using plain)
      exact List.exists_cons_of_ne_nil (List.ne_nil_of_mem inWords)
    obtain ⟨first, more, split⟩ := split
    rw [split]
    rcases List.mem_cons.1 member with rfl | member
    · exact ⟨c :: first, List.mem_cons_self, List.mem_cons_self⟩
    · obtain ⟨word, inWords, inWord⟩ := ih member visible
      rw [split] at inWords
      rcases List.mem_cons.1 inWords with rfl | inWords
      · exact ⟨d :: word, List.mem_cons_self, List.mem_cons_of_mem _ inWord⟩
      · exact ⟨word, List.mem_cons_of_mem _ inWords, inWord⟩

end Text

end ContractInterface
