import ContractInterface.Proofs.Layout
import ContractInterface.Proofs.Spans
import ContractInterface.Proofs.Words
import ContractInterface.TypeSyntax.Mapping
import ContractInterface.TypeSyntax.Spelling

/-! # Decorations of a concatenation

The decorations of a type are words, so a text is read for them part by part wherever a part starts
with no word: storage locations without looking ahead (`blankStorage_append`), and `payable` with a look
at the next word only (`plainAddress_append`).
-/

namespace ContractInterface

open Text TypeSyntax

theorem isMapping_eq_false {s : Text} (noOpen : '(' ∉ s) : isMapping s = false := by
  unfold isMapping
  cases isWord : after? "mapping".toList (trimStart s) with
  | none => rfl
  | some rest =>
    have whole := after?_eq_some.1 isWord
    have noOpen' := not_mem_trimStart noOpen
    rw [whole] at noOpen'
    apply startsWith_eq_false
    apply not_mem_trimStart
    exact fun member => noOpen' (List.mem_append_right _ member)

/-- A text that starts with no word, blanks in front aside. -/
structure StartsNoWord (t : Text) : Prop where
  edge : ∀ c ∈ t.head?, isWordChar c = false
  noWord : ∀ c ∈ (trimStart t).head?, isWordChar c = false

theorem startsNoWord_cons {c : Char} (visible : isBlank c = false) (plain : isWordChar c = false)
    (t : Text) : StartsNoWord (c :: t) := by
  have start : trimStart (c :: t) = c :: t := trimStart_of_first (by simpa using visible)
  exact ⟨by simpa using plain, by simpa [start] using plain⟩

theorem startsNoWord_of_blanks {b : Text} (blanks : Blanks b) : StartsNoWord b := by
  have nothing : trimStart b = [] := trimStart_eq_nil blanks
  refine ⟨fun c first => isWordChar_of_isBlank (blanks c (List.mem_of_mem_head? first)), ?_⟩
  simp [nothing]

/-- A text that goes on neither a word nor an address: it starts with no word character, and its first
word is not `payable`. -/
structure IsUnpaid (t : Text) : Prop where
  edge : ∀ c ∈ t.head?, isWordChar c = false
  unpaid : (trimStart t).takeWhile isWordChar ≠ "payable".toList

theorem StartsNoWord.isUnpaid {t : Text} (apart : StartsNoWord t) : IsUnpaid t := by
  refine ⟨apart.edge, ?_⟩
  cases start : trimStart t with
  | nil => exact (List.cons_ne_nil _ _).symm
  | cons c u =>
    rw [List.takeWhile_cons_of_neg (by simp [apart.noWord c (by rw [start]; rfl)])]
    exact (List.cons_ne_nil _ _).symm

/-! ## Payable addresses -/

theorem payableLength?_append {s t : Text} (apart : IsUnpaid t) :
    payableLength? (s ++ t) = payableLength? s := by
  unfold payableLength?
  rw [trimStart_append]
  -- if `s` is blank the word would be found in `t`, which does not start with it
  cases split : trimStart s with
  | nil =>
    have payable : ¬ ((trimStart t).length < (s ++ t).length ∧
        (trimStart t).takeWhile isWordChar = "payable".toList) := fun found => apart.unpaid found.2
    simp only [if_true, payable, if_false]
    exact (if_neg fun found => nomatch found.2).symm
  | cons d u =>
    rw [if_neg (List.cons_ne_nil _ _)]
    have word : ((d :: u) ++ t).takeWhile isWordChar = (d :: u).takeWhile isWordChar :=
      takeWhile_append_of_head? apart.edge
    have before : ((d :: u) ++ t).length < (s ++ t).length ↔ (d :: u).length < s.length := by
      simp only [List.length_append]
      omega
    have behind : (s ++ t).length - ((d :: u) ++ t).length = s.length - (d :: u).length := by
      simp only [List.length_append]
      omega
    simp only [word, before, behind]

theorem payableLength?_le {s : Text} {n : Nat} (found : payableLength? s = some n) :
    n ≤ s.length := by
  unfold payableLength? at found
  simp only at found
  split at found
  · rename_i payable
    cases found
    have word := congrArg List.length payable.2
    have inner : ((trimStart s).takeWhile isWordChar).length ≤ (trimStart s).length :=
      (List.takeWhile_sublist _).length_le
    have outer := length_trimStart_le s
    omega
  · cases found

theorem plainAddress_append {s t : Text} (apart : IsUnpaid t) :
    plainAddress (s ++ t) = plainAddress s ++ plainAddress t := by
  refine replacing_append apart.edge ⟨?_, ?_⟩
  · intro run rest suffix _ _
    rw [payableLength?_append apart]
  · intro run rest value taken _ found
    split at found
    · obtain ⟨n, found, isPair⟩ := Option.map_eq_some_iff.1 found
      cases isPair
      exact payableLength?_le found
    · cases found

theorem plainAddress_cons {c : Char} (plain : isWordChar c = false) (s : Text) :
    plainAddress (c :: s) = c :: plainAddress s :=
  replacing_cons_of_not_mem plain s

theorem plainAddress_subset (s : Text) : plainAddress s ⊆ s := by
  refine replacing_subset (fun run rest replacement taken found => ?_) s
  split at found
  · rename_i isAddress
    obtain ⟨n, _, isPair⟩ := Option.map_eq_some_iff.1 found
    cases isPair
    rw [isAddress]
    exact List.Subset.refl _
  · cases found

theorem plainAddress_append_cons {c : Char} (visible : isBlank c = false)
    (plain : isWordChar c = false) (s t : Text) :
    plainAddress (s ++ c :: t) = plainAddress s ++ c :: plainAddress t := by
  rw [plainAddress_append (startsNoWord_cons visible plain t).isUnpaid, plainAddress_cons plain]

@[simp] theorem plainAddress_nil : plainAddress [] = [] := by
  unfold plainAddress replacing
  rw [spans]
  rfl

/-- One word is nothing that `payable` follows. -/
theorem plainAddress_word {word : Text} (nonempty : word ≠ [])
    (isWord : ∀ c ∈ word, isWordChar c = true) : plainAddress word = word := by
  have alone : (if word = "address".toList then (payableLength? []).map ("address".toList, ·)
      else none) = none := by
    split <;> rfl
  unfold plainAddress replacing
  rw [spans_run nonempty isWord, alone]
  simp

/-! ## Storage locations -/

theorem blankStorage_append {s t : Text} (edge : ∀ c ∈ t.head?, isWordChar c = false) :
    blankStorage (s ++ t) = blankStorage s ++ blankStorage t := by
  refine replacing_append edge ⟨fun _ _ _ _ _ => rfl, ?_⟩
  intro run rest value taken _ found
  split at found
  · cases found
    exact Nat.zero_le _
  · cases found

theorem blankStorage_cons {c : Char} (plain : isWordChar c = false) (s : Text) :
    blankStorage (c :: s) = c :: blankStorage s :=
  replacing_cons_of_not_mem plain s

theorem blankStorage_append_cons {c : Char} (plain : isWordChar c = false) (s t : Text) :
    blankStorage (s ++ c :: t) = blankStorage s ++ c :: blankStorage t := by
  rw [blankStorage_append (by simpa using plain), blankStorage_cons plain]

@[simp] theorem blankStorage_nil : blankStorage [] = [] := by
  unfold blankStorage replacing
  rw [spans]
  rfl

/-- One word is replaced if it is a storage location, and stays otherwise. -/
theorem blankStorage_word {word : Text} (nonempty : word ≠ [])
    (isWord : ∀ c ∈ word, isWordChar c = true) :
    blankStorage word = if word ∈ storageLocations then [' '] else word := by
  unfold blankStorage replacing
  rw [spans_run nonempty isWord]
  by_cases location : word ∈ storageLocations
  · simp [location]
  · simp [location]

/-! ## Words that stand alone -/

/-- A word that stands in a text between word boundaries. -/
def HoldsWord (word s : Text) : Prop :=
  ∃ front rest, IsRun isWordChar front word rest s

/-- A text in which no storage location stands. -/
def IsUnlocated (s : Text) : Prop :=
  ∀ place ∈ storageLocations, ¬HoldsWord place s

theorem IsUnlocated.blankStorage_eq {s : Text} (unlocated : IsUnlocated s) : blankStorage s = s := by
  refine replacing_eq_self fun front run rest isRun => ?_
  have other : run ∉ storageLocations := fun isPlace => unlocated run isPlace ⟨front, rest, isRun⟩
  simp [other]

/-- A text in which `payable` follows `address`. -/
def PaysAddress (s : Text) : Prop :=
  ∃ front gap rest, IsRun isWordChar front "address".toList (gap ++ ("payable".toList ++ rest)) s ∧
    Blanks gap ∧ gap ≠ [] ∧ ∀ c ∈ rest.head?, isWordChar c = false

theorem PaysAddress.isInfix {s : Text} (pays : PaysAddress s) : "payable".toList <:+: s := by
  obtain ⟨front, gap, rest, isRun, -, -, -⟩ := pays
  have payable : "payable".toList <:+: gap ++ ("payable".toList ++ rest) :=
    ⟨gap, rest, List.append_assoc _ _ _⟩
  rw [isRun.whole]
  exact payable.trans ((List.suffix_append _ _).isInfix.trans (List.suffix_append _ _).isInfix)

theorem plainAddress_eq_self {s : Text} (unpaid : ¬PaysAddress s) : plainAddress s = s := by
  refine replacing_eq_self fun front run rest isRun => ?_
  split
  · rename_i isAddress
    subst isAddress
    -- what makes an address payable would be found in `s`, put together here from its parts
    have alone : payableLength? rest = none := by
      unfold payableLength?
      refine if_neg ?_
      rintro ⟨shorter, payable⟩
      have split : rest = rest.takeWhile isBlank ++ ("payable".toList ++ (trimStart rest).dropWhile isWordChar) := by
        rw [← payable, List.takeWhile_append_dropWhile, takeWhile_append_trimStart]
      have apart : rest.takeWhile isBlank ≠ [] := by
        intro none_
        have whole := takeWhile_append_trimStart rest
        rw [none_, List.nil_append] at whole
        rw [whole] at shorter
        exact Nat.lt_irrefl _ shorter
      rw [split] at isRun
      exact unpaid ⟨front, _, _, isRun, blanks_takeWhile rest, apart, head?_dropWhile _⟩
    rw [alone]
    rfl
  · rfl

/-- What stands in a part of a text stands in the text, if no word goes on beyond the part. -/
theorem PaysAddress.append {s : Text} (pays : PaysAddress s) {a b : Text}
    (before : ∀ c ∈ a.getLast?, isWordChar c = false) (behind : ∀ c ∈ b.head?, isWordChar c = false) :
    PaysAddress (a ++ (s ++ b)) := by
  obtain ⟨front, gap, rest, isRun, blanks, apart, edge⟩ := pays
  have whole := (isRun.append_right (t := b) (fun empty => absurd (List.append_eq_nil_iff.1 empty).1 apart)).append_left
    (t := a) (fun _ => before)
  rw [List.append_assoc, List.append_assoc] at whole
  refine ⟨a ++ front, gap, rest ++ b, whole, blanks, apart, fun c first => ?_⟩
  cases rest with
  | nil => exact behind c first
  | cons d rest => exact edge c first

/-! ## Plain words -/

/-- The words with a meaning of their own behind a type. -/
def reservedWords : List Text :=
  "payable".toList :: storageLocations

/-- An identifier of word characters that is not reserved. -/
structure IsPlainWord (word : Text) : Prop where
  identifier : Identifier.isIdentifier word = true
  letters : ∀ c ∈ word, isWordChar c = true
  free : word ∉ reservedWords

instance (word : Text) : Decidable (IsPlainWord word) :=
  decidable_of_iff (Identifier.isIdentifier word = true ∧ word.all isWordChar = true ∧
      reservedWords.contains word = false)
    ⟨fun ⟨identifier, letters, free⟩ => ⟨identifier, List.all_eq_true.1 letters,
        fun reserved => Bool.false_ne_true (free.symm.trans (List.contains_iff_mem.2 reserved))⟩,
      fun plain => ⟨plain.identifier, List.all_eq_true.2 plain.letters,
        Bool.eq_false_iff.2 fun reserved => plain.free (List.contains_iff_mem.1 reserved)⟩⟩

namespace IsPlainWord

variable {word : Text}

theorem nonempty (plain : IsPlainWord word) : word ≠ [] :=
  ne_nil_of_isIdentifier plain.identifier

theorem blankStorage_eq (plain : IsPlainWord word) : blankStorage word = word := by
  rw [blankStorage_word plain.nonempty plain.letters,
    if_neg fun location => plain.free (List.mem_cons_of_mem _ location)]

theorem plainAddress_eq (plain : IsPlainWord word) : plainAddress word = word :=
  plainAddress_word plain.nonempty plain.letters

end IsPlainWord

end ContractInterface
