import ContractInterface.FileTree.Basic
import ContractInterface.Proofs.Fields
import Mathlib.Tactic.SplitIfs

/-! # Locations of paths

Whether a path can be followed depends on the files, but where it leads does not: names lead to the names
themselves behind the directory in which they start, except that two dots drop one (`lead`).  So a path that
goes on from a directory with proper names leads to the location that these names extend (`place_append`),
and different names lead to different locations.
-/

namespace ContractInterface

open Text

namespace Path

/-- Whether a text is the name of a file or directory. -/
structure IsName (name : Text) : Prop where
  ne_nil : name ≠ []
  slashless : '/' ∉ name
  ne_dot : name ≠ ['.']
  ne_dots : name ≠ ['.', '.']

theorem isName_iff {name : Text} :
    IsName name ↔ name ≠ [] ∧ '/' ∉ name ∧ name ≠ ['.'] ∧ name ≠ ['.', '.'] :=
  ⟨fun h => ⟨h.ne_nil, h.slashless, h.ne_dot, h.ne_dots⟩, fun h => ⟨h.1, h.2.1, h.2.2.1, h.2.2.2⟩⟩

instance : DecidablePred IsName := fun _ => decidable_of_iff _ isName_iff.symm

/-- Whether a path is one that a text writes. -/
structure IsProper (p : Path) : Prop where
  root : p.root = [] ∨ p.root = ['/'] ∨ p.root = ['/', '/']
  ne_nil : ∀ part ∈ p.parts, part ≠ []
  slashless : ∀ part ∈ p.parts, '/' ∉ part

theorem isProper_ofText (s : Text) : (ofText s).IsProper where
  root := by
    unfold ofText rootOf
    split <;> simp
  ne_nil part member := by
    have kept := (List.mem_filter.1 member).2
    simp only [Bool.and_eq_true, decide_eq_true_eq] at kept
    exact kept.1
  slashless part member := not_mem_of_mem_fields (List.mem_filter.1 member).1

theorem IsProper.append_names {p : Path} (proper : p.IsProper) {names : List Text}
    (areNames : ∀ name ∈ names, IsName name) : IsProper ⟨p.root, p.parts ++ names⟩ where
  root := proper.root
  ne_nil := List.forall_mem_append.2 ⟨proper.ne_nil, fun name member => (areNames name member).ne_nil⟩
  slashless :=
    List.forall_mem_append.2 ⟨proper.slashless, fun name member => (areNames name member).slashless⟩

end Path

namespace FileTree

variable {tree : FileTree} {location found : Location} {names : List Text}

/-! ## Where names lead -/

/-- Where names lead from a location if all of them can be followed. -/
def lead : (location : Location) → (names : List Text) → Location
  | location, [] => location
  | location, name :: names =>
    if name = [] ∨ name = ['.'] then lead location names
    else if name = ['.', '.'] then lead location.dropLast names
    else lead (location ++ [name]) names

theorem lead_of_follow (follows : tree.follow location names = .ok found) : lead location names = found := by
  induction names generalizing location with
  | nil => exact Except.ok.inj follows
  | cons name names ih =>
    unfold follow at follows
    unfold lead
    split at follows
    case h_1 => cases follows
    case h_2 => cases follows
    case h_3 =>
      split_ifs at follows ⊢ <;> exact ih follows

theorem lead_append (location : Location) (names more : List Text) :
    lead location (names ++ more) = lead (lead location names) more := by
  fun_induction lead location names <;> simp_all [lead]

theorem lead_names (location : Location) (areNames : ∀ name ∈ names, Path.IsName name) :
    lead location names = location ++ names := by
  induction names generalizing location with
  | nil => exact (List.append_nil _).symm
  | cons name names ih =>
    obtain ⟨isName, areNames⟩ := List.forall_mem_cons.1 areNames
    rw [lead, if_neg (by simp [isName.ne_nil, isName.ne_dot]), if_neg isName.ne_dots, ih _ areNames]
    simp

/-! ## Where paths lead -/

/-- Where a path leads if it can be followed. -/
def place (workingDirectory : Location) (p : Path) : Location :=
  lead (if p.root = [] then workingDirectory else []) p.parts

theorem place_append (workingDirectory : Location) (p : Path) (areNames : ∀ name ∈ names, Path.IsName name) :
    place workingDirectory ⟨p.root, p.parts ++ names⟩ = place workingDirectory p ++ names := by
  rw [place, lead_append, lead_names _ areNames, place]

theorem lead_joined (location : Location) {parts : List Text} (slashless : ∀ part ∈ parts, '/' ∉ part) :
    lead location (fields '/' (joined ['/'] parts)) = lead location parts := by
  cases parts with
  | nil => rfl
  | cons part parts => rw [fields_joined (List.cons_ne_nil _ _) slashless]

theorem lead_fields_toText {p : Path} (proper : p.IsProper) (location : Location) :
    lead location (fields '/' p.toText) = lead location p.parts := by
  obtain ⟨root, parts⟩ := p
  unfold Path.toText
  split_ifs with dot
  case pos =>
    obtain ⟨-, rfl⟩ := dot
    rfl
  case neg =>
    -- the fields in front of the slashes of the root are empty
    obtain rfl | rfl | rfl : root = [] ∨ root = ['/'] ∨ root = ['/', '/'] := proper.root
    all_goals exact lead_joined location proper.slashless

theorem startsWith_slash_toText {p : Path} (proper : p.IsProper) :
    startsWith ['/'] p.toText = true ↔ p.root ≠ [] := by
  obtain ⟨root, parts⟩ := p
  obtain rfl | rfl | rfl : root = [] ∨ root = ['/'] ∨ root = ['/', '/'] := proper.root
  case inl =>
    cases parts with
    | nil => simp [Path.toText, startsWith]
    | cons part parts =>
      obtain ⟨rest, starts⟩ := exists_joined_cons ['/'] part parts
      have ne_nil := proper.ne_nil part List.mem_cons_self
      have slashless := proper.slashless part List.mem_cons_self
      cases part with
      | nil => exact absurd rfl ne_nil
      | cons c part =>
        have other : '/' ≠ c := fun same => slashless (same ▸ List.mem_cons_self)
        simp [Path.toText, starts, startsWith, other]
  all_goals simp [Path.toText, startsWith]

theorem place_of_locate {p : Path} (proper : p.IsProper) (located : tree.locate p.toText = .ok found) :
    place tree.workingDirectory p = found := by
  unfold locate at located
  split at located
  case isTrue => cases located
  case isFalse =>
    have leads := lead_of_follow located
    rw [lead_fields_toText proper] at leads
    rw [← leads, place]
    by_cases relative : p.root = []
    · simp [relative, startsWith_slash_toText proper]
    · simp [relative, startsWith_slash_toText proper]

end FileTree

end ContractInterface
