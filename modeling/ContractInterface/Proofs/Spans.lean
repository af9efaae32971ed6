import ContractInterface.Text.Span

/-! # Reading a concatenation run by run

A text can be read in two parts when it is cut in front of a character that belongs to no run, and no
reader looks or reaches across the cut (`spans_append`).  Replacing and locating then work on the two
parts one after the other.
-/

namespace ContractInterface.Text

/-- The value of a part that was found. -/
def Span.value? {α : Type} : Span α → Option α
  | .plain _ => none
  | .found _ value => some value

/-- A part with another value in the place of what was found. -/
def Span.map {α β : Type} (f : α → β) : Span α → Span β
  | .plain text => .plain text
  | .found text value => .found text (f value)

theorem filterMap_value?_map {α β : Type} (f : α → β) (xs : List (Span α)) :
    (xs.map (Span.map f)).filterMap Span.value? = (xs.filterMap Span.value?).map f := by
  induction xs with
  | nil => rfl
  | cons x xs ih => cases x <;> simp [Span.map, Span.value?, List.filterMap_cons, ih]

@[simp] theorem Span.text_map {α β : Type} (f : α → β) (part : Span α) :
    (part.map f).text = part.text := by
  cases part <;> rfl

/-- A reader that works in steps carries a change along if every step does. -/
theorem bind_map_eq_map_bind {α β α' β' : Type} {x : Option α} {change : α → α'} {change' : β → β'}
    {next : α → Option β} {next' : α' → Option β'} (carries : ∀ a, next' (change a) = (next a).map change') :
    (x.map change).bind next' = (x.bind next).map change' := by
  rw [Option.bind_map, Option.map_bind]
  exact Option.bind_congr fun a _ => carries a

section Runs

variable {p : Char → Bool} {s t : Text}

theorem takeWhile_append_of_head? (edge : ∀ c ∈ t.head?, p c = false) :
    (s ++ t).takeWhile p = s.takeWhile p := by
  induction s with
  | nil =>
    cases t with
    | nil => rfl
    | cons c t => exact List.takeWhile_cons_of_neg (by simp [edge c rfl])
  | cons c s ih =>
    cases member : p c
    · simp [member]
    · simp [member, ih]

theorem dropWhile_append_of_head? (edge : ∀ c ∈ t.head?, p c = false) :
    (s ++ t).dropWhile p = s.dropWhile p ++ t := by
  induction s with
  | nil =>
    cases t with
    | nil => rfl
    | cons c t => exact List.dropWhile_cons_of_neg (by simp [edge c rfl])
  | cons c s ih =>
    cases member : p c
    · simp [member]
    · simp [member, ih]

theorem head?_dropWhile (s : Text) : ∀ c ∈ (s.dropWhile p).head?, p c = false := by
  intro c first
  have outside := List.head?_dropWhile_not p s
  rw [first] at outside
  simpa using outside

end Runs

theorem after?_append {head t : Text} (other : ∀ c ∈ t.head?, c ∉ head) (s : Text) :
    after? head (s ++ t) = (after? head s).map (· ++ t) := by
  induction head generalizing s with
  | nil => rfl
  | cons d head ih =>
    cases s with
    | nil =>
      cases t with
      | nil => rfl
      | cons c t =>
        have notFirst : d ≠ c := fun isFirst => other c rfl (isFirst ▸ List.mem_cons_self)
        simp [after?, notFirst]
    | cons e s =>
      simp only [List.cons_append, after?]
      split
      · exact ih (fun c first member => other c first (List.mem_cons_of_mem d member)) s
      · rfl

section Readers

variable {α : Type} {isMember : Char → Bool} {read? : Text → Text → Option (α × Nat)}

theorem firstRun_append (c : Char) (s : Text) :
    (c :: s.takeWhile isMember) ++ s.dropWhile isMember = c :: s := by
  rw [List.cons_append, List.takeWhile_append_dropWhile]

theorem isMember_of_mem_firstRun {c : Char} {s : Text} (member : isMember c = true) :
    ∀ d ∈ c :: s.takeWhile isMember, isMember d = true := by
  intro d inRun
  rcases List.mem_cons.1 inRun with rfl | inRun
  · exact member
  · exact List.all_eq_true.1 List.all_takeWhile d inRun

/-- A reader that takes nothing behind the first part of a text; what follows there extends the
values that it gives, and changes nothing else. -/
structure Extends (isMember : Char → Bool) (read? : Text → Text → Option (α × Nat)) (ext : α → α)
    (s t : Text) : Prop where
  same : ∀ run rest, run ++ rest <:+ s → run ≠ [] → (∀ c ∈ run, isMember c = true) →
    read? run (rest ++ t) = (read? run rest).map fun found => (ext found.1, found.2)
  within : ∀ run rest value taken, run ++ rest <:+ s → read? run rest = some (value, taken) →
    taken ≤ rest.length

theorem Extends.of_suffix {ext : α → α} {s s' t : Text} (stays : Extends isMember read? ext s t)
    (suffix : s' <:+ s) : Extends isMember read? ext s' t where
  same run rest isSuffix := stays.same run rest (isSuffix.trans suffix)
  within run rest value taken isSuffix := stays.within run rest value taken (isSuffix.trans suffix)

/-- A reader that is known by what it leaves behind: it takes everything in front of that. -/
def LeavesBehind (read? : Text → Text → Option (α × Nat)) (behind? : Text → Text → Option (α × Text)) : Prop :=
  ∀ run rest, read? run rest = (behind? run rest).map fun found => (found.1, rest.length - found.2.length)

/-- What a reader leaves behind may go on, if that only extends the values that it gives. -/
theorem LeavesBehind.extends {behind? : Text → Text → Option (α × Text)} (leaves : LeavesBehind read? behind?)
    {ext : α → α} {t : Text} (appends : ∀ run rest, behind? run (rest ++ t) =
      (behind? run rest).map fun found => (ext found.1, found.2 ++ t)) (s : Text) :
    Extends isMember read? ext s t where
  same run rest _ _ _ := by
    rw [leaves, leaves, appends, Option.map_map, Option.map_map]
    congr 1
    funext found
    simp only [Function.comp_apply, List.length_append, Nat.add_sub_add_right]
  within run rest value taken _ found := by
    rw [leaves] at found
    obtain ⟨_, _, same⟩ := Option.map_eq_some_iff.1 found
    cases same
    exact Nat.sub_le _ _

theorem spans_append_ext {ext : α → α} {s t : Text} (edge : ∀ c ∈ t.head?, isMember c = false)
    (stays : Extends isMember read? ext s t) :
    spans isMember read? (s ++ t) =
      (spans isMember read? s).map (Span.map ext) ++ spans isMember read? t := by
  -- a run of `s` ends within `s`, since `t` starts with no member, so it is read with `t` behind it
  fun_induction spans isMember read? s with
  | case1 => rfl
  | case2 c s member run rest value taken found ih =>
    have whole : run ++ rest = c :: s := firstRun_append c s
    have isRun : ∀ d ∈ run, isMember d = true := isMember_of_mem_firstRun member
    have short := stays.within run rest value taken (whole ▸ List.suffix_refl _) found
    have found' := stays.same run rest (whole ▸ List.suffix_refl _) (List.cons_ne_nil _ _) isRun
    rw [found, Option.map_some] at found'
    have others := ih (stays.of_suffix (by
      rw [← whole]
      exact (List.drop_suffix _ _).trans (List.suffix_append _ _)))
    rw [List.cons_append, spans, if_pos member]
    simp only [takeWhile_append_of_head? edge, dropWhile_append_of_head? edge]
    rw [show read? (c :: s.takeWhile isMember) (s.dropWhile isMember ++ t) = some (ext value, taken)
      from found']
    have takes : (s.dropWhile isMember ++ t).take taken = rest.take taken :=
      List.take_append_of_le_length short
    have drops : (s.dropWhile isMember ++ t).drop taken = rest.drop taken ++ t :=
      List.drop_append_of_le_length short
    simp only [takes, drops, others]
    rfl
  | case3 c s member run rest none_ ih =>
    have whole : run ++ rest = c :: s := firstRun_append c s
    have isRun : ∀ d ∈ run, isMember d = true := isMember_of_mem_firstRun member
    have none' := stays.same run rest (whole ▸ List.suffix_refl _) (List.cons_ne_nil _ _) isRun
    rw [none_, Option.map_none] at none'
    have others := ih (stays.of_suffix (by
      rw [← whole]
      exact List.suffix_append _ _))
    rw [List.cons_append, spans, if_pos member]
    simp only [takeWhile_append_of_head? edge, dropWhile_append_of_head? edge]
    rw [show read? (c :: s.takeWhile isMember) (s.dropWhile isMember ++ t) = none from none']
    simp only
    rw [others]
    rfl
  | case4 c s plain ih =>
    have others := ih (stays.of_suffix (List.suffix_cons c s))
    rw [List.cons_append, spans, if_neg plain, others]
    rfl

/-- A reader that looks at nothing behind the first part of a text and takes nothing of it. -/
structure StaysWithin (isMember : Char → Bool) (read? : Text → Text → Option (α × Nat))
    (s t : Text) : Prop where
  same : ∀ run rest, run ++ rest <:+ s → run ≠ [] → (∀ c ∈ run, isMember c = true) →
    read? run (rest ++ t) = read? run rest
  within : ∀ run rest value taken, run ++ rest <:+ s → read? run rest = some (value, taken) →
    taken ≤ rest.length

theorem spans_append {s t : Text} (edge : ∀ c ∈ t.head?, isMember c = false)
    (stays : StaysWithin isMember read? s t) :
    spans isMember read? (s ++ t) = spans isMember read? s ++ spans isMember read? t := by
  have stays' : Extends isMember read? id s t := by
    refine ⟨fun run rest suffix nonempty isRun => ?_, stays.within⟩
    rw [stays.same run rest suffix nonempty isRun]
    exact Option.map_id'.symm
  have same : ∀ xs : List (Span α), xs.map (Span.map id) = xs := by
    intro xs
    induction xs with
    | nil => rfl
    | cons x xs ih => cases x <;> simp [Span.map, ih]
  rw [spans_append_ext edge stays', same]

theorem spans_cons_of_not_mem {c : Char} (plain : isMember c = false) (s : Text) :
    spans isMember read? (c :: s) = .plain [c] :: spans isMember read? s := by
  rw [spans, if_neg (by simp [plain])]

/-- A text that starts with a run, as a reader sees it. -/
theorem spans_run_append {run t : Text} (nonempty : run ≠ [])
    (isRun : ∀ c ∈ run, isMember c = true) (edge : ∀ c ∈ t.head?, isMember c = false) :
    spans isMember read? (run ++ t) =
      match read? run t with
      | some (value, taken) => .found (run ++ t.take taken) value :: spans isMember read? (t.drop taken)
      | none => .plain run :: spans isMember read? t := by
  obtain ⟨c, s, rfl⟩ := List.exists_cons_of_ne_nil nonempty
  have others : ∀ d ∈ s, isMember d = true := fun d member => isRun d (List.mem_cons_of_mem c member)
  have inRun : (s ++ t).takeWhile isMember = s := by
    rw [List.takeWhile_append_of_pos others]
    cases t with
    | nil => exact List.append_nil s
    | cons d t => rw [List.takeWhile_cons_of_neg (by simp [edge d rfl]), List.append_nil]
  have behind : (s ++ t).dropWhile isMember = t := by
    rw [List.dropWhile_append_of_pos others]
    cases t with
    | nil => rfl
    | cons d t => exact List.dropWhile_cons_of_neg (by simp [edge d rfl])
  rw [List.cons_append, spans, if_pos (isRun c List.mem_cons_self)]
  cases found : read? (c :: s) t <;> simp only [inRun, behind, found]

/-- A text that is one run, as a reader sees it. -/
theorem spans_run {run : Text} (nonempty : run ≠ []) (isRun : ∀ c ∈ run, isMember c = true) :
    spans isMember read? run =
      match read? run [] with
      | some (value, _) => [.found run value]
      | none => [.plain run] := by
  have whole : spans isMember read? (run ++ []) = _ :=
    spans_run_append nonempty isRun fun _ first => nomatch first
  rw [List.append_nil] at whole
  rw [whole]
  cases read? run [] with
  | none => simp [spans]
  | some found => simp [spans]

end Readers

/-! ## Locating -/

theorem locateFrom_append {α : Type} (index : Nat) (xs ys : List (Span α)) :
    locateFrom index (xs ++ ys) =
      locateFrom index xs ++ locateFrom (index + (xs.flatMap Span.text).length) ys := by
  induction xs generalizing index with
  | nil => rfl
  | cons x xs ih =>
    cases x with
    | plain text =>
      simp only [List.cons_append, locateFrom, ih, List.flatMap_cons, Span.text, List.length_append,
        Nat.add_assoc]
    | found text value =>
      simp only [List.cons_append, locateFrom, ih, List.flatMap_cons, Span.text, List.length_append,
        Nat.add_assoc]

theorem locateFrom_map {α β : Type} (f : α → β) (index : Nat) (xs : List (Span α)) :
    locateFrom index (xs.map (Span.map f)) =
      (locateFrom index xs).map fun found => (found.1, f found.2) := by
  induction xs generalizing index with
  | nil => rfl
  | cons x xs ih => cases x <;> simp [Span.map, locateFrom, ih]

theorem locateFrom_add {α : Type} (index shift : Nat) (xs : List (Span α)) :
    locateFrom (index + shift) xs =
      (locateFrom index xs).map fun found => (found.1 + shift, found.2) := by
  induction xs generalizing index with
  | nil => rfl
  | cons x xs ih =>
    cases x <;> simp [locateFrom, ← ih, Nat.add_right_comm]

/-- Changing what is found changes no text. -/
theorem flatMap_text_map_spans {α β : Type} {isMember : Char → Bool} {read? : Text → Text → Option (α × Nat)}
    (f : α → β) (s : Text) : ((spans isMember read? s).map (Span.map f)).flatMap Span.text = s := by
  rw [List.flatMap_map]
  simp only [Span.text_map]
  exact flatMap_text_spans isMember read? s

/-- The places aside, the values of the found parts are located in order. -/
theorem map_snd_locateFrom {α : Type} (index : Nat) (xs : List (Span α)) :
    (locateFrom index xs).map Prod.snd = xs.filterMap Span.value? := by
  induction xs generalizing index with
  | nil => rfl
  | cons x xs ih => cases x <;> simp [locateFrom, Span.value?, List.filterMap_cons, ih]

/-- What is located lies in the text. -/
theorem le_of_mem_locateFrom {α : Type} {index : Nat} {xs : List (Span α)} {found : Nat × α}
    (member : found ∈ locateFrom index xs) : found.1 ≤ index + (xs.flatMap Span.text).length := by
  induction xs generalizing index with
  | nil => cases member
  | cons x xs ih =>
    cases x with
    | plain text =>
      have within := ih member
      simp only [List.flatMap_cons, Span.text, List.length_append]
      omega
    | found text value =>
      rcases List.mem_cons.1 member with rfl | member
      · exact Nat.le_add_right _ _
      · have within := ih member
        simp only [List.flatMap_cons, Span.text, List.length_append]
        omega

theorem le_length_of_mem_locate {α : Type} {isMember : Char → Bool}
    {read? : Text → Text → Option (α × Nat)} {s : Text} {found : Nat × α}
    (member : found ∈ locate isMember read? s) : found.1 ≤ s.length := by
  have within := le_of_mem_locateFrom member
  rw [flatMap_text_spans, Nat.zero_add] at within
  exact within

/-- Whatever is located was read off the text from its place on. -/
theorem exists_read_of_mem_locateFrom {α : Type} {isMember : Char → Bool}
    {read? : Text → Text → Option (α × Nat)} {index : Nat} {s : Text} {found : Nat × α}
    (member : found ∈ locateFrom index (spans isMember read? s)) :
    ∃ front run rest taken, s = front ++ (run ++ rest) ∧ found.1 = index + front.length ∧
      read? run rest = some (found.2, taken) := by
  -- what was passed on the way is put in front again: a character, a run, or a run with what was taken
  fun_induction spans isMember read? s generalizing index with
  | case1 => cases member
  | case2 =>
    rename_i c s _ run rest value taken isRead ih
    have whole : run ++ rest = c :: s := firstRun_append c s
    rcases List.mem_cons.1 member with rfl | member
    · exact ⟨[], run, rest, taken, whole.symm, rfl, isRead⟩
    · obtain ⟨front, run', rest', taken', behind, place, isRead'⟩ := ih member
      refine ⟨run ++ rest.take taken ++ front, run', rest', taken', ?_, ?_, isRead'⟩
      · rw [List.append_assoc, ← behind, List.append_assoc, List.take_append_drop, whole]
      · simp only [place, List.length_append, Nat.add_assoc]
  | case3 =>
    rename_i c s _ run rest _ ih
    obtain ⟨front, run', rest', taken, behind, place, isRead⟩ := ih member
    refine ⟨run ++ front, run', rest', taken, ?_, ?_, isRead⟩
    · rw [List.append_assoc, ← behind]
      exact (firstRun_append c s).symm
    · rw [place, List.length_append, Nat.add_assoc]
  | case4 c s _ ih =>
    obtain ⟨front, run', rest', taken, rfl, place, isRead⟩ := ih member
    refine ⟨c :: front, run', rest', taken, rfl, ?_, isRead⟩
    rw [place, Nat.add_assoc, Nat.add_comm _ front.length]
    rfl

theorem exists_read_of_mem_locate {α : Type} {isMember : Char → Bool}
    {read? : Text → Text → Option (α × Nat)} {s : Text} {found : Nat × α}
    (member : found ∈ locate isMember read? s) :
    ∃ front run rest taken, s = front ++ (run ++ rest) ∧ found.1 = front.length ∧
      read? run rest = some (found.2, taken) := by
  obtain ⟨front, run, rest, taken, whole, place, isRead⟩ := exists_read_of_mem_locateFrom member
  exact ⟨front, run, rest, taken, whole, by rw [place, Nat.zero_add], isRead⟩

/-! ## Texts in which nothing is found -/

/-- A maximal run of a text, as a reader sees it first: no run was cut off in front of it. -/
structure IsRun (isMember : Char → Bool) (front run rest s : Text) : Prop where
  whole : s = front ++ (run ++ rest)
  nonempty : run ≠ []
  members : ∀ c ∈ run, isMember c = true
  before : ∀ c ∈ front.getLast?, isMember c = false
  behind : ∀ c ∈ rest.head?, isMember c = false

theorem IsRun.isInfix {isMember : Char → Bool} {front run rest s : Text}
    (isRun : IsRun isMember front run rest s) : run <:+: s :=
  ⟨front, rest, by rw [List.append_assoc, ← isRun.whole]⟩

theorem IsRun.append_left {isMember : Char → Bool} {front run rest s : Text}
    (isRun : IsRun isMember front run rest s) {t : Text}
    (edge : front = [] → ∀ c ∈ t.getLast?, isMember c = false) :
    IsRun isMember (t ++ front) run rest (t ++ s) where
  whole := by rw [isRun.whole, List.append_assoc]
  nonempty := isRun.nonempty
  members := isRun.members
  before c last := by
    rw [List.getLast?_append] at last
    cases ends : front.getLast? with
    | none =>
      rw [ends, Option.none_or] at last
      exact edge (List.getLast?_eq_none_iff.1 ends) c last
    | some d =>
      rw [ends, Option.some_or] at last
      exact isRun.before c (ends ▸ last)
  behind := isRun.behind

theorem IsRun.append_right {isMember : Char → Bool} {front run rest s : Text}
    (isRun : IsRun isMember front run rest s) {t : Text}
    (edge : rest = [] → ∀ c ∈ t.head?, isMember c = false) :
    IsRun isMember front run (rest ++ t) (s ++ t) where
  whole := by simp [isRun.whole]
  nonempty := isRun.nonempty
  members := isRun.members
  before := isRun.before
  behind c first := by
    cases rest with
    | nil => exact edge rfl c first
    | cons d rest => exact isRun.behind c first

/-- A reader that reads no maximal run finds nothing. -/
theorem filterMap_value?_spans {α : Type} {isMember : Char → Bool}
    {read? : Text → Text → Option (α × Nat)} {s : Text}
    (none_ : ∀ front run rest, IsRun isMember front run rest s → read? run rest = none) :
    (spans isMember read? s).filterMap Span.value? = [] := by
  fun_induction spans isMember read? s with
  | case1 => rfl
  | case2 c s member run rest value taken found _ =>
    have nothing := none_ [] run rest ⟨(firstRun_append c s).symm, List.cons_ne_nil _ _,
      isMember_of_mem_firstRun member, by simp, head?_dropWhile s⟩
    rw [nothing] at found
    cases found
  | case3 c s member run rest _ ih =>
    refine ih fun front run' rest' isRun => ?_
    have later : front = [] → ∀ d ∈ run.getLast?, isMember d = false := by
      -- what is left starts with a character of no run
      rintro rfl
      obtain ⟨d, others, rfl⟩ := List.exists_cons_of_ne_nil isRun.nonempty
      have outside := head?_dropWhile (p := isMember) s d (by rw [show s.dropWhile isMember = _ from isRun.whole]; rfl)
      rw [isRun.members d List.mem_cons_self] at outside
      cases outside
    have whole := isRun.append_left later
    rw [firstRun_append] at whole
    exact none_ _ run' rest' whole
  | case4 c s plain ih =>
    refine ih fun front run' rest' isRun => ?_
    have whole := isRun.append_left (t := [c]) fun _ d last => by
      cases last
      simpa using plain
    exact none_ _ run' rest' whole

theorem replacing_eq_self {isMember : Char → Bool} {read? : Text → Text → Option (Text × Nat)} {s : Text}
    (none_ : ∀ front run rest, IsRun isMember front run rest s → read? run rest = none) :
    replacing isMember read? s = s := by
  have nothing := filterMap_value?_spans none_
  have whole := flatMap_text_spans isMember read? s
  unfold replacing
  generalize spans isMember read? s = xs at nothing whole
  rw [← whole]
  clear whole
  induction xs with
  | nil => rfl
  | cons x xs ih =>
    cases x with
    | plain text => exact congrArg (text ++ ·) (ih nothing)
    | found text value => cases nothing

theorem replacing_append {isMember : Char → Bool} {read? : Text → Text → Option (Text × Nat)}
    {s t : Text} (edge : ∀ c ∈ t.head?, isMember c = false)
    (stays : StaysWithin isMember read? s t) :
    replacing isMember read? (s ++ t) = replacing isMember read? s ++ replacing isMember read? t := by
  unfold replacing
  rw [spans_append edge stays, List.flatMap_append]

theorem replacing_cons_of_not_mem {isMember : Char → Bool} {read? : Text → Text → Option (Text × Nat)}
    {c : Char} (plain : isMember c = false) (s : Text) :
    replacing isMember read? (c :: s) = c :: replacing isMember read? s := by
  unfold replacing
  rw [spans_cons_of_not_mem plain]
  rfl

theorem replacing_append_of_not_mem {isMember : Char → Bool} {read? : Text → Text → Option (Text × Nat)}
    {s : Text} (plain : ∀ c ∈ s, isMember c = false) (t : Text) :
    replacing isMember read? (s ++ t) = s ++ replacing isMember read? t := by
  induction s with
  | nil => rfl
  | cons c s ih =>
    rw [List.cons_append, replacing_cons_of_not_mem (plain c List.mem_cons_self),
      ih fun d member => plain d (List.mem_cons_of_mem c member), List.cons_append]

/-- A run at the front of a text is replaced as the reader says. -/
theorem replacing_run_append {isMember : Char → Bool} {read? : Text → Text → Option (Text × Nat)}
    {run t : Text} (nonempty : run ≠ []) (isRun : ∀ c ∈ run, isMember c = true)
    (edge : ∀ c ∈ t.head?, isMember c = false) :
    replacing isMember read? (run ++ t) =
      match read? run t with
      | some (replacement, taken) => replacement ++ replacing isMember read? (t.drop taken)
      | none => run ++ replacing isMember read? t := by
  unfold replacing
  rw [spans_run_append nonempty isRun edge]
  cases read? run t <;> rfl

/-- Replacing by texts of what they replace brings no other character in. -/
theorem replacing_subset {isMember : Char → Bool} {read? : Text → Text → Option (Text × Nat)}
    (within : ∀ run rest replacement taken, read? run rest = some (replacement, taken) →
      replacement ⊆ run) (s : Text) : replacing isMember read? s ⊆ s := by
  intro c member
  rw [← flatMap_text_spans isMember read? s]
  unfold replacing at member
  fun_induction spans isMember read? s with
  | case1 => exact member
  | case2 d s _ run rest value taken found ih =>
    rw [List.flatMap_cons, List.mem_append] at member ⊢
    rcases member with replaced | member
    · exact .inl (List.mem_append_left _ (within run rest value taken found replaced))
    · exact .inr (ih member)
  | case3 d s _ run rest _ ih =>
    rw [List.flatMap_cons, List.mem_append] at member ⊢
    exact member.imp id ih
  | case4 d s _ ih =>
    rw [List.flatMap_cons, List.mem_append] at member ⊢
    exact member.imp id ih

end ContractInterface.Text
