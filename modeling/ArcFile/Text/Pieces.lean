/-!
Cutting text at a separator. `pieces` cuts at every one, `cut?` at the first and `cutLast?` at the
last.
-/
namespace ArcFile.Text

/-- The parts of a text between separators: always one more than there are separators. -/
def pieces (sep : Char) : List Char → List (List Char)
  | [] => [[]]
  | c :: rest =>
    if c = sep then [] :: pieces sep rest
    else match pieces sep rest with
      | [] => [[c]]
      | piece :: more => (c :: piece) :: more

/-- What stands before and after the first separator. -/
def cut? (sep : Char) : List Char → Option (List Char × List Char)
  | [] => none
  | c :: rest =>
    if c = sep then some ([], rest)
    else (cut? sep rest).map fun parts => (c :: parts.1, parts.2)

/-- What stands before and after the last separator. -/
def cutLast? (sep : Char) : List Char → Option (List Char × List Char)
  | [] => none
  | c :: rest =>
    match cutLast? sep rest with
    | some parts => some (c :: parts.1, parts.2)
    | none => if c = sep then some ([], rest) else none

theorem pieces_ne_nil (sep : Char) (text : List Char) : pieces sep text ≠ [] := by
  cases text with
  | nil => simp [pieces]
  | cons c rest =>
    unfold pieces
    split
    · simp
    · split <;> simp

theorem append_of_cut? {sep : Char} {text before after : List Char}
    (h : cut? sep text = some (before, after)) : text = before ++ sep :: after := by
  induction text generalizing before with
  | nil => simp [cut?] at h
  | cons c rest ih =>
    unfold cut? at h
    split at h
    · next eq =>
      obtain ⟨rfl, rfl⟩ := by simpa using h
      simp [eq]
    · obtain ⟨⟨b, a⟩, found, eq⟩ := Option.map_eq_some_iff.1 h
      obtain ⟨rfl, rfl⟩ := by simpa using eq
      simp [ih found]

theorem cut?_eq_none_iff {sep : Char} {text : List Char} : cut? sep text = none ↔ sep ∉ text := by
  induction text with
  | nil => simp [cut?]
  | cons c rest ih =>
    unfold cut?
    by_cases same : c = sep
    · simp [same]
    · simp [same, ih, Ne.symm same]

theorem cut?_append {sep : Char} {before : List Char} (none : sep ∉ before) (after : List Char) :
    cut? sep (before ++ sep :: after) = some (before, after) := by
  induction before with
  | nil => simp [cut?]
  | cons c rest ih =>
    obtain ⟨other, later⟩ := not_or.1 fun among => none (List.mem_cons.2 among)
    rw [List.cons_append, cut?, if_neg (Ne.symm other), ih later]
    rfl

theorem not_mem_of_cut? {sep : Char} {text before after : List Char}
    (h : cut? sep text = some (before, after)) : sep ∉ before := by
  induction text generalizing before with
  | nil => simp [cut?] at h
  | cons c rest ih =>
    unfold cut? at h
    split at h
    · obtain ⟨rfl, -⟩ := by simpa using h
      exact List.not_mem_nil
    · next other =>
      obtain ⟨⟨b, a⟩, found, eq⟩ := Option.map_eq_some_iff.1 h
      obtain ⟨rfl, rfl⟩ := by simpa using eq
      exact List.not_mem_cons_of_ne_of_not_mem (Ne.symm other) (ih found)

theorem cut?_eq_some_iff {sep : Char} {text before after : List Char} :
    cut? sep text = some (before, after) ↔ sep ∉ before ∧ text = before ++ sep :: after := by
  constructor
  · intro found
    exact ⟨not_mem_of_cut? found, append_of_cut? found⟩
  · rintro ⟨none, rfl⟩
    exact cut?_append none after

theorem append_of_cutLast? {sep : Char} {text before after : List Char}
    (h : cutLast? sep text = some (before, after)) : text = before ++ sep :: after := by
  induction text generalizing before with
  | nil => simp [cutLast?] at h
  | cons c rest ih =>
    unfold cutLast? at h
    split at h
    · next parts found =>
      obtain ⟨rfl, rfl⟩ := by simpa using h
      have tail : rest = parts.1 ++ sep :: parts.2 := ih found
      simp [tail]
    · split at h
      · next eq =>
        obtain ⟨rfl, rfl⟩ := by simpa using h
        simp [eq]
      · cases h

theorem cutLast?_eq_none_iff {sep : Char} {text : List Char} : cutLast? sep text = none ↔ sep ∉ text := by
  induction text with
  | nil => simp [cutLast?]
  | cons c rest ih =>
    unfold cutLast?
    cases found : cutLast? sep rest with
    | some parts =>
      have among : sep ∈ rest := by
        rw [append_of_cutLast? found]
        simp
      simp [among]
    | none =>
      have absent := ih.1 found
      by_cases same : c = sep <;> simp [same, absent, Ne.symm]

theorem not_mem_of_cutLast? {sep : Char} {text before after : List Char}
    (h : cutLast? sep text = some (before, after)) : sep ∉ after := by
  induction text generalizing before with
  | nil => simp [cutLast?] at h
  | cons c rest ih =>
    unfold cutLast? at h
    split at h
    · next parts found =>
      obtain ⟨rfl, rfl⟩ := by simpa using h
      exact ih found
    · next none =>
      split at h
      · obtain ⟨rfl, rfl⟩ := by simpa using h
        exact cutLast?_eq_none_iff.1 none
      · cases h

theorem cutLast?_append {sep : Char} (before : List Char) {after : List Char} (none : sep ∉ after) :
    cutLast? sep (before ++ sep :: after) = some (before, after) := by
  induction before with
  | nil => simp [cutLast?, cutLast?_eq_none_iff.2 none]
  | cons c rest ih => rw [List.cons_append, cutLast?, ih]

theorem cutLast?_eq_some_iff {sep : Char} {text before after : List Char} :
    cutLast? sep text = some (before, after) ↔ sep ∉ after ∧ text = before ++ sep :: after := by
  constructor
  · intro found
    exact ⟨not_mem_of_cutLast? found, append_of_cutLast? found⟩
  · rintro ⟨none, rfl⟩
    exact cutLast?_append before none

end ArcFile.Text
