import ArcFile.Proofs.Http.Head
import Mathlib.Data.List.Basic
/-!
Fields by their names. The index of a header is built while the lines are taken up: a line with a name enters its
place, a line without one enters nothing, and a line that goes on with another changes neither names nor places. So
whatever the lines are, the index lists just the places of the lines of each name, and what a lookup gives is what a
search through all lines would.
-/
namespace ArcFile.Http

open Text

/-- The line has this name, whatever the case of the ASCII letters in it. -/
def Line.isNamed (name : String) (line : Line) : Bool := line.name.any fun own => sameIgnoringCase own name

/-- What the line is listed under. -/
def Line.key? (line : Line) : Option String := line.name.map lowerString

namespace Fields

/-- The index lists for each name the places of its lines, and these only. -/
structure Indexed (fields : Fields) : Prop where
  distinct : (fields.index.map Prod.fst).Nodup
  increasing : ∀ entry ∈ fields.index, entry.2 ≠ [] ∧ entry.2.Pairwise (· < ·)
  exact : ∀ entry ∈ fields.index, ∀ place, place ∈ entry.2 ↔
    ∃ line, fields.lines[place]? = some line ∧ line.key? = some entry.1
  complete : ∀ line ∈ fields.lines, ∀ key, line.key? = some key → key ∈ fields.index.map Prod.fst

/-- The places of the lines that are listed under this key. -/
def places (key : String) (lines : List Line) : List Nat :=
  (lines.zipIdx.filter fun at' => at'.1.key? = some key).map Prod.snd

/-- The places that the index has for this key. -/
def listed (index : List (String × List Nat)) (key : String) : List Nat := (index.lookup key).getD []

variable {fields : Fields} {name key : String} {place : Nat} {index : List (String × List Nat)} {lines : List Line}

theorem mem_places : place ∈ places key lines ↔ ∃ line, lines[place]? = some line ∧ line.key? = some key := by
  simp [places, List.mem_zipIdx_iff_getElem?, and_comm]

theorem pairwise_places (key : String) (lines : List Line) : (places key lines).Pairwise (· < ·) := by
  have all : (lines.zipIdx.map Prod.snd).Pairwise (· < ·) := by
    rw [List.zipIdx_map_snd]
    exact List.pairwise_lt_range'
  exact all.sublist (List.filter_sublist.map Prod.snd)

theorem places_append (key : String) (lines : List Line) (line : Line) : places key (lines ++ [line]) =
    places key lines ++ if line.key? = some key then [lines.length] else [] := by
  by_cases own : line.key? = some key
  · simp [places, List.zipIdx_append, own]
  · simp [places, List.zipIdx_append, own]

@[simp]
theorem listed_nil (key : String) : listed [] key = [] := rfl

@[simp]
theorem listed_cons (entry : String × List Nat) (rest : List (String × List Nat)) (key : String) :
    listed (entry :: rest) key = if key = entry.1 then entry.2 else listed rest key := by
  obtain ⟨n, places⟩ := entry
  by_cases same : key = n
  · simp [listed, same]
  · have other : (key == n) = false := by simpa using same
    simp only [listed, List.lookup_cons, other, if_neg same]

theorem keys_enter (name : String) (place : Nat) (index : List (String × List Nat)) :
    (enter name place index).map Prod.fst =
      if name ∈ index.map Prod.fst then index.map Prod.fst else index.map Prod.fst ++ [name] := by
  induction index with
  | nil => rfl
  | cons entry rest ih =>
    obtain ⟨n, places⟩ := entry
    unfold enter
    by_cases same : n = name
    · simp [same]
    · simp only [if_neg same, List.map_cons, ih, List.mem_cons, Ne.symm same, false_or]
      split <;> rfl

theorem listed_enter (name : String) (place : Nat) (index : List (String × List Nat)) (key : String) :
    listed (enter name place index) key = if key = name then listed index name ++ [place] else listed index key := by
  induction index with
  | nil => by_cases same : key = name <;> simp [enter, same]
  | cons entry rest ih =>
    unfold enter
    by_cases here : entry.1 = name
    · subst here
      by_cases same : key = entry.1 <;> simp [same]
    · by_cases first : key = entry.1
      · simp [first, here]
      · simp [first, here, Ne.symm here, ih]

theorem ne_nil_of_mem_enter {entry : String × List Nat} (all : ∀ entry ∈ index, entry.2 ≠ [])
    (among : entry ∈ enter name place index) : entry.2 ≠ [] := by
  induction index with
  | nil =>
    rw [List.mem_singleton.1 among]
    exact List.cons_ne_nil _ _
  | cons first rest ih =>
    unfold enter at among
    split at among
    · rcases List.mem_cons.1 among with rfl | later
      · simp
      · exact all entry (List.mem_cons_of_mem _ later)
    · rcases List.mem_cons.1 among with rfl | later
      · exact all _ List.mem_cons_self
      · exact ih (fun entry among => all entry (List.mem_cons_of_mem _ among)) later

/-- The index is what the lines make of it. -/
structure Lists (fields : Fields) : Prop where
  distinct : (fields.index.map Prod.fst).Nodup
  nonempty : ∀ entry ∈ fields.index, entry.2 ≠ []
  places : ∀ key, listed fields.index key = places key fields.lines

theorem lists_empty : Lists empty where
  distinct := List.nodup_nil
  nonempty _ among := absurd among List.not_mem_nil
  places _ := rfl

/-- A line of its own is listed if it has a name. -/
theorem Lists.addLine (h : fields.Lists) (line : List Char) : (add.addLine fields line).Lists := by
  unfold add.addLine
  split
  · next name value found =>
    refine ⟨?_, fun entry among => ne_nil_of_mem_enter h.nonempty among, fun key => ?_⟩
    · dsimp only
      rw [keys_enter]
      split
      · exact h.distinct
      · next absent =>
        refine List.nodup_append.2 ⟨h.distinct, List.pairwise_singleton _ _, ?_⟩
        rintro other among _ is rfl
        exact absent (List.mem_singleton.1 is ▸ among)
    · dsimp only
      rw [listed_enter, places_append, h.places, h.places]
      by_cases same : key = lowerString (String.ofList (trim name))
      · simp [same, Line.key?]
      · simp [same, Line.key?, Ne.symm same]
  · next found =>
    refine ⟨h.distinct, h.nonempty, fun key => ?_⟩
    dsimp only
    rw [places_append, h.places]
    simp [Line.key?]

/-- What a line goes on with keeps its name. -/
theorem key?_continued (line : Line) (text : List Char) : (Line.continued line text).key? = line.key? := by
  unfold Line.continued
  split
  · rfl
  · split <;> rfl

theorem Lists.add (h : fields.Lists) (text : String) : (fields.add text).Lists := by
  by_cases own : fields.lines = [] ∨ isFolded text.toList = false
  · rw [add_own own]
    exact h.addLine text.toList
  · obtain ⟨some, folded⟩ := not_or.1 own
    have lines := (List.dropLast_concat_getLast some).symm
    rw [add_folded lines (by simpa using folded)]
    refine ⟨h.distinct, h.nonempty, fun key => ?_⟩
    have before := h.places key
    rw [lines, places_append] at before
    dsimp only
    rw [places_append, key?_continued, before]

theorem Lists.addAll (h : fields.Lists) (lines : List Bytes) : (fields.addAll lines).Lists := by
  induction lines generalizing fields with
  | nil => exact h
  | cons line more ih => exact ih (h.add line.latin1)

theorem mem_keys_of_listed (some : listed index key ≠ []) : key ∈ index.map Prod.fst := by
  apply Decidable.byContradiction
  intro absent
  apply some
  have none : index.lookup key = none := List.lookup_eq_none_iff.2 fun entry among => by
    simpa using fun same => absent (List.mem_map.2 ⟨entry, among, same.symm⟩)
  rw [listed, none]
  rfl

/-- A name that is listed once is found at its entry. -/
theorem listed_of_mem {entry : String × List Nat} (distinct : (index.map Prod.fst).Nodup) (among : entry ∈ index) :
    listed index entry.1 = entry.2 := by
  induction index with
  | nil => cases among
  | cons first rest ih =>
    obtain ⟨other, distinct⟩ := List.nodup_cons.1 distinct
    rcases List.mem_cons.1 among with rfl | later
    · simp
    · have apart : entry.1 ≠ first.1 := by
        intro same
        exact other (same ▸ List.mem_map_of_mem later)
      rw [listed_cons, if_neg apart, ih distinct later]

theorem Lists.indexed (h : fields.Lists) : fields.Indexed where
  distinct := h.distinct
  increasing entry among := by
    have is := h.places entry.1
    rw [listed_of_mem h.distinct among] at is
    exact ⟨h.nonempty entry among, is ▸ pairwise_places _ _⟩
  exact entry among place := by
    rw [← listed_of_mem h.distinct among, h.places]
    exact mem_places
  complete line among key is := by
    apply mem_keys_of_listed
    obtain ⟨place, at'⟩ := List.mem_iff_getElem?.1 among
    rw [h.places]
    exact List.ne_nil_of_mem (mem_places.2 ⟨line, at', is⟩)

/-- The lines of a name are those that are listed under it in lower case. -/
theorem isNamed_iff {line : Line} : line.isNamed name = true ↔ line.key? = some (lowerString name) := by
  cases named : line.name with
  | none => simp [Line.isNamed, Line.key?, named]
  | some own => simp [Line.isNamed, Line.key?, named, sameIgnoringCase, lowerString, String.ofList_inj]

/-- The values of the listed places are those of the lines that are listed. -/
theorem values_places (key : String) (lines : List Line) :
    (places key lines).filterMap (fun place => lines[place]?.map (·.value)) =
      (lines.filter fun line => line.key? = some key).map (·.value) := by
  have value (at' : Line × Nat) (among : at' ∈ lines.zipIdx.filter fun at' => at'.1.key? = some key) :
      lines[at'.2]?.map (·.value) = some at'.1.value := by
    rw [List.mem_zipIdx_iff_getElem?.1 (List.mem_filter.1 among).1]
    rfl
  calc (places key lines).filterMap (fun place => lines[place]?.map (·.value))
    _ = (lines.zipIdx.filter fun at' => at'.1.key? = some key).filterMap fun at' => some at'.1.value := by
      rw [places, List.filterMap_map]
      exact List.filterMap_congr value
    _ = ((lines.zipIdx.map Prod.fst).filter fun line => line.key? = some key).map (·.value) := by
      rw [List.filterMap_eq_map', List.filter_map, List.map_map]
      rfl
    _ = (lines.filter fun line => line.key? = some key).map (·.value) := by rw [List.zipIdx_map_fst]

theorem Lists.getAll_eq (h : fields.Lists) (name : String) :
    fields.getAll name = (fields.lines.filter (·.isNamed name)).map (·.value) := by
  have same : (fields.lines.filter (·.isNamed name)) =
      fields.lines.filter fun line => line.key? = some (lowerString name) := by
    refine List.filter_congr fun line _ => ?_
    rw [Bool.eq_iff_iff, isNamed_iff, decide_eq_true_iff]
  rw [same, ← values_places, ← h.places]
  rfl

end Fields

namespace Head

variable {σ : Type} [Supply σ] {c c' : Cursor σ} {declared : Nat} {head : Head}

/-- Whatever a header is read from, a lookup sees every line with the name, and no other. The index is right after
each of the lines that have been taken. -/
theorem getAll_of_read (found : read declared c = .ok (some head) c') :
    (∀ name, head.fields.getAll name = (head.fields.lines.filter (·.isNamed name)).map (·.value) ∧
      head.fields.get? name = (head.fields.lines.find? (·.isNamed name)).map (·.value)) ∧
    ∃ taken : Bytes, taken.length = head.size ∧ head.fields = Fields.empty.addAll (fieldLines taken) ∧
      ∀ n, (Fields.empty.addAll ((fieldLines taken).take n)).Indexed := by
  obtain ⟨taken, size, stands⟩ := stands_of_read found
  have made : head.fields = Fields.empty.addAll (fieldLines taken) := by
    rw [stands.fields, List.take_of_length_le (Nat.le_of_eq size)]
  have lists (lines : List Bytes) : (Fields.empty.addAll lines).Lists := Fields.lists_empty.addAll lines
  refine ⟨fun name => ?_, taken, size, made, fun n => (lists _).indexed⟩
  have values : head.fields.getAll name = (head.fields.lines.filter (·.isNamed name)).map (·.value) :=
    (made ▸ lists (fieldLines taken)).getAll_eq name
  refine ⟨values, ?_⟩
  rw [Fields.get?, values, List.head?_map, List.head?_filter]

/-- A name in two cases, one of its lines folded, and two names that differ in no more than the case of a letter that
is not ASCII. Behind the header the supply fails. -/
theorem getAll_of_read_mixedCase :
    let content := Bytes.ofString "HTTP/1.0 200\nset-cookie: a\n\tb\nlonely\n" ++ [0xC4, 0x3A, 0x31, 10] ++
      [0xE4, 0x3A, 0x32, 10] ++ Bytes.ofString "Set-Cookie:c\n\n"
    let c : Cursor Input := Cursor.create ⟨content, some 3, some content.length, .inputFailed⟩ 4 80
    ∃ head c', read 99 c = .ok (some head) c' ∧
      head.fields.getAll "SET-COOKIE" = ["a b", "c"] ∧ head.fields.getAll "\u00C4" = ["1"] ∧
      (head.fields.lines.filter (·.isNamed "SET-COOKIE")).map (·.value) = ["a b", "c"] ∧
      (head.fields.lines.filter (·.isNamed "\u00C4")).map (·.value) = ["1"] ∧
      ∃ taken : Bytes, taken.length = head.size ∧ head.fields = Fields.empty.addAll (fieldLines taken) ∧
        ∀ n, (Fields.empty.addAll ((fieldLines taken).take n)).Indexed := by
  intro content c
  let values (head : Head) : List String × List String :=
    (head.fields.getAll "SET-COOKIE", head.fields.getAll "\u00C4")
  have gives : (match read 99 c with | .ok found _ => found.map values | .error .. => none) =
      some (["a b", "c"], ["1"]) := by decide +kernel
  split at gives
  · next found _ is =>
    obtain ⟨head, rfl, same⟩ := Option.map_eq_some_iff.1 gives
    obtain ⟨cookies, letters⟩ := Prod.mk.inj same
    obtain ⟨lookups, indexed⟩ := getAll_of_read is
    exact ⟨head, _, is, cookies, letters, (lookups _).1.symm.trans cookies, (lookups _).1.symm.trans letters, indexed⟩
  · cases gives

end Head
end ArcFile.Http
