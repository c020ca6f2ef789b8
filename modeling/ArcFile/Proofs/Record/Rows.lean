import ArcFile.Proofs.Record.Fields
/-!
Data cut into lines, and the header line among them. A row is a line with its end, so that the rows are all of the data
and their sizes say where each of them stands. What comes first and is a header line is found, and what is told of the
rows in front of it is that there were some, of either sort.
-/
namespace ArcFile

namespace Bytes

/-- The lines of some data, each through its line feed. The last one may have none. -/
def rows : Bytes → List Bytes
  | [] => []
  | b :: rest =>
    if b = lineFeed then [b] :: rows rest
    else match rows rest with
      | [] => [[b]]
      | row :: more => (b :: row) :: more

theorem flatten_rows (data : Bytes) : data.rows.flatten = data := by
  induction data with
  | nil => rfl
  | cons b rest ih =>
    unfold rows
    split
    · rw [List.flatten_cons, ih]
      rfl
    · cases found : rows rest with
      | nil =>
        rw [found] at ih
        rw [← ih]
        rfl
      | cons row more =>
        rw [found, List.flatten_cons] at ih
        rw [List.flatten_cons, List.cons_append, ih]

theorem lineSize_cons {b : UInt8} (other : b ≠ lineFeed) (rest : Bytes) :
    lineSize (b :: rest) = lineSize rest + 1 := by
  have goes : (b :: rest).takeWhile (· ≠ lineFeed) = b :: rest.takeWhile (· ≠ lineFeed) := by
    rw [List.takeWhile_cons, if_pos (decide_eq_true other)]
  simp only [lineSize, goes, List.length_cons, Nat.add_lt_add_iff_right]
  split
  · rfl
  · rfl

/-- The first row goes as far as a line that is read, and the other rows are those of what follows. -/
theorem rows_of_ne_nil {data : Bytes} (some : data ≠ []) :
    data.rows = data.take data.lineSize :: rows (data.drop data.lineSize) := by
  induction data with
  | nil => exact absurd rfl some
  | cons b rest ih =>
    by_cases feed : b = lineFeed
    · have size : lineSize (b :: rest) = 1 := by simp [lineSize, feed]
      rw [rows, if_pos feed, size]
      rfl
    · rw [rows, if_neg feed, lineSize_cons feed, List.take_succ_cons, List.drop_succ_cons]
      cases rest with
      | nil => rfl
      | cons next more => rw [ih (List.cons_ne_nil _ _)]

theorem firstLine_take (data : Bytes) : firstLine (data.take data.lineSize) = data.firstLine := by
  unfold firstLine
  congr 1
  induction data with
  | nil => rfl
  | cons b rest ih =>
    by_cases feed : b = lineFeed
    · have size : lineSize (b :: rest) = 1 := by simp [lineSize, feed]
      rw [size, feed]
      rfl
    · rw [lineSize_cons feed, List.take_succ_cons, List.takeWhile_cons, List.takeWhile_cons, ih]

theorem length_take_lineSize (data : Bytes) : (data.take data.lineSize).length = data.lineSize := by
  rw [List.length_take, Nat.min_eq_left data.lineSize_le]

/-- The line of a row is not the same as the row: its end is missing. -/
theorem rows_cons {data row : Bytes} {behind : List Bytes} (cut : data.rows = row :: behind) :
    data ≠ [] ∧ row.firstLine = data.firstLine ∧ row.length = data.lineSize ∧
      behind = rows (data.drop data.lineSize) ∧ behind.flatten = data.drop data.lineSize := by
  have some : data ≠ [] := by
    rintro rfl
    cases cut
  rw [rows_of_ne_nil some] at cut
  obtain ⟨rfl, rfl⟩ := List.cons.inj cut
  exact ⟨some, firstLine_take data, length_take_lineSize data, rfl, flatten_rows _⟩

/-- The rows behind others are cut as they would be alone. -/
theorem rows_flatten_behind {data : Bytes} {passed behind : List Bytes} (cut : data.rows = passed ++ behind) :
    rows behind.flatten = behind := by
  induction passed generalizing data with
  | nil =>
    rw [List.nil_append] at cut
    rw [← cut, flatten_rows]
  | cons row more ih =>
    obtain ⟨-, -, -, rest, -⟩ := rows_cons cut
    exact ih rest.symm

end Bytes

/-- Line by line, a cursor goes from row to row. -/
theorem Cursor.readLine_row {σ : Type} [Supply σ] {holds : σ → Bytes → Prop} (steady : Supply.Steady holds)
    {c : Cursor σ} {data row : Bytes} {behind : List Bytes} (cut : data.rows = row :: behind)
    (h : c.Holds holds data) :
    ∃ c', readLine c = .ok (some row.firstLine) c' ∧ c'.Holds holds behind.flatten ∧ Forward row.length c c' := by
  obtain ⟨some, line, size, -, rest⟩ := Bytes.rows_cons cut
  rw [line, size, rest]
  exact readLine_holds steady some h

namespace RecordHeader

/-! ## Rows passed over -/

/-- The row is a header line: there is something on it, and it has as many fields as one of the layouts. -/
def IsRow (row : Bytes) : Prop :=
  row.firstLine ≠ [] ∧ ((parts (textOf row.firstLine)).length = 5 ∨ (parts (textOf row.firstLine)).length = 10)

instance (row : Bytes) : Decidable (IsRow row) := inferInstanceAs (Decidable (_ ∧ _))

theorem isHeaderLine_iff_isRow (row : Bytes) : isHeaderLine row.firstLine = true ↔ IsRow row := by
  rw [isHeaderLine, isSome_ofLine?_eq, Bool.and_eq_true, isSome_parse?, Bool.not_eq_true', List.isEmpty_eq_false_iff]
  rfl

/-- What is told of rows that are no header lines: once that there are any with something on them, and once that there
are empty ones. -/
def passedFindings (rows : List Bytes) : List Finding :=
  (if ∃ row ∈ rows, row.firstLine ≠ [] then [.dataBeforeRecord] else []) ++
    if ∃ row ∈ rows, row.firstLine = [] then [.emptyLinesBeforeRecord] else []

/-- These rows have been passed over, too. -/
def Skipped.including (skipped : Skipped) (rows : List Bytes) : Skipped where
  data := skipped.data || rows.any fun row => !row.firstLine.isEmpty
  emptyLines := skipped.emptyLines || rows.any fun row => row.firstLine.isEmpty

theorem Skipped.including_nil (skipped : Skipped) : skipped.including [] = skipped := by
  simp [including]

theorem Skipped.including_cons (skipped : Skipped) (row : Bytes) (more : List Bytes) :
    (skipped.including [row]).including more = skipped.including (row :: more) := by
  simp [including, Bool.or_assoc]

theorem Skipped.findings_including (rows : List Bytes) :
    (Skipped.nothing.including rows).findings = passedFindings rows := by
  simp [including, nothing, findings, passedFindings]

variable {skipped : Skipped} {pos : Nat} {data row : Bytes} {passed behind : List Bytes}

/-- A row that is no header line only counts as passed over. -/
theorem seek_row (cut : data.rows = row :: behind) (other : ¬IsRow row) :
    seek skipped pos data = seek (skipped.including [row]) (pos + row.length) behind.flatten := by
  obtain ⟨some, line, size, -, rest⟩ := Bytes.rows_cons cut
  rw [seek.eq_def skipped, if_neg some]
  dsimp only
  rw [← rest, ← line, ← size]
  by_cases empty : row.firstLine.isEmpty
  · have joined : skipped.including [row] = { skipped with emptyLines := true } := by simp [Skipped.including, empty]
    rw [if_pos empty, joined]
  · have joined : skipped.including [row] = { skipped with data := true } := by simp [Skipped.including, empty]
    have none : ofLine? row.firstLine pos row.length = none := by
      apply Option.eq_none_of_isNone
      cases found : ofLine? row.firstLine pos row.length with
      | none => rfl
      | some header => exact absurd ((isHeaderLine_iff_isRow row).1 (isHeaderLine_of_some empty found)) other
    rw [if_neg empty, joined, none]

theorem seek_passed (cut : data.rows = passed ++ behind) (others : ∀ row ∈ passed, ¬IsRow row) :
    seek skipped pos data = seek (skipped.including passed) (pos + passed.flatten.length) behind.flatten := by
  induction passed generalizing skipped pos data with
  | nil =>
    rw [List.nil_append] at cut
    rw [Skipped.including_nil, ← cut, Bytes.flatten_rows]
    rfl
  | cons row more ih =>
    obtain ⟨first, later⟩ := List.forall_mem_cons.1 others
    obtain ⟨-, -, -, rows, flat⟩ := Bytes.rows_cons cut
    rw [← flat] at rows
    rw [seek_row cut first, ih rows.symm later, Skipped.including_cons, List.flatten_cons, List.length_append,
      Nat.add_assoc]

/-! ## The first header line -/

/-- What is read from a header line, and what is found wrong with it. -/
theorem ofLine?_of_parse? {line : Bytes} {start size : Nat} {header : RecordHeader} {errors : List Finding}
    (h : parse? (textOf line) = some (header, errors)) : ofLine? line start size =
      some ({ header with start, size },
        ⟨errors, if (Utf8.decode? line).isNone then [.headerNotUtf8 line.latin1] else []⟩) := by
  unfold textOf at h
  unfold ofLine?
  cases decoded : Utf8.decode? line with
  | some text =>
    rw [decoded, Option.getD_some] at h
    dsimp only
    rw [h]
    rfl
  | none =>
    rw [decoded, Option.getD_none] at h
    dsimp only
    rw [h]
    rfl

theorem first_of_row (cut : data.rows = passed ++ row :: behind) (others : ∀ row ∈ passed, ¬IsRow row)
    {header : RecordHeader} {errors : List Finding} (some : row.firstLine ≠ [])
    (parsed : parse? (textOf row.firstLine) = .some (header, errors)) : first pos data =
      (.some { header with start := pos + passed.flatten.length, size := row.length },
        ⟨passedFindings passed ++ errors,
          if (Utf8.decode? row.firstLine).isNone then [.headerNotUtf8 row.firstLine.latin1] else []⟩,
        behind.flatten) := by
  obtain ⟨nonempty, line, size, -, flat⟩ := Bytes.rows_cons (Bytes.rows_flatten_behind cut)
  have filled : ¬ row.firstLine.isEmpty = true := by simpa using some
  have found : seek .nothing pos data = (Skipped.nothing.including passed, .some
      ({ header with start := pos + passed.flatten.length, size := row.length },
        ⟨errors, if (Utf8.decode? row.firstLine).isNone then [.headerNotUtf8 row.firstLine.latin1] else []⟩),
      behind.flatten) := by
    rw [seek_passed cut others, seek, if_neg nonempty]
    dsimp only
    rw [← flat, ← line, ← size, if_neg filled, ofLine?_of_parse? parsed]
  unfold first
  rw [found]
  dsimp only
  rw [Skipped.findings_including, Findings.addErrors_eq, Findings.none_append, Findings.append_eq, List.nil_append]

theorem first_of_none (others : ∀ row ∈ data.rows, ¬IsRow row) :
    first pos data = (none, ⟨passedFindings data.rows, []⟩, []) := by
  have all : data.rows = data.rows ++ [] := (List.append_nil _).symm
  have found : seek .nothing pos data = (Skipped.nothing.including data.rows, none, []) := by
    rw [seek_passed all others, List.flatten_nil, seek, if_pos rfl]
  unfold first
  rw [found]
  dsimp only
  rw [Skipped.findings_including, Findings.addErrors_eq, Findings.none_append]

/-- Line by line, a cursor goes from row to row. It finds the first one that is a header line, and stands behind it: the
header tells where the row stands and how large it is, and what is found wrong is that rows were passed over, what is
wrong with the fields of the line, and that it is not UTF-8, if it is not. If no row is a header line, all are passed
over. -/
theorem next_finds_first {σ : Type} [Supply σ] {holds : σ → Bytes → Prop} (steady : Supply.Steady holds)
    {c : Cursor σ} (h : c.Holds holds data) :
    (∀ row behind, data.rows = row :: behind →
      ∃ c', c.readLine = .ok (some row.firstLine) c' ∧ c'.Holds holds behind.flatten ∧
        c'.consumed = c.consumed + row.length) ∧
    (∀ passed row behind, data.rows = passed ++ row :: behind → (∀ other ∈ passed, ¬IsRow other) → IsRow row →
      ∃ header errors c', parse? (textOf row.firstLine) = some (header, errors) ∧
        next c = .ok (some { header with start := c.consumed + passed.flatten.length, size := row.length },
          ⟨passedFindings passed ++ errors,
            if (Utf8.decode? row.firstLine).isNone then [.headerNotUtf8 row.firstLine.latin1] else []⟩) c' ∧
        c'.Holds holds behind.flatten ∧ c'.consumed = c.consumed + passed.flatten.length + row.length) ∧
    ((∀ row ∈ data.rows, ¬IsRow row) →
      ∃ c', next c = .ok (none, ⟨passedFindings data.rows, []⟩) c' ∧ c'.Holds holds [] ∧
        c'.consumed = c.consumed + data.length) := by
  obtain ⟨c', found, held, moved, -⟩ := next_holds steady h
  refine ⟨?_, ?_, ?_⟩
  · intro row behind cut
    obtain ⟨c'', line, after, further⟩ := Cursor.readLine_row steady cut h
    exact ⟨c'', line, after, further.consumed⟩
  · intro passed row behind cut others isRow
    obtain ⟨some, fields⟩ := isRow
    obtain ⟨⟨header, errors⟩, parsed⟩ := Option.isSome_iff_exists.1 (isSome_parse?.2 fields)
    rw [first_of_row cut others some parsed] at found held moved
    refine ⟨header, errors, c', parsed, found, held, ?_⟩
    have whole : data.length = passed.flatten.length + row.length + behind.flatten.length := by
      rw [← Bytes.flatten_rows data, cut]
      simp [Nat.add_assoc]
    have size := moved.consumed
    dsimp only at size
    omega
  · intro others
    rw [first_of_none others] at found held moved
    exact ⟨c', found, held, moved.consumed⟩

/-- An empty line, one of two fields, and a header line in ISO-8859-1, read two bytes at a time. -/
theorem next_finds_first_latin1 :
    let rows : List Bytes := [[10], [120, 32, 121, 13, 10], [0xE9, 32, 49, 32, 50, 32, 51, 32, 52, 13, 10], [104, 105]]
    let c := Cursor.create (⟨rows.flatten, some 2, none, .inputFailed⟩ : Input) 1 0
    c.Holds Input.Holds rows.flatten ∧
      ∃ header errors c', parse? "é 1 2 3 4" = some (header, errors) ∧
        next c = .ok (some { header with start := 6, size := 11 },
          ⟨[.dataBeforeRecord, .emptyLinesBeforeRecord] ++ errors, [.headerNotUtf8 "é 1 2 3 4"]⟩) c' ∧
        c'.Holds Input.Holds [104, 105] ∧ c'.consumed = 17 := by
  intro rows c
  have held : c.Holds Input.Holds rows.flatten := Cursor.holds_create (by decide) ⟨rfl, rfl, by decide⟩
  have passed : ∀ other ∈ rows.take 2, ¬IsRow other := by decide +kernel
  have isRow : IsRow rows[2] := by decide +kernel
  obtain ⟨-, finds, -⟩ := next_finds_first Input.steady_holds held
  have found := finds _ _ _ (by decide : Bytes.rows rows.flatten = rows.take 2 ++ rows[2] :: rows.drop 3) passed isRow
  have text : textOf (Bytes.firstLine rows[2]) = "é 1 2 3 4" := by decide +kernel
  have latin : (Bytes.firstLine rows[2]).latin1 = "é 1 2 3 4" := by decide +kernel
  have unsound : (Utf8.decode? (Bytes.firstLine rows[2])).isNone = true := by decide +kernel
  have told : passedFindings (rows.take 2) = [.dataBeforeRecord, .emptyLinesBeforeRecord] := by decide +kernel
  rw [text, latin, if_pos unsound, told] at found
  exact ⟨held, found⟩

end RecordHeader
end ArcFile
