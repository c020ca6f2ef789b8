import ArcFile.Record.Header
import ArcFile.Supply.Cursor
/-!
Finding header lines. `RecordHeader.next` passes over the lines in front of a header line; what they were is
told by one finding for all empty lines and one for all others.
-/
namespace ArcFile.RecordHeader

/-- Which lines were passed over. -/
structure Skipped where
  data : Bool
  emptyLines : Bool
  deriving DecidableEq, Repr

def Skipped.nothing : Skipped := ⟨false, false⟩

def Skipped.findings (skipped : Skipped) : List Finding :=
  (if skipped.data then [.dataBeforeRecord] else []) ++
    if skipped.emptyLines then [.emptyLinesBeforeRecord] else []

/-- The header in a line, with all that is wrong with it. A line that is not UTF-8 is read as
ISO-8859-1. -/
def ofLine? (line : Bytes) (start size : Nat) : Option (RecordHeader × Findings) :=
  match Utf8.decode? line with
  | some text => (parse? text).map fun (header, errors) =>
      ({ header with start, size }, Findings.none.addErrors errors)
  | none => (parse? line.latin1).map fun (header, errors) =>
      ({ header with start, size },
        (Findings.none.addErrors errors).addWarning (.headerNotUtf8 line.latin1))

variable {σ : Type} [Supply σ]

/-- Reads lines through the first header line. -/
def search (skipped : Skipped) (c : Cursor σ) :
    Outcome (Cursor σ) (Skipped × Option (RecordHeader × Findings)) :=
  match found : Cursor.readLine c with
  | .error fault c' => .error fault c'
  | .ok none c' => .ok (skipped, none) c'
  | .ok (some line) c' =>
    have := Cursor.left_of_readLine found
    if line.isEmpty then search { skipped with emptyLines := true } c'
    else
      match ofLine? line c.consumed (c'.consumed - c.consumed) with
      | some header => .ok (skipped, some header) c'
      | none => search { skipped with data := true } c'
termination_by c.left

/-- The next header line, unless the supply ends before it; and all that is wrong up to there. -/
def next (c : Cursor σ) : Outcome (Cursor σ) (Option RecordHeader × Findings) :=
  match search .nothing c with
  | .error fault c => .error fault c
  | .ok (skipped, none) c => .ok (none, Findings.none.addErrors skipped.findings) c
  | .ok (skipped, some (header, findings)) c =>
    .ok (some header, Findings.none.addErrors skipped.findings ++ findings) c

theorem left_search (skipped : Skipped) (c : Cursor σ) : (search skipped c).state.left ≤ c.left := by
  fun_induction search skipped c with
  | case1 skipped c _ _ found =>
    have := Cursor.left_readLine c
    rw [found] at this
    exact this
  | case2 skipped c _ found =>
    have := Cursor.left_readLine c
    rw [found] at this
    exact this
  | case3 => omega
  | case4 skipped c line c' found smaller => exact Nat.le_of_lt smaller
  | case5 => omega

theorem left_of_search {skipped skipped' : Skipped} {c c' : Cursor σ} {header : RecordHeader × Findings}
    (h : search skipped c = .ok (skipped', some header) c') : c'.left < c.left := by
  fun_induction search skipped c with
  | case1 => cases h
  | case2 => cases h
  | case3 _ _ _ _ _ smaller _ ih => exact Nat.lt_trans (ih h) smaller
  | case4 _ _ _ _ _ smaller =>
    cases h
    exact smaller
  | case5 _ _ _ _ _ smaller _ _ ih => exact Nat.lt_trans (ih h) smaller

/-- A header line takes something. -/
theorem left_of_next {c c' : Cursor σ} {header : RecordHeader} {findings : Findings}
    (h : next c = .ok (some header, findings) c') : c'.left < c.left := by
  unfold next at h
  split at h
  · cases h
  · cases h
  · next found =>
    cases h
    exact left_of_search found

theorem left_next (c : Cursor σ) : (next c).state.left ≤ c.left := by
  have := left_search .nothing c
  unfold next
  split <;> simp_all [Outcome.state]

end ArcFile.RecordHeader
