import ArcFile.Proofs.Supply.View
import ArcFile.Record.Header.Search
/-!
Which header line comes first in some bytes. `RecordHeader.first` says it of the bytes alone, and a cursor that
looks for a header line finds that one, whatever its buffer holds.
-/
namespace ArcFile

/-- The lines of some data, without their ends. -/
def Bytes.lines (data : Bytes) : List Bytes :=
  if data = [] then [] else data.firstLine :: lines (data.drop data.lineSize)
termination_by data.length
decreasing_by exact Bytes.length_drop_lineSize_lt ‹_›

namespace RecordHeader

/-- Goes through the lines of `data`, which begins at offset `pos`, up to the first header line. Gives the
lines passed over, the header, and the data behind its line. -/
def seek (skipped : Skipped) (pos : Nat) (data : Bytes) :
    Skipped × Option (RecordHeader × Findings) × Bytes :=
  if data = [] then (skipped, none, [])
  else
    let rest := data.drop data.lineSize
    if data.firstLine.isEmpty then
      seek { skipped with emptyLines := true } (pos + data.lineSize) rest
    else
      match ofLine? data.firstLine pos data.lineSize with
      | some header => (skipped, some header, rest)
      | none => seek { skipped with data := true } (pos + data.lineSize) rest
termination_by data.length
decreasing_by all_goals exact Bytes.length_drop_lineSize_lt ‹_›

/-- The first header line of `data`, which begins at offset `pos`; all that is wrong up to there; and what
is behind the line. -/
def first (pos : Nat) (data : Bytes) : Option RecordHeader × Findings × Bytes :=
  match seek .nothing pos data with
  | (skipped, none, rest) => (none, Findings.none.addErrors skipped.findings, rest)
  | (skipped, some (header, findings), rest) =>
    (some header, Findings.none.addErrors skipped.findings ++ findings, rest)

variable {line : Bytes} {start size : Nat} {header : RecordHeader} {findings : Findings}

theorem start_of_ofLine? (h : ofLine? line start size = some (header, findings)) :
    header.start = start ∧ header.size = size := by
  unfold ofLine? at h
  split at h
  all_goals
    obtain ⟨found, -, same⟩ := Option.map_eq_some_iff.1 h
    obtain ⟨rfl, -⟩ := Prod.mk.inj same
    exact ⟨rfl, rfl⟩

/-- Where a header stands does not matter to what it says. -/
theorem ofLine?_start (start' : Nat) (h : ofLine? line start size = some (header, findings)) :
    ofLine? line start' size = some ({ header with start := start' }, findings) := by
  unfold ofLine? at h ⊢
  split at h
  all_goals
    obtain ⟨found, parsed, same⟩ := Option.map_eq_some_iff.1 h
    cases same
    rw [parsed]
    rfl

theorem isSome_ofLine? (line : Bytes) (start size start' size' : Nat) :
    (ofLine? line start size).isSome = (ofLine? line start' size').isSome := by
  unfold ofLine?
  split <;> simp only [Option.isSome_map]

/-- The line, which is without its terminator, would be taken for a header line. -/
def isHeaderLine (line : Bytes) : Bool := !line.isEmpty && (ofLine? line 0 0).isSome

theorem isHeaderLine_of_isEmpty (empty : line.isEmpty) : isHeaderLine line = false := by
  simp [isHeaderLine, empty]

theorem isHeaderLine_of_none (none : ofLine? line start size = none) : isHeaderLine line = false := by
  rw [isHeaderLine, isSome_ofLine? line 0 0 start size, none]
  simp

theorem isHeaderLine_of_some {found : RecordHeader × Findings} (nonempty : ¬ line.isEmpty)
    (some : ofLine? line start size = some found) : isHeaderLine line = true := by
  rw [isHeaderLine, isSome_ofLine? line 0 0 start size, some]
  simpa using nonempty

/-- From `data` one comes to `rest` over whole lines that are no header lines. -/
inductive Skips : Bytes → Bytes → Prop where
  | refl (data : Bytes) : Skips data data
  | line {data rest : Bytes} (nonempty : data ≠ []) (other : isHeaderLine data.firstLine = false)
    (more : Skips (data.drop data.lineSize) rest) : Skips data rest

/-- Where a header stands in `data`: `before` bytes behind offset `pos`. -/
structure Stands (pos : Nat) (data : Bytes) (header : RecordHeader) (behind : Bytes) (before : Nat) :
    Prop where
  start : header.start = pos + before
  size : header.size = Bytes.lineSize (data.drop before)
  nonempty : data.drop before ≠ []
  behind : behind = data.drop (before + header.size)
  line : ∃ findings, ofLine? (Bytes.firstLine (data.drop before)) header.start header.size =
    some (header, findings)
  isLine : isHeaderLine (Bytes.firstLine (data.drop before)) = true
  skips : Skips data (data.drop before)

theorem Stands.lt {pos before : Nat} {data behind : Bytes} (h : Stands pos data header behind before) :
    before + header.size ≤ data.length ∧ 0 < header.size := by
  have le := Bytes.lineSize_le (data.drop before)
  have pos := Bytes.lineSize_pos h.nonempty
  rw [← h.size] at le pos
  have : before < data.length := by
    apply Nat.lt_of_not_le
    intro beyond
    exact h.nonempty (List.drop_eq_nil_of_le beyond)
  rw [List.length_drop] at le
  omega

/-- Behind a header line there is less than there was before it. -/
theorem Stands.length_lt {pos before : Nat} {data behind : Bytes}
    (h : Stands pos data header behind before) : behind.length < data.length := by
  have := h.lt
  rw [h.behind, List.length_drop]
  omega

/-- What stands behind the first line stands in the whole, if that line is no header line. -/
theorem Stands.of_drop {pos before : Nat} {data behind : Bytes} (nonempty : data ≠ [])
    (other : isHeaderLine data.firstLine = false)
    (h : Stands (pos + data.lineSize) (data.drop data.lineSize) header behind before) :
    Stands pos data header behind (data.lineSize + before) where
  start := by rw [h.start, Nat.add_assoc]
  size := by rw [h.size, List.drop_drop]
  nonempty := by
    rw [← List.drop_drop]
    exact h.nonempty
  behind := by rw [h.behind, List.drop_drop, Nat.add_assoc]
  line := by
    rw [← List.drop_drop]
    exact h.line
  isLine := by
    rw [← List.drop_drop]
    exact h.isLine
  skips := by
    rw [← List.drop_drop]
    exact .line nonempty other h.skips

theorem seek_stands {skipped skipped' : Skipped} {pos : Nat} {data behind : Bytes}
    (h : seek skipped pos data = (skipped', some (header, findings), behind)) :
    ∃ before, Stands pos data header behind before ∧
      ofLine? (Bytes.firstLine (data.drop before)) header.start header.size = some (header, findings) := by
  fun_induction seek skipped pos data with
  | case1 => cases h
  | case2 skipped pos data ended rest empty ih =>
    obtain ⟨before, found, read⟩ := ih h
    rw [List.drop_drop] at read
    exact ⟨data.lineSize + before, found.of_drop ended (isHeaderLine_of_isEmpty empty), read⟩
  | case3 skipped pos data ended rest some header' read =>
    obtain ⟨-, rfl, rfl⟩ : skipped = skipped' ∧ header' = (header, findings) ∧ rest = behind := by
      simpa using h
    obtain ⟨start, size⟩ := start_of_ofLine? read
    have line : ofLine? (Bytes.firstLine (data.drop 0)) header.start header.size = Option.some (header, findings) := by
      rw [start, size]
      simpa using read
    exact ⟨0, ⟨by simpa using start, by simpa using size, by simpa using ended, by rw [size, Nat.zero_add],
      ⟨findings, line⟩, isHeaderLine_of_some some read, .refl data⟩, line⟩
  | case4 skipped pos data ended rest some read ih =>
    obtain ⟨before, found, read'⟩ := ih h
    rw [List.drop_drop] at read'
    exact ⟨data.lineSize + before, found.of_drop ended (isHeaderLine_of_none read), read'⟩

/-- What is wrong with lines that are passed over. -/
theorem Skipped.mem_findings {skipped : Skipped} {finding : Finding} (among : finding ∈ skipped.findings) :
    finding = .dataBeforeRecord ∨ finding = .emptyLinesBeforeRecord := by
  rcases List.mem_append.1 among with data | empty
  · split at data
    · exact .inl (List.mem_singleton.1 data)
    · cases data
  · split at empty
    · exact .inr (List.mem_singleton.1 empty)
    · cases empty

/-- What is wrong up to the end of a header line is about the lines passed over, and about this one. -/
theorem findings_of_first {pos : Nat} {data behind : Bytes} (h : first pos data = (some header, findings, behind)) :
    ∃ (skipped : Skipped) (found : Findings) (before : Nat), findings = ⟨skipped.findings, []⟩ ++ found ∧
      Stands pos data header behind before ∧
      ofLine? (Bytes.firstLine (data.drop before)) header.start header.size = some (header, found) := by
  unfold first at h
  split at h
  · cases h
  · next skipped _ found _ sought =>
    cases h
    obtain ⟨before, stands, read⟩ := seek_stands sought
    exact ⟨skipped, found, before, rfl, stands, read⟩

theorem first_stands {pos : Nat} {data behind : Bytes}
    (h : first pos data = (some header, findings, behind)) :
    ∃ before, Stands pos data header behind before := by
  obtain ⟨_, _, before, -, stands, -⟩ := findings_of_first h
  exact ⟨before, stands⟩

theorem length_seek_le (skipped : Skipped) (pos : Nat) (data : Bytes) :
    (seek skipped pos data).2.2.length ≤ data.length := by
  fun_induction seek skipped pos data with
  | case1 => simp
  | case2 _ _ _ _ _ _ ih =>
    rw [List.length_drop] at ih
    omega
  | case3 _ _ _ _ rest =>
    rw [List.length_drop]
    omega
  | case4 _ _ _ _ _ _ _ ih =>
    rw [List.length_drop] at ih
    omega

theorem seek_none {skipped skipped' : Skipped} {pos : Nat} {data behind : Bytes}
    (h : seek skipped pos data = (skipped', none, behind)) : Skips data [] ∧ behind = [] := by
  fun_induction seek skipped pos data with
  | case1 =>
    cases h
    exact ⟨.refl [], rfl⟩
  | case2 skipped pos data ended rest empty ih =>
    obtain ⟨skips, none⟩ := ih h
    exact ⟨.line ended (isHeaderLine_of_isEmpty empty) skips, none⟩
  | case3 => cases h
  | case4 skipped pos data ended rest some read ih =>
    obtain ⟨skips, none⟩ := ih h
    exact ⟨.line ended (isHeaderLine_of_none read) skips, none⟩

theorem seek_of_first_none {pos : Nat} {data behind : Bytes} (h : first pos data = (none, findings, behind)) :
    ∃ skipped, seek .nothing pos data = (skipped, none, behind) ∧ findings = ⟨skipped.findings, []⟩ := by
  unfold first at h
  split at h
  · next skipped behind' found =>
    cases h
    exact ⟨skipped, found, rfl⟩
  · cases h

/-- Without a header line, all data is passed over. -/
theorem first_none {pos : Nat} {data behind : Bytes} (h : first pos data = (none, findings, behind)) :
    Skips data [] := by
  obtain ⟨skipped, found, -⟩ := seek_of_first_none h
  exact (seek_none found).1

theorem behind_of_first_none {pos : Nat} {data behind : Bytes} (h : first pos data = (none, findings, behind)) :
    behind = [] := by
  obtain ⟨skipped, found, -⟩ := seek_of_first_none h
  exact (seek_none found).2

/-- There is a header line among the lines of the data. -/
def isIn (data : Bytes) : Bool := data.lines.any isHeaderLine

theorem isSome_seek (skipped : Skipped) (pos : Nat) (data : Bytes) :
    (seek skipped pos data).2.1.isSome = isIn data := by
  fun_induction seek skipped pos data with
  | case1 =>
    rw [isIn, Bytes.lines, if_pos rfl]
    rfl
  | case2 skipped pos data ended rest empty ih =>
    rw [ih, isIn, isIn, Bytes.lines.eq_def data, if_neg ended, List.any_cons, isHeaderLine_of_isEmpty empty]
    rfl
  | case3 skipped pos data ended rest some header read =>
    rw [isIn, Bytes.lines, if_neg ended, List.any_cons, isHeaderLine_of_some some read]
    rfl
  | case4 skipped pos data ended rest some read ih =>
    rw [ih, isIn, isIn, Bytes.lines.eq_def data, if_neg ended, List.any_cons, isHeaderLine_of_none read]
    rfl

theorem isSome_first (pos : Nat) (data : Bytes) : (first pos data).1.isSome = isIn data := by
  rw [← isSome_seek .nothing pos data, first]
  rcases seek .nothing pos data with ⟨skipped, none | found, rest⟩ <;> rfl

variable {σ : Type} [Supply σ] {holds : σ → Bytes → Prop} {c : Cursor σ} {data : Bytes}
  (steady : Supply.Steady holds)

include steady

theorem search_holds (skipped : Skipped) (h : c.Holds holds data) :
    ∃ c', search skipped c = .ok ((seek skipped c.consumed data).1, (seek skipped c.consumed data).2.1) c' ∧
      c'.Holds holds (seek skipped c.consumed data).2.2 ∧
      Cursor.Forward (data.length - (seek skipped c.consumed data).2.2.length) c c' ∧
      ((seek skipped c.consumed data).2.1 = none → Supply.Spent holds c'.supply) := by
  induction len : data.length using Nat.strongRecOn generalizing c data skipped with
  | ind len ih =>
    by_cases ended : data = []
    · subst ended
      obtain ⟨c', found, held, moved, spent⟩ := Cursor.readLine_nil steady h
      have none : seek skipped c.consumed [] = (skipped, none, []) := by
        unfold seek
        rw [if_pos rfl]
      rw [none]
      refine ⟨c', ?_, held, by simpa [← len] using moved, ?_⟩
      · unfold search
        split <;> simp_all
      · intro _
        exact spent
    · obtain ⟨c', found, held, moved⟩ := Cursor.readLine_holds steady ended h
      have pos := Bytes.lineSize_pos ended
      have le := data.lineSize_le
      have size : c'.consumed - c.consumed = data.lineSize := by rw [moved.consumed]; omega
      -- the lines behind this one, if it is not the header line
      have later (skipped : Skipped) := ih (data.drop data.lineSize).length (by simp; omega) skipped held rfl
      rw [moved.consumed] at later
      have onward {rest : Bytes} {c'' : Cursor σ} (suffix : rest.length ≤ (data.drop data.lineSize).length)
          (further : Cursor.Forward ((data.drop data.lineSize).length - rest.length) c' c'') :
          Cursor.Forward (data.length - rest.length) c c'' := by
        have := moved.trans further
        rw [List.length_drop] at this suffix
        rwa [show data.lineSize + (data.length - data.lineSize - rest.length) = data.length - rest.length
          by omega] at this
      unfold search seek
      rw [if_neg ended, ← len]
      split
      · next other => simp [found] at other
      · next other => simp [found] at other
      · next line c1 other =>
        simp only [found, EStateM.Result.ok.injEq, Option.some.injEq] at other
        obtain ⟨rfl, rfl⟩ := other
        dsimp only
        by_cases empty : data.firstLine.isEmpty
        · rw [if_pos empty, if_pos empty]
          obtain ⟨c'', all, after, further, spent⟩ := later { skipped with emptyLines := true }
          exact ⟨c'', all, after, onward (length_seek_le _ _ _) further, spent⟩
        · rw [if_neg empty, if_neg empty, size]
          cases read : ofLine? data.firstLine c.consumed data.lineSize with
          | some header =>
            refine ⟨c', rfl, held, ?_, by simp⟩
            rwa [List.length_drop, Nat.sub_sub_self le]
          | none =>
            obtain ⟨c'', all, after, further, spent⟩ := later { skipped with data := true }
            exact ⟨c'', all, after, onward (length_seek_le _ _ _) further, spent⟩

theorem next_holds (h : c.Holds holds data) :
    ∃ c', next c = .ok ((first c.consumed data).1, (first c.consumed data).2.1) c' ∧
      c'.Holds holds (first c.consumed data).2.2 ∧
      Cursor.Forward (data.length - (first c.consumed data).2.2.length) c c' ∧
      ((first c.consumed data).1 = none → Supply.Spent holds c'.supply) := by
  obtain ⟨c', found, held, moved, spent⟩ := search_holds steady .nothing h
  unfold next first
  rw [found]
  rcases sought : seek .nothing c.consumed data with ⟨skipped, none | ⟨header, findings⟩, rest⟩
  · rw [sought] at held moved spent
    refine ⟨c', rfl, held, moved, ?_⟩
    intro _
    exact spent rfl
  · rw [sought] at held moved
    exact ⟨c', rfl, held, moved, by simp⟩

end RecordHeader
end ArcFile
