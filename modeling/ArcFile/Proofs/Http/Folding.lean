import ArcFile.Proofs.Http.Head
import ArcFile.Proofs.Text.Blank
/-!
Folded lines. A line of a header and the lines that go on with it say the same as one line, put together from what is
left of each without its blanks.
-/
namespace ArcFile.Http

open Text

namespace Fields

variable {fields : Fields} {text blanks : List Char}

theorem continued_eq (line : Line) (text : List Char) :
    Line.continued line text = { line with value := String.ofList (joined line.value.toList text) } := by
  obtain ⟨name, value⟩ := line
  unfold Line.continued joined
  by_cases noText : text = []
  · simp [noText]
  · by_cases noValue : value = ""
    · simp [noText, noValue]
    · have glued : value ++ " " ++ String.ofList text = String.ofList (value.toList ++ ' ' :: text) := by
        apply String.toList_inj.1
        simp
      simp [noText, noValue, glued]

theorem continued_continued (line : Line) (text more : List Char) :
    Line.continued (Line.continued line text) more = Line.continued line (joined text more) := by
  simp only [continued_eq, String.toList_ofList, joined_assoc]

/-- The line is one that is taken up without the blanks at its end: it has a colon, or goes on with another line. -/
def Trims (fields : Fields) (text : List Char) : Prop :=
  ':' ∈ text ∨ fields.lines ≠ [] ∧ isFolded text = true

theorem isFolded_append (some : text ≠ []) (more : List Char) : isFolded (text ++ more) = isFolded text := by
  obtain ⟨c, rest, rfl⟩ := List.exists_cons_of_ne_nil some
  rfl

theorem Trims.ne_nil (trims : fields.Trims text) : text ≠ [] := by
  rintro rfl
  rcases trims with colon | ⟨-, folded⟩
  · cases colon
  · cases folded

theorem Trims.append (trims : fields.Trims text) (more : List Char) : fields.Trims (text ++ more) := by
  rcases trims with colon | ⟨some, folded⟩
  · exact .inl (List.mem_append_left more colon)
  · refine .inr ⟨some, ?_⟩
    rw [isFolded_append (Trims.ne_nil (.inr ⟨some, folded⟩)), folded]

/-- A carriage return at the end is not what makes it such a line. -/
theorem Trims.of_return (trims : fields.Trims (text ++ ['\r'])) : fields.Trims text := by
  rcases trims with colon | ⟨some, folded⟩
  · exact .inl ((List.mem_append.1 colon).resolve_right (by decide))
  · refine .inr ⟨some, ?_⟩
    by_cases none : text = []
    · rw [none] at folded
      cases folded
    · rwa [isFolded_append none] at folded

theorem addLine_named {name : List Char} (noColon : ':' ∉ name) (value : List Char) :
    add.addLine fields (name ++ ':' :: value) = { fields with
      lines := fields.lines ++ [⟨some (String.ofList (trim name)), String.ofList (trim value)⟩]
      index := enter (lowerString (String.ofList (trim name))) fields.lines.length fields.index } := by
  simp [add.addLine, cut?_append noColon]

/-- Such a line makes the last of the lines go on with what it ends with. If it has a name, that is a line with this
name and no value. -/
theorem add_trims (trims : fields.Trims text) : ∃ before last index ending, ending <:+ text ∧
    ∀ more, fields.add (String.ofList (text ++ more)) =
      ⟨before ++ [Line.continued last (trim (ending ++ more))], index, fields.warnings⟩ := by
  by_cases own : fields.lines = [] ∨ isFolded text = false
  · have colon : ':' ∈ text := trims.resolve_right fun ⟨later, folded⟩ => by
      rcases own with none | unfolded
      · exact later none
      · rw [unfolded] at folded
        cases folded
    obtain ⟨name, value, rfl, noColon⟩ := List.eq_append_cons_of_mem colon
    let key := lowerString (String.ofList (trim name))
    refine ⟨fields.lines, ⟨some (String.ofList (trim name)), ""⟩, enter key fields.lines.length fields.index, value,
      ⟨name ++ [':'], by simp⟩, fun more => ?_⟩
    have own' : fields.lines = [] ∨ isFolded (String.ofList (name ++ ':' :: value ++ more)).toList = false := by
      rw [String.toList_ofList, isFolded_append trims.ne_nil]
      exact own
    rw [add_own own', String.toList_ofList, List.append_assoc, List.cons_append, addLine_named noColon, continued_eq]
    simp [key]
  · obtain ⟨some, folded⟩ := not_or.1 own
    have folded : isFolded text = true := by simpa using folded
    refine ⟨fields.lines.dropLast, fields.lines.getLast some, fields.index, text, List.suffix_rfl, fun more => ?_⟩
    have folded' : isFolded (String.ofList (text ++ more)).toList = true := by
      rw [String.toList_ofList, isFolded_append trims.ne_nil, folded]
    rw [add_folded (List.dropLast_concat_getLast some).symm folded', String.toList_ofList]

theorem add_blanks (trims : fields.Trims text) (blank : ∀ c ∈ blanks, isBlank c = true) :
    fields.add (String.ofList (text ++ blanks)) = fields.add (String.ofList text) := by
  obtain ⟨before, last, index, ending, -, adds⟩ := add_trims trims
  have alone := adds []
  rw [List.append_nil, List.append_nil] at alone
  rw [adds, alone, trim_append_blanks ending blank]

/-- A folded line goes on with the line before it as it would on the same line. -/
theorem add_spaced {fold : List Char} (trims : fields.Trims text) (stop : text.rdropWhile isBlank = text)
    (folded : isFolded fold = true) : (fields.add (String.ofList text)).add (String.ofList fold) =
      fields.add (String.ofList (text ++ spaced (trim fold))) := by
  obtain ⟨before, last, index, ending, suffix, adds⟩ := add_trims trims
  have alone := adds []
  rw [List.append_nil, List.append_nil] at alone
  have stops : ending.rdropWhile isBlank = ending := rdropWhile_of_stop stop suffix
  rw [alone, add_folded rfl (by rwa [String.toList_ofList]), adds, String.toList_ofList, continued_continued,
    trim_append_spaced stops (isTrimmed_trim fold)]

theorem foldl_add_spaced (trims : fields.Trims text) (stop : text.rdropWhile isBlank = text) (folds : List (List Char))
    (folded : ∀ fold ∈ folds, isFolded fold = true) :
    folds.foldl (fun fields fold => fields.add (String.ofList fold)) (fields.add (String.ofList text)) =
      fields.add (String.ofList (text ++ folds.flatMap fun fold => spaced (trim fold))) := by
  induction folds generalizing text with
  | nil => simp
  | cons fold more ih =>
    rw [List.foldl_cons, add_spaced trims stop (folded fold List.mem_cons_self)]
    rw [ih (trims.append _) (rdropWhile_append_spaced stop (isTrimmed_trim fold))
      fun fold among => folded fold (List.mem_cons_of_mem _ among)]
    rw [List.flatMap_cons, List.append_assoc]

theorem lines_add_ne_nil (fields : Fields) (line : Bytes) : (fields.add line.latin1).lines ≠ [] := by
  by_cases none : fields.lines = []
  · exact (add_first none line).1
  · exact (add_later none line).1

/-- The blanks at the end of such a line make no difference. -/
theorem add_latin1_append {line blanks : Bytes} (trims : fields.Trims (line.map Utf8.latin))
    (blank : ∀ b ∈ blanks, Bytes.isBlank b = true) :
    fields.add (line ++ blanks).latin1 = fields.add line.latin1 := by
  have cut : (line ++ blanks).latin1 = String.ofList (line.map Utf8.latin ++ blanks.map Utf8.latin) :=
    congrArg String.ofList List.map_append
  rw [cut]
  refine add_blanks trims ?_
  intro c among
  obtain ⟨b, within, rfl⟩ := List.mem_map.1 among
  exact blank b within

/-- A line with a colon and the lines that go on with it are taken up as one line. -/
theorem addAll_folds {first : Bytes} {folds : List Bytes} (colon : 0x3A ∈ first)
    (folded : ∀ fold ∈ folds, isFolded (fold.map Utf8.latin) = true) :
    fields.addAll (first :: folds) = fields.add (Bytes.oneLine first folds).latin1 := by
  have there : ':' ∈ (first.map Utf8.latin).rdropWhile isBlank := by
    rw [← Bytes.map_trimEnd]
    exact List.mem_map_of_mem (f := Utf8.latin) (Bytes.mem_trimEnd colon (by decide))
  have trims : fields.Trims ((first.map Utf8.latin).rdropWhile isBlank) := .inl there
  have start : fields.add first.latin1 = fields.add (String.ofList ((first.map Utf8.latin).rdropWhile isBlank)) := by
    rw [← add_blanks trims fun c gone => List.mem_rtakeWhile_imp gone, List.rdropWhile_append_rtakeWhile]
    rfl
  have stop := List.rdropWhile_idempotent isBlank (first.map Utf8.latin)
  have all := foldl_add_spaced trims stop (folds.map (List.map Utf8.latin)) (by simpa using folded)
  rw [← start, List.foldl_map] at all
  rw [addAll, List.foldl_cons]
  refine all.trans ?_
  rw [← Bytes.map_oneLine]
  rfl

end Fields
end ArcFile.Http
