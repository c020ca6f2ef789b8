import ArcFile.Proofs.Record.Line
import ArcFile.Proofs.Record.Opening
import ArcFile.Proofs.Text.Lines
/-!
HTTP headers as they stand in the bytes. `Head.read` goes from byte to byte; what it takes is told here by the lines
of the content alone: the first must be a start line, and the header goes through the first empty line after it,
or, where there is none, through the end of content that has just the declared length.

* `Head.Stands` says that there is such a header, and `Head.fieldLines` which lines its fields are read from;
* `ofContent_iff` shows that it is what the bytewise reading finds, and `stands_of_read` that this is so wherever the
  bytes come from.
-/
namespace ArcFile.Http

namespace Fields

/-- What is said of a line that does not go on with the one before it. -/
def warning? (line : Bytes) : Option Finding :=
  if ':' ∈ line.latin1.toList then none else some (.httpLineWithoutColon line.latin1)

/-- The lines that do not go on with the one before them. The first cannot. -/
def ownLines : List Bytes → List Bytes
  | [] => []
  | first :: more => first :: more.filter fun line => !isFolded line.latin1.toList

/-- Takes up one line after the other. -/
def addAll (fields : Fields) (lines : List Bytes) : Fields :=
  lines.foldl (fun fields line => fields.add line.latin1) fields

variable {fields : Fields}

theorem addLine_adds (fields : Fields) (line : Bytes) :
    (add.addLine fields line.latin1.toList).lines ≠ [] ∧
      (add.addLine fields line.latin1.toList).warnings = fields.warnings ++ (warning? line).toList := by
  unfold add.addLine warning?
  split
  · next name value found =>
    have colon : ':' ∈ line.latin1.toList := by
      apply Decidable.byContradiction
      intro no
      rw [Text.cut?_eq_none_iff.2 no] at found
      cases found
    simp [if_pos colon]
  · next found => simp [if_neg (Text.cut?_eq_none_iff.1 found)]

/-- A line that does not go on with another is taken up on its own. -/
theorem add_own {text : String} (own : fields.lines = [] ∨ isFolded text.toList = false) :
    fields.add text = add.addLine fields text.toList := by
  unfold add
  dsimp only
  split
  · next last is =>
    rcases own with none | unfolded
    · rw [none] at is
      cases is
    · rw [unfolded, if_neg Bool.false_ne_true]
  · rfl

/-- Any other line changes no more than the last of those before it. -/
theorem add_folded {before : List Line} {last : Line} {text : String} (lines : fields.lines = before ++ [last])
    (folded : isFolded text.toList = true) :
    fields.add text = { fields with lines := before ++ [Line.continued last (Text.trim text.toList)] } := by
  simp [add, lines, folded]

theorem add_first (none : fields.lines = []) (line : Bytes) :
    (fields.add line.latin1).lines ≠ [] ∧
      (fields.add line.latin1).warnings = fields.warnings ++ (warning? line).toList := by
  rw [add_own (.inl none)]
  exact addLine_adds fields line

theorem add_later (some : fields.lines ≠ []) (line : Bytes) :
    (fields.add line.latin1).lines ≠ [] ∧ (fields.add line.latin1).warnings = fields.warnings ++
      ([line].filter fun line => !isFolded line.latin1.toList).filterMap warning? := by
  cases folded : isFolded line.latin1.toList with
  | true =>
    rw [add_folded (List.dropLast_concat_getLast some).symm folded]
    simp [folded]
  | false =>
    obtain ⟨lines, warnings⟩ := addLine_adds fields line
    rw [add_own (.inr folded)]
    refine ⟨lines, ?_⟩
    rw [warnings]
    cases found : warning? line <;> simp [folded, found]

theorem warnings_addAll_later (some : fields.lines ≠ []) (lines : List Bytes) :
    (fields.addAll lines).warnings =
      fields.warnings ++ (lines.filter fun line => !isFolded line.latin1.toList).filterMap warning? := by
  induction lines generalizing fields with
  | nil => simp [addAll]
  | cons line more ih =>
    obtain ⟨lines, warnings⟩ := add_later some line
    have := ih lines
    rw [warnings, List.append_assoc, ← List.filterMap_append, ← List.filter_append] at this
    exact this

/-- There is one warning for every line of its own that has no colon. -/
theorem warnings_addAll (lines : List Bytes) : (empty.addAll lines).warnings = (ownLines lines).filterMap warning? := by
  cases lines with
  | nil => rfl
  | cons first more =>
    have none : empty.lines = [] := rfl
    obtain ⟨lines, warnings⟩ := add_first none first
    have := warnings_addAll_later lines more
    rw [warnings] at this
    refine this.trans ?_
    cases found : warning? first <;> simp [ownLines, found, empty]

/-- Every warning is about one of the lines. -/
theorem mem_warnings_addAll {lines : List Bytes} {f : Finding} (among : f ∈ (empty.addAll lines).warnings) :
    ∃ line ∈ lines, f = .httpLineWithoutColon line.latin1 := by
  rw [warnings_addAll] at among
  obtain ⟨line, own, warned⟩ := List.mem_filterMap.1 among
  have taken : line ∈ lines := by
    cases lines with
    | nil => exact own
    | cons first more =>
      rcases List.mem_cons.1 own with rfl | later
      · exact List.mem_cons_self
      · exact List.mem_cons_of_mem _ (List.mem_filter.1 later).1
  refine ⟨line, taken, ?_⟩
  unfold warning? at warned
  split at warned
  · cases warned
  · exact (Option.some.inj warned).symm

end Fields

namespace Head

open Bytes (lineFeed dropReturn)

/-- The content begins with this start line, and a line feed ends it. -/
def StartsWith (content : Bytes) (start : StartLine) : Prop :=
  ∃ line after, content = line ++ lineFeed :: after ∧ lineFeed ∉ line ∧
    StartLine.parse? (dropReturn line).latin1 = some start

/-- A line after the first, with nothing in it but the carriage return that it may end with, ends in the line feed that
is byte number `size`. -/
def EmptyLineEnds (content : Bytes) (size : Nat) : Prop :=
  ∃ before line after, content = before ++ lineFeed :: (line ++ lineFeed :: after) ∧ lineFeed ∉ line ∧
    dropReturn line = [] ∧ size = before.length + line.length + 2

/-- The header goes through the first empty line. If there is none, all content is a header, but only if it is as long
as declared. -/
def EndsAt (declared : Nat) (content : Bytes) (size : Nat) : Prop :=
  EmptyLineEnds content size ∧ (∀ other, EmptyLineEnds content other → size ≤ other) ∨
    (∀ other, ¬ EmptyLineEnds content other) ∧ content.length = declared ∧ size = declared

/-- The lines of some bytes that go on with `line`. What stands behind the last line feed is a line as it is. -/
def linesFrom (line : Bytes) : Bytes → List Bytes
  | [] => [line]
  | b :: rest =>
    if b = lineFeed then dropReturn line :: linesFrom [] rest else linesFrom (line ++ [b]) rest

/-- The lines that are read as fields: all that are not empty. -/
def fieldLinesFrom (line content : Bytes) : List Bytes := (linesFrom line content).filter (· ≠ [])

/-- The lines of a header, without the start line and without the empty line at its end. -/
def fieldLines (header : Bytes) : List Bytes := (linesFrom [] header).tail.filter (· ≠ [])

/-- Where a header ends of which `count` bytes have been read: behind the first empty line, or at the end if it is at
the declared length. -/
def endOf? (declared count : Nat) (line : Bytes) : Bytes → Option Nat
  | [] => if count = declared then some count else none
  | b :: rest =>
    if b = lineFeed then
      if dropReturn line = [] then some (count + 1) else endOf? declared (count + 1) [] rest
    else endOf? declared (count + 1) (line ++ [b]) rest

theorem le_of_endOf? {declared count size : Nat} {line content : Bytes}
    (found : endOf? declared count line content = some size) : count ≤ size := by
  induction content generalizing count line with
  | nil =>
    unfold endOf? at found
    split at found <;> cases found
    exact Nat.le_refl _
  | cons b rest ih =>
    unfold endOf? at found
    repeat' split at found
    · cases found
      exact Nat.le_succ _
    all_goals exact Nat.le_of_succ_le (ih found)

theorem lt_of_endOf? {declared count size : Nat} {line rest : Bytes} {b : UInt8}
    (found : endOf? declared count line (b :: rest) = some size) : count < size := by
  unfold endOf? at found
  repeat' split at found
  · cases found
    exact Nat.lt_succ_self _
  all_goals exact le_of_endOf? found

/-- Bytes without a line feed only go on with the line under way. -/
theorem endOf?_append {declared count : Nat} {begun line : Bytes} (rest : Bytes) (noFeed : lineFeed ∉ line) :
    endOf? declared count begun (line ++ rest) = endOf? declared (count + line.length) (begun ++ line) rest := by
  induction line generalizing count begun with
  | nil => simp
  | cons b line ih =>
    obtain ⟨other, noFeed⟩ := not_or.1 (mt List.mem_cons.2 noFeed)
    have one : count + 1 + line.length = count + (b :: line).length := by
      rw [List.length_cons]
      omega
    rw [List.cons_append, endOf?, if_neg (Ne.symm other), ih noFeed, one, List.append_assoc, List.singleton_append]

/-- A header of which more than the limit has been read does not end within it. -/
theorem endOf?_beyond {α : Type} {limit declared count : Nat} (line content : Bytes) (f : Nat → α) (beyond : limit < count) :
    ((endOf? declared count line content).bind fun size => if size ≤ limit then some (f size) else none) = none := by
  cases found : endOf? declared count line content with
  | none => rfl
  | some size =>
    have := le_of_endOf? found
    exact if_neg (by omega)

namespace Draft

/-- The header that the verdict is for. -/
def Verdict.head? (declared : Nat) : Verdict → Option Head
  | .head start draft => some ⟨start, draft.fields, draft.count, declared - draft.count⟩
  | _ => .none

/-- The header of this size that begins with the draft. -/
def ended (declared : Nat) (start : StartLine) (draft : Draft) (content : Bytes) (size : Nat) : Head :=
  ⟨start, draft.fields.addAll (fieldLinesFrom draft.line.reverse (content.take (size - draft.count))), size,
    declared - size⟩

variable {limit declared : Nat} {draft : Draft} {start : StartLine}

/-- What has been taken up of the content is in the draft. -/
theorem ended_cons {draft' : Draft} {b : UInt8} {rest : Bytes} {size : Nat} (count : draft'.count = draft.count + 1)
    (below : draft'.count ≤ size)
    (fields : draft.fields.addAll (fieldLinesFrom draft.line.reverse (b :: rest.take (size - draft'.count))) =
      draft'.fields.addAll (fieldLinesFrom draft'.line.reverse (rest.take (size - draft'.count)))) :
    draft.ended declared start (b :: rest) size = draft'.ended declared start rest size := by
  have one : size - draft.count = size - draft'.count + 1 := by omega
  simp only [ended, one, List.take_succ_cons, fields]

/-- Once there is a start line, there is a header if it ends within the limit. -/
theorem head?_scan_started (content : Bytes) (started : draft.start = some start) (within : draft.count ≤ limit) :
    (draft.scan limit declared content).head? declared =
      (endOf? declared draft.count draft.line.reverse content).bind fun size =>
        if size ≤ limit then some (draft.ended declared start content size) else none := by
  induction content generalizing draft with
  | nil =>
    simp only [scan, finish, started, endOf?]
    by_cases whole : draft.count = declared
    · subst whole
      cases line : draft.line <;>
        simp [within, Verdict.head?, Fields.addAll, ended, line, fieldLinesFrom, linesFrom]
    · simp [whole, Verdict.head?]
  | cons b rest ih =>
    have goesOn (draft' : Draft) (count : draft'.count = draft.count + 1) (below : draft'.count ≤ limit)
        (started' : draft'.start = some start)
        (lines : ∀ more, draft.fields.addAll (fieldLinesFrom draft.line.reverse (b :: more)) =
          draft'.fields.addAll (fieldLinesFrom draft'.line.reverse more)) :
        (draft'.scan limit declared rest).head? declared =
          (endOf? declared draft'.count draft'.line.reverse rest).bind fun size =>
            if size ≤ limit then some (draft.ended declared start (b :: rest) size) else none := by
      rw [ih started' below]
      cases found : endOf? declared draft'.count draft'.line.reverse rest with
      | none => rfl
      | some size => simp only [Option.bind_some, ended_cons count (le_of_endOf? found) (lines _)]
    unfold scan
    by_cases full : limit ≤ draft.count
    · rw [if_pos full]
      cases found : endOf? declared draft.count draft.line.reverse (b :: rest) with
      | none => rfl
      | some size =>
        have beyond := lt_of_endOf? found
        exact (if_neg (by omega)).symm
    · rw [if_neg full]
      by_cases feed : b = lineFeed
      · subst feed
        by_cases empty : dropReturn draft.line.reverse = []
        · have fits : draft.count + 1 ≤ limit := by omega
          simp [add, addLine, started, endOf?, empty, Verdict.head?, fits, ended, fieldLinesFrom, linesFrom, Fields.addAll]
        · let draft' : Draft := { draft with
            fields := draft.fields.add (Bytes.latin1 (dropReturn draft.line.reverse))
            line := []
            recorded := lineFeed :: draft.recorded
            count := draft.count + 1 }
          have added : draft.add lineFeed = .more draft' := by
            simp [add, addLine, started, empty, draft']
          have lines (more : Bytes) : draft.fields.addAll (fieldLinesFrom draft.line.reverse (lineFeed :: more)) =
              draft'.fields.addAll (fieldLinesFrom draft'.line.reverse more) := by
            simp [fieldLinesFrom, linesFrom, empty, Fields.addAll, draft']
          rw [added, endOf?, if_pos rfl, if_neg empty]
          exact goesOn draft' rfl (Nat.lt_of_not_le full) started lines
      · let draft' : Draft := { draft with
          line := b :: draft.line
          recorded := b :: draft.recorded
          count := draft.count + 1 }
        have added : draft.add b = .more draft' := by simp only [add, if_neg feed, draft']
        have lines (more : Bytes) : draft.fields.addAll (fieldLinesFrom draft.line.reverse (b :: more)) =
            draft'.fields.addAll (fieldLinesFrom draft'.line.reverse more) := by
          simp [fieldLinesFrom, linesFrom, feed, draft']
        rw [added, endOf?, if_neg feed, ← List.reverse_cons]
        exact goesOn draft' rfl (Nat.lt_of_not_le full) started lines

/-- Where nothing ends the first line there is no header. -/
theorem head?_scan_unended (content : Bytes) (unstarted : draft.start = none) (noFeed : lineFeed ∉ content) :
    (draft.scan limit declared content).head? declared = none := by
  induction content generalizing draft with
  | nil => simp only [scan, finish, unstarted, Verdict.head?]
  | cons b rest ih =>
    obtain ⟨other, noFeed⟩ := not_or.1 (mt List.mem_cons.2 noFeed)
    unfold scan
    split
    · rfl
    · simp only [add, if_neg (Ne.symm other)]
      exact ih unstarted noFeed

/-- The first line must be a start line. -/
theorem head?_scan_line (line after : Bytes) (unstarted : draft.start = none) (noFeed : lineFeed ∉ line) :
    (draft.scan limit declared (line ++ lineFeed :: after)).head? declared =
      (StartLine.parse? (dropReturn (draft.line.reverse ++ line)).latin1).bind fun start =>
        (endOf? declared (draft.count + (line.length + 1)) [] after).bind fun size =>
          if size ≤ limit then
            some ⟨start, draft.fields.addAll (fieldLinesFrom [] (after.take (size - (draft.count + (line.length + 1))))),
              size, declared - size⟩
          else none := by
  induction line generalizing draft with
  | nil =>
    simp only [List.nil_append, List.append_nil, List.length_nil, Nat.zero_add]
    unfold scan
    by_cases full : limit ≤ draft.count
    · rw [if_pos full]
      cases StartLine.parse? (dropReturn draft.line.reverse).latin1 with
      | none => rfl
      | some start => exact (endOf?_beyond _ _ _ (Nat.lt_succ_of_le full)).symm
    · rw [if_neg full]
      simp only [add, addLine, unstarted, if_pos]
      cases parsed : StartLine.parse? (dropReturn draft.line.reverse).latin1 with
      | none => rfl
      | some start => exact head?_scan_started after rfl (Nat.lt_of_not_le full)
  | cons b line ih =>
    obtain ⟨other, noFeed⟩ := not_or.1 (mt List.mem_cons.2 noFeed)
    rw [List.cons_append]
    unfold scan
    by_cases full : limit ≤ draft.count
    · rw [if_pos full]
      cases StartLine.parse? (dropReturn (draft.line.reverse ++ b :: line)).latin1 with
      | none => rfl
      | some start => exact (endOf?_beyond _ _ _ (by omega)).symm
    · rw [if_neg full]
      simp only [add, if_neg (Ne.symm other)]
      have more : draft.count + 1 + (line.length + 1) = draft.count + ((b :: line).length + 1) := by
        simp only [List.length_cons]
        omega
      refine Eq.trans (ih ?_ noFeed) ?_
      · exact unstarted
      simp only [more, List.reverse_cons, List.append_assoc, List.singleton_append]

end Draft

section Ends

variable {limit declared size : Nat} {content pre line : Bytes} {b : UInt8}

theorem EmptyLineEnds.le_length (h : EmptyLineEnds content size) : size ≤ content.length := by
  obtain ⟨before, line, after, rfl, -, -, rfl⟩ := h
  simp only [List.length_append, List.length_cons]
  omega

theorem EndsAt.unique {other : Nat} (h : EndsAt declared content size) (h' : EndsAt declared content other) :
    size = other := by
  rcases h with ⟨ends, first⟩ | ⟨none, whole, rfl⟩ <;> rcases h' with ⟨ends', first'⟩ | ⟨none', whole', rfl⟩
  · exact Nat.le_antisymm (first _ ends') (first' _ ends)
  · exact absurd ends (none' _)
  · exact absurd ends' (none _)
  · rfl

/-- The last line of some bytes is what stands behind their last line feed. -/
theorem lastLine_unique {before before' line' : Bytes} (same : before ++ lineFeed :: line = before' ++ lineFeed :: line')
    (noFeed : lineFeed ∉ line) (noFeed' : lineFeed ∉ line') : line = line' := by
  have reversed := congrArg List.reverse same
  simp only [List.reverse_append, List.reverse_cons, List.append_assoc, List.singleton_append] at reversed
  have lines := congrArg (List.takeWhile (· ≠ lineFeed)) reversed
  rw [Bytes.takeWhile_line _ (by simpa using noFeed), Bytes.takeWhile_line _ (by simpa using noFeed')] at lines
  exact List.reverse_inj.1 lines

/-- An empty line that ends in some byte is what stands before it, and the byte is a line feed. -/
theorem EmptyLineEnds.at_length (h : EmptyLineEnds (pre ++ b :: content) (pre.length + 1)) :
    b = lineFeed ∧ ∃ before line, pre = before ++ lineFeed :: line ∧ lineFeed ∉ line ∧ dropReturn line = [] := by
  obtain ⟨before, line, after, cut, noFeed, empty, size⟩ := h
  have cut : pre ++ b :: content = (before ++ lineFeed :: line) ++ lineFeed :: after := by
    rw [cut, List.append_assoc, List.cons_append]
  have length : pre.length = (before ++ lineFeed :: line).length := by
    simp only [List.length_append, List.length_cons]
    omega
  obtain ⟨is, rest⟩ := List.append_inj cut length
  exact ⟨(List.cons.inj rest).1, before, line, is, noFeed, empty⟩

/-- The first line is not one that ends the header. -/
theorem EmptyLineEnds.behind_first {after : Bytes} (noFeed : lineFeed ∉ line)
    (h : EmptyLineEnds (line ++ lineFeed :: after) size) : line.length + 1 < size := by
  obtain ⟨before, empty, after', cut, -, -, rfl⟩ := h
  have : line.length ≤ before.length := by
    rcases List.append_eq_append_iff.1 cut with ⟨more, rfl, -⟩ | ⟨more, rfl, rest⟩
    · simp
    · cases more with
      | nil => simp
      | cons b more =>
        obtain rfl := (List.cons.inj rest).1
        exact absurd (List.mem_append_right _ List.mem_cons_self) noFeed
  omega

/-- Reading byte by byte finds the end of the header. In what has been read there is none. -/
theorem endOf?_eq_some_iff (begun : ∃ before, pre = before ++ lineFeed :: line) (noFeed : lineFeed ∉ line)
    (early : ∀ other, EmptyLineEnds (pre ++ content) other → pre.length < other) :
    endOf? declared pre.length line content = some size ↔ EndsAt declared (pre ++ content) size := by
  induction content generalizing pre line with
  | nil =>
    rw [List.append_nil] at early ⊢
    have none (other : Nat) : ¬ EmptyLineEnds pre other := by
      intro ends
      have := early other ends
      have := ends.le_length
      omega
    unfold endOf? EndsAt
    constructor
    · intro found
      split at found
      · next whole =>
        cases found
        exact .inr ⟨none, whole, whole⟩
      · cases found
    · rintro (⟨ends, -⟩ | ⟨-, whole, rfl⟩)
      · exact absurd ends (none size)
      · rw [if_pos whole, whole]
  | cons b rest ih =>
    have further (line' : Bytes) (begun' : ∃ before, pre ++ [b] = before ++ lineFeed :: line')
        (noFeed' : lineFeed ∉ line') (other : ¬ EmptyLineEnds (pre ++ b :: rest) (pre.length + 1)) :
        endOf? declared (pre.length + 1) line' rest = some size ↔ EndsAt declared (pre ++ b :: rest) size := by
      have cut : pre ++ b :: rest = pre ++ [b] ++ rest := by simp
      have length : pre.length + 1 = (pre ++ [b]).length := by simp
      rw [cut] at early other ⊢
      rw [length] at other ⊢
      refine ih begun' noFeed' ?_
      intro end_ ends
      have late := early end_ ends
      have notHere : end_ ≠ (pre ++ [b]).length := fun is => other (is ▸ ends)
      omega
    obtain ⟨before, pre_eq⟩ := begun
    unfold endOf?
    by_cases feed : b = lineFeed
    · subst feed
      rw [if_pos rfl]
      by_cases empty : dropReturn line = []
      · have here : EmptyLineEnds (pre ++ lineFeed :: rest) (pre.length + 1) :=
          ⟨before, line, rest, by simp [pre_eq], noFeed, empty, by simp [pre_eq]; omega⟩
        have ends : EndsAt declared (pre ++ lineFeed :: rest) (pre.length + 1) := .inl ⟨here, early⟩
        rw [if_pos empty, Option.some_inj]
        constructor
        · rintro rfl
          exact ends
        · exact ends.unique
      · rw [if_neg empty]
        refine further [] ⟨pre, rfl⟩ List.not_mem_nil ?_
        intro ends
        obtain ⟨-, before', line', same, noFeed', empty'⟩ := ends.at_length
        obtain rfl := lastLine_unique (pre_eq.symm.trans same) noFeed noFeed'
        exact empty empty'
    · rw [if_neg feed]
      refine further (line ++ [b]) ⟨before, by simp [pre_eq]⟩ ?_ fun ends => feed ends.at_length.1
      simpa [noFeed] using Ne.symm feed

/-- The search for the end begins behind the first line. -/
theorem endOf?_behind_first {after : Bytes} (noFeed : lineFeed ∉ line) :
    endOf? declared (line.length + 1) [] after = some size ↔ EndsAt declared (line ++ lineFeed :: after) size := by
  have cut : line ++ lineFeed :: after = line ++ [lineFeed] ++ after := by simp
  have length : line.length + 1 = (line ++ [lineFeed]).length := by simp
  have early (other : Nat) (ends : EmptyLineEnds (line ++ lineFeed :: after) other) : line.length + 1 < other :=
    ends.behind_first noFeed
  rw [cut, length] at early ⊢
  exact endOf?_eq_some_iff ⟨line, rfl⟩ List.not_mem_nil early

end Ends

/-- Bytes without a line feed only go on with the line under way. -/
theorem linesFrom_append {begun line : Bytes} (rest : Bytes) (noFeed : lineFeed ∉ line) :
    linesFrom begun (line ++ rest) = linesFrom (begun ++ line) rest := by
  induction line generalizing begun with
  | nil => simp
  | cons b line ih =>
    obtain ⟨other, noFeed⟩ := not_or.1 (mt List.mem_cons.2 noFeed)
    rw [List.cons_append, linesFrom, if_neg (Ne.symm other), ih noFeed, List.append_assoc, List.singleton_append]

theorem linesFrom_line (begun : Bytes) {line : Bytes} (rest : Bytes) (noFeed : lineFeed ∉ line) :
    linesFrom begun (line ++ lineFeed :: rest) = dropReturn (begun ++ line) :: linesFrom [] rest := by
  rw [linesFrom_append _ noFeed, linesFrom, if_pos rfl]

theorem not_mem_linesFrom {begun content line : Bytes} (noFeed : lineFeed ∉ begun) (among : line ∈ linesFrom begun content) :
    lineFeed ∉ line := by
  induction content generalizing begun with
  | nil => rwa [List.mem_singleton.1 among]
  | cons b rest ih =>
    unfold linesFrom at among
    split at among
    · rcases List.mem_cons.1 among with rfl | later
      · exact fun within => noFeed (Bytes.mem_of_mem_dropReturn within)
      · exact ih List.not_mem_nil later
    · next other =>
      refine ih ?_ among
      simpa [noFeed] using Ne.symm other

/-- The fields stand behind the first line. -/
theorem fieldLines_behind_first {line : Bytes} (after : Bytes) {size : Nat} (noFeed : lineFeed ∉ line)
    (behind : line.length + 1 ≤ size) : fieldLines ((line ++ lineFeed :: after).take size) =
      fieldLinesFrom [] (after.take (size - (line.length + 1))) := by
  have cut : (line ++ lineFeed :: after).take size = line ++ lineFeed :: after.take (size - (line.length + 1)) := by
    have one : size - line.length = size - (line.length + 1) + 1 := by omega
    rw [List.take_append, List.take_of_length_le (by omega), one, List.take_succ_cons]
  rw [cut, fieldLines, linesFrom_line [] _ noFeed, List.tail_cons]
  rfl

/-- `head` is the header that content of the declared length begins with, and is within the limit. -/
structure Stands (limit declared : Nat) (content : Bytes) (head : Head) : Prop where
  start : StartsWith content head.start
  ends : EndsAt declared content head.size
  fits : head.size ≤ limit
  payload : head.payload = declared - head.size
  fields : head.fields = Fields.empty.addAll (fieldLines (content.take head.size))

theorem ofContent_eq_head? (limit declared : Nat) (content : Bytes) :
    ofContent limit declared content = (Draft.empty.scan limit declared content).head? declared := rfl

/-- The header that is found is the one that stands there. -/
theorem ofContent_iff {limit declared : Nat} {content : Bytes} {head : Head} :
    ofContent limit declared content = some head ↔ Stands limit declared content head := by
  rw [ofContent_eq_head?]
  by_cases feed : lineFeed ∈ content
  · obtain ⟨line, after, rfl, noFeed⟩ := List.eq_append_cons_of_mem feed
    rw [Draft.head?_scan_line line after rfl noFeed]
    simp only [Option.bind_eq_some_iff, Draft.empty, List.reverse_nil, List.nil_append, Nat.zero_add,
      endOf?_behind_first noFeed]
    constructor
    · rintro ⟨start, parsed, size, ends, found⟩
      have behind := le_of_endOf? ((endOf?_behind_first noFeed).2 ends)
      split at found
      · next fits =>
        cases found
        exact ⟨⟨line, after, rfl, noFeed, parsed⟩, ends, fits, rfl, by rw [fieldLines_behind_first after noFeed behind]⟩
      · cases found
    · intro stands
      obtain ⟨line', after', same, noFeed', parsed⟩ := stands.start
      have lines := congrArg (List.takeWhile (· ≠ lineFeed)) same
      rw [Bytes.takeWhile_line after noFeed, Bytes.takeWhile_line after' noFeed'] at lines
      obtain rfl := lines
      have behind := le_of_endOf? ((endOf?_behind_first noFeed).2 stands.ends)
      refine ⟨head.start, parsed, head.size, stands.ends, ?_⟩
      rw [if_pos stands.fits, ← fieldLines_behind_first after noFeed behind, ← stands.fields, ← stands.payload]
  · rw [Draft.head?_scan_unended content rfl feed]
    constructor
    · intro found
      cases found
    · intro stands
      obtain ⟨line, after, rfl, -⟩ := stands.start
      exact absurd (List.mem_append_right _ List.mem_cons_self) feed

/-- The header of the content, if any is within the limit. -/
theorem isSome_ofContent_iff {limit declared : Nat} {content : Bytes} :
    (ofContent limit declared content).isSome ↔
      ∃ start size, StartsWith content start ∧ EndsAt declared content size ∧ size ≤ limit := by
  constructor
  · intro found
    obtain ⟨head, is⟩ := Option.isSome_iff_exists.1 found
    have stands := ofContent_iff.1 is
    exact ⟨head.start, head.size, stands.start, stands.ends, stands.fits⟩
  · rintro ⟨start, size, begins, ends, fits⟩
    have stands : Stands limit declared content
        ⟨start, Fields.empty.addAll (fieldLines (content.take size)), size, declared - size⟩ :=
      ⟨begins, ends, fits, rfl, rfl⟩
    rw [ofContent_iff.2 stands]
    rfl

/-- Every warning is about a line of the header. -/
theorem Stands.mem_warnings {limit declared : Nat} {content : Bytes} {head : Head} {f : Finding}
    (stands : Stands limit declared content head) (among : f ∈ head.fields.warnings) :
    ∃ line : Bytes, lineFeed ∉ line ∧ f = .httpLineWithoutColon line.latin1 := by
  rw [stands.fields] at among
  obtain ⟨line, isField, rfl⟩ := Fields.mem_warnings_addAll among
  exact ⟨line, not_mem_linesFrom List.not_mem_nil (List.mem_of_mem_tail (List.mem_filter.1 isField).1), rfl⟩

section Taken

variable {σ : Type} [Supply σ] {c c' : Cursor σ} {limit declared : Nat}

/-- Whatever gives the bytes, the header that is read is made of the bytes that have been taken. -/
theorem scan_of_readDraft {draft draft' : Draft} {start : StartLine}
    (found : readDraft limit declared draft c = .ok (.head start draft') c') :
    ∃ taken : Bytes, draft.scan limit declared taken = .head start draft' ∧ draft'.count = draft.count + taken.length := by
  have ended {draft : Draft} (finished : draft.finish declared = .head start draft') :
      draft.scan limit declared [] = .head start draft' ∧ draft'.count = draft.count + ([] : Bytes).length := by
    have count := draft.count_finish declared
    rw [finished] at count
    exact ⟨finished, count⟩
  fun_induction readDraft limit declared draft c with
  | case1 => cases found
  | case2 => exact ⟨[], ended (EStateM.Result.ok.inj found).1⟩
  | case3 => cases found
  | case4 => cases found
  | case5 => exact ⟨[], ended (EStateM.Result.ok.inj found).1⟩
  | case6 draft _ room b _ _ _ draft1 added ih =>
    obtain ⟨taken, scanned, sum⟩ := ih found
    have count := draft.count_add b
    rw [added] at count
    have count : draft1.count = draft.count + 1 := count
    refine ⟨b :: taken, ?_, ?_⟩
    · rw [Draft.scan, if_neg room, added]
      exact scanned
    · rw [List.length_cons]
      omega
  | case7 draft _ room b =>
    have added : draft.add b = .head start draft' := (EStateM.Result.ok.inj found).1
    have count := draft.count_add b
    rw [added] at count
    refine ⟨[b], ?_, count⟩
    rw [Draft.scan, if_neg room, added]

/-- Whatever gives the bytes, the header that is read is the one that stands in the bytes that have been taken. -/
theorem stands_of_read {head : Head} (found : read declared c = .ok (some head) c') :
    ∃ taken : Bytes, taken.length = head.size ∧ Stands c.pushbackSize declared taken head := by
  unfold read at found
  split at found
  · cases found
  · next start draft _ drafted =>
    cases found
    obtain ⟨taken, scanned, count⟩ := scan_of_readDraft drafted
    refine ⟨taken, ?_, ofContent_iff.1 ?_⟩
    · rw [count]
      exact (Nat.zero_add _).symm
    · rw [ofContent, scanned]
  all_goals
    split at found
    · cases found
    · cases found

end Taken

/-- From a supply that does not fault, a header is taken as a whole or not at all. It is there if the first line is a
start line and the header ends within what can be pushed back; then just its bytes are taken, and it has one warning
for each of its own lines without a colon. If it is not, nothing has been consumed and there is nothing to warn of. -/
theorem read_whole_or_nothing {σ : Type} [Supply σ] {c : Cursor σ} {rest : Bytes} (declared : Nat)
    (pos : 0 < c.capacity) (supply : Supply.Yields c.supply rest) :
    let content := c.pushback.bytes ++ c.buffer ++ rest
    ∃ found c' rest', read declared c = .ok found c' ∧
      Supply.Yields c'.supply rest' ∧
      c'.pushback.bytes ++ c'.buffer ++ rest' = content.drop (found.elim 0 (·.size)) ∧
      c'.consumed = c.consumed + found.elim 0 (·.size) ∧
      (found.isSome ↔ ∃ start size, StartsWith content start ∧ EndsAt declared content size ∧ size ≤ c.pushbackSize) ∧
      ∀ head, found = some head →
        StartsWith content head.start ∧ EndsAt declared content head.size ∧ head.payload = declared - head.size ∧
          head.fields.warnings =
            (Fields.ownLines (fieldLines (content.take head.size))).filterMap Fields.warning? := by
  intro content
  obtain ⟨holds, steady, held⟩ := supply
  have h : c.Holds holds content := ⟨pos, rest, held, rfl⟩
  obtain ⟨c', read, after, moved⟩ := read_holds steady declared h
  obtain ⟨rest', held', cut⟩ := after.supply
  refine ⟨_, c', rest', read, ⟨holds, steady, held'⟩, cut.symm, moved.consumed, isSome_ofContent_iff, ?_⟩
  intro head found
  have stands := ofContent_iff.1 found
  refine ⟨stands.start, stands.ends, stands.payload, ?_⟩
  rw [stands.fields, Fields.warnings_addAll]

/-- Two bytes of the start line have been pushed back, and the supply gives the rest in pieces of three. -/
theorem read_whole_or_nothing_pushedBack :
    let rest := Bytes.ofString "TP/1.1 200 OK\r\nServer: x\nbogus line\n\nbody"
    let c : Cursor Input := { Cursor.create ⟨rest, some 3, none, .inputFailed⟩ 4 64 with
      pushback := ⟨64, Bytes.ofString "HT", by decide⟩ }
    let content := c.pushback.bytes ++ c.buffer ++ rest
    0 < c.capacity ∧ Supply.Yields c.supply rest ∧ ∃ found c' rest', read 44 c = .ok found c' ∧
      Supply.Yields c'.supply rest' ∧
      c'.pushback.bytes ++ c'.buffer ++ rest' = content.drop (found.elim 0 (·.size)) ∧
      c'.consumed = c.consumed + found.elim 0 (·.size) ∧
      (found.isSome ↔ ∃ start size, StartsWith content start ∧ EndsAt 44 content size ∧ size ≤ c.pushbackSize) ∧
      ∀ head, found = some head →
        StartsWith content head.start ∧ EndsAt 44 content head.size ∧ head.payload = 44 - head.size ∧
          head.fields.warnings =
            (Fields.ownLines (fieldLines (content.take head.size))).filterMap Fields.warning? := by
  intro rest c content
  have pos : 0 < c.capacity := by decide
  have yields : Supply.Yields c.supply rest := ⟨Input.Holds, Input.steady_holds, rfl, rfl, by decide⟩
  exact ⟨pos, yields, read_whole_or_nothing 44 pos yields⟩

end Head
end ArcFile.Http
