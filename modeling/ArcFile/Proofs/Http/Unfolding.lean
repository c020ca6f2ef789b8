import ArcFile.Proofs.Http.Folding
/-!
Headers with their folded lines put on one line each. Wherever in a header a line with a colon stands, it can be put
together with the lines that go on with it: the header that is read is the same, except for its size.

* `Folding` is such a line in some content, and `Folding.unfolded` the content with the lines put together;
* `endOf?_behind` and `addAll_behind` show what a header comes to behind a line feed, whatever stands there, and
  `endOf?_folds` and `addAll_fieldLinesFrom` what it comes to in folded lines;
* `Folding.stands_unfolded` puts these together, and `Head.read_unfolded` says it of what is read.
-/
namespace ArcFile.Http

open Bytes (lineFeed carriageReturn dropReturn)

/-- A line ends before these bytes: they begin with a line feed, or there are none. -/
def EndsLine (after : Bytes) : Prop := after = [] ∨ ∃ rest, after = lineFeed :: rest

theorem EndsLine.take {after : Bytes} (ends : EndsLine after) (n : Nat) : EndsLine (after.take n) := by
  rcases ends with rfl | ⟨rest, rfl⟩
  · exact .inl List.take_nil
  · cases n with
    | zero => exact .inl rfl
    | succ n => exact .inr ⟨rest.take n, rfl⟩

/-- A line of the content with a colon in it, and the lines directly behind it that begin with a space or a tab, be it
all of them or only some. The line is not the first. -/
structure Folding where
  before : Bytes
  first : Bytes
  folds : List Bytes
  after : Bytes
  colon : 0x3A ∈ first
  noFeed : lineFeed ∉ first
  folded : ∀ fold ∈ folds, lineFeed ∉ fold ∧ (fold.head? = some 0x20 ∨ fold.head? = some 0x09)
  ended : EndsLine after

namespace Folding

/-- The lines as they stand in the content. -/
def group (f : Folding) : Bytes := f.first ++ f.folds.flatMap (lineFeed :: ·)

def content (f : Folding) : Bytes := f.before ++ lineFeed :: (f.group ++ f.after)

/-- The lines on one line, which may end with a carriage return. -/
def line (f : Folding) (ending : Bytes) : Bytes := Bytes.oneLine f.first f.folds ++ ending

/-- The content with the one line in place of the lines. -/
def unfolded (f : Folding) (ending : Bytes) : Bytes := f.before ++ lineFeed :: (f.line ending ++ f.after)

/-- A length of which the lines are a part, with the one line in place of them. -/
def adjusted (f : Folding) (ending : Bytes) (length : Nat) : Nat := length + (f.line ending).length - f.group.length

end Folding

namespace Head

section Ends

variable {declared declared' count count' size n : Nat} {begun line line' rest after content : Bytes} {folds : List Bytes}

/-- A header that does not end up to a line feed ends where the rest says. -/
theorem endOf?_behind (before : Bytes)
    (found : endOf? declared count begun (before ++ lineFeed :: rest) = some size)
    (beyond : count + before.length + 1 < size) (declared' : Nat) (rest' : Bytes) :
    endOf? declared' count begun (before ++ lineFeed :: rest') = endOf? declared' (count + before.length + 1) [] rest' := by
  induction before generalizing count begun with
  | nil =>
    rw [List.nil_append, endOf?, if_pos rfl] at found ⊢
    split at found
    · cases found
      exact absurd beyond (Nat.lt_irrefl _)
    · next some =>
      rw [if_neg some]
      rfl
  | cons b before ih =>
    have one : count + 1 + before.length + 1 = count + (b :: before).length + 1 := by
      rw [List.length_cons]
      omega
    rw [List.cons_append, endOf?] at found ⊢
    by_cases feed : b = lineFeed
    · rw [if_pos feed] at found ⊢
      by_cases empty : dropReturn begun = []
      · rw [if_pos empty] at found
        cases found
        rw [List.length_cons] at beyond
        omega
      · rw [if_neg empty] at found ⊢
        rw [ih found (by omega), one]
    · rw [if_neg feed] at found ⊢
      rw [ih found (by omega), one]

/-- The lines up to a line feed do not depend on what stands behind it. -/
theorem linesFrom_behind (begun before : Bytes) :
    ∃ lines, lines ≠ [] ∧ ∀ rest, linesFrom begun (before ++ lineFeed :: rest) = lines ++ linesFrom [] rest := by
  induction before generalizing begun with
  | nil =>
    refine ⟨[dropReturn begun], List.cons_ne_nil _ _, fun rest => ?_⟩
    rw [List.nil_append, linesFrom, if_pos rfl]
    rfl
  | cons b before ih =>
    by_cases feed : b = lineFeed
    · obtain ⟨lines, -, all⟩ := ih []
      refine ⟨dropReturn begun :: lines, List.cons_ne_nil _ _, fun rest => ?_⟩
      rw [List.cons_append, linesFrom, if_pos feed, all]
      rfl
    · obtain ⟨lines, some, all⟩ := ih (begun ++ [b])
      refine ⟨lines, some, fun rest => ?_⟩
      rw [List.cons_append, linesFrom, if_neg feed, all]

/-- How much stands before the rest, and how much is declared, counts only in so far as the declared length is the
length of all. -/
theorem endOf?_shift (whole : declared = count + rest.length ↔ declared' = count' + rest.length) :
    endOf? declared count line rest = some (count + n) ↔ endOf? declared' count' line rest = some (count' + n) := by
  induction rest generalizing count count' line n with
  | nil =>
    unfold endOf?
    simp only [List.length_nil, Nat.add_zero] at whole
    by_cases all : count = declared
    · have all' : count' = declared' := (whole.1 all.symm).symm
      simp [all, all']
    · have other : count' ≠ declared' := fun is => all (whole.2 is.symm).symm
      simp [all, other]
  | cons b rest ih =>
    have whole : declared = count + 1 + rest.length ↔ declared' = count' + 1 + rest.length := by
      simp only [List.length_cons] at whole
      omega
    cases n with
    | zero =>
      -- a byte has been read, so that the end is further on
      constructor
      · intro found
        exact absurd (lt_of_endOf? found) (Nat.lt_irrefl _)
      · intro found
        exact absurd (lt_of_endOf? found) (Nat.lt_irrefl _)
    | succ n =>
      have one (k : Nat) : k + (n + 1) = k + 1 + n := by omega
      rw [one, one]
      unfold endOf?
      split
      · split
        · simp
        · exact ih whole
      · exact ih whole

theorem endOf?_endsLine (some : dropReturn line ≠ []) (some' : dropReturn line' ≠ []) (ends : EndsLine after) :
    endOf? declared count line after = endOf? declared count line' after := by
  rcases ends with rfl | ⟨rest, rfl⟩
  · rfl
  · rw [endOf?, endOf?, if_pos rfl, if_pos rfl, if_neg some, if_neg some']

/-- Lines that are not empty do not end a header. -/
theorem endOf?_folds (some : dropReturn line ≠ []) (folded : ∀ fold ∈ folds, lineFeed ∉ fold ∧ dropReturn fold ≠ [])
    (ends : EndsLine after) : endOf? declared count line (folds.flatMap (lineFeed :: ·) ++ after) =
      endOf? declared (count + (folds.flatMap (lineFeed :: ·)).length) line after := by
  induction folds generalizing line count with
  | nil => rfl
  | cons fold more ih =>
    obtain ⟨noFeed, nonempty⟩ := folded fold List.mem_cons_self
    have length : count + 1 + fold.length + (more.flatMap (lineFeed :: ·)).length =
        count + ((fold :: more).flatMap (lineFeed :: ·)).length := by
      simp only [List.flatMap_cons, List.length_append, List.length_cons]
      omega
    rw [List.flatMap_cons, List.cons_append, List.cons_append, List.append_assoc, endOf?, if_pos rfl, if_neg some,
      endOf?_append _ noFeed, List.nil_append, ih nonempty fun fold among => folded fold (List.mem_cons_of_mem _ among),
      length]
    exact endOf?_endsLine nonempty some ends

/-- The end of the header can be searched for from its first byte on: a start line is not empty. -/
theorem endOf?_of_startsWith {start : StartLine} (starts : StartsWith content start) :
    endOf? declared 0 [] content = some size ↔ EndsAt declared content size := by
  obtain ⟨line, after, rfl, noFeed, parsed⟩ := starts
  have nonempty : dropReturn line ≠ [] := by
    intro none
    rw [none] at parsed
    cases parsed
  rw [← endOf?_behind_first noFeed, endOf?_append _ noFeed, endOf?, if_pos rfl, List.nil_append, if_neg nonempty,
    Nat.zero_add]

theorem startsWith_behind {before : Bytes} {start : StartLine} :
    StartsWith (before ++ lineFeed :: rest) start ↔
      StartLine.parse? (dropReturn (before.takeWhile (· ≠ lineFeed))).latin1 = some start := by
  have first : (before ++ lineFeed :: rest).takeWhile (· ≠ lineFeed) = before.takeWhile (· ≠ lineFeed) := by
    rw [List.takeWhile_append]
    split
    · next all =>
      have whole := (List.takeWhile_prefix (· ≠ lineFeed)).eq_of_length all
      rw [whole, List.takeWhile_cons_of_neg (by simp), List.append_nil]
    · rfl
  constructor
  · rintro ⟨line, after, same, noFeed, parsed⟩
    rw [same, Bytes.takeWhile_line after noFeed] at first
    rwa [← first]
  · intro parsed
    obtain ⟨line, after, same, noFeed⟩ := List.eq_append_cons_of_mem
      (List.mem_append_right before (List.mem_cons_self (a := lineFeed) (l := rest)))
    rw [same, Bytes.takeWhile_line after noFeed] at first
    exact ⟨line, after, same, noFeed, first ▸ parsed⟩

end Ends

section Lines

variable {fields : Fields} {line after : Bytes}

/-- What a line may end with is blank. -/
theorem isBlank_of_mem {b : UInt8} {ending : Bytes} (isEnding : ending = [] ∨ ending = [carriageReturn])
    (among : b ∈ ending) : Bytes.isBlank b = true := by
  rcases isEnding with rfl | rfl
  · cases among
  · rw [List.mem_singleton.1 among]
    decide

/-- Such a line is not empty, and is taken up without its carriage return as it is with it. -/
theorem trims_dropReturn (trims : fields.Trims (line.map Utf8.latin)) :
    dropReturn line ≠ [] ∧ fields.add (dropReturn line).latin1 = fields.add line.latin1 := by
  rcases Bytes.dropReturn_cases line with whole | cut
  · rw [← whole]
    exact ⟨by simpa using trims.ne_nil, rfl⟩
  · rw [cut, List.map_append] at trims
    have trims : fields.Trims ((dropReturn line).map Utf8.latin) := trims.of_return
    have same := Fields.add_latin1_append trims fun b among => isBlank_of_mem (.inr rfl) among
    rw [← cut] at same
    exact ⟨by simpa using trims.ne_nil, same.symm⟩

/-- The line under way is taken up where it ends, and then the lines behind it. -/
theorem addAll_endsLine (trims : fields.Trims (line.map Utf8.latin)) (ends : EndsLine after) :
    fields.addAll (fieldLinesFrom line after) = (fields.add line.latin1).addAll (fieldLines after) := by
  obtain ⟨some, same⟩ := trims_dropReturn trims
  rcases ends with rfl | ⟨rest, rfl⟩
  · have nonempty : line ≠ [] := by simpa using trims.ne_nil
    simp [fieldLinesFrom, fieldLines, linesFrom, Fields.addAll, nonempty]
  · simp [fieldLinesFrom, fieldLines, linesFrom, Fields.addAll, some, same]

/-- The lines that go on with the line under way are taken up after it. -/
theorem addAll_fieldLinesFrom {folds : List Bytes} (trims : fields.Trims (line.map Utf8.latin))
    (folded : ∀ fold ∈ folds, lineFeed ∉ fold ∧ Fields.isFolded (fold.map Utf8.latin) = true) (ends : EndsLine after) :
    fields.addAll (fieldLinesFrom line (folds.flatMap (lineFeed :: ·) ++ after)) =
      (fields.addAll (line :: folds)).addAll (fieldLines after) := by
  induction folds generalizing line fields with
  | nil => exact addAll_endsLine trims ends
  | cons fold more ih =>
    obtain ⟨some, same⟩ := trims_dropReturn trims
    obtain ⟨noFeed, isFolded⟩ := folded fold List.mem_cons_self
    have later : (fields.add line.latin1).Trims (fold.map Utf8.latin) := .inr ⟨fields.lines_add_ne_nil line, isFolded⟩
    have first : fieldLinesFrom line ((fold :: more).flatMap (lineFeed :: ·) ++ after) =
        dropReturn line :: fieldLinesFrom fold (more.flatMap (lineFeed :: ·) ++ after) := by
      simp [fieldLinesFrom, linesFrom, linesFrom_append _ noFeed, some]
    rw [first]
    have := ih later fun fold among => folded fold (List.mem_cons_of_mem _ among)
    rw [Fields.addAll, List.foldl_cons, same]
    exact this

/-- The fields are those of the lines up to a line feed, and then those of the lines behind it. -/
theorem addAll_behind (before : Bytes) : ∃ fields : Fields, ∀ rest,
    Fields.empty.addAll (fieldLines (before ++ lineFeed :: rest)) = fields.addAll (fieldLinesFrom [] rest) := by
  obtain ⟨lines, nonempty, all⟩ := linesFrom_behind [] before
  refine ⟨Fields.empty.addAll (lines.tail.filter (· ≠ [])), fun rest => ?_⟩
  rw [fieldLines, all, List.tail_append_of_ne_nil nonempty, List.filter_append, Fields.addAll, List.foldl_append]
  rfl

end Lines

end Head

namespace Folding

open Head (Stands)

variable {f : Folding} {ending after : Bytes} {limit limit' declared count : Nat} {head : Head}

theorem isFolded_of_mem {fold : Bytes} (among : fold ∈ f.folds) : Fields.isFolded (fold.map Utf8.latin) = true := by
  obtain ⟨-, space | tab⟩ := f.folded fold among
  · obtain ⟨rest, rfl⟩ := List.head?_eq_some_iff.1 space
    rfl
  · obtain ⟨rest, rfl⟩ := List.head?_eq_some_iff.1 tab
    rfl

theorem dropReturn_ne_nil {fold : Bytes} (among : fold ∈ f.folds) : dropReturn fold ≠ [] := by
  intro none
  obtain ⟨-, starts⟩ := f.folded fold among
  rcases Bytes.dropReturn_cases fold with whole | cut
  · rw [whole, none] at starts
    revert starts
    decide
  · rw [cut, none] at starts
    revert starts
    decide

theorem noFeed_line (f : Folding) (isEnding : ending = [] ∨ ending = [carriageReturn]) : lineFeed ∉ f.line ending := by
  intro among
  rcases List.mem_append.1 among with within | last
  · rcases Bytes.mem_of_mem_oneLine within with first | space | ⟨fold, isFold, later⟩
    · exact f.noFeed first
    · cases space
    · exact (f.folded fold isFold).1 later
  · rcases isEnding with rfl | rfl
    · cases last
    · cases List.mem_singleton.1 last

theorem trims_first (f : Folding) (fields : Fields) : fields.Trims (f.first.map Utf8.latin) :=
  .inl (List.mem_map_of_mem (f := Utf8.latin) f.colon)

theorem trims_line (f : Folding) (fields : Fields) (ending : Bytes) :
    fields.Trims ((f.line ending).map Utf8.latin) := by
  have colon := Bytes.mem_trimEnd f.colon (by decide)
  exact .inl (List.mem_map_of_mem (f := Utf8.latin) (List.mem_append_left _ (List.mem_append_left _ colon)))

/-- There is no end of a header in the lines. -/
theorem endOf?_group (ends : EndsLine after) : Head.endOf? declared count [] (f.group ++ after) =
    Head.endOf? declared (count + f.group.length) f.first after := by
  obtain ⟨nonempty, -⟩ := Head.trims_dropReturn (f.trims_first .empty)
  rw [group, List.append_assoc, Head.endOf?_append _ f.noFeed, List.nil_append,
    Head.endOf?_folds nonempty (fun fold among => ⟨(f.folded fold among).1, dropReturn_ne_nil among⟩) ends,
    List.length_append, Nat.add_assoc]

/-- Nor is there one in the one line. -/
theorem endOf?_line (isEnding : ending = [] ∨ ending = [carriageReturn]) (ends : EndsLine after) :
    Head.endOf? declared count [] (f.line ending ++ after) =
      Head.endOf? declared (count + (f.line ending).length) f.first after := by
  obtain ⟨nonempty, -⟩ := Head.trims_dropReturn (f.trims_first .empty)
  obtain ⟨some, -⟩ := Head.trims_dropReturn (f.trims_line .empty ending)
  rw [Head.endOf?_append _ (f.noFeed_line isEnding), List.nil_append]
  exact Head.endOf?_endsLine some nonempty ends

/-- The lines are taken up as the one line is. -/
theorem addAll_line (fields : Fields) (isEnding : ending = [] ∨ ending = [carriageReturn]) (ends : EndsLine after) :
    fields.addAll (Head.fieldLinesFrom [] (f.line ending ++ after)) =
      fields.addAll (Head.fieldLinesFrom [] (f.group ++ after)) := by
  have trims : fields.Trims ((Bytes.oneLine f.first f.folds).map Utf8.latin) := by
    have trims := f.trims_line fields []
    rwa [line, List.append_nil] at trims
  have one : Head.fieldLinesFrom [] (f.line ending ++ after) = Head.fieldLinesFrom (f.line ending) after := by
    rw [Head.fieldLinesFrom, Head.linesFrom_append _ (f.noFeed_line isEnding)]
    rfl
  have several : Head.fieldLinesFrom [] (f.group ++ after) =
      Head.fieldLinesFrom f.first (f.folds.flatMap (lineFeed :: ·) ++ after) := by
    rw [Head.fieldLinesFrom, group, List.append_assoc, Head.linesFrom_append _ f.noFeed]
    rfl
  calc fields.addAll (Head.fieldLinesFrom [] (f.line ending ++ after))
    _ = (fields.add (f.line ending).latin1).addAll (Head.fieldLines after) := by
      rw [one, Head.addAll_endsLine (f.trims_line fields ending) ends]
    _ = (fields.add (Bytes.oneLine f.first f.folds).latin1).addAll (Head.fieldLines after) := by
      rw [line, Fields.add_latin1_append trims fun b among => Head.isBlank_of_mem isEnding among]
    _ = (fields.addAll (f.first :: f.folds)).addAll (Head.fieldLines after) := by
      rw [Fields.addAll_folds f.colon fun fold among => isFolded_of_mem among]
    _ = fields.addAll (Head.fieldLinesFrom [] (f.group ++ after)) := by
      have folded (fold : Bytes) (among : fold ∈ f.folds) :
          lineFeed ∉ fold ∧ Fields.isFolded (fold.map Utf8.latin) = true :=
        ⟨(f.folded fold among).1, isFolded_of_mem among⟩
      rw [several, Head.addAll_fieldLinesFrom (f.trims_first fields) folded ends]

theorem take_behind (before part after : Bytes) (k : Nat) :
    (before ++ lineFeed :: (part ++ after)).take (0 + before.length + 1 + part.length + k) =
      before ++ lineFeed :: (part ++ after.take k) := by
  have cut : before ++ lineFeed :: (part ++ after) = (before ++ lineFeed :: part) ++ after := by simp
  have length : 0 + before.length + 1 + part.length = (before ++ lineFeed :: part).length := by
    simp only [List.length_append, List.length_cons]
    omega
  rw [cut, length, List.take_length_add_append, List.append_assoc, List.cons_append]

/-- With the lines put on one line, the same header stands in the content, but for its size. -/
theorem stands_unfolded (isEnding : ending = [] ∨ ending = [carriageReturn])
    (stands : Stands limit declared f.content head) (within : f.before.length + 1 < head.size)
    (fits : f.adjusted ending head.size ≤ limit') :
    Stands limit' (f.adjusted ending declared) (f.unfolded ending)
      { head with size := f.adjusted ending head.size } := by
  have found := (Head.endOf?_of_startsWith stands.start).2 stands.ends
  have behind := Head.endOf?_behind f.before found (by rwa [Nat.zero_add])
  rw [content, behind, endOf?_group f.ended] at found
  obtain ⟨k, size⟩ := Nat.exists_eq_add_of_le (Head.le_of_endOf? found)
  have adjusted (length : Nat) : f.adjusted ending length = length + (f.line ending).length - f.group.length := rfl
  have size' : f.adjusted ending head.size = 0 + f.before.length + 1 + (f.line ending).length + k := by
    rw [adjusted, size]
    omega
  have start : Head.StartsWith (f.unfolded ending) head.start :=
    Head.startsWith_behind.2 (Head.startsWith_behind.1 stands.start)
  have ends : Head.EndsAt (f.adjusted ending declared) (f.unfolded ending) (f.adjusted ending head.size) := by
    have whole : declared = 0 + f.before.length + 1 + f.group.length + f.after.length ↔
        f.adjusted ending declared = 0 + f.before.length + 1 + (f.line ending).length + f.after.length := by
      rw [adjusted]
      omega
    rw [size] at found
    rw [← Head.endOf?_of_startsWith start, unfolded, behind, endOf?_line isEnding f.ended, size']
    exact (Head.endOf?_shift whole).1 found
  refine ⟨start, ends, fits, ?_, ?_⟩
  · have payload := stands.payload
    simp only [adjusted]
    omega
  · obtain ⟨fields, all⟩ := Head.addAll_behind f.before
    rw [size', unfolded, take_behind, all, addAll_line fields isEnding (f.ended.take k), ← all, ← take_behind, ← size]
    exact stands.fields

end Folding

namespace Head

/-- Folding is transparent. Where content has a header with folded lines, and other content has one line in place of a
line with a colon and those that go on with it, with the declared length adjusted, the header that is read from the
other is the same but for its size: its start line, its fields with their names and values, their index and their
warnings, and the payload behind it. -/
theorem read_unfolded {σ τ : Type} [Supply σ] [Supply τ] {c c' : Cursor σ} {d : Cursor τ} {rest rest' ending : Bytes}
    {declared : Nat} {head : Head} (f : Folding) (isEnding : ending = [] ∨ ending = [carriageReturn])
    (pos : 0 < c.capacity) (supply : Supply.Yields c.supply rest)
    (content : c.pushback.bytes ++ c.buffer ++ rest = f.content)
    (pos' : 0 < d.capacity) (supply' : Supply.Yields d.supply rest')
    (content' : d.pushback.bytes ++ d.buffer ++ rest' = f.unfolded ending)
    (found : read declared c = .ok (some head) c') (within : f.before.length + 1 < head.size)
    (fits : f.adjusted ending head.size ≤ d.pushbackSize) :
    ∃ d', read (f.adjusted ending declared) d = .ok (some { head with size := f.adjusted ending head.size }) d' := by
  obtain ⟨holds, steady, held⟩ := supply
  obtain ⟨holds', steady', held'⟩ := supply'
  obtain ⟨_, read, -, -⟩ := read_holds steady declared ⟨pos, rest, held, content.symm⟩
  obtain ⟨d', read', -, -⟩ := read_holds steady' (f.adjusted ending declared) ⟨pos', rest', held', content'.symm⟩
  rw [read] at found
  have stands := ofContent_iff.1 (EStateM.Result.ok.inj found).1
  rw [ofContent_iff.2 (Folding.stands_unfolded isEnding stands within fits)] at read'
  exact ⟨d', read'⟩

/-- A value in three pieces, with a line between them that is blank, and a line behind them. -/
theorem read_unfolded_blankFold :
    let f : Folding := ⟨Bytes.ofString "HTTP/1.0 200 OK\r", Bytes.ofString "X:\ta \r",
      [Bytes.ofString "  b\r", Bytes.ofString "\t\r", Bytes.ofString " c"], Bytes.ofString "\nY: d\n\nbody", by decide +kernel,
      by decide +kernel, by decide +kernel, .inr ⟨Bytes.ofString "Y: d\n\nbody", by decide +kernel⟩⟩
    let c := Cursor.create (Input.ofBytes f.content) 4 64
    let d := Cursor.create (Input.ofBytes (f.unfolded [carriageReturn])) 8 64
    ∃ head c' d', read 45 c = .ok (some head) c' ∧ f.before.length + 1 < head.size ∧
      f.adjusted [carriageReturn] head.size ≤ d.pushbackSize ∧
      f.unfolded [carriageReturn] = Bytes.ofString "HTTP/1.0 200 OK\r\nX:\ta b c\r\nY: d\n\nbody" ∧
      read (f.adjusted [carriageReturn] 45) d = .ok (some { head with size := f.adjusted [carriageReturn] head.size }) d' := by
  intro f c d
  have size : (match read 45 c with | .ok found _ => found.map (·.size) | .error .. => none) = some 41 := by
    decide +kernel
  split at size
  · next found c' is =>
    obtain ⟨head, rfl, same⟩ := Option.map_eq_some_iff.1 size
    have within : f.before.length + 1 < head.size := by
      rw [same]
      decide +kernel
    have fits : f.adjusted [carriageReturn] head.size ≤ d.pushbackSize := by
      rw [same]
      decide +kernel
    obtain ⟨d', read'⟩ := read_unfolded f (.inr rfl) (by decide +kernel) (Input.yields_ofBytes f.content) rfl
      (by decide +kernel) (Input.yields_ofBytes (f.unfolded [carriageReturn])) rfl is within fits
    exact ⟨head, c', d', is, within, fits, by decide +kernel, read'⟩
  · cases size

end Head
end ArcFile.Http
