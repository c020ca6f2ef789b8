import ArcFile.Proofs.Archive.Buffering
/-!
How many bytes a record takes. They are counted by the source that the record stands in, from where its header line
begins to where the source is left: behind the line ends that follow the content in plain data, but at the very end of a
gzip member, whatever else is in it.
-/
namespace ArcFile

/-- What the records of some data stand in: plain data as it is, of packed data the content of one of its members. -/
inductive SourceOf : Packing → Bytes → Bytes → Prop where
  | plain (data : Bytes) : SourceOf .plain data data
  | gzip {front member back content : Bytes} (decodes : Gzip.Decodes member content) :
    SourceOf .gzip (front ++ member ++ back) content

namespace Frame

/-- The header line stands in `source` behind `before`, and behind it stands what is behind the record's header. -/
structure StandsIn (source before line : Bytes) (f : Frame) : Prop where
  cut : source = before ++ (line ++ f.behind)
  size : line.length = f.header.size
  whole : Bytes.lineSize (line ++ f.behind) = line.length
  header : ∃ findings, RecordHeader.ofLine? (Bytes.firstLine (line ++ f.behind)) f.header.start f.header.size =
    some (f.header, findings)

theorem standsIn_of_line {data : Bytes} {before : Nat} {f : Frame}
    (size : f.header.size = Bytes.lineSize (data.drop before)) (behind : f.behind = data.drop (before + f.header.size))
    (header : ∃ findings, RecordHeader.ofLine? (Bytes.firstLine (data.drop before)) f.header.start f.header.size =
      some (f.header, findings)) : ∃ front line, f.StandsIn data front line := by
  have onward : (data.drop before).take f.header.size ++ f.behind = data.drop before := by
    rw [behind, ← List.drop_drop, List.take_append_drop]
  have length : ((data.drop before).take f.header.size).length = f.header.size := by
    rw [List.length_take, size]
    exact Nat.min_eq_left (Bytes.lineSize_le _)
  refine ⟨data.take before, (data.drop before).take f.header.size, ?_, length, ?_, ?_⟩
  · rw [onward, List.take_append_drop]
  · rw [onward, length, size]
  · rwa [onward]

theorem Tiles.liesAt {base pos : Nat} {data : Bytes} {frames : List Frame} {f : Frame} (h : Tiles base data pos frames)
    (among : f ∈ frames) : ∃ before, f.LiesAt base data before := by
  induction frames generalizing pos with
  | nil => cases among
  | cons g more ih =>
    obtain ⟨before, -, -, lies, onward⟩ := h
    rcases List.mem_cons.1 among with rfl | later
    · exact ⟨before, lies⟩
    · exact ih onward later

/-- A record of plain data stands in it. -/
theorem standsIn_plain {base : Nat} {data : Bytes} {f : Frame} (among : f ∈ (plain base 0 data).1) :
    ∃ before line, f.StandsIn data before line := by
  obtain ⟨before, lies⟩ := (plain_tiles base data 0).liesAt among
  exact standsIn_of_line lies.size lies.behind lies.header

/-- A record of packed data stands in one of the members. -/
theorem standsIn_packed {base pos : Nat} {found : Findings} {members : List (Bytes × Bytes)} {f : Frame}
    (among : f ∈ (packed base pos found members).1) : ∃ m ∈ members, ∃ before line, f.StandsIn m.2 before line := by
  induction members generalizing pos found with
  | nil => cases among
  | cons m members ih =>
    obtain ⟨member, content⟩ := m
    have later {pos : Nat} {found : Findings} (among : f ∈ (packed base pos found members).1) :
        ∃ m ∈ (member, content) :: members, ∃ before line, f.StandsIn m.2 before line := by
      obtain ⟨m, some, stands⟩ := ih among
      exact ⟨m, List.mem_cons_of_mem _ some, stands⟩
    rw [packed] at among
    rcases first : RecordHeader.first 0 content with ⟨none | header, findings, behind⟩
    · rw [first] at among
      exact later among
    · rw [first] at among
      rcases List.mem_cons.1 among with rfl | among
      · obtain ⟨before, stands⟩ := RecordHeader.first_stands first
        obtain ⟨found, line⟩ := stands.line
        refine ⟨_, List.mem_cons_self, standsIn_of_line stands.size stands.behind ⟨found, ?_⟩⟩
        exact RecordHeader.ofLine?_start _ line
      · exact later among

/-- The extent is what the record takes up itself; in a gzip member the rest of its content counts too. -/
theorem extent_eq (isMember : Bool) (f : Frame) : f.extent isMember + f.missing = f.header.size + f.header.declared +
    (if f.missing = 0 then (f.after.takeWhile Bytes.isLineEnd).length else 0) +
    if isMember then f.rest.length else 0 := by
  have plain := f.extent_plain
  have declared : f.region.length + f.missing = f.header.declared := by
    have : f.region.length ≤ f.header.declared := List.length_take_le _ _
    unfold missing
    omega
  cases isMember with
  | false =>
    simp only [Bool.false_eq_true, ↓reduceIte]
    omega
  | true =>
    have most : f.rest.length ≤ f.behind.length := (f.left_suffix false).length_le
    have whole : f.extent true = f.header.size + f.behind.length := rfl
    have cut : f.extent false = f.header.size + (f.behind.length - f.rest.length) := rfl
    simp only [↓reduceIte]
    omega

end Frame

namespace Scanner

variable {σ : Type} [Supply σ] {packing : Packing} {options : Options} {input : σ} {base : Nat} {data : Bytes}
  {scanner : Scanner σ} {frames : List Frame}

omit [Supply σ] in
/-- Every record stands in what such data is read from. -/
theorem FramesOf.standsIn (h : FramesOf base packing data frames) {f : Frame} (among : f ∈ frames) :
    ∃ source before line, SourceOf packing data source ∧ f.StandsIn source before line := by
  cases h with
  | plain =>
    obtain ⟨before, line, stands⟩ := Frame.standsIn_plain among
    exact ⟨data, before, line, .plain data, stands⟩
  | gzip members tail decodes =>
    obtain ⟨m, some, before, line, stands⟩ := Frame.standsIn_packed among
    refine ⟨m.2, before, line, ?_, stands⟩
    obtain ⟨front, back, rfl⟩ := List.append_of_mem some
    have cut : bytesOf (front ++ m :: back) tail = (front.map (·.1)).flatten ++ m.1 ++ bytesOf back tail := by
      simp [bytesOf]
    rw [cut]
    exact .gzip (decodes m some)

/-- However a record is read, once it has been closed it has taken its header line, its content and the line ends right
behind that, less what is missing of the content; and in a gzip member whatever stands behind those line ends. -/
theorem closed_consumed (begins : Begins packing options input base scanner) (yields : Supply.Yields input data)
    (framesOf : FramesOf base packing data frames) (buffered : 0 < options.bufferSize)
    (plans : List (List Entry.Call)) :
    min plans.length frames.length ≤ (tour plans scanner).1.length ∧
      ∀ (i : Nat) (f : Frame) (stop : Stop σ), frames[i]? = some f → (tour plans scanner).1[i]? = some stop →
        (∃ source before line, SourceOf packing data source ∧ f.StandsIn source before line) ∧
        stop.opened.header = f.header ∧
        ∃ entry, stop.closed = .ok () entry ∧ entry.unavailable = f.missing ∧
          entry.consumed + entry.unavailable = f.header.size + f.header.declared +
            (if entry.unavailable = 0 then (f.after.takeWhile Bytes.isLineEnd).length else 0) +
            if packing = .gzip then f.rest.length else 0 := by
  obtain ⟨long, shows⟩ := begins.tour_shows yields framesOf buffered plans
  refine ⟨long, ?_⟩
  intro i f stop isFrame isStop
  have shown := shows i f stop isFrame isStop
  obtain ⟨entry, closed, missing, consumed, -⟩ := shown.closed
  refine ⟨framesOf.standsIn (List.mem_of_getElem? isFrame), shown.header, entry, closed, missing, ?_⟩
  rw [missing, consumed, f.extent_eq]
  simp only [beq_iff_eq]

/-- A record, and three bytes behind the line feed that ends it. -/
def recordAndMore : Bytes := Bytes.ofString "http://a/ 1.1.1.1 20200101000000 text/html 2\nhi\nxyz"

/-- The same in a gzip member. -/
def packedAndMore : Bytes := bytesOf [(Gzip.pack recordAndMore, recordAndMore)] []

theorem framesOf_packedAndMore : FramesOf 0 .gzip packedAndMore
    (Frame.packed 0 0 .none [(Gzip.pack recordAndMore, recordAndMore)]).1 := by
  refine .gzip _ _ fun m is => ?_
  obtain rfl : m = (Gzip.pack recordAndMore, recordAndMore) := by simpa using is
  exact Gzip.decodes_pack recordAndMore

theorem closed_consumed_packed :
    let input := Input.ofBytes packedAndMore
    let scanner := create .gzip 0 .default input
    let frames := (Frame.packed 0 0 .none [(Gzip.pack recordAndMore, recordAndMore)]).1
    Begins .gzip .default input 0 scanner ∧ Supply.Yields input packedAndMore ∧ FramesOf 0 .gzip packedAndMore frames ∧
      0 < Options.default.bufferSize ∧
      min 1 frames.length ≤ (tour [[.read 1]] scanner).1.length ∧
      ∀ (i : Nat) (f : Frame) (stop : Stop Input), frames[i]? = some f → (tour [[.read 1]] scanner).1[i]? = some stop →
        (∃ source before line, SourceOf .gzip packedAndMore source ∧ f.StandsIn source before line) ∧
        stop.opened.header = f.header ∧
        ∃ entry, stop.closed = .ok () entry ∧ entry.unavailable = f.missing ∧
          entry.consumed + entry.unavailable = f.header.size + f.header.declared +
            (if entry.unavailable = 0 then (f.after.takeWhile Bytes.isLineEnd).length else 0) + f.rest.length := by
  intro input scanner frames
  have begins : Begins .gzip .default input 0 scanner := .given 0
  have yields : Supply.Yields input packedAndMore := Input.yields_ofBytes packedAndMore
  have buffered : 0 < Options.default.bufferSize := by decide
  exact ⟨begins, yields, framesOf_packedAndMore, buffered,
    closed_consumed begins yields framesOf_packedAndMore buffered [[.read 1]]⟩

/-- The header line, the content and its line feed are 48 bytes, but the record has taken 51. -/
theorem exists_consumed_beyond :
    ∃ (stop : Stop Input) (entry : Entry (Feed Input)),
      (tour [[]] (create .gzip 0 .default (Input.ofBytes packedAndMore))).1[0]? = some stop ∧
      stop.opened.header.size = 45 ∧ stop.opened.header.declared = 2 ∧ stop.closed = .ok () entry ∧
      entry.unavailable = 0 ∧ entry.consumed = 51 := by
  obtain ⟨long, shows⟩ := (Begins.given 0 : Begins .gzip .default (Input.ofBytes packedAndMore) 0 _).tour_shows
    (Input.yields_ofBytes packedAndMore) framesOf_packedAndMore (by decide) [[]]
  have sizes : (Frame.packed 0 0 .none [(Gzip.pack recordAndMore, recordAndMore)]).1.map
      (fun f => (f.header.size, f.header.declared, f.missing, f.extent true)) = [(45, 2, 0, 51)] := by decide +kernel
  obtain ⟨f, isFrame, is⟩ := List.map_eq_singleton_iff.1 sizes
  simp only [Prod.mk.injEq] at is
  obtain ⟨size, declared, missing, extent⟩ := is
  rw [isFrame] at long shows
  obtain ⟨stop, isStop⟩ : ∃ stop, (tour [[]] (create .gzip 0 .default (Input.ofBytes packedAndMore))).1[0]? =
      some stop := ⟨_, List.getElem?_eq_getElem long⟩
  have shown := shows 0 f stop rfl isStop
  obtain ⟨entry, closed, unavailable, consumed, -⟩ := shown.closed
  exact ⟨stop, entry, isStop, by rw [shown.header, size], by rw [shown.header, declared], closed,
    by rw [unavailable, missing], by rw [consumed]; exact extent⟩

end Scanner
end ArcFile
