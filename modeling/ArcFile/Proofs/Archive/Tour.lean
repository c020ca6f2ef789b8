import ArcFile.Proofs.Archive.Passage.Packed
import ArcFile.Proofs.Archive.Passage.Plain
import ArcFile.Proofs.Gzip.Stored
/-!
Whole runs over a file. A tour goes from record to record and does with each what its plan says, be it to read all of
it, some of it in any way, or nothing. What it sees of the records depends only on the bytes of the file.
-/
namespace ArcFile

namespace Frame

/-- The record lies `before` bytes behind offset `base`, where `data` begins: its header line there, its
content behind that. -/
structure LiesAt (base : Nat) (data : Bytes) (before : Nat) (f : Frame) : Prop where
  start : f.header.start = base + before
  size : f.header.size = Bytes.lineSize (data.drop before)
  isLine : RecordHeader.isHeaderLine (Bytes.firstLine (data.drop before)) = true
  header : ∃ findings, RecordHeader.ofLine? (Bytes.firstLine (data.drop before)) f.header.start f.header.size =
    some (f.header, findings)
  behind : f.behind = data.drop (before + f.header.size)

/-- The records follow each other from the first `pos` bytes of `data` on. Between them, and behind the last, are
only lines that are no header lines. -/
def Tiles (base : Nat) (data : Bytes) : (pos : Nat) → List Frame → Prop
  | pos, [] => RecordHeader.Skips (data.drop pos) []
  | pos, f :: more => ∃ before, pos ≤ before ∧ RecordHeader.Skips (data.drop pos) (data.drop before) ∧
    f.LiesAt base data before ∧ Tiles base data (before + f.extent false) more

/-- What is left behind a record is what lies behind its extent. -/
theorem LiesAt.rest {base before : Nat} {data : Bytes} {f : Frame} (h : f.LiesAt base data before) :
    f.rest = data.drop (before + f.extent false) := by
  obtain ⟨gone, behind⟩ := f.left_suffix false
  change gone ++ f.rest = f.behind at behind
  have size := congrArg List.length behind
  rw [List.length_append] at size
  have gone_size : f.behind.length - f.rest.length = gone.length := by omega
  rw [extent, ← Nat.add_assoc, ← List.drop_drop, ← h.behind]
  change f.rest = f.behind.drop (f.behind.length - f.rest.length)
  rw [gone_size, ← behind, List.drop_left]

theorem plain_tiles (base : Nat) (data : Bytes) (pos : Nat) :
    Tiles base data pos (plain base pos (data.drop pos)).1 := by
  induction len : (data.drop pos).length using Nat.strongRecOn generalizing pos with
  | ind len ih =>
    rcases first : RecordHeader.first pos (data.drop pos) with ⟨none | header, findings, behind⟩
    · rw [plain_none first]
      exact RecordHeader.first_none first
    · obtain ⟨before, stands⟩ := RecordHeader.first_stands first
      obtain ⟨f, is, rfl, rfl⟩ := exists_of_found base header findings behind
      have size : f.header.size = header.size := by rw [is]
      have lies : f.LiesAt base data (pos + before) := by
        obtain ⟨found, line⟩ := stands.line
        refine ⟨?_, ?_, ?_, ⟨found, ?_⟩, ?_⟩
        · rw [is, stands.start]
        · rw [size, stands.size, List.drop_drop]
        · rw [← List.drop_drop]
          exact stands.isLine
        · rw [is, ← List.drop_drop]
          exact RecordHeader.ofLine?_start _ line
        · rw [size, stands.behind, List.drop_drop, Nat.add_assoc]
      have rest := lies.rest
      obtain ⟨extent, fewer⟩ := extent_of_stands stands size
      rw [plain_some first is, ← extent, ← Nat.add_assoc, rest]
      refine ⟨pos + before, Nat.le_add_right _ _, ?_, lies, ih _ ?_ _ rfl⟩
      · rw [← List.drop_drop]
        exact stands.skips
      · rwa [← rest, ← len]

end Frame

namespace Scanner

variable {σ : Type}

/-- What came of a visit to a record. -/
structure Stop (σ : Type) where
  /-- The record when the scanner arrived. -/
  opened : Entry (Feed σ)
  /-- What came of the calls on it. -/
  used : Outcome (Entry.Hand (Feed σ)) Unit
  /-- What came of closing it in the end. -/
  closed : Outcome (Entry (Feed σ)) Unit
  /-- The scanner behind the record. -/
  behind : Scanner σ

/-- How a tour ends. -/
inductive Ending (σ : Type) where
  /-- There was no plan for more records. -/
  | halted (scanner : Scanner σ)
  | ended (scanner : Scanner σ)
  | failed (failure : Failure) (scanner : Scanner σ)

variable [Supply σ]

/-- Makes the calls on the record and leaves it. -/
def Visit.stop (calls : List Entry.Call) (visit : Visit σ) : Stop σ :=
  let used := Entry.Hand.calls calls (.start visit.entry)
  { opened := visit.entry
    used
    closed := used.state.entry.close
    behind := { visit with entry := used.state.entry }.leave }

/-- Goes from record to record, with a plan for each. -/
def tour : List (List Entry.Call) → Scanner σ → List (Stop σ) × Ending σ
  | [], scanner => ([], .halted scanner)
  | calls :: plans, scanner =>
    match scanner.next with
    | .failed failure scanner => ([], .failed failure scanner)
    | .ended scanner => ([], .ended scanner)
    | .record visit =>
      let stop := visit.stop calls
      let (stops, ending) := tour plans stop.behind
      (stop :: stops, ending)

/-- A hand that the calls have left open still gets just the content that it has not been given. -/
def Stop.Leaves (content : Bytes) (hand : Entry.Hand (Feed σ)) : Prop :=
  hand.entry.isClosed = false → ∀ stride, 0 < stride →
    ∃ rest entry, Supply.readAll stride [] hand.entry = (rest, .ok () entry) ∧ content = hand.out ++ rest

/-- What was seen of the record is what its frame says. -/
structure Stop.Shows (options : Options) (isMember : Bool) (f : Frame) (stop : Stop σ) : Prop where
  header : stop.opened.header = f.header
  kind : stop.opened.kind = f.kind options
  payloadLength : stop.opened.payloadLength = (f.content options).length + f.missing
  readable : ∀ stride, 0 < stride →
    ∃ entry, Supply.readAll stride [] stop.opened = (f.content options, .ok () entry)
  used : ∃ hand, stop.used = .ok () hand ∧ hand.out <+: f.content options ∧
    Leaves (f.content options) hand
  closed : ∃ entry, stop.closed = .ok () entry ∧ entry.unavailable = f.missing ∧
    entry.consumed = f.extent isMember ∧
    entry.blockDigest = (f.blockDigest options).map (·.encode options.digestEncoding) ∧
    entry.payloadDigest = (f.payloadDigest options).map (·.encode options.digestEncoding)

variable {session : Session} {f : Frame} {visit : Visit σ} {after : Scanner σ → Prop}
  {passed : Frame → Scanner σ → Prop} {ended : Session → Scanner σ → Prop} {frames : List Frame}
  {scanner : Scanner σ}

theorem stop_shows (calls : List Entry.Call) (h : visit.Opens session f after) :
    (visit.stop calls).Shows session.options (session.packing == .gzip) f ∧
      after (visit.stop calls).behind := by
  obtain ⟨holds, source, hand, closed, steady, used, stands, isClosed, closes⟩ := h.calls calls
  have behind : (visit.stop calls).behind = Visit.leave { visit with entry := closed } := by
    have again : closed.close = .ok () closed := by
      obtain ⟨source', rfl⟩ := closes.is
      rfl
    simp only [Visit.stop, Visit.leave, used, Outcome.state, isClosed, again]
  refine ⟨⟨h.header, h.kind, h.payloadLength, ?_, ⟨hand, used, stands.prefix_out, ?_⟩, closed, ?_, ?_⟩,
    behind ▸ closes.after⟩
  · intro stride pos
    obtain ⟨last, -, all, -⟩ := h.readAll pos
    exact ⟨last, all⟩
  · intro isOpen stride pos
    cases stands with
    | reading reads cut shown =>
      obtain ⟨last, all, -⟩ := (Entry.steady_reads steady).readAll pos [] reads
      exact ⟨_, last, all, cut⟩
    | closed done cut shown =>
      obtain ⟨_, is, -⟩ := done
      rw [is] at isOpen
      cases isOpen
  · simp only [Visit.stop, used, Outcome.state, isClosed]
  · have consumed := closes.consumed
    obtain ⟨source', rfl⟩ := closes.is
    exact ⟨rfl, consumed, rfl, rfl⟩

/-- A record that has been left has all findings that the session makes of its frame. -/
theorem stop_findings (calls : List Entry.Call) (h : visit.Opens session f after) :
    ∃ entry, (visit.stop calls).closed = .ok () entry ∧ entry.unavailable = f.missing ∧
      entry.findings = session.allFoundBy f := by
  obtain ⟨-, -, hand, closed, -, used, -, isClosed, closes⟩ := h.calls calls
  refine ⟨closed, ?_, ?_, closes.findings⟩
  · simp only [Visit.stop, used, Outcome.state, isClosed]
  · obtain ⟨source, is⟩ := closes.is
    rw [is]
    rfl

/-- A tour comes to the frames in order, as far as there are plans. -/
theorem tour_opens (plans : List (List Entry.Call)) (h : Gives passed ended session frames scanner) :
    min plans.length frames.length ≤ (tour plans scanner).1.length ∧
      ∀ (i : Nat) (f : Frame) (stop : Stop σ), frames[i]? = some f → (tour plans scanner).1[i]? = some stop →
        ∃ (visit : Visit σ) (calls : List Entry.Call) (after : Scanner σ → Prop), stop = visit.stop calls ∧
          visit.Opens (session.passAll (frames.take i)) f after ∧ passed f stop.behind := by
  induction frames generalizing plans session scanner with
  | nil => exact ⟨by simp, by simp⟩
  | cons f more ih =>
    cases plans with
    | nil => exact ⟨by simp, by simp [tour]⟩
    | cons calls plans =>
      obtain ⟨visit, next, opens⟩ := h
      obtain ⟨-, isPassed, onward⟩ := stop_shows calls opens
      obtain ⟨long, later⟩ := ih plans onward
      have made : (tour (calls :: plans) scanner).1 =
          visit.stop calls :: (tour plans (visit.stop calls).behind).1 := by
        simp only [tour, next]
      rw [made]
      refine ⟨by simpa using long, ?_⟩
      intro i f' stop isFrame isStop
      cases i with
      | zero =>
        cases isFrame
        cases isStop
        exact ⟨visit, calls, _, rfl, opens, isPassed⟩
      | succ i => exact later i f' stop isFrame isStop

theorem tour_shows (plans : List (List Entry.Call)) (h : Gives passed ended session frames scanner) :
    min plans.length frames.length ≤ (tour plans scanner).1.length ∧
      ∀ (i : Nat) (f : Frame) (stop : Stop σ), frames[i]? = some f → (tour plans scanner).1[i]? = some stop →
        stop.Shows session.options (session.packing == .gzip) f ∧ passed f stop.behind := by
  obtain ⟨long, opens⟩ := tour_opens plans h
  refine ⟨long, ?_⟩
  intro i f stop isFrame isStop
  obtain ⟨visit, calls, after, rfl, opened, isPassed⟩ := opens i f stop isFrame isStop
  obtain ⟨sameOptions, samePacking, -⟩ := session.kept_passAll (frames.take i)
  have shows := (stop_shows calls opened).1
  rw [sameOptions, samePacking] at shows
  exact ⟨shows, isPassed⟩

theorem length_tour_le (plans : List (List Entry.Call)) (scanner : Scanner σ) :
    (tour plans scanner).1.length ≤ plans.length := by
  induction plans generalizing scanner with
  | nil => exact Nat.le_refl _
  | cons calls plans ih =>
    unfold tour
    split
    · exact Nat.zero_le _
    · exact Nat.zero_le _
    · exact Nat.succ_le_succ (ih _)

/-- With plans for all frames, the tour goes on from behind the last one. -/
theorem tour_gives (plans : List (List Entry.Call)) (h : Gives passed ended session frames scanner)
    (enough : frames.length ≤ plans.length) : ∃ (stops : List (Stop σ)) (last : Scanner σ),
      stops.length = frames.length ∧ ended (session.passAll frames) last ∧
        tour plans scanner = (stops ++ (tour (plans.drop frames.length) last).1,
          (tour (plans.drop frames.length) last).2) := by
  induction frames generalizing plans session scanner with
  | nil => exact ⟨[], scanner, rfl, h, rfl⟩
  | cons f more ih =>
    cases plans with
    | nil => cases enough
    | cons calls plans =>
      obtain ⟨visit, next, opens⟩ := h
      obtain ⟨-, -, onward⟩ := stop_shows calls opens
      obtain ⟨stops, last, length, atEnd, made⟩ := ih plans onward (Nat.le_of_succ_le_succ enough)
      refine ⟨visit.stop calls :: stops, last, congrArg (· + 1) length, atEnd, ?_⟩
      simp only [tour, next, made]
      rfl

/-- If there is nothing behind the last frame, the tour ends there. -/
theorem tour_ends (plans : List (List Entry.Call)) (h : Gives passed ended session frames scanner)
    (last : Scanner σ → Prop) (atEnd : ∀ scanner, ended (session.passAll frames) scanner →
      ∃ scanner', scanner.next = .ended scanner' ∧ last scanner') :
    (tour plans scanner).1.length = min plans.length frames.length ∧
      (frames.length < plans.length → ∃ scanner', (tour plans scanner).2 = .ended scanner' ∧ last scanner') := by
  rcases Nat.lt_or_ge plans.length frames.length with fewer | enough
  · have least := (tour_opens plans h).1
    have most := length_tour_le plans scanner
    exact ⟨by omega, by omega⟩
  · obtain ⟨stops, behind, length, isEnd, made⟩ := tour_gives plans h enough
    obtain ⟨scanner', next, isLast⟩ := atEnd behind isEnd
    rw [made]
    cases left : plans.drop frames.length with
    | nil =>
      have := congrArg List.length left
      rw [List.length_drop, List.length_nil] at this
      refine ⟨by simp [tour, length]; omega, by omega⟩
    | cons calls more =>
      refine ⟨by simp [tour, next, length]; omega, ?_⟩
      intro _
      exact ⟨scanner', by simp only [tour, next], isLast⟩

/-- If nothing is wrong behind the last frame either, nothing is found there. -/
theorem tour_ends_clean (plans : List (List Entry.Call)) (h : Gives passed ended session frames scanner)
    (clean : session.findings = .none)
    (atEnd : ∀ scanner, ended (session.passAll frames) scanner → Ends .none (session.passAll frames) scanner) :
    (tour plans scanner).1.length = min plans.length frames.length ∧
      (frames.length < plans.length →
        ∃ scanner', (tour plans scanner).2 = .ended scanner' ∧ scanner'.session.findings = .none) := by
  apply tour_ends plans h
  intro scanner isEnd
  obtain ⟨scanner', memberStart, next, same⟩ := atEnd scanner isEnd
  refine ⟨scanner', next, ?_⟩
  rw [same]
  change (session.passAll frames).findings ++ .none = _
  rw [Findings.append_none, (session.kept_passAll frames).2.2.2, clean]

section Create

variable {input : σ} {data tail : Bytes} {options : Options} {members : List (Bytes × Bytes)}
  {holds : σ → Bytes → Prop}

omit [Supply σ] in
theorem create_atPlain (base : Nat) (buffered : 0 < options.bufferSize) (held : holds input data) :
    AtPlain holds (create .plain base options input).session 0 data (create .plain base options input) :=
  ofStream_atPlain base buffered (Cursor.holds_create (by decide) held)

omit [Supply σ] in
theorem create_atMembers (base : Nat) (buffered : 0 < options.bufferSize)
    (decodes : ∀ m ∈ members, Gzip.Decodes m.1 m.2) (held : holds input (bytesOf members tail)) :
    AtMembers holds (create .gzip base options input).session 0 members tail
      (create .gzip base options input) :=
  ofStream_atMembers base buffered decodes (Cursor.holds_create (by decide) held) (.refl (streamOf input))

/-- The records of plain data are the same whatever supply it comes from, whatever the options are and whatever
is done with each of them. They tile the data; of each, the content that can be read is the declared
region without the version lines or the HTTP header, and it is left behind the line ends that
follow it. -/
theorem tour_plain_tiles (yields : Supply.Yields input data) (buffered : 0 < options.bufferSize)
    (base : Nat) (plans : List (List Entry.Call)) :
    let frames := (Frame.plain base 0 data).1
    let run := tour plans (create .plain base options input)
    Frame.Tiles base data 0 frames ∧ run.1.length = min plans.length frames.length ∧
      (frames.length < plans.length → ∃ scanner, run.2 = .ended scanner) ∧
      ∀ (i : Nat) (f : Frame) (stop : Stop σ), frames[i]? = some f → run.1[i]? = some stop →
        stop.Shows options false f ∧
          stop.behind.position = f.header.start + f.header.size + f.region.length +
            if f.missing = 0 then (f.after.takeWhile Bytes.isLineEnd).length else 0 := by
  obtain ⟨holds, steady, held⟩ := yields
  have gives := plain_gives steady (create_atPlain base buffered held)
  obtain ⟨-, shows⟩ := tour_shows plans gives
  obtain ⟨length, ended⟩ := tour_ends plans gives (fun _ => True)
    fun scanner ⟨scanner', _, next, _⟩ => ⟨scanner', next, trivial⟩
  refine ⟨Frame.plain_tiles base data 0, length, ?_, ?_⟩
  · intro longer
    obtain ⟨scanner', last, -⟩ := ended longer
    exact ⟨scanner', last⟩
  · intro i f stop isFrame isStop
    obtain ⟨shown, position⟩ := shows i f stop isFrame isStop
    exact ⟨shown, by rw [position, f.extent_plain, ← Nat.add_assoc, ← Nat.add_assoc]⟩

/-- Two records, the first with an empty line behind it. -/
def twoRecords : Bytes :=
  Bytes.ofString "http://a/ 1.1.1.1 20200101000000 text/html 2\nhi\n\nhttp://b/ 1.1.1.1 20200101000000 text/html 1\nx"

theorem tour_plain_tiles_twoRecords : Supply.Yields (Input.ofBytes twoRecords) twoRecords ∧
    0 < Options.default.bufferSize ∧
    (tour [[.read 1, .fill, .consume 1], [.close, .fill]]
      (create .plain 0 .default (Input.ofBytes twoRecords))).1.length = 2 := by
  have yields := Input.yields_ofBytes twoRecords
  have buffered : 0 < Options.default.bufferSize := by decide
  refine ⟨yields, buffered, ?_⟩
  rw [(tour_plain_tiles yields buffered 0 [[.read 1, .fill, .consume 1], [.close, .fill]]).2.1]
  decide +kernel

/-- The frames of data in this packing. Of packed data, these are the frames in the members up to the first
that does not decode. -/
inductive FramesOf (base : Nat) : Packing → Bytes → List Frame → Prop where
  | plain (data : Bytes) : FramesOf base .plain data (Frame.plain base 0 data).1
  | gzip (members : List (Bytes × Bytes)) (tail : Bytes) (decodes : ∀ m ∈ members, Gzip.Decodes m.1 m.2) :
    FramesOf base .gzip (bytesOf members tail) (Frame.packed base 0 .none members).1

/-- From the start of the stream of an input, a tour sees what the frames of its data say. -/
theorem tour_shows_ofStream {packing : Packing} {frames : List Frame} {base : Nat} {stream : Cursor σ}
    (steady : Supply.Steady holds) (held : stream.Holds holds data) (still : Cursor.Moved 0 (streamOf input) stream)
    (framesOf : FramesOf base packing data frames) (buffered : 0 < options.bufferSize)
    (plans : List (List Entry.Call)) :
    min plans.length frames.length ≤ (tour plans (ofStream packing base options stream)).1.length ∧
      ∀ (i : Nat) (f : Frame) (stop : Stop σ), frames[i]? = some f →
        (tour plans (ofStream packing base options stream)).1[i]? = some stop →
        stop.Shows options (packing == .gzip) f := by
  cases framesOf with
  | plain data =>
    obtain ⟨long, shows⟩ := tour_shows plans (plain_gives steady (ofStream_atPlain base buffered held))
    refine ⟨long, ?_⟩
    intro i f stop isFrame isStop
    exact (shows i f stop isFrame isStop).1
  | gzip members tail decodes =>
    obtain ⟨long, shows⟩ :=
      tour_shows plans (packed_gives steady (ofStream_atMembers base buffered decodes held still))
    refine ⟨long, ?_⟩
    intro i f stop isFrame isStop
    exact (shows i f stop isFrame isStop).1

theorem tour_shows_framesOf {packing : Packing} {frames : List Frame} {base : Nat}
    (yields : Supply.Yields input data) (framesOf : FramesOf base packing data frames)
    (buffered : 0 < options.bufferSize) (plans : List (List Entry.Call)) :
    min plans.length frames.length ≤ (tour plans (create packing base options input)).1.length ∧
      ∀ (i : Nat) (f : Frame) (stop : Stop σ), frames[i]? = some f →
        (tour plans (create packing base options input)).1[i]? = some stop →
        stop.Shows options (packing == .gzip) f := by
  obtain ⟨holds, steady, held⟩ := yields
  exact tour_shows_ofStream steady (Cursor.holds_create (by decide) held) (.refl (streamOf input)) framesOf buffered
    plans

omit [Supply σ] in
/-- There is a payload digest just if one is called for and there is an HTTP header. -/
theorem payloadDigest_of_kind {entry : Entry (Feed σ)} (kind : entry.kind = f.kind options) :
    (f.payloadDigest options).map (·.encode options.digestEncoding) =
      entry.httpHead.bind fun head => options.payloadDigest.map fun algorithm =>
        (⟨algorithm.name, algorithm.hash (f.region.drop head.size), none⟩ : Digest).encode
          options.digestEncoding := by
  unfold Frame.payloadDigest Frame.content Entry.httpHead
  rw [kind]
  cases f.kind options with
  | versionBlock lines => rfl
  | data head =>
    cases head with
    | none => rfl
    | some head => cases options.payloadDigest <;> rfl

/-- However a record is read, its digests are in the end those of all content that is there, and of the part of it
behind the HTTP header, whatever functions of these bytes the algorithms are. -/
theorem tour_digests {packing : Packing} {frames : List Frame} {base : Nat}
    (yields : Supply.Yields input data) (framesOf : FramesOf base packing data frames)
    (buffered : 0 < options.bufferSize) (plans : List (List Entry.Call)) :
    let stops := (tour plans (create packing base options input)).1
    min plans.length frames.length ≤ stops.length ∧
      ∀ (i : Nat) (f : Frame) (stop : Stop σ), frames[i]? = some f → stops[i]? = some stop →
        stop.opened.header = f.header ∧
        ∃ entry, stop.closed = .ok () entry ∧
          entry.blockDigest = options.blockDigest.map (fun algorithm =>
            (⟨algorithm.name, algorithm.hash f.region, none⟩ : Digest).encode options.digestEncoding) ∧
          entry.payloadDigest = stop.opened.httpHead.bind fun head =>
            options.payloadDigest.map fun algorithm =>
              (⟨algorithm.name, algorithm.hash (f.region.drop head.size), none⟩ : Digest).encode
                options.digestEncoding := by
  obtain ⟨long, shows⟩ := tour_shows_framesOf yields framesOf buffered plans
  refine ⟨long, ?_⟩
  intro i f stop isFrame isStop
  have shown := shows i f stop isFrame isStop
  obtain ⟨entry, closed, -, -, block, payload⟩ := shown.closed
  refine ⟨shown.header, entry, closed, ?_, ?_⟩
  · rw [block, Frame.blockDigest]
    cases options.blockDigest <;> rfl
  · rw [payload, payloadDigest_of_kind shown.kind]

/-- The record in a packed member, with both digests called for. -/
theorem tour_digests_packed :
    let options := { Options.default with blockDigest := some .sha1, payloadDigest := some .md5 }
    let member := Gzip.pack twoRecords
    Supply.Yields (Input.ofBytes (bytesOf [(member, twoRecords)] [])) (bytesOf [(member, twoRecords)] []) ∧
      FramesOf 0 .gzip (bytesOf [(member, twoRecords)] [])
        (Frame.packed 0 0 .none [(member, twoRecords)]).1 ∧
      0 < options.bufferSize ∧
      1 ≤ (tour [[.read 1, .fill]] (create .gzip 0 options
        (Input.ofBytes (bytesOf [(member, twoRecords)] [])))).1.length := by
  intro options member
  have yields := Input.yields_ofBytes (bytesOf [(member, twoRecords)] [])
  have framesOf : FramesOf 0 .gzip (bytesOf [(member, twoRecords)] [])
      (Frame.packed 0 0 .none [(member, twoRecords)]).1 :=
    .gzip _ _ fun m is => by
      obtain rfl : m = (member, twoRecords) := by simpa using is
      exact Gzip.decodes_pack twoRecords
  have buffered : 0 < options.bufferSize := by decide
  refine ⟨yields, framesOf, buffered, ?_⟩
  have one : (Frame.packed 0 0 .none [(member, twoRecords)]).1.length = 1 := by decide +kernel
  have := (tour_digests yields framesOf buffered [[.read 1, .fill]]).1
  rwa [one] at this

end Create

end Scanner
end ArcFile
