import ArcFile.Proofs.Archive.Building
import ArcFile.Proofs.Archive.Format
import ArcFile.Proofs.Archive.Tour
import ArcFile.Proofs.Record.Findings
/-!
Reading what has been written. Whatever the content of the records is, a scanner finds in the output of a builder just
the records that were written: their ends are where the builder put them.
-/
namespace ArcFile

/-- The finding is about where a record ends or what stands around it, and not about what it says. -/
inductive Finding.IsFraming : Finding → Prop where
  | dataBefore : IsFraming .dataBeforeRecord
  | emptyLinesBefore : IsFraming .emptyLinesBeforeRecord
  | truncated (missing : Nat) : IsFraming (.truncated missing)
  | wrongNewlines (count : Nat) : IsFraming (.wrongNewlines count)
  | carriageReturn : IsFraming .carriageReturn
  | dataAfter (count : Nat) : IsFraming (.dataAfterRecord count)

namespace Finding

variable {f : Finding}

theorem IsFraming.subject (h : f.IsFraming) : f.subject ∈ framingSubjects := by
  cases h with
  | dataBefore | emptyLinesBefore => exact (by decide : "ARC record" ∈ framingSubjects)
  | truncated => exact (by decide : "payload" ∈ framingSubjects)
  | wrongNewlines | carriageReturn => exact (by decide : "trailing newlines" ∈ framingSubjects)
  | dataAfter => exact (by decide : "gzip member" ∈ framingSubjects)

theorem not_isFraming (other : f.subject ∉ framingSubjects) : ¬ f.IsFraming := fun h => other h.subject

end Finding

/-- None of the findings is about framing. -/
def Findings.Aside (all : Findings) : Prop := ∀ finding ∈ all.toList, ¬ finding.IsFraming

namespace Findings

theorem aside_none : Aside .none := all_none

theorem aside_append {all more : Findings} (h : all.Aside) (h' : more.Aside) : (all ++ more).Aside := all_append h h'

theorem aside_errors {errors : List Finding} (others : ∀ f ∈ errors, f.subject ∉ Finding.framingSubjects) :
    Aside ⟨errors, []⟩ := by
  apply all_errors
  intro finding among
  exact Finding.not_isFraming (others finding among)

end Findings

namespace Builder

variable {σ : Type} [Supply σ] {job : Job σ} {jobs : List (Job σ)} {rest : Bytes}

/-- The texts of the fields in the header line. A carriage return behind it is part of the end of the line. -/
def Job.fields (job : Job σ) : List String := RecordHeader.parts (RecordHeader.textOf (Bytes.dropReturn job.line))

/-- The line is a header line that gives the length of the content, and the parts make up the content. If a length is
given with the line, it is that one. -/
structure Job.Sound (job : Job σ) : Prop where
  noFeed : Bytes.lineFeed ∉ job.line
  noReturn : job.line.head? ≠ some Bytes.carriageReturn
  header : ∃ header findings, RecordHeader.ofLine? (Bytes.dropReturn job.line) 0 0 = some (header, findings) ∧
    header.length.value = some (job.content.length : Int)
  length : job.length = none ∨ job.length = some job.content.length
  gives : Contents job.parts job.content

theorem Job.Sound.complete (h : job.Sound) : job.Complete := by
  refine ⟨?_, h.gives⟩
  rcases h.length with none | some
  · obtain ⟨header, findings, read, value⟩ := h.header
    obtain ⟨found, errors, parsed, rfl, -, -⟩ := RecordHeader.parse?_of_ofLine? read
    have value : found.length.value = some (job.content.length : Int) := value
    rw [none]
    change declaredIn job.line = _
    exact declaredIn_line parsed value
  · rw [some]
    rfl

end Builder

namespace Frame

variable {σ : Type} [Supply σ] {job : Builder.Job σ} {jobs : List (Builder.Job σ)} {rest : Bytes}

/-- The record of the frame is that of the job, and it is left in front of `rest`. -/
structure Carries (job : Builder.Job σ) (rest : Bytes) (f : Frame) : Prop extends Wraps job.content rest f where
  texts : f.header.rawTexts = job.fields.map some
  found : f.found.Aside

/-- Wherever the record of a job stands, its header line is found, and nothing is passed over. -/
theorem carries_first (h : job.Sound) (pos : Nat) (clear : Bytes.IsClear rest) :
    ∃ header findings behind, RecordHeader.first pos (job.bytes ++ rest) = (some header, findings, behind) ∧
      ∀ start, Carries job rest ⟨{ header with start }, findings, behind⟩ := by
  obtain ⟨_, _, read, value⟩ := h.header
  obtain ⟨found', errors, parsed, rfl, -, -⟩ := RecordHeader.parse?_of_ofLine? read
  have cut : job.bytes ++ rest = job.line ++ Bytes.lineFeed :: (job.content ++ Bytes.lineFeed :: rest) := by
    simp [Builder.Job.bytes, Builder.terminated_eq h.noFeed]
  have again : (RecordHeader.ofLine? (Bytes.dropReturn job.line) 0 (job.line.length + 1)).isSome = true := by
    rw [RecordHeader.isSome_ofLine? _ _ _ 0 0, read]
    rfl
  obtain ⟨⟨header, findings⟩, read'⟩ := Option.isSome_iff_exists.1 again
  obtain ⟨found'', errors', parsed', same, -⟩ := RecordHeader.parse?_of_ofLine? read'
  rw [parsed] at parsed'
  cases parsed'
  refine ⟨{ header with start := pos }, findings, job.content ++ Bytes.lineFeed :: rest, ?_, ?_⟩
  · rw [cut, RecordHeader.first_terminated h.noFeed read']
  intro start
  refine ⟨⟨rfl, ?_, clear⟩, ?_, ?_⟩
  · have declared : found'.declared = job.content.length := by
      have value : found'.length.value = some (job.content.length : Int) := value
      rw [RecordHeader.declared, value]
      rfl
    rw [same]
    exact declared.symm
  · have texts := RecordHeader.rawTexts_of_parse? parsed
    rw [same]
    exact texts
  · intro finding among
    exact Finding.not_isFraming (RecordHeader.isOfContent_ofLine? read' finding among).subject

/-- The frames are those of the jobs, in order. In members, nothing is left behind a record. -/
def CarryAll (isMember : Bool) (jobs : List (Builder.Job σ)) (frames : List Frame) : Prop :=
  frames.length = jobs.length ∧ ∀ (i : Nat) (job : Builder.Job σ) (f : Frame), jobs[i]? = some job →
    frames[i]? = some f → ∃ rest, f.Carries job rest ∧ (isMember = true → rest = [])

omit [Supply σ] in
theorem carryAll_nil (isMember : Bool) : CarryAll isMember ([] : List (Builder.Job σ)) [] :=
  ⟨rfl, by simp⟩

omit [Supply σ] in
theorem carryAll_cons {isMember : Bool} {f : Frame} {frames : List Frame} (carries : f.Carries job rest)
    (last : isMember = true → rest = []) (h : CarryAll isMember jobs frames) :
    CarryAll isMember (job :: jobs) (f :: frames) := by
  refine ⟨by simp [h.1], ?_⟩
  intro i job' f' isJob isFrame
  cases i with
  | zero =>
    cases isJob
    cases isFrame
    exact ⟨rest, carries, last⟩
  | succ i => exact h.2 i job' f' isJob isFrame

theorem isClear_jobs (sound : ∀ job ∈ jobs, job.Sound) : Bytes.IsClear (jobs.map Builder.Job.bytes).flatten := by
  cases jobs with
  | nil =>
    intro b first
    cases first
  | cons job more =>
    have h := sound job List.mem_cons_self
    have isLine : job.line ≠ [] := by
      intro none
      obtain ⟨_, _, read, -⟩ := h.header
      rw [none, show Bytes.dropReturn [] = [] from rfl, RecordHeader.ofLine?_nil] at read
      cases read
    rw [List.map_cons, List.flatten_cons, Builder.Job.bytes, Builder.terminated_eq h.noFeed, List.append_assoc,
      List.append_assoc, List.append_assoc]
    exact Bytes.isClear_of_line isLine h.noFeed h.noReturn _

theorem plain_carries (base pos : Nat) (sound : ∀ job ∈ jobs, job.Sound) :
    CarryAll false jobs (plain base pos (jobs.map Builder.Job.bytes).flatten).1 ∧
      (plain base pos (jobs.map Builder.Job.bytes).flatten).2 = .none := by
  induction jobs generalizing pos with
  | nil =>
    rw [show (List.map Builder.Job.bytes ([] : List (Builder.Job σ))).flatten = [] from rfl,
      plain_none (RecordHeader.first_nil pos)]
    exact ⟨carryAll_nil false, rfl⟩
  | cons job more ih =>
    have others : ∀ other ∈ more, other.Sound := by
      intro other among
      exact sound other (List.mem_cons_of_mem job among)
    obtain ⟨header, findings, behind, first, carries⟩ :=
      carries_first (sound job List.mem_cons_self) pos (isClear_jobs others)
    obtain ⟨f, is, rfl, rfl⟩ := exists_of_found base header findings behind
    have carries : f.Carries job (more.map Builder.Job.bytes).flatten := by
      have same : f = ⟨{ header with start := base + header.start }, f.found, f.behind⟩ := by
        rw [← is]
      rw [same]
      exact carries (base + header.start)
    rw [List.map_cons, List.flatten_cons, plain_some first is, carries.rest_eq]
    obtain ⟨all, none⟩ := ih (pos + ((job.bytes ++ (more.map Builder.Job.bytes).flatten).length -
      (more.map Builder.Job.bytes).flatten.length)) others
    refine ⟨carryAll_cons carries ?_ all, none⟩
    intro isMember
    cases isMember

/-- In members that hold the records of the jobs, every record is found. -/
theorem packed_carries {members : List (Bytes × Bytes)} (base pos : Nat)
    (contents : members.map Prod.snd = jobs.map Builder.Job.bytes) (sound : ∀ job ∈ jobs, job.Sound) :
    CarryAll true jobs (packed base pos .none members).1 ∧ (packed base pos .none members).2 = .none := by
  induction jobs generalizing members pos with
  | nil =>
    obtain rfl := List.map_eq_nil_iff.1 contents
    exact ⟨carryAll_nil true, rfl⟩
  | cons job more ih =>
    obtain ⟨⟨member, data⟩, later, rfl, rfl, laterContents⟩ := List.map_eq_cons_iff.1 contents
    have others : ∀ other ∈ more, other.Sound := by
      intro other among
      exact sound other (List.mem_cons_of_mem job among)
    have clear : Bytes.IsClear [] := by
      intro b first
      cases first
    obtain ⟨header, findings, behind, first, carries⟩ :=
      carries_first (sound job List.mem_cons_self) 0 clear
    rw [List.append_nil] at first
    obtain ⟨all, none⟩ := ih (pos + member.length) laterContents others
    have cut : packed base pos .none ((member, job.bytes) :: later) =
        (⟨{ header with start := base + pos }, findings, behind⟩ ::
          (packed base (pos + member.length) .none later).1, (packed base (pos + member.length) .none later).2) := by
      rw [packed, first]
      simp only [Findings.none_append]
    rw [cut]
    refine ⟨carryAll_cons (carries (base + pos)) ?_ all, none⟩
    intro _
    rfl

end Frame

namespace Scanner

variable {σ τ : Type} [Supply σ] [Supply τ] {job : Builder.Job σ} {jobs : List (Builder.Job σ)} {rest : Bytes}
  {session : Session} {f : Frame}

theorem aside_enter (header : RecordHeader) (session : Session) : Findings.Aside ⟨(session.enter header).2, []⟩ := by
  apply Findings.aside_errors
  intro finding among
  rcases Session.mem_enter among with rfl | rfl | ⟨layout, expected, rfl⟩
  · exact (by decide : "version block" ∉ Finding.framingSubjects)
  · exact (by decide : "version block" ∉ Finding.framingSubjects)
  · exact (by decide : "record field version" ∉ Finding.framingSubjects)

theorem aside_opening (options : Options) (noHttp : options.parseHttp = false) (f : Frame) :
    (f.opening options).Aside := by
  unfold Frame.opening
  split
  · apply Findings.aside_errors
    intro finding among
    rcases List.mem_append.1 among with header | lines
    · exact (VersionLines.isOfContent_headerFindings header).subject
    · exact (VersionLines.isOfContent_ofContent lines).subject
  · have expects : (!Entry.expectsHttp options f.header) = true := by simp [Entry.expectsHttp, noHttp]
    rw [if_pos expects]
    exact Findings.aside_none

omit [Supply σ] in
theorem aside_closing {isMember : Bool} (options : Options) (h : f.Carries job rest)
    (last : isMember = true → rest = []) : (f.closing options isMember).Aside := by
  have extra : f.extra isMember = .none := by
    apply if_neg
    rintro ⟨member, some⟩
    apply some
    rw [h.rest_eq]
    exact last member
  have sealing : (f.sealing options).Aside := by
    rw [Frame.sealing, if_pos h.missing, Findings.none_append]
    split
    · exact Findings.aside_none
    · apply Findings.aside_errors
      intro finding among
      obtain rfl := List.mem_singleton.1 among
      exact (by decide : "digest encoding" ∉ Finding.framingSubjects)
  rw [Frame.closing, h.trailing, extra]
  exact Findings.aside_append sealing (Findings.aside_append Findings.aside_none Findings.aside_none)

omit [Supply σ] in
theorem aside_allFoundBy (h : f.Carries job rest) (noHttp : session.options.parseHttp = false)
    (last : (session.packing == .gzip) = true → rest = []) : (session.allFoundBy f).Aside :=
  Findings.aside_append
    (Findings.aside_append (Findings.aside_append h.found (aside_enter f.header session))
      (aside_opening session.options noHttp f))
    (aside_closing session.options h last)

/-- What a visit to a record brings if the record is that of the job: the fields with their texts; the content, but for
the version lines in front of it; and nothing missing, nor anything wrong with its frame. -/
structure Stop.Returns (job : Builder.Job σ) (stop : Stop τ) : Prop where
  texts : stop.opened.header.rawTexts = job.fields.map some
  readable : ∀ stride, 0 < stride → ∃ entry, Supply.readAll stride [] stop.opened =
    (job.content.drop (stop.opened.versionLines.elim 0 (·.size)), .ok () entry)
  used : ∃ hand, stop.used = .ok () hand ∧
    hand.out <+: job.content.drop (stop.opened.versionLines.elim 0 (·.size))
  closed : ∃ entry, stop.closed = .ok () entry ∧ entry.unavailable = 0 ∧ entry.findings.Aside

omit [Supply σ] in
theorem stop_returns {visit : Visit τ} {after : Scanner τ → Prop} (calls : List Entry.Call)
    (h : visit.Opens session f after) (carries : f.Carries job rest) (noHttp : session.options.parseHttp = false)
    (last : (session.packing == .gzip) = true → rest = []) : (visit.stop calls).Returns job := by
  have shows := (stop_shows calls h).1
  have noHead : f.head session.options = none := by
    apply if_neg
    intro expects
    simp [Entry.expectsHttp, noHttp] at expects
  have size : (f.kind session.options).size = (visit.stop calls).opened.versionLines.elim 0 (·.size) := by
    rw [Entry.versionLines, shows.kind, Frame.kind, noHead]
    split <;> rfl
  have content : f.content session.options =
      job.content.drop ((visit.stop calls).opened.versionLines.elim 0 (·.size)) := by
    rw [Frame.content, carries.region, size]
  refine ⟨?_, ?_, ?_, ?_⟩
  · rw [shows.header]
    exact carries.texts
  · rw [← content]
    exact shows.readable
  · obtain ⟨hand, used, out, -⟩ := shows.used
    rw [← content]
    exact ⟨hand, used, out⟩
  · obtain ⟨entry, closed, missing, findings⟩ := stop_findings calls h
    exact ⟨entry, closed, missing.trans carries.missing, findings ▸ aside_allFoundBy carries noHttp last⟩

omit [Supply σ] in
/-- A tour over the frames of some jobs brings their records, and nothing is left behind the last. -/
theorem tour_returns {passed : Frame → Scanner τ → Prop} {ended : Session → Scanner τ → Prop} {frames : List Frame}
    {scanner : Scanner τ} (gives : Gives passed ended session frames scanner)
    (all : Frame.CarryAll (session.packing == .gzip) jobs frames) (noHttp : session.options.parseHttp = false)
    (clean : session.findings = .none)
    (atEnd : ∀ scanner, ended (session.passAll frames) scanner → Ends .none (session.passAll frames) scanner)
    (plans : List (List Entry.Call)) (enough : jobs.length < plans.length) :
    (tour plans scanner).1.length = jobs.length ∧
      (∃ scanner', (tour plans scanner).2 = .ended scanner' ∧ scanner'.session.findings = .none) ∧
      ∀ (i : Nat) (job : Builder.Job σ) (stop : Stop τ), jobs[i]? = some job →
        (tour plans scanner).1[i]? = some stop → stop.Returns job := by
  obtain ⟨count, each⟩ := all
  obtain ⟨length, last⟩ := tour_ends_clean plans gives clean atEnd
  obtain ⟨-, opens⟩ := tour_opens plans gives
  refine ⟨by omega, last (by omega), ?_⟩
  intro i job stop isJob isStop
  obtain ⟨inside, -⟩ := List.getElem?_eq_some_iff.1 isJob
  obtain ⟨f, isFrame⟩ : ∃ f, frames[i]? = some f := ⟨_, List.getElem?_eq_getElem (by omega)⟩
  obtain ⟨rest, carries, isLast⟩ := each i job f isJob isFrame
  obtain ⟨visit, calls, after, rfl, opened, -⟩ := opens i f stop isFrame isStop
  obtain ⟨sameOptions, samePacking, -⟩ := session.kept_passAll (frames.take i)
  exact stop_returns calls opened carries (by rw [sameOptions]; exact noHttp) (by rw [samePacking]; exact isLast)

end Scanner

namespace Builder

variable {σ τ : Type} [Supply σ] [Supply τ] {jobs : List (Job σ)}

omit [Supply σ] [Supply τ] in
theorem output_plain {records : List Bytes} {b : Builder} (h : b.Idle .plain records) :
    b.output.bytes = records.flatten := by
  obtain ⟨pieces, output, are⟩ := h.holds.exists_pieces
  rw [h.packing] at are
  obtain rfl : pieces = records := List.forall₂_eq_eq_eq ▸ are
  exact output

omit [Supply σ] [Supply τ] in
/-- The output of a packed file is a member for each record. -/
theorem output_packed {records : List Bytes} {b : Builder} (h : b.Idle .gzip records) :
    ∃ members, b.output.bytes = Scanner.bytesOf members [] ∧ members.map Prod.snd = records ∧
      ∀ m ∈ members, Gzip.Decodes m.1 m.2 := by
  obtain ⟨pieces, output, are⟩ := h.holds.exists_pieces
  rw [h.packing] at are
  obtain ⟨length, decodes⟩ := List.forall₂_iff_zip.1 are
  refine ⟨pieces.zip records, ?_, List.map_snd_zip (Nat.le_of_eq length.symm), ?_⟩
  · rw [output, Scanner.bytesOf, List.map_fst_zip (Nat.le_of_eq length), List.append_nil]
  · rintro ⟨piece, data⟩ among
    exact decodes among

/-- Writing records and reading them again gives the same records, in either packing, whatever their content is, however
it is split into parts, and however the records are closed and read. It does not matter either which encoder makes the
members of a packed file. Every record that is closed proves to be complete, and so do those that what comes next
closes. -/
theorem writeAll_tour (packing : Packing) {gzip : Encoder} (faithful : gzip.Sound) (sound : ∀ job ∈ jobs, job.Sound) :
    ∃ closed b, writeAll jobs (create packing gzip (.empty none)) = .ok closed b ∧ (∀ whole ∈ closed, whole = true) ∧
      closed.length = jobs.countP (·.closes) ∧ b.tally = ⟨jobs.length, 0, 0, 0⟩ ∧
      ∀ {input : τ} {options : Options} (plans : List (List Entry.Call)), Supply.Yields input b.output.bytes →
        options.parseHttp = false → 0 < options.bufferSize → jobs.length < plans.length →
        let run := Scanner.tour plans (Scanner.create packing 0 options input)
        run.1.length = jobs.length ∧ (∃ scanner, run.2 = .ended scanner ∧ scanner.session.findings = .none) ∧
          ∀ (i : Nat) (job : Job σ) (stop : Scanner.Stop τ), jobs[i]? = some job → run.1[i]? = some stop →
            stop.Returns job := by
  obtain ⟨closed, b, written, whole, count, idle⟩ :=
    writeAll_ready (fun job among => (sound job among).complete) (.idle (idle_create packing faithful))
  rw [List.nil_append] at idle
  refine ⟨closed, b, written, whole, count, by rw [idle.tally, List.length_map], ?_⟩
  intro input options plans yields noHttp buffered enough
  obtain ⟨holds, steady, held⟩ := yields
  cases packing with
  | plain =>
    rw [output_plain idle] at held
    obtain ⟨all, none⟩ := Frame.plain_carries 0 0 sound
    have gives := Scanner.plain_gives steady (Scanner.create_atPlain 0 buffered held)
    exact Scanner.tour_returns gives all noHttp rfl (fun scanner ends => none ▸ ends) plans enough
  | gzip =>
    obtain ⟨members, output, contents, decodes⟩ := output_packed idle
    rw [output] at held
    obtain ⟨all, none⟩ := Frame.packed_carries 0 0 contents sound
    have gives := Scanner.packed_gives steady (Scanner.create_atMembers 0 buffered decodes held)
    have atEnd (last : Findings) (is : last = .none) (session : Scanner.Session) (scanner : Scanner τ)
        (ends : Scanner.Ends last session scanner) : Scanner.Ends .none session scanner := is ▸ ends
    exact Scanner.tour_returns gives all noHttp rfl (fun scanner ends => atEnd _ none _ scanner (ends rfl)) plans enough

/-- Two records. The content of the first is nothing but line ends. -/
def twoJobs : List (Job Input) :=
  [⟨Bytes.ofString "http://a/ 1.1.1.1 20200101000000 text/html 4", none,
      [.payload [10], .stream 3 (.ofBytes [10, 13, 10, 32])], [10, 10, 13, 10], true⟩,
    ⟨Bytes.ofString "http://b/ 1.1.1.1 20200101000000 text/html 0", some 0, [], [], false⟩]

theorem writeAll_tour_twoJobs : Encoder.stored.Sound ∧ (∀ job ∈ twoJobs, job.Sound) ∧
    ∃ closed b, writeAll twoJobs (create .gzip .stored (.empty none)) = .ok closed b ∧ closed.length = 1 ∧
      ∃ (options : Options) (plans : List (List Entry.Call)),
        Supply.Yields (Input.ofBytes b.output.bytes) b.output.bytes ∧ options.parseHttp = false ∧
        0 < options.bufferSize ∧ twoJobs.length < plans.length ∧
        (Scanner.tour plans (Scanner.create .gzip 0 options (Input.ofBytes b.output.bytes))).1.length = 2 := by
  have lines : ∀ job ∈ twoJobs, Bytes.lineFeed ∉ job.line ∧ job.line.head? ≠ some Bytes.carriageReturn ∧
      (RecordHeader.ofLine? (Bytes.dropReturn job.line) 0 0).bind (fun found => found.1.length.value) =
        some (job.content.length : Int) ∧
      (job.length = none ∨ job.length = some job.content.length) := by
    decide +kernel
  have gives : ∀ job ∈ twoJobs, Contents job.parts job.content := by
    intro job among
    rcases List.mem_cons.1 among with rfl | among
    · exact .cons (.payload [10]) (.cons (.stream 3 (Input.yields_ofBytes [10, 13, 10, 32])) .nil)
    · obtain rfl := List.mem_singleton.1 among
      exact .nil
  have sound : ∀ job ∈ twoJobs, job.Sound := by
    intro job among
    obtain ⟨noFeed, noReturn, read, length⟩ := lines job among
    obtain ⟨⟨header, findings⟩, read, value⟩ := Option.bind_eq_some_iff.1 read
    exact ⟨noFeed, noReturn, ⟨header, findings, read, value⟩, length, gives job among⟩
  refine ⟨Encoder.sound_stored, sound, ?_⟩
  obtain ⟨closed, b, written, -, count, -, reading⟩ := writeAll_tour (τ := Input) .gzip Encoder.sound_stored sound
  have yields := Input.yields_ofBytes b.output.bytes
  have enough : twoJobs.length < [[.read 1], [], [Entry.Call.fill]].length := by decide
  exact ⟨closed, b, written, count, { Options.default with parseHttp := false }, _, yields, rfl, by decide, enough,
    (reading _ yields rfl (by decide) enough).1⟩

end Builder
end ArcFile
