import ArcFile.Proofs.Archive.Buffering
import ArcFile.Proofs.Archive.Course
import ArcFile.Proofs.Archive.Passage.Dry
import ArcFile.Proofs.Record.Line
/-!
What any run over a file comes to. Every scanner at the start of readable data is on a course (`Begins.course`), with
buffers of whatever size. So nothing faults in plain data, whatever it holds, and between two records the tally is that
of the records that were left.
-/
namespace ArcFile

namespace Tally

/-- The tally of records with these findings. -/
def ofAll (all : List Findings) : Tally where
  records := all.length
  noncompliant := all.countP fun findings => !findings.isEmpty
  errors := (all.map (·.errors.length)).sum
  warnings := (all.map (·.warnings.length)).sum

theorem ofAll_concat (all : List Findings) (findings : Findings) :
    ofAll (all ++ [findings]) = (ofAll all).add findings := by
  cases empty : findings.isEmpty <;> simp [ofAll, add, List.countP_append, empty]

/-- Counting one record after the other comes to the sums over all of them. -/
theorem foldl_add (all : List Findings) : all.foldl add zero = ofAll all := by
  have onward (before all : List Findings) : all.foldl add (ofAll before) = ofAll (before ++ all) := by
    induction all generalizing before with
    | nil => rw [List.append_nil, List.foldl_nil]
    | cons findings more ih => rw [List.foldl_cons, ← ofAll_concat, ih, List.append_assoc, List.singleton_append]
  exact onward [] all

end Tally

namespace Scanner

variable {σ : Type} [Supply σ] {holds : σ → Bytes → Prop} {fails : Failure → Prop} {rests : Scanner σ → Prop}
  {scanner : Scanner σ} {packing : Packing} {options : Options} {input : σ} {base : Nat} {data tail : Bytes}

/-- The scanner goes through frames, behind the last of which `ended` holds. -/
def GoesTo (ended : Session → Scanner σ → Prop) (scanner : Scanner σ) : Prop :=
  ∃ session frames, Gives (fun _ _ => True) ended session frames scanner

/-- A scanner that goes through frames is on course, if it is behind the last one. -/
theorem course_goesTo {ended : Session → Scanner σ → Prop}
    (atEnd : ∀ session scanner, ended session scanner → Onward fails (GoesTo ended) rests scanner)
    (goes : ∀ scanner, rests scanner → GoesTo ended scanner)
    (again : ∀ scanner, rests scanner → ∃ scanner' : Scanner σ, scanner.next = .ended scanner' ∧ rests scanner' ∧
      scanner'.session.findings = scanner.session.findings) : Course fails (GoesTo ended) rests where
  next := by
    rintro scanner ⟨session, frames, gives⟩
    cases frames with
    | nil => exact atEnd session scanner gives
    | cons f more =>
      obtain ⟨visit, next, opens⟩ := gives
      apply Onward.record next
      apply opens.mono
      rintro scanner ⟨-, later⟩
      exact ⟨_, more, later⟩
  goes := goes _
  again := again _

variable (steady : Supply.Steady holds)

section Plain

/-- There is nothing but an end. -/
def EndsPlain (holds : σ → Bytes → Prop) (session : Session) (scanner : Scanner σ) : Prop :=
  ∃ last total, BehindPlain holds last total session scanner

include steady

theorem AtPlain.goesTo {session : Session} {pos : Nat} (h : AtPlain holds session pos data scanner) :
    GoesTo (EndsPlain holds) scanner := by
  refine ⟨session, _, (plain_gives_at steady h).mono (fun _ _ _ => trivial) ?_⟩
  intro final scanner behind
  exact ⟨_, _, behind⟩

/-- At the end of plain data the scanner stays. -/
theorem AtPlain.next_again {session : Session} {pos : Nat} (h : AtPlain holds session pos [] scanner) :
    ∃ scanner', scanner.next = .ended scanner' ∧ AtPlain holds session pos [] scanner' ∧
      scanner'.session.findings = scanner.session.findings := by
  have behind : BehindPlain holds .none pos session scanner :=
    ⟨pos, [], h, Frame.plain_none (RecordHeader.first_nil pos), rfl⟩
  obtain ⟨scanner', next, stands⟩ := behind.next_ended steady
  rw [Session.finish_none] at stands
  obtain ⟨_, before⟩ := h.same
  obtain ⟨_, after⟩ := stands.same
  refine ⟨scanner', next, stands, ?_⟩
  rw [before, after]
  rfl

theorem course_plain : Course fails (GoesTo (EndsPlain holds))
    (fun scanner : Scanner σ => ∃ session pos, AtPlain holds session pos [] scanner) := by
  apply course_goesTo
  · rintro session scanner ⟨last, total, behind⟩
    obtain ⟨scanner', next, stands⟩ := behind.next_ended steady
    exact .ended next ⟨_, total, stands⟩
  · rintro scanner ⟨session, pos, h⟩
    exact h.goesTo steady
  · rintro scanner ⟨session, pos, h⟩
    obtain ⟨scanner', next, stands, findings⟩ := h.next_again steady
    exact ⟨scanner', next, ⟨session, pos, stands⟩, findings⟩

omit steady in
theorem AtDry.opensNext_plain (dry : AtDry holds .plain data scanner) : scanner.OpensNext := by
  intro header findings between sought
  simp only [nextHeader, dry.packing, RecordHeader.next_dry dry.dry] at sought
  cases sought

omit steady in
/-- Without a buffer there is an end at once. -/
theorem course_dry_plain : Course fails (fun scanner : Scanner σ => ∃ data, AtDry holds .plain data scanner)
    (fun scanner => ∃ data, AtDry holds .plain data scanner) where
  next := by
    rintro scanner ⟨data, dry⟩
    exact .ended dry.next_plain ⟨data, dry⟩
  goes := id
  again := by
    rintro scanner ⟨data, dry⟩
    exact ⟨scanner, dry.next_plain, ⟨data, dry⟩, rfl⟩

end Plain

section Packed

/-- Behind the members there is an end, or something that is not a member. -/
def EndsPacked (holds : σ → Bytes → Prop) (tail : Bytes) (session : Session) (scanner : Scanner σ) : Prop :=
  ∃ last total, BehindMembers holds last total tail session scanner

include steady

theorem AtMembers.goesTo {session : Session} {pos : Nat} {members : List (Bytes × Bytes)}
    (h : AtMembers holds session pos members tail scanner) : GoesTo (EndsPacked holds tail) scanner := by
  have nonempty : ∀ m ∈ members, m.1 ≠ [] := by
    intro m some
    exact (h.decodes m some).ne_nil
  obtain ⟨endOf, located⟩ := Frame.exists_located (session.base + pos) nonempty
  refine ⟨session, _, (packed_gives_at steady located h).mono (fun _ _ _ => trivial) ?_⟩
  intro final scanner behind
  exact ⟨_, _, behind⟩

/-- Behind the last member the scanner stays, too. -/
theorem AtMembers.next_again {session : Session} {pos : Nat} (h : AtMembers holds session pos [] [] scanner) :
    ∃ scanner', scanner.next = .ended scanner' ∧ AtMembers holds session pos [] [] scanner' ∧
      scanner'.session.findings = scanner.session.findings := by
  obtain ⟨scanner', next, stands⟩ := h.behind.next_ended steady
  rw [Session.finish_none] at stands
  obtain ⟨_, before⟩ := h.same
  obtain ⟨_, after⟩ := stands.same
  refine ⟨scanner', next, stands, ?_⟩
  rw [before, after]
  rfl

theorem course_packed (other : ¬ Gzip.magic <+: tail) (allowed : ∀ offset, fails (.notMember offset)) :
    Course fails (GoesTo (EndsPacked holds tail))
      (fun scanner : Scanner σ => tail = [] ∧ ∃ session pos, AtMembers holds session pos [] [] scanner) := by
  apply course_goesTo
  · rintro session scanner ⟨last, total, behind⟩
    by_cases none : tail = []
    · subst none
      obtain ⟨scanner', next, stands⟩ := behind.next_ended steady
      exact .ended next ⟨rfl, _, total, stands⟩
    · obtain ⟨scanner', next, stands⟩ := behind.next_notMember steady none other
      exact .failed next (allowed _) (stands.goesTo steady)
  · rintro scanner ⟨rfl, session, pos, h⟩
    exact h.goesTo steady
  · rintro scanner ⟨rfl, session, pos, h⟩
    obtain ⟨scanner', next, stands, findings⟩ := h.next_again steady
    exact ⟨scanner', next, ⟨rfl, session, pos, stands⟩, findings⟩

theorem AtDry.opensNext_packed (dry : AtDry holds .gzip data scanner) : scanner.OpensNext := by
  intro header findings between sought
  have finds := dry.nextOfMembers_dry steady .none
  have whole : scanner.nextHeader = nextOfMembers .none scanner := by simp only [nextHeader, dry.packing]
  rw [← whole, sought] at finds
  cases finds

/-- Without a buffer no record is found in any member. -/
theorem course_dry_packed (all : ∀ failure, fails failure) :
    Course fails (fun scanner : Scanner σ => ∃ data, AtDry holds .gzip data scanner) (AtDry holds .gzip []) where
  next := by
    rintro scanner ⟨data, dry⟩
    rcases dry.next_packed steady with ⟨_, next, atRest, -⟩ | ⟨failure, _, _, next, -, still⟩
    · exact .ended next atRest
    · exact .failed next (all failure) ⟨_, still⟩
  goes := by
    intro scanner dry
    exact ⟨[], dry⟩
  again := by
    intro scanner dry
    rcases dry.next_packed steady with ended | ⟨_, _, _, _, some, -⟩
    · exact ended
    · exact absurd rfl some

end Packed

/-- At the start of data that can be read to its end, a scanner is on course, whatever the options are, and every record
that is found can be opened. Plain data gives no failure at all. -/
theorem Begins.course_opensNext (yields : Supply.Yields input data) (readable : Readable packing data)
    (begins : Begins packing options input base scanner) :
    ∃ goes rests, Course (fun _ => packing = .gzip) goes rests ∧ (∀ other : Scanner σ, goes other → other.OpensNext) ∧
      goes scanner ∧ scanner.session = ⟨packing, options, base, base, .zero, .none, 0, false, none⟩ := by
  obtain ⟨holds, steady, held⟩ := yields
  obtain ⟨stream, rfl, held, still⟩ := begins.exists_stream steady held
  rcases Nat.eq_zero_or_pos options.bufferSize with unbuffered | buffered
  · cases readable with
    | plain =>
      refine ⟨_, _, course_dry_plain, ?_, ⟨data, ofStream_atDry .plain base unbuffered held still⟩, rfl⟩
      rintro other ⟨_, dry⟩
      exact dry.opensNext_plain
    | gzip members tail decodes other =>
      refine ⟨_, _, course_dry_packed steady fun _ => rfl, ?_,
        ⟨_, ofStream_atDry .gzip base unbuffered held still⟩, rfl⟩
      rintro other ⟨_, dry⟩
      exact dry.opensNext_packed steady
  · cases readable with
    | plain =>
      exact ⟨_, _, course_plain steady, fun _ => (course_plain steady).opensNext,
        (ofStream_atPlain base buffered held).goesTo steady, rfl⟩
    | gzip members tail decodes other =>
      exact ⟨_, _, course_packed steady other fun _ => rfl,
        fun _ => (course_packed steady other fun offset => ⟨offset, rfl⟩).opensNext,
        (ofStream_atMembers base buffered decodes held still).goesTo steady, rfl⟩

theorem Begins.course (yields : Supply.Yields input data) (readable : Readable packing data)
    (begins : Begins packing options input base scanner) :
    ∃ goes rests, Course (fun _ => packing = .gzip) goes rests ∧ goes scanner ∧ scanner.session.tally = .zero := by
  obtain ⟨goes, rests, course, -, still, start⟩ := begins.course_opensNext yields readable
  exact ⟨goes, rests, course, still, by rw [start]⟩

/-- Nothing goes wrong in plain data, whatever it holds: the packing can be looked for, and if the data is read as
plain, no action of a reader faults. -/
theorem run_plain (yields : Supply.Yields input data) (options : Options) :
    (∃ scanner, sniffed options input = .ok scanner) ∧
      ∀ (base : Nat) (scanner : Scanner σ), Begins .plain options input base scanner → ∀ actions : List Action,
        ∀ event ∈ (run actions (.between scanner)).1, event.isError = false := by
  constructor
  · obtain ⟨holds, steady, held⟩ := yields
    obtain ⟨stream, found, -⟩ := sniffed_holds options steady held
    exact ⟨_, found⟩
  · intro base scanner begins actions event among
    obtain ⟨goes, rests, course, still, -⟩ := begins.course yields (.plain data)
    obtain ⟨allowed, -⟩ := run_stands course actions (.between still)
    have allowed := allowed event among
    cases event with
    | failed failure => cases allowed
    | faulted fault => cases allowed
    | arrived | ended | served | left | idle => rfl

/-- The pieces come byte by byte, and every buffer is as small as can be. -/
theorem run_plain_twoRecords :
    let input : Input := ⟨twoRecords, some 1, none, .inputFailed⟩
    let options := { Options.default.withBuffers 1 1 with httpLimit := 1 }
    Supply.Yields input twoRecords ∧
      ∀ event ∈ (run [.next, .call (.read 1), .call .close, .call .close, .drop, .next, .drop, .next, .drop]
        (.between (create .plain 0 options input))).1, event.isError = false := by
  intro input options
  have yields : Supply.Yields input twoRecords := ⟨Input.Holds, Input.steady_holds, rfl, rfl, by decide⟩
  exact ⟨yields, (run_plain yields options).2 0 _ (.given 0) _⟩

/-- Totals are what was found. Between two records, the tally is that of the final findings of all records that were
left, and these are all that have come. Closing a record tells whether anything was found, and closing it again or
leaving it then changes nothing. And once the file has ended, nothing more comes, is counted or is found. -/
theorem run_tally (yields : Supply.Yields input data) (readable : Readable packing data)
    (begins : Begins packing options input base scanner) (actions : List Action) :
    let events := (run actions (.between scanner)).1
    let place := (run actions (.between scanner)).2
    (∀ last, place = .between last →
      last.session.tally = .ofAll (events.filterMap Event.final?) ∧
        (events.filterMap Event.final?).length = events.count .arrived) ∧
    (∀ session hand, place = .within session hand → ∃ closed : Entry.Hand (Feed σ),
      step (.call .close) place = (.served, .within session closed) ∧ closed.entry.isClosed = true ∧
        closed.entry.compliant = some closed.entry.findings.isEmpty ∧
        step (.call .close) (.within session closed) = (.served, .within session closed) ∧
        step .drop place = step .drop (.within session closed) ∧
        (step .drop place).1 = .left closed.entry.findings) ∧
    (∀ last, step .next place = (.ended, .between last) → ∀ later,
      (∀ event ∈ (run later (.between last)).1, event = .ended ∨ event = .idle) ∧
        (run later (.between last)).2.session.tally = last.session.tally ∧
        (run later (.between last)).2.session.findings = last.session.findings) := by
  intro events place
  obtain ⟨goes, rests, course, still, zero⟩ := begins.course yields readable
  obtain ⟨-, stands⟩ := run_stands course actions (.between still)
  obtain ⟨tally, held⟩ := run_counts course actions (.between still)
  refine ⟨?_, ?_, ?_⟩
  · intro last isLast
    rw [show (run actions (.between scanner)).2 = .between last from isLast] at tally held
    have start : (Place.between scanner).session.tally = .zero := zero
    rw [start, Tally.foldl_add] at tally
    simp only [Place.held, Nat.zero_add] at held
    exact ⟨tally, held⟩
  · intro session hand isHand
    rw [show (run actions (.between scanner)).2 = .within session hand from isHand] at stands
    obtain ⟨entry, closed, again, isClosed, compliant, -⟩ := stands.close
    rw [isHand]
    refine ⟨⟨entry, hand.out, []⟩, ?_, isClosed, compliant, ?_, ?_, ?_⟩
    · simp only [step, Entry.Hand.call, closed]
    · simp only [step, Entry.Hand.call, again]
    · simp only [step, closed, again, leave_eq closed, leave_eq again]
    · simp only [step, closed]
  · intro last ended later
    have atRest : rests last := course.rests_of_ended stands ended
    obtain ⟨nothing, -, sameTally, sameFindings⟩ := run_rests course later atRest
    exact ⟨nothing, sameTally, sameFindings⟩

/-- The first record is closed twice before it is left, the second not at all. -/
theorem run_tally_twoRecords :
    let scanner := create .plain 0 .default (Input.ofBytes twoRecords)
    let actions := [.next, .call (.read 3), .call .close, .call .close, .drop, .next, .drop, .next]
    Supply.Yields (Input.ofBytes twoRecords) twoRecords ∧ (run actions (.between scanner)).2.held = 0 ∧
      ∀ last, (run actions (.between scanner)).2 = .between last → last.session.tally = ⟨2, 2, 5, 0⟩ := by
  intro scanner actions
  have yields := Input.yields_ofBytes twoRecords
  refine ⟨yields, by decide +kernel, ?_⟩
  intro last isLast
  rw [((run_tally yields (.plain twoRecords) (.given 0) actions).1 last isLast).1]
  decide +kernel

end Scanner
end ArcFile
