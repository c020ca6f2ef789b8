import ArcFile.Proofs.Archive.Likeness
import ArcFile.Proofs.Archive.Passage.Packed
import ArcFile.Proofs.Archive.Passage.Plain
/-!
Complete readings. A survey goes through a file, reads every record to its end and closes it, and takes down all that
can be known of the records and of the file. What it takes down depends on the bytes of the file alone.
-/
namespace ArcFile

/-- What is known of a record when all of it has been read and it has been closed. -/
structure Account where
  header : RecordHeader
  kind : Entry.Kind
  payloadLength : Nat
  content : Bytes
  consumed : Nat
  unavailable : Nat
  blockDigest : Option Digest
  payloadDigest : Option Digest
  findings : Findings
  compliant : Option Bool
  /-- How far the file has been read when the record has been closed. -/
  position : Nat
  deriving DecidableEq

/-- How a survey ends. -/
inductive Survey.Ending where
  | ended
  | failed (failure : Scanner.Failure)
  /-- Reading or closing a record has faulted. -/
  | faulted (fault : Fault)
  deriving DecidableEq

/-- The records of a file, and what is known of it behind the last of them. -/
structure Survey where
  records : List Account
  ending : Survey.Ending
  tally : Tally
  findings : Findings
  position : Nat
  deriving DecidableEq

namespace Scanner

variable {σ : Type}

/-- A survey that ends at this place. -/
def stopped (ending : Survey.Ending) (scanner : Scanner σ) : Survey :=
  ⟨[], ending, scanner.session.tally, scanner.session.findings, scanner.position⟩

variable [Supply σ]

/-- Reads all of the record, `stride` bytes at a time, and closes it. Gives the scanner behind it, too. -/
def Visit.readOut (stride : Nat) (visit : Visit σ) : Except Fault (Account × Scanner σ) :=
  match Supply.readAll stride [] visit.entry with
  | (_, .error fault _) => .error fault
  | (content, .ok () entry) =>
    match entry.close with
    | .error fault _ => .error fault
    | .ok () entry =>
      let behind := Visit.leave { visit with entry }
      .ok ({ header := entry.header
             kind := entry.kind
             payloadLength := entry.payloadLength
             content
             consumed := entry.consumed
             unavailable := entry.unavailable
             blockDigest := entry.blockDigest
             payloadDigest := entry.payloadDigest
             findings := entry.findings
             compliant := entry.compliant
             position := behind.position }, behind)

theorem left_of_readOut {stride : Nat} {visit : Visit σ} {account : Account} {behind : Scanner σ}
    (h : visit.readOut stride = .ok (account, behind)) : behind.source.left ≤ visit.entry.bound := by
  unfold Visit.readOut at h
  split at h
  · cases h
  · next all =>
    split at h
    · cases h
    · next closed isClosed =>
      cases h
      exact Nat.le_trans (left_leave { visit with entry := closed }) (Entry.bound_of_readAll all isClosed)

/-- Reads all records that follow. -/
def survey (stride : Nat) (scanner : Scanner σ) : Survey :=
  match found : scanner.next with
  | .failed failure scanner => scanner.stopped (.failed failure)
  | .ended scanner => scanner.stopped .ended
  | .record visit =>
    match read : visit.readOut stride with
    | .error fault => scanner.stopped (.faulted fault)
    | .ok (account, behind) =>
      have : behind.source.left < scanner.source.left :=
        Nat.lt_of_le_of_lt (left_of_readOut read) (bound_of_next found)
      let more := survey stride behind
      { more with records := account :: more.records }
termination_by scanner.source.left

section Equations

variable {stride : Nat} {scanner scanner' : Scanner σ}

theorem survey_ended (next : scanner.next = .ended scanner') : survey stride scanner = scanner'.stopped .ended := by
  unfold survey
  split <;> simp_all

theorem survey_failed {failure : Failure} (next : scanner.next = .failed failure scanner') :
    survey stride scanner = scanner'.stopped (.failed failure) := by
  unfold survey
  split <;> simp_all

theorem survey_faulted {visit : Visit σ} {fault : Fault} (next : scanner.next = .record visit)
    (read : visit.readOut stride = .error fault) : survey stride scanner = scanner.stopped (.faulted fault) := by
  unfold survey
  split
  · next other => cases next.symm.trans other
  · next other => cases next.symm.trans other
  · next other =>
    cases next.symm.trans other
    split
    · next other =>
      cases read.symm.trans other
      rfl
    · next other => cases read.symm.trans other

theorem survey_record {visit : Visit σ} {account : Account} (next : scanner.next = .record visit)
    (read : visit.readOut stride = .ok (account, scanner')) :
    survey stride scanner = { survey stride scanner' with records := account :: (survey stride scanner').records } := by
  conv => lhs; unfold survey
  split
  · next other => cases next.symm.trans other
  · next other => cases next.symm.trans other
  · next other =>
    cases next.symm.trans other
    split
    · next other => cases read.symm.trans other
    · next other =>
      cases read.symm.trans other
      rfl

end Equations

/-- What is taken down of the record of a frame that leaves the scanner at `position`. -/
def Session.account (position : Nat) (f : Frame) (session : Session) : Account where
  header := f.header
  kind := f.kind session.options
  payloadLength := (f.content session.options).length + f.missing
  content := f.content session.options
  consumed := f.extent (session.packing == .gzip)
  unavailable := f.missing
  blockDigest := (f.blockDigest session.options).map (·.encode session.options.digestEncoding)
  payloadDigest := (f.payloadDigest session.options).map (·.encode session.options.digestEncoding)
  findings := session.allFoundBy f
  compliant := some (session.allFoundBy f).isEmpty
  position

/-- What is taken down of all these records. -/
def Session.accounts (endOf : Frame → Nat) : Session → List Frame → List Account
  | _, [] => []
  | session, f :: more => session.account (endOf f) f :: (session.pass f).accounts endOf more

theorem Session.length_accounts (endOf : Frame → Nat) (frames : List Frame) (session : Session) :
    (session.accounts endOf frames).length = frames.length := by
  induction frames generalizing session with
  | nil => rfl
  | cons f more ih => exact congrArg (· + 1) (ih (session.pass f))

theorem Session.Alike.account {isMember isMember' : Bool} {session session' : Session} {f f' : Frame}
    (h : session.Alike isMember isMember' session') (same : f.Same isMember isMember' f')
    (position position' : Nat) : session'.account position' f' =
      { session.account position f with header := f'.header, position := position' } := by
  have like := same.1
  simp only [Session.account, h.allFoundBy same, h.isMember, h.isMember', like.extent, like.missing,
    like.kind h.options, like.content h.options, like.blockDigest h.options, like.payloadDigest h.options,
    h.options.digestEncoding]

/-- In files of one packing of which the same is known, the same records give the same. -/
theorem Session.Alike.accounts {isMember : Bool} {session session' : Session}
    (h : session.Alike isMember isMember session') (endOf : Frame → Nat) (frames : List Frame) :
    session'.accounts endOf frames = session.accounts endOf frames := by
  induction frames generalizing session session' with
  | nil => rfl
  | cons f more ih =>
    have same : f.Same isMember isMember f := ⟨.refl isMember f, rfl⟩
    rw [Session.accounts, Session.accounts, h.account same (endOf f), ih (h.pass same)]
    rfl

section Survey

variable {stride : Nat} {session : Session} {f : Frame} {visit : Visit σ} {after : Scanner σ → Prop}
  {ended : Session → Scanner σ → Prop} {frames : List Frame} {scanner : Scanner σ} {endOf : Frame → Nat}
  {holds : σ → Bytes → Prop}

theorem readOut_opens (pos : 0 < stride) (h : visit.Opens session f after) :
    ∃ behind, visit.readOut stride = .ok (session.account behind.position f, behind) ∧ after behind := by
  obtain ⟨entry, closed, all, isClosed, closes⟩ := h.readAll pos
  refine ⟨Visit.leave { visit with entry := closed }, ?_, closes.after⟩
  simp only [Visit.readOut, all, isClosed]
  have consumed := closes.consumed
  obtain ⟨source, is⟩ := closes.is
  rw [is] at consumed ⊢
  simp only [Entry.closed] at consumed
  simp only [Entry.closed, Session.account, h.header, h.kind, h.payloadLength, h.findings, h.isMember, consumed,
    Session.allFoundBy]

/-- A survey takes down the frames that the scanner goes through. -/
theorem survey_gives (pos : 0 < stride)
    (h : Gives (fun f scanner => scanner.position = endOf f) ended session frames scanner) :
    ∃ last, ended (session.passAll frames) last ∧ survey stride scanner =
      { survey stride last with records := session.accounts endOf frames ++ (survey stride last).records } := by
  induction frames generalizing session scanner with
  | nil => exact ⟨scanner, h, rfl⟩
  | cons f more ih =>
    obtain ⟨visit, next, opens⟩ := h
    obtain ⟨behind, read, isPassed, onward⟩ := readOut_opens pos opens
    obtain ⟨last, atEnd, later⟩ := ih onward
    refine ⟨last, atEnd, ?_⟩
    rw [survey_record next read, later, isPassed]
    rfl

theorem survey_plain (steady : Supply.Steady holds) (pos : 0 < stride) {at' : Nat} {data : Bytes}
    (h : AtPlain holds session at' data scanner) :
    let (frames, last) := Frame.plain session.base at' data
    survey stride scanner = {
      records := session.accounts (fun f => f.header.start + f.extent false) frames
      ending := .ended
      tally := (session.passAll frames).tally
      findings := session.findings ++ last
      position := session.base + (at' + data.length) } := by
  obtain ⟨last, behind, made⟩ := survey_gives pos (plain_gives_at steady h)
  obtain ⟨scanner', next, stands⟩ := behind.next_ended steady
  obtain ⟨memberStart, same⟩ := stands.same
  obtain ⟨-, -, sameBase, sameFindings⟩ := session.kept_passAll (Frame.plain session.base at' data).1
  have position := stands.position
  rw [made, survey_ended next]
  simp only [stopped, same, position, List.append_nil]
  simp only [Session.at, Session.finish, sameBase, sameFindings]

/-- Gzip members are read up to the end of the file, or to where no other member begins. -/
theorem survey_packed (steady : Supply.Steady holds) (pos : 0 < stride) {at' : Nat} {endOf : Nat → Nat}
    {members : List (Bytes × Bytes)} {tail : Bytes} (located : Frame.Located endOf (session.base + at') members)
    (other : ¬ Gzip.magic <+: tail) (h : AtMembers holds session at' members tail scanner) :
    let (frames, last) := Frame.packed session.base at' .none members
    let stop := session.base + (at' + Frame.membersSize members)
    survey stride scanner = {
      records := session.accounts (fun f => endOf f.header.start) frames
      ending := if tail = [] then .ended else .failed (.notMember stop)
      tally := (session.passAll frames).tally
      findings := if tail = [] then session.findings ++ last else session.findings
      position := stop } := by
  obtain ⟨last, behind, made⟩ := survey_gives pos (packed_gives_at steady located h)
  obtain ⟨-, -, sameBase, sameFindings⟩ := session.kept_passAll (Frame.packed session.base at' .none members).1
  by_cases none : tail = []
  · subst none
    obtain ⟨scanner', next, stands⟩ := behind.next_ended steady
    obtain ⟨memberStart, same⟩ := stands.same
    have position := stands.position
    rw [made, survey_ended next]
    simp only [stopped, same, position, List.append_nil, ↓reduceIte]
    simp only [Session.at, Session.finish, sameBase, sameFindings]
  · obtain ⟨scanner', next, stands⟩ := behind.next_notMember steady none other
    obtain ⟨memberStart, same⟩ := stands.same
    have position := stands.position
    rw [made, survey_failed next]
    simp only [stopped, same, position, List.append_nil, if_neg none]
    simp only [Session.at, sameBase, sameFindings]

end Survey

end Scanner
end ArcFile
