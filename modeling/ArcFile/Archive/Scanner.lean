import ArcFile.Archive.Entry
import ArcFile.Archive.Feed
/-!
Reading a file record by record. A `Scanner` stands between two records. `Scanner.next` goes to the next record,
where it becomes a `Scanner.Visit`, which holds the record; leaving the visit closes the record
and gives the scanner back.

In a packed file every gzip member holds one record; members without a header line are passed over.
-/
namespace ArcFile

/-- Why there is no next record although the file has not ended. -/
inductive Scanner.Failure where
  | fault (cause : Fault)
  /-- A gzip member should begin here. -/
  | notMember (offset : Nat)
  deriving DecidableEq, Repr

def Scanner.Failure.message : Failure → String
  | .fault cause => "I/O error: " ++ cause.message
  | .notMember offset => "data at offset " ++ toString offset ++ " is not a gzip member"

/-- What is known of a file from the records so far. -/
structure Scanner.Session where
  packing : Packing
  options : Options
  /-- Where the input begins in the file. -/
  base : Nat
  /-- Where the gzip member begins that was entered last. -/
  memberStart : Nat
  tally : Tally
  /-- What is wrong with data behind the last record. -/
  findings : Findings
  /-- The number of header lines found. -/
  records : Nat
  versionBlockSeen : Bool
  /-- The layout of header lines that a version block has declared. -/
  layout : Option Layout

structure Scanner (σ : Type) where
  session : Scanner.Session
  source : Cursor (Feed σ)

namespace Scanner

variable {σ : Type}

/-- A cursor over the input of a file, which can take back what is looked at to find the packing. -/
def streamOf (input : σ) : Cursor σ := Cursor.create input Cursor.defaultCapacity Packing.lookAhead

/-- A scanner at the start of a stream, which is at offset `base` of its file. -/
def ofStream (packing : Packing) (base : Nat) (options : Options) (stream : Cursor σ) : Scanner σ where
  session := ⟨packing, options, base, base, .zero, .none, 0, false, none⟩
  source := Cursor.create (.plain stream) options.bufferSize options.pushbackSize

/-- A scanner for input that begins at offset `base` of a file. -/
def create (packing : Packing) (base : Nat) (options : Options) (input : σ) : Scanner σ :=
  ofStream packing base options (streamOf input)

/-- The offset in the file up to which it has been read. -/
def position (scanner : Scanner σ) : Nat :=
  scanner.session.base +
    match scanner.session.packing with
    | .plain => scanner.source.consumed
    | .gzip => scanner.source.supply.stream.consumed

namespace Session

/-- Takes a header line into account, and gives what is wrong with its place in the file. Only a version
block can be the first record; it declares the layout of all others, and there is only one. -/
def enter (header : RecordHeader) (session : Session) : Session × List Finding :=
  let after := { session with records := session.records + 1 }
  if header.isVersionBlock then
    ({ after with versionBlockSeen := true },
      if session.versionBlockSeen then [.repeatedVersionBlock] else [])
  else
    (after,
      (if session.records = 0 ∧ session.base = 0 then [.noVersionBlock] else []) ++
        match session.layout with
        | some layout =>
          if header.layout = layout then []
          else [.wrongLayout header.layout.number layout.number]
        | none => [])

/-- Takes an opened record into account. -/
def declare (kind : Entry.Kind) (session : Session) : Session :=
  match kind with
  | .versionBlock lines => { session with layout := some lines.layout }
  | .data _ => session

/-- Counts a record that has been closed. One whose closing faulted does not count. -/
def count {τ : Type} (entry : Entry τ) (session : Session) : Session :=
  if entry.compliant.isSome then { session with tally := session.tally.add entry.findings }
  else session

end Session

/-- The place of a record: the scanner has been suspended until the visit ends. -/
structure Visit (σ : Type) where
  session : Session
  entry : Entry (Feed σ)

/-- What comes next in a file. -/
inductive Next (σ : Type) where
  | record (visit : Visit σ)
  | ended (scanner : Scanner σ)
  | failed (failure : Failure) (scanner : Scanner σ)

variable [Supply σ]

/-- A scanner at the start of a file whose packing is found from its first bytes. -/
def sniffed (options : Options) (input : σ) : Except Fault (Scanner σ) :=
  match Packing.sniff (streamOf input) with
  | .ok packing stream => .ok (ofStream packing 0 options stream)
  | .error fault _ => .error fault

/-- The scanner with a new source, whose buffers are empty. -/
def restart (feed : Feed σ) (scanner : Scanner σ) : Scanner σ :=
  { scanner with source := Cursor.create feed scanner.source.capacity scanner.source.pushbackSize }

/-- Leaves the gzip member and enters the next one, if the stream has not ended. -/
def enterMember (scanner : Scanner σ) : EStateM.Result Failure (Scanner σ) Bool :=
  let stream := scanner.source.supply.stream
  match Cursor.peek Gzip.magic.length stream with
  | .error fault stream => .error (.fault fault) (scanner.restart (.plain stream))
  | .ok start stream' =>
    let offset := scanner.session.base + stream.consumed
    if start.isEmpty then .ok false (scanner.restart (.plain stream'))
    else if start ≠ Gzip.magic then .error (.notMember offset) (scanner.restart (.plain stream'))
    else
      let scanner := scanner.restart (.member (.create stream'))
      .ok true { scanner with session := { scanner.session with memberStart := offset } }

/-- The data that is left in the scanner's stream, together with what is held back of it. -/
def left (scanner : Scanner σ) : Nat := 2064 * scanner.source.supply.stream.left

theorem left_of_enterMember {scanner scanner' : Scanner σ} (h : scanner.enterMember = .ok true scanner') :
    scanner'.source.left < scanner.left := by
  unfold enterMember at h
  have less := Cursor.left_peek Gzip.magic.length scanner.source.supply.stream
  dsimp only at h
  split at h
  · cases h
  · next start stream' peeked =>
    rw [peeked] at less
    split at h
    · cases h
    · split at h
      · cases h
      · next isMagic =>
        cases h
        have held := Cursor.pushback_of_peek peeked (by simp_all)
        have := Gzip.Unpacker.bound_create_lt (c := stream') fun none => by
          simp [none, Gzip.magic] at held
        have : (Cursor.create (Feed.member (.create stream')) scanner.source.capacity
            scanner.source.pushbackSize).left = (Gzip.Unpacker.create stream').bound := by
          simp [Cursor.left, Cursor.create, Pushback.empty]
          rfl
        simp only [restart, left, Outcome.state] at *
        omega

theorem left_le_source (scanner : Scanner σ) : scanner.left ≤ scanner.source.left := by
  have := scanner.source.supply.left_stream_le_bound
  have : Supply.bound scanner.source.supply = scanner.source.supply.bound := rfl
  unfold left
  simp only [Cursor.left] at *
  omega

/-- The next header line of a packed file, which is looked for member by member; and all that is wrong
up to there. -/
def nextOfMembers (findings : Findings) (scanner : Scanner σ) :
    EStateM.Result Failure (Scanner σ) (Option RecordHeader × Findings) :=
  match entered : scanner.enterMember with
  | .error failure scanner => .error failure scanner
  | .ok false scanner => .ok (none, findings) scanner
  | .ok true inside =>
    match read : RecordHeader.next inside.source with
    | .error fault source => .error (.fault fault) { inside with source }
    | .ok (some header, more) source =>
      .ok (some { header with start := inside.session.memberStart }, findings ++ more)
        { inside with source }
    | .ok (none, more) source =>
      have : ({ inside with source } : Scanner σ).left < scanner.left := by
        have := left_of_enterMember entered
        have less := RecordHeader.left_next inside.source
        have := left_le_source { inside with source }
        simp only [read, Outcome.state] at less this
        omega
      nextOfMembers (findings ++ more) { inside with source }
termination_by scanner.left

/-- The next header line, and all that is wrong up to there. -/
def nextHeader (scanner : Scanner σ) :
    EStateM.Result Failure (Scanner σ) (Option RecordHeader × Findings) :=
  match scanner.session.packing with
  | .gzip => nextOfMembers .none scanner
  | .plain =>
    match RecordHeader.next scanner.source with
    | .error fault source => .error (.fault fault) { scanner with source }
    | .ok (none, findings) source => .ok (none, findings) { scanner with source }
    | .ok (some header, findings) source =>
      .ok (some { header with start := scanner.session.base + header.start }, findings)
        { scanner with source }

/-- Goes to the next record and opens it. -/
def next (scanner : Scanner σ) : Next σ :=
  match scanner.nextHeader with
  | .error failure scanner => .failed failure scanner
  | .ok (none, findings) scanner =>
    .ended { scanner with
      session := { scanner.session with findings := scanner.session.findings ++ findings } }
  | .ok (some header, findings) scanner =>
    let (session, more) := scanner.session.enter header
    match Entry.ofHeader session.options (session.packing == .gzip) header (findings.addErrors more)
        scanner.source with
    | .error (fault, source) => .failed (.fault fault) ⟨session, source⟩
    | .ok entry => .record ⟨session.declare entry.kind, entry⟩

/-- Ends the visit: closes the record, whether that faults or not, and counts it if it has been closed. -/
def Visit.leave (visit : Visit σ) : Scanner σ :=
  let entry := visit.entry.close.state
  ⟨visit.session.count entry, entry.source⟩

theorem left_of_nextOfMembers {scanner scanner' : Scanner σ} {findings findings' : Findings}
    {header : RecordHeader}
    (h : nextOfMembers findings scanner = .ok (some header, findings') scanner') :
    scanner'.source.left < scanner.left := by
  fun_induction nextOfMembers findings scanner with
  | case1 => cases h
  | case2 => cases h
  | case3 => cases h
  | case4 _ _ inside entered _ _ source read =>
    cases h
    have := left_of_enterMember entered
    have := RecordHeader.left_of_next read
    simp only
    omega
  | case5 _ _ _ _ _ _ _ smaller ih => exact Nat.lt_trans (ih h) smaller

theorem left_of_nextHeader {scanner scanner' : Scanner σ} {findings : Findings} {header : RecordHeader}
    (h : nextHeader scanner = .ok (some header, findings) scanner') :
    scanner'.source.left < scanner.source.left := by
  unfold nextHeader at h
  split at h
  · exact Nat.lt_of_lt_of_le (left_of_nextOfMembers h) scanner.left_le_source
  · split at h
    · cases h
    · cases h
    · next found =>
      cases h
      exact RecordHeader.left_of_next found

/-- Going to the next record takes something from the source. -/
theorem bound_of_next {scanner : Scanner σ} {visit : Visit σ} (h : scanner.next = .record visit) :
    visit.entry.bound < scanner.source.left := by
  unfold next at h
  split at h
  · cases h
  · cases h
  · next header findings scanner' found =>
    dsimp only at h
    split at h
    · cases h
    · next entry opened =>
      cases h
      exact Nat.lt_of_le_of_lt (Entry.bound_ofHeader opened) (left_of_nextHeader found)

/-- Leaving a record only goes forward in its source. -/
theorem left_leave (visit : Visit σ) : visit.leave.source.left ≤ visit.entry.bound :=
  visit.entry.left_close

end Scanner
end ArcFile
