import ArcFile.Archive.Scanner
import ArcFile.Proofs.Archive.Frames
import ArcFile.Proofs.Archive.Handling
/-!
From record to record. A scanner goes through frames, however each record is read on the way; that is what
`Scanner.Gives` says. What it knows of the file behind a record depends on the frame and on what it knew before.
-/
namespace ArcFile.Scanner

/-- The session, but for the gzip member that was entered last. -/
def Session.at (memberStart : Nat) (session : Session) : Session := { session with memberStart }

theorem Session.enter_at (header : RecordHeader) (session : Session) (memberStart : Nat) :
    (session.at memberStart).enter header =
      ((session.enter header).1.at memberStart, (session.enter header).2) := by
  unfold enter
  dsimp only
  split <;> rfl

theorem Session.declare_at (kind : Entry.Kind) (session : Session) (memberStart : Nat) :
    (session.at memberStart).declare kind = (session.declare kind).at memberStart := by
  cases kind <;> rfl

theorem Session.kept_enter (header : RecordHeader) (session : Session) :
    (session.enter header).1.options = session.options ∧
      (session.enter header).1.packing = session.packing ∧
      (session.enter header).1.base = session.base ∧
      (session.enter header).1.findings = session.findings := by
  unfold enter
  dsimp only
  split <;> exact ⟨rfl, rfl, rfl, rfl⟩

/-- What can be wrong with the place of a header line. -/
theorem Session.mem_enter {header : RecordHeader} {session : Session} {finding : Finding}
    (among : finding ∈ (session.enter header).2) : finding = .repeatedVersionBlock ∨ finding = .noVersionBlock ∨
      ∃ layout expected, finding = .wrongLayout layout expected := by
  unfold Session.enter at among
  dsimp only at among
  split at among
  · split at among
    · exact .inl (List.mem_singleton.1 among)
    · cases among
  · rcases List.mem_append.1 among with first | second
    · split at first
      · exact .inr (.inl (List.mem_singleton.1 first))
      · cases first
    · split at second
      · split at second
        · cases second
        · exact .inr (.inr ⟨_, _, List.mem_singleton.1 second⟩)
      · cases second

theorem Session.tally_declare (kind : Entry.Kind) (header : RecordHeader) (session : Session) :
    ((session.enter header).1.declare kind).tally = session.tally := by
  unfold enter declare
  dsimp only
  split <;> split <;> rfl

/-- What is wrong with a record when it is opened, given the records before it. -/
def Session.foundBy (f : Frame) (session : Session) : Findings :=
  f.found ++ ⟨(session.enter f.header).2, []⟩ ++ f.opening session.options

/-- All that is wrong with a record. -/
def Session.allFoundBy (f : Frame) (session : Session) : Findings :=
  session.foundBy f ++ f.closing session.options (session.packing == .gzip)

/-- What is known of the file behind a record. -/
def Session.pass (f : Frame) (session : Session) : Session :=
  { (session.enter f.header).1.declare (f.kind session.options) with
    tally := session.tally.add (session.allFoundBy f) }

theorem Session.kept_pass (f : Frame) (session : Session) :
    (session.pass f).options = session.options ∧ (session.pass f).packing = session.packing ∧
      (session.pass f).base = session.base ∧ (session.pass f).findings = session.findings := by
  have := session.kept_enter f.header
  unfold pass declare
  split <;> exact this

/-- What is known of the file behind all these records. -/
def Session.passAll (session : Session) (frames : List Frame) : Session :=
  frames.foldl (fun session f => session.pass f) session

theorem Session.kept_passAll (frames : List Frame) (session : Session) :
    (session.passAll frames).options = session.options ∧ (session.passAll frames).packing = session.packing ∧
      (session.passAll frames).base = session.base ∧ (session.passAll frames).findings = session.findings := by
  induction frames generalizing session with
  | nil => exact ⟨rfl, rfl, rfl, rfl⟩
  | cons f more ih =>
    obtain ⟨options, packing, base, findings⟩ := ih (session.pass f)
    obtain ⟨options', packing', base', findings'⟩ := session.kept_pass f
    exact ⟨options.trans options', packing.trans packing', base.trans base', findings.trans findings'⟩

/-- What is known at the end of a file, behind whose last record these findings were made. -/
def Session.finish (last : Findings) (session : Session) : Session :=
  { session with findings := session.findings ++ last }

theorem Session.finish_none (session : Session) : session.finish .none = session := by
  rw [finish, Findings.append_none]

variable {σ : Type}

/-- The session of what comes next. -/
def Next.session : Next σ → Session
  | record visit => visit.session
  | ended scanner => scanner.session
  | failed _ scanner => scanner.session

variable [Supply σ]

/-- The scanner that was reached, with or without a failure. -/
def reached {α : Type} : EStateM.Result Failure (Scanner σ) α → Scanner σ
  | .ok _ scanner => scanner
  | .error _ scanner => scanner

/-- Of what is known of the file, entering a gzip member only changes where the last one begins. -/
theorem session_enterMember (scanner : Scanner σ) :
    ∃ memberStart, (reached scanner.enterMember).session = scanner.session.at memberStart := by
  unfold enterMember
  dsimp only
  split
  · exact ⟨scanner.session.memberStart, rfl⟩
  · split
    · exact ⟨scanner.session.memberStart, rfl⟩
    · split
      · exact ⟨scanner.session.memberStart, rfl⟩
      · exact ⟨_, rfl⟩

theorem session_nextOfMembers (found : Findings) (scanner : Scanner σ) :
    ∃ memberStart, (reached (nextOfMembers found scanner)).session = scanner.session.at memberStart := by
  fun_induction nextOfMembers found scanner with
  | case1 _ scanner _ _ entered | case2 _ scanner _ entered | case3 _ scanner _ entered | case4 _ scanner _ entered =>
    have same := session_enterMember scanner
    rw [entered] at same
    exact same
  | case5 _ scanner inside entered _ _ _ _ ih =>
    obtain ⟨memberStart, last⟩ := ih
    obtain ⟨_, first⟩ := session_enterMember scanner
    rw [entered] at first
    have first : inside.session = scanner.session.at _ := first
    refine ⟨memberStart, last.trans ?_⟩
    change inside.session.at memberStart = _
    rw [first]
    rfl

theorem session_nextHeader (scanner : Scanner σ) :
    ∃ memberStart, (reached scanner.nextHeader).session = scanner.session.at memberStart := by
  unfold nextHeader
  split
  · exact session_nextOfMembers .none scanner
  · split
    · exact ⟨scanner.session.memberStart, rfl⟩
    · exact ⟨scanner.session.memberStart, rfl⟩
    · exact ⟨scanner.session.memberStart, rfl⟩

section Found

variable {p : Option RecordHeader → Findings → Prop} {header : Option RecordHeader} {found findings : Findings}
  {scanner scanner' : Scanner σ}
  (searched : ∀ {c c' : Cursor (Feed σ)} {header : Option RecordHeader} {findings : Findings},
    RecordHeader.next c = .ok (header, findings) c' → p header findings)
  (moved : ∀ {header : RecordHeader} {findings : Findings} (start : Nat),
    p (some header) findings → p (some { header with start }) findings)
  (append : ∀ {header : Option RecordHeader} {found more : Findings},
    p none found → p header more → p header (found ++ more))

include searched moved append

/-- What holds of what each search for a header line finds, wherever the line stands, holds of what is found in one
gzip member after the other. -/
theorem of_nextOfMembers (before : p none found)
    (next : nextOfMembers found scanner = .ok (header, findings) scanner') : p header findings := by
  fun_induction nextOfMembers found scanner with
  | case1 => cases next
  | case2 =>
    cases next
    exact before
  | case3 => cases next
  | case4 _ _ _ _ _ _ _ read =>
    cases next
    exact moved _ (append before (searched read))
  | case5 _ _ _ _ _ _ read _ ih => exact ih (append before (searched read)) next

theorem of_nextHeader (nothing : p none .none) (next : scanner.nextHeader = .ok (header, findings) scanner') :
    p header findings := by
  unfold nextHeader at next
  split at next
  · exact of_nextOfMembers searched moved append nothing next
  · split at next
    · cases next
    · next read =>
      cases next
      exact searched read
    · next read =>
      cases next
      exact moved _ (searched read)

end Found

/-- A record comes next where a header line is found that opens it. -/
theorem opened_of_next {scanner : Scanner σ} {visit : Visit σ} (arrived : scanner.next = .record visit) :
    ∃ header findings between, scanner.nextHeader = .ok (some header, findings) between ∧
      Entry.ofHeader (between.session.enter header).1.options ((between.session.enter header).1.packing == .gzip) header
        (findings.addErrors (between.session.enter header).2) between.source = .ok visit.entry ∧
      visit.session = (between.session.enter header).1.declare visit.entry.kind := by
  unfold next at arrived
  split at arrived
  · cases arrived
  · cases arrived
  · next header findings between sought =>
    dsimp only at arrived
    split at arrived
    · cases arrived
    · next opened =>
      cases arrived
      exact ⟨header, findings, between, sought, opened, rfl⟩

/-- What no step on the way to the next record changes of a session has not been changed by them all. -/
theorem kept_next {α : Type} (f : Session → α)
    (moved : ∀ (session : Session) (memberStart : Nat), f (session.at memberStart) = f session)
    (enter : ∀ (session : Session) (header : RecordHeader), f (session.enter header).1 = f session)
    (declare : ∀ (session : Session) (kind : Entry.Kind), f (session.declare kind) = f session)
    (finish : ∀ (session : Session) (last : Findings), f (session.finish last) = f session) (scanner : Scanner σ) :
    f scanner.next.session = f scanner.session := by
  have sought : f (reached scanner.nextHeader).session = f scanner.session := by
    obtain ⟨memberStart, same⟩ := session_nextHeader scanner
    rw [same, moved]
  unfold next
  split
  · next found =>
    rw [found] at sought
    exact sought
  · next found =>
    rw [found] at sought
    exact (finish _ _).trans sought
  · next header findings scanner' found =>
    rw [found] at sought
    have entered := (enter scanner'.session header).trans sought
    dsimp only
    split
    · exact entered
    · exact (declare _ _).trans entered

/-- Going to the next record counts nothing. -/
theorem tally_next (scanner : Scanner σ) : scanner.next.session.tally = scanner.session.tally := by
  refine kept_next (·.tally) (fun _ _ => rfl) ?_ ?_ (fun _ _ => rfl) scanner
  · intro session header
    unfold Session.enter
    dsimp only
    split <;> rfl
  · intro session kind
    cases kind <;> rfl

/-- Nor does it change the options. -/
theorem options_next (scanner : Scanner σ) : scanner.next.session.options = scanner.session.options := by
  refine kept_next (·.options) (fun _ _ => rfl) ?_ ?_ (fun _ _ => rfl) scanner
  · exact fun session header => (session.kept_enter header).1
  · intro session kind
    cases kind <;> rfl

/-- A visit to the record of a frame. However the record is read, once it has been closed `after` holds. -/
structure Visit.Opens (session : Session) (f : Frame) (visit : Visit σ) (after : Scanner σ → Prop) :
    Prop where
  options : visit.entry.options = session.options
  isMember : visit.entry.isMember = (session.packing == .gzip)
  header : visit.entry.header = f.header
  kind : visit.entry.kind = f.kind session.options
  findings : visit.entry.findings = session.foundBy f
  payloadLength : visit.entry.payloadLength = (f.content session.options).length + f.missing
  reads : ∃ (holds : Feed σ → Bytes → Prop) (source : Cursor (Feed σ)), Supply.Steady holds ∧
    0 < source.pushbackSize ∧ visit.entry.sourceStart + f.header.size = source.consumed ∧
    Entry.Reads holds source session.options f visit.entry visit.entry (f.content session.options) ∧
    ∀ entry, Entry.Done holds source session.options f visit.entry entry →
      after ⟨visit.session.count entry, entry.source⟩

/-- The scanner goes through these frames. Behind each `passed` holds, and behind the last `ended`. -/
def Gives (passed : Frame → Scanner σ → Prop) (ended : Session → Scanner σ → Prop) :
    Session → List Frame → Scanner σ → Prop
  | session, [], scanner => ended session scanner
  | session, f :: more, scanner => ∃ visit, scanner.next = .record visit ∧
    visit.Opens session f fun scanner => passed f scanner ∧ Gives passed ended (session.pass f) more scanner

variable {session : Session} {f : Frame} {scanner : Scanner σ} {memberStart : Nat}
  {source : Cursor (Feed σ)} {after : Scanner σ → Prop}

theorem next_opens {holds : Feed σ → Bytes → Prop} (steady : Supply.Steady holds)
    (buffered : 0 < session.options.bufferSize)
    (found : scanner.nextHeader = .ok (some f.header, f.found) ⟨session.at memberStart, source⟩)
    (held : source.Holds holds f.behind) (room : 0 < source.pushbackSize)
    (size : f.header.size ≤ source.consumed)
    (left : ∀ source', Cursor.Past holds source f.behind source' (f.left (session.packing == .gzip)) →
      (session.packing == .gzip → Supply.Spent holds source'.supply) →
      after ⟨(session.pass f).at memberStart, source'⟩) :
    ∃ visit, scanner.next = .record visit ∧ visit.Opens session f after := by
  obtain ⟨body, opened, reads, remaining⟩ := Entry.ofHeader_reads steady (session.packing == .gzip)
    (f.found.addErrors (session.enter f.header).2) buffered held
  obtain ⟨sameOptions, samePacking, -⟩ := Session.kept_enter f.header session
  have sizes := f.length_content session.options
  refine ⟨⟨((session.enter f.header).1.declare (f.kind session.options)).at memberStart,
    Entry.ofBody session.options (session.packing == .gzip) (source.consumed - f.header.size) f.header
      (f.kind session.options) (session.foundBy f) body⟩, ?_, rfl, rfl, rfl, rfl, rfl, ?_,
    holds, source, steady, room, Nat.sub_add_cancel size, ⟨body, rfl, reads⟩, ?_⟩
  · have options : ((session.enter f.header).1.at memberStart).options = session.options := sameOptions
    have packing : ((session.enter f.header).1.at memberStart).packing = session.packing := samePacking
    unfold next
    rw [found]
    dsimp only
    rw [Session.enter_at]
    dsimp only
    rw [options, packing, opened, Findings.addErrors_eq]
    simp only [Entry.ofBody, Session.declare_at]
    rfl
  · simp only [Entry.ofBody, remaining]
    omega
  · rintro entry ⟨source', rfl, past, spent⟩
    have counted : (((session.enter f.header).1.declare (f.kind session.options)).at memberStart).count
        ((Entry.ofBody session.options (session.packing == .gzip) (source.consumed - f.header.size)
          f.header (f.kind session.options) (session.foundBy f) body).closed session.options f source') =
        (session.pass f).at memberStart := by
      simp only [Session.count, Entry.closed, Option.isSome_some, ↓reduceIte, Session.at,
        Session.tally_declare, Session.pass]
      rfl
    rw [counted]
    exact left source' past spent

theorem Visit.Opens.mono {visit : Visit σ} {after' : Scanner σ → Prop} (h : visit.Opens session f after)
    (weaker : ∀ scanner, after scanner → after' scanner) : visit.Opens session f after' := by
  obtain ⟨holds, source, steady, room, started, reads, onward⟩ := h.reads
  refine { h with reads := ⟨holds, source, steady, room, started, reads, ?_⟩ }
  intro entry done
  exact weaker _ (onward entry done)

/-- The record has been closed. What is known of it then is known of its frame, and what comes after the visit
holds. -/
structure Visit.Closes (session : Session) (f : Frame) (visit : Visit σ) (after : Scanner σ → Prop)
    (entry : Entry (Feed σ)) : Prop where
  is : ∃ source, entry = visit.entry.closed session.options f source
  findings : entry.findings = session.allFoundBy f
  consumed : entry.consumed = f.extent (session.packing == .gzip)
  after : after (Visit.leave { visit with entry })

theorem Visit.Opens.closes {holds : Feed σ → Bytes → Prop} {source : Cursor (Feed σ)} {visit : Visit σ}
    {entry : Entry (Feed σ)} (h : visit.Opens session f after)
    (started : visit.entry.sourceStart + f.header.size = source.consumed)
    (done : Entry.Done holds source session.options f visit.entry entry)
    (onward : after ⟨visit.session.count entry, entry.source⟩) : visit.Closes session f after entry := by
  have left : Visit.leave { visit with entry } = ⟨visit.session.count entry, entry.source⟩ := by
    simp only [Visit.leave, done.close, Outcome.state]
  obtain ⟨source', is, ⟨taken, cut, -, moved⟩, -⟩ := done
  refine ⟨⟨source', is⟩, ?_, ?_, left ▸ onward⟩
  · rw [is]
    simp only [Entry.closed, h.findings, h.isMember, Session.allFoundBy]
  · have size := congrArg List.length cut
    rw [List.length_append, h.isMember] at size
    rw [is]
    simp only [Entry.closed, moved.consumed, Frame.extent]
    omega

/-- All of the record can be read, any number of bytes at a time. -/
theorem Visit.Opens.readAll {visit : Visit σ} {stride : Nat} (h : visit.Opens session f after) (pos : 0 < stride) :
    ∃ entry closed, Supply.readAll stride [] visit.entry = (f.content session.options, .ok () entry) ∧
      entry.close = .ok () closed ∧ visit.Closes session f after closed := by
  obtain ⟨holds, source, steady, room, started, reads, onward⟩ := h.reads
  obtain ⟨entry, all, atEnd⟩ := (Entry.steady_reads steady).readAll pos [] reads
  obtain ⟨source', closed, past, spent⟩ := Entry.close_reads steady room h.options atEnd
  have done : Entry.Done holds source session.options f visit.entry
      (visit.entry.closed session.options f source') := ⟨source', rfl, past, spent⟩
  exact ⟨entry, _, all, closed, h.closes started done (onward _ done)⟩

/-- The record can be closed after any calls on it. -/
theorem Visit.Opens.calls {visit : Visit σ} (h : visit.Opens session f after) (calls : List Entry.Call) :
    ∃ (holds : Feed σ → Bytes → Prop) (source : Cursor (Feed σ)) (hand : Entry.Hand (Feed σ))
      (closed : Entry (Feed σ)), Supply.Steady holds ∧
      Entry.Hand.calls calls (.start visit.entry) = .ok () hand ∧
      hand.Stands holds source session.options f visit.entry ∧ hand.entry.close = .ok () closed ∧
      visit.Closes session f after closed := by
  obtain ⟨holds, source, steady, room, started, reads, onward⟩ := h.reads
  have start : (Entry.Hand.start visit.entry).Stands holds source session.options f visit.entry :=
    .reading reads rfl (.inl rfl)
  obtain ⟨hand, used, stands⟩ := Entry.Hand.calls_stand steady room h.options calls start
  obtain ⟨closed, isClosed, done⟩ := Entry.Hand.close_stands steady room h.options stands
  exact ⟨holds, source, hand, closed, steady, used, stands, isClosed, h.closes started done (onward _ done)⟩

theorem Gives.mono {passed passed' : Frame → Scanner σ → Prop} {ended ended' : Session → Scanner σ → Prop}
    {frames : List Frame} (h : Gives passed ended session frames scanner)
    (weaker : ∀ f scanner, passed f scanner → passed' f scanner)
    (atEnd : ∀ session scanner, ended session scanner → ended' session scanner) :
    Gives passed' ended' session frames scanner := by
  induction frames generalizing session scanner with
  | nil => exact atEnd session scanner h
  | cons f more ih =>
    obtain ⟨visit, next, opens⟩ := h
    refine ⟨visit, next, opens.mono ?_⟩
    rintro scanner ⟨isPassed, later⟩
    exact ⟨weaker f scanner isPassed, ih later⟩

/-- There is no next record, and these findings were made behind the last one. -/
def Ends (last : Findings) (session : Session) (scanner : Scanner σ) : Prop :=
  ∃ scanner' memberStart, scanner.next = .ended scanner' ∧
    scanner'.session = (session.finish last).at memberStart

variable {holds : σ → Bytes → Prop} {data : Bytes} {input : σ}

/-- Finding the packing leaves the stream where it begins. -/
theorem sniffed_holds (options : Options) (steady : Supply.Steady holds) (held : holds input data) :
    ∃ stream, sniffed options input =
        .ok (ofStream (if Gzip.magic <+: data then .gzip else .plain) 0 options stream) ∧
      stream.Holds holds data ∧ Cursor.Moved 0 (streamOf input) stream := by
  obtain ⟨stream, peeked, held', still⟩ := Cursor.peek_holds steady
    (Nat.le_refl _ : Packing.lookAhead ≤ (streamOf input).pushbackSize)
    (Cursor.holds_create (by decide : 0 < Cursor.defaultCapacity) held)
  have peeked : Cursor.peek Packing.lookAhead (streamOf input) = .ok (data.take Packing.lookAhead) stream := peeked
  have isGzip : Packing.isGzip (data.take Packing.lookAhead) = true ↔ Gzip.magic <+: data := by
    have fits : Gzip.magic.length ≤ Packing.lookAhead := by decide
    rw [Packing.isGzip, Bytes.startsWith, List.isPrefixOf_iff_prefix, List.prefix_take_iff]
    simp [fits]
  have sniff : Packing.sniff (streamOf input) =
      .ok (if Gzip.magic <+: data then .gzip else .plain) stream := by
    simp only [Packing.sniff, peeked, isGzip]
  exact ⟨stream, by simp only [sniffed, sniff], held', still⟩

end ArcFile.Scanner
