import ArcFile.Archive.Audit
import ArcFile.Proofs.Archive.Format
import ArcFile.Proofs.Archive.Passage.Plain
/-!
What a check of a whole file accepts. A check goes through the frames of the file and counts those with something wrong
with them; there are none just if the file is sound.
-/
namespace ArcFile

namespace Scanner.Session

variable {options : Options} {layout : Layout} {session : Session} {f : Frame} {p : Piece} {rest data : Bytes}
  {base pos : Nat}

/-- Nothing is wrong with any of these records, the first of which comes now. -/
def Clean : Session → List Frame → Prop
  | _, [] => True
  | session, f :: more => session.allFoundBy f = .none ∧ Clean (session.pass f) more

/-- The start of a plain file. -/
structure Fresh (options : Options) (session : Session) : Prop where
  options : session.options = options
  isPlain : session.packing = .plain
  base : session.base = 0
  records : session.records = 0
  seen : session.versionBlockSeen = false

/-- A plain file behind the version block that opens it, which declares this layout. -/
structure Underway (options : Options) (layout : Layout) (session : Session) : Prop where
  options : session.options = options
  isPlain : session.packing = .plain
  records : session.records ≠ 0
  seen : session.versionBlockSeen = true
  layout : session.layout = some layout

theorem allFoundBy_eq_none (encodes : options.Encodes) (is : session.options = options)
    (isPlain : session.packing = .plain) :
    session.allFoundBy f = .none ↔ f.found = .none ∧ (session.enter f.header).2 = [] ∧
      f.opening options = .none ∧ f.missing = 0 ∧ f.trailing = .none := by
  have plain : (session.packing == .gzip) = false := by
    rw [isPlain]
    rfl
  have entering (all : List Finding) : (⟨all, []⟩ : Findings) = .none ↔ all = [] := by simp [Findings.none]
  rw [allFoundBy, foundBy, plain, is, Findings.append_eq_none, Findings.append_eq_none, Findings.append_eq_none,
    Frame.closing_eq_none encodes, entering, and_assoc, and_assoc]

theorem enter_version {header : RecordHeader} (version : header.isVersionBlock = true) :
    (session.enter header).2 = [] ↔ session.versionBlockSeen = false := by
  rw [enter, if_pos version]
  cases session.versionBlockSeen <;> simp

theorem enter_data {header : RecordHeader} (data : header.isVersionBlock = false)
    (under : session.Underway options layout) : (session.enter header).2 = [] ↔ header.layout = layout := by
  have later : ¬ (session.records = 0 ∧ session.base = 0) := by
    intro first
    exact under.records first.1
  rw [enter, if_neg (Bool.eq_false_iff.1 data)]
  simp only [if_neg later, under.layout]
  split <;> simp_all

/-- Only a version block may come first. -/
theorem version_of_enter {header : RecordHeader} (fresh : session.Fresh options)
    (none : (session.enter header).2 = []) : header.isVersionBlock = true := by
  apply Decidable.byContradiction
  intro data
  have first : session.records = 0 ∧ session.base = 0 := ⟨fresh.records, fresh.base⟩
  rw [enter, if_neg data] at none
  simp [first] at none

theorem Underway.clean_iff (under : session.Underway options layout) (encodes : options.Encodes) (is : f.Is p rest) :
    session.allFoundBy f = .none ↔ p.Follows options layout := by
  obtain ⟨start, size, same⟩ := is.header
  have version : f.header.isVersionBlock = p.header.isVersionBlock := by rw [same]; rfl
  have sameLayout : f.header.layout = p.header.layout := by rw [same]
  rw [allFoundBy_eq_none encodes under.options under.isPlain, Piece.follows_iff]
  constructor
  · rintro ⟨-, entered, opening, -, -⟩
    have data : p.header.isVersionBlock = false := by
      apply Bool.eq_false_iff.2
      intro again
      have fresh := (enter_version (version.trans again)).1 entered
      rw [under.seen] at fresh
      cases fresh
    exact ⟨data, sameLayout ▸ (enter_data (version.trans data) under).1 entered, (is.opening_data data).1 opening⟩
  · rintro ⟨data, isLayout, http⟩
    exact ⟨is.found, (enter_data (version.trans data) under).2 (sameLayout.trans isLayout),
      (is.opening_data data).2 http, is.missing, is.trailing⟩

theorem Underway.pass (under : session.Underway options layout) (is : f.Is p rest)
    (data : p.header.isVersionBlock = false) : (session.pass f).Underway options layout := by
  obtain ⟨start, size, same⟩ := is.header
  obtain ⟨sameOptions, samePacking, -⟩ := session.kept_pass f
  have notVersion : ¬ f.header.isVersionBlock = true := by
    rw [same]
    exact Bool.eq_false_iff.1 data
  have passed : session.pass f =
      { session with records := session.records + 1, tally := session.tally.add (session.allFoundBy f) } := by
    rw [Session.pass, Frame.kind, if_neg notVersion, enter, if_neg notVersion]
    rfl
  refine ⟨sameOptions.trans under.options, samePacking.trans under.isPlain, ?_, ?_, ?_⟩
  · rw [passed]
    exact Nat.succ_ne_zero _
  · rw [passed]
    exact under.seen
  · rw [passed]
    exact under.layout

theorem Fresh.clean_iff (fresh : session.Fresh options) (encodes : options.Encodes) (is : f.Is p rest) :
    session.allFoundBy f = .none ↔ ∃ layout, p.Opens layout := by
  obtain ⟨start, size, same⟩ := is.header
  have version : f.header.isVersionBlock = p.header.isVersionBlock := by rw [same]; rfl
  rw [allFoundBy_eq_none encodes fresh.options fresh.isPlain]
  constructor
  · rintro ⟨-, entered, opening, -, -⟩
    have isVersion := version ▸ version_of_enter fresh entered
    obtain ⟨header, lines⟩ := (is.opening_version isVersion).1 opening
    exact ⟨_, Piece.opens_iff.2 ⟨isVersion, header, lines, rfl⟩⟩
  · rintro ⟨layout, opens⟩
    obtain ⟨isVersion, header, lines, -⟩ := Piece.opens_iff.1 opens
    exact ⟨is.found, (enter_version (version.trans isVersion)).2 fresh.seen,
      (is.opening_version isVersion).2 ⟨header, lines⟩, is.missing, is.trailing⟩

theorem Fresh.pass (fresh : session.Fresh options) (is : f.Is p rest) (opens : p.Opens layout) :
    (session.pass f).Underway options layout := by
  obtain ⟨start, size, same⟩ := is.header
  obtain ⟨isVersion, -, -, isLayout⟩ := Piece.opens_iff.1 opens
  obtain ⟨sameOptions, samePacking, -⟩ := session.kept_pass f
  have version : f.header.isVersionBlock = true := by rw [same]; exact isVersion
  have passed : session.pass f = { session with
      records := session.records + 1
      versionBlockSeen := true
      layout := some (VersionLines.ofContent p.content).2.layout
      tally := session.tally.add (session.allFoundBy f) } := by
    rw [Session.pass, Frame.kind, if_pos version, enter, if_pos version, is.region]
    rfl
  refine ⟨sameOptions.trans fresh.options, samePacking.trans fresh.isPlain, ?_, ?_, ?_⟩
  · rw [passed]
    exact Nat.succ_ne_zero _
  · rw [passed]
  · rw [passed, isLayout]

/-- The frames of sound records have nothing wrong with them, and there is nothing else behind them. -/
theorem Underway.clean_of_sound (under : session.Underway options layout) (encodes : options.Encodes)
    (pieces : List Piece) (sound : ∀ p ∈ pieces, p.Sound ∧ p.Follows options layout) :
    session.Clean (Frame.plain base pos (pieces.map Piece.bytes).flatten).1 ∧
      (Frame.plain base pos (pieces.map Piece.bytes).flatten).2 = .none := by
  induction pieces generalizing session pos with
  | nil =>
    rw [show (List.map Piece.bytes []).flatten = [] from rfl, Frame.plain_none (RecordHeader.first_nil pos)]
    exact ⟨trivial, rfl⟩
  | cons p more ih =>
    obtain ⟨isSound, follows⟩ := sound p List.mem_cons_self
    have later (q : Piece) (among : q ∈ more) := sound q (List.mem_cons_of_mem _ among)
    obtain ⟨header, f, is, isHeader, first⟩ :=
      isSound.first base pos (Piece.isClear_flatten fun q among => (later q among).1)
    rw [List.map_cons, List.flatten_cons, Frame.plain_some first isHeader, is.rest_eq]
    obtain ⟨clean, last⟩ := ih (under.pass is follows.notVersionBlock) later
    exact ⟨⟨(under.clean_iff encodes is).2 follows, clean⟩, last⟩

/-- If nothing is wrong with the frames or behind them, the data is one sound record after the other. -/
theorem Underway.sound_of_clean (under : session.Underway options layout) (encodes : options.Encodes)
    (clear : Bytes.IsClear data) (clean : session.Clean (Frame.plain base pos data).1)
    (last : (Frame.plain base pos data).2 = .none) :
    ∃ pieces : List Piece, data = (pieces.map Piece.bytes).flatten ∧
      ∀ p ∈ pieces, p.Sound ∧ p.Follows options layout := by
  induction len : data.length using Nat.strongRecOn generalizing session pos data with
  | ind len ih =>
    rcases first : RecordHeader.first pos data with ⟨none | header, findings, behind⟩
    · rw [Frame.plain_none first] at last
      obtain rfl : findings = .none := last
      obtain rfl := RecordHeader.first_none_clean first
      exact ⟨[], rfl, by simp⟩
    · obtain ⟨f, isHeader, rfl, rfl⟩ := Frame.exists_of_found base header findings behind
      rw [Frame.plain_some first isHeader] at clean last
      obtain ⟨noFinding, clean⟩ := clean
      obtain ⟨found, -, -, whole, trailing⟩ :=
        (allFoundBy_eq_none encodes under.options under.isPlain).1 noFinding
      have noReturn : data.head? ≠ some Bytes.carriageReturn := by
        intro begins
        have := clear _ begins
        exact absurd this (by decide)
      obtain ⟨p, sound, is, cut⟩ := Piece.exists_of_clean first isHeader noReturn found whole trailing
      have follows := (under.clean_iff encodes is).1 noFinding
      have shorter : f.rest.length < data.length := by
        have := congrArg List.length cut
        simp only [List.length_append, Piece.bytes, List.length_singleton] at this
        omega
      obtain ⟨pieces, flatten, all⟩ := ih _ (len ▸ shorter) (under.pass is follows.notVersionBlock)
        is.clear clean last rfl
      refine ⟨p :: pieces, by rw [List.map_cons, List.flatten_cons, ← flatten, ← cut], ?_⟩
      intro q among
      rcases List.mem_cons.1 among with rfl | among
      · exact ⟨sound, follows⟩
      · exact all q among

theorem Fresh.clean_of_sound (fresh : session.Fresh options) (encodes : options.Encodes)
    (sound : IsSound options data) :
    session.Clean (Frame.plain base pos data).1 ∧ (Frame.plain base pos data).2 = .none := by
  obtain ⟨pieces, rfl, each, inOrder⟩ := sound
  cases pieces with
  | nil =>
    rw [show (List.map Piece.bytes []).flatten = [] from rfl, Frame.plain_none (RecordHeader.first_nil pos)]
    exact ⟨trivial, rfl⟩
  | cons p more =>
    obtain ⟨layout, opens, follow⟩ := inOrder
    have later (q : Piece) (among : q ∈ more) : q.Sound ∧ q.Follows options layout :=
      ⟨each q (List.mem_cons_of_mem _ among), follow q among⟩
    obtain ⟨header, f, is, isHeader, first⟩ := (each p List.mem_cons_self).first base pos
      (Piece.isClear_flatten fun q among => (later q among).1)
    rw [List.map_cons, List.flatten_cons, Frame.plain_some first isHeader, is.rest_eq]
    obtain ⟨clean, last⟩ := (fresh.pass is opens).clean_of_sound encodes more later
    exact ⟨⟨(fresh.clean_iff encodes is).2 ⟨layout, opens⟩, clean⟩, last⟩

theorem Fresh.sound_of_clean (fresh : session.Fresh options) (encodes : options.Encodes)
    (clean : session.Clean (Frame.plain base pos data).1) (last : (Frame.plain base pos data).2 = .none) :
    IsSound options data := by
  rcases first : RecordHeader.first pos data with ⟨none | header, findings, behind⟩
  · rw [Frame.plain_none first] at last
    obtain rfl : findings = .none := last
    obtain rfl := RecordHeader.first_none_clean first
    exact ⟨[], rfl, by simp, trivial⟩
  · obtain ⟨f, isHeader, rfl, rfl⟩ := Frame.exists_of_found base header findings behind
    rw [Frame.plain_some first isHeader] at clean last
    obtain ⟨noFinding, clean⟩ := clean
    obtain ⟨found, entered, -, whole, trailing⟩ :=
      (allFoundBy_eq_none encodes fresh.options fresh.isPlain).1 noFinding
    have version : header.isVersionBlock = true := by
      have := version_of_enter fresh entered
      rw [isHeader] at this
      exact this
    have noReturn := RecordHeader.head?_ne_return (found ▸ first) version
    obtain ⟨p, sound, is, cut⟩ := Piece.exists_of_clean first isHeader noReturn found whole trailing
    obtain ⟨layout, opens⟩ := (fresh.clean_iff encodes is).1 noFinding
    obtain ⟨pieces, flatten, all⟩ := (fresh.pass is opens).sound_of_clean encodes is.clear clean last
    refine ⟨p :: pieces, by rw [List.map_cons, List.flatten_cons, ← flatten, ← cut], ?_, layout, opens, ?_⟩
    · intro q among
      rcases List.mem_cons.1 among with rfl | among
      · exact sound
      · exact (all q among).1
    · intro q among
      exact (all q among).2

theorem noncompliant_pass (f : Frame) (session : Session) : (session.pass f).tally.noncompliant =
    session.tally.noncompliant + if session.allFoundBy f = .none then 0 else 1 := by
  have same : (session.pass f).tally = session.tally.add (session.allFoundBy f) := rfl
  rw [same, Tally.add]
  by_cases none : session.allFoundBy f = .none
  · rw [if_pos none, if_pos (Findings.isEmpty_iff.2 none)]
  · rw [if_neg none, if_neg fun empty => none (Findings.isEmpty_iff.1 empty)]

theorem le_noncompliant_passAll (session : Session) (frames : List Frame) :
    session.tally.noncompliant ≤ (session.passAll frames).tally.noncompliant := by
  induction frames generalizing session with
  | nil => exact Nat.le_refl _
  | cons f more ih =>
    refine Nat.le_trans ?_ (ih (session.pass f))
    rw [noncompliant_pass]
    exact Nat.le_add_right _ _

/-- No record is counted as wrong just if nothing is wrong with any. -/
theorem noncompliant_passAll (session : Session) (frames : List Frame) :
    (session.passAll frames).tally.noncompliant = session.tally.noncompliant ↔ session.Clean frames := by
  induction frames generalizing session with
  | nil =>
    constructor
    · intro _
      exact trivial
    · intro _
      rfl
  | cons f more ih =>
    have later := ih (session.pass f)
    have grows := le_noncompliant_passAll (session.pass f) more
    have step := noncompliant_pass f session
    change ((session.pass f).passAll more).tally.noncompliant = _ ↔ _ ∧ _
    rw [← later, step]
    by_cases none : session.allFoundBy f = .none
    · simp [none]
    · rw [if_neg none] at step
      constructor
      · intro same
        omega
      · rintro ⟨clean, -⟩
        exact absurd clean none

end Scanner.Session

namespace Audit

open Scanner (Session Visit Gives Ends AtPlain)

variable {σ : Type} [Supply σ] {session : Session} {f : Frame} {visit : Visit σ} {after : Scanner σ → Prop}
  {passed : Frame → Scanner σ → Prop} {ended : Session → Scanner σ → Prop} {frames : List Frame}
  {scanner : Scanner σ} {last : Findings}

/-- A record that has been read to its end and closed is known to be right or wrong. -/
theorem readThrough_opens (h : visit.Opens session f after) : ∃ visit', readThrough visit = .ok visit' ∧
    visit'.entry.compliant = some (session.allFoundBy f).isEmpty ∧ after visit'.leave := by
  obtain ⟨entry, closed, all, isClosed, closes⟩ := h.readAll (by decide : 0 < stride)
  refine ⟨{ visit with entry := closed }, by simp only [readThrough, all, isClosed], ?_, closes.after⟩
  obtain ⟨source, rfl⟩ := closes.is
  simp only [Entry.closed, h.findings, h.isMember, Session.allFoundBy]

omit [Supply σ] in
theorem reportRecord_cases (visit : Visit σ) (report : Sink) :
    (∃ report', reportRecord visit report = .ok () report') ∨
      ∃ failure report', reportRecord visit report = .error failure report' ∧
        visit.entry.compliant = some false := by
  unfold reportRecord
  dsimp only
  by_cases wrong : visit.entry.compliant = some false
  · rw [if_pos wrong]
    cases written : writeLine (reportLine visit.entry.header.start (visit.entry.header.url.text.getD "-")
        visit.entry.findings) report with
    | ok _ report' => exact .inl ⟨report', rfl⟩
    | error failure report' => exact .inr ⟨failure, report', rfl, wrong⟩
  · rw [if_neg wrong]
    exact .inl ⟨report, rfl⟩

/-- Checking a record either ends the run or leads on to the records behind it. -/
theorem checkRecords_record {scanner : Scanner σ} {visit visit' : Visit σ} (next : scanner.next = .record visit)
    (through : readThrough visit = .ok visit') (report : Sink) :
    checkRecords scanner report =
      EStateM.bind (reportRecord visit') (fun _ => checkRecords visit'.leave) report := by
  rw [checkRecords]
  split
  · next other => cases next.symm.trans other
  · next other => cases next.symm.trans other
  · next other =>
    cases next.symm.trans other
    split
    · next other => cases through.symm.trans other
    · next other =>
      cases through.symm.trans other
      simp only [EStateM.bind]
      cases reportRecord visit' report <;> rfl

/-- Records are checked to the last one, unless something is wrong with one and that cannot be written. -/
theorem checkRecords_gives (h : Gives passed ended session frames scanner)
    (atEnd : ∀ session scanner, ended session scanner → Ends last session scanner) (report : Sink) :
    (∃ scanner' report' memberStart, checkRecords scanner report = .ok scanner' report' ∧
      scanner'.session = ((session.passAll frames).finish last).at memberStart) ∨
    ∃ failure report', checkRecords scanner report = .error failure report' ∧ ¬ session.Clean frames := by
  induction frames generalizing session scanner report with
  | nil =>
    obtain ⟨scanner', memberStart, next, same⟩ := atEnd session scanner h
    refine .inl ⟨scanner', report, memberStart, ?_, same⟩
    unfold checkRecords
    split <;> simp_all
  | cons f more ih =>
    obtain ⟨visit, next, opens⟩ := h
    obtain ⟨visit', through, compliant, -, onward⟩ := readThrough_opens opens
    rw [checkRecords_record next through]
    simp only [EStateM.bind]
    rcases reportRecord_cases visit' report with ⟨report', written⟩ | ⟨failure, report', failed, wrong⟩
    · rw [written]
      rcases ih onward report' with
        ⟨scanner', report'', memberStart, checked, same⟩ | ⟨failure, report'', failed, wrong⟩
      · exact .inl ⟨scanner', report'', memberStart, checked, same⟩
      · refine .inr ⟨failure, report'', failed, ?_⟩
        rintro ⟨-, clean⟩
        exact wrong clean
    · rw [failed]
      refine .inr ⟨failure, report', rfl, ?_⟩
      rintro ⟨none, -⟩
      rw [compliant, none] at wrong
      cases wrong

section Run

variable {input : σ} {data : Bytes} {options : Options} {holds : σ → Bytes → Prop}

theorem sniffed_plain (steady : Supply.Steady holds) (plain : ¬ Gzip.magic <+: data)
    (buffered : 0 < options.bufferSize) (held : holds input data) :
    ∃ scanner session, Scanner.sniffed options input = .ok scanner ∧ session.Fresh options ∧
      session.tally = .zero ∧ session.findings = .none ∧ AtPlain holds session 0 data scanner := by
  obtain ⟨stream, sniffed, held', -⟩ := Scanner.sniffed_holds options steady held
  rw [if_neg plain] at sniffed
  exact ⟨_, _, sniffed, ⟨rfl, rfl, rfl, rfl, rfl⟩, rfl, rfl, Scanner.ofStream_atPlain 0 buffered held'⟩

theorem isCompliant_iff (summary : Summary) :
    summary.isCompliant = true ↔ summary.tally.noncompliant = 0 ∧ summary.findings = .none := by
  rw [Summary.isCompliant, Bool.and_eq_true, beq_iff_eq, Findings.isEmpty_iff]

/-- A run ends and has found nothing wrong. -/
def isAccepted : EStateM.Result Failure Sink Summary → Bool
  | .ok summary _ => summary.isCompliant
  | .error _ _ => false

omit [Supply σ] in
theorem isAccepted_iff {result : EStateM.Result Failure Sink Summary} :
    isAccepted result = true ↔ ∃ summary report, result = .ok summary report ∧ summary.isCompliant = true := by
  constructor
  · intro accepted
    cases result with
    | ok summary report => exact ⟨summary, report, rfl, accepted⟩
    | error => cases accepted
  · rintro ⟨summary, report, rfl, compliant⟩
    exact compliant

/-- When all records have been checked, nothing is wrong just if no record was and nothing is behind the last. -/
theorem run_isCompliant {scanner scanner' : Scanner σ} {report report' : Sink}
    (sniffed : Scanner.sniffed options input = .ok scanner)
    (checked : checkRecords scanner report = .ok scanner' report') :
    (∃ summary report'', run options input report = .ok summary report'' ∧ summary.isCompliant = true) ↔
      scanner'.session.tally.noncompliant = 0 ∧ scanner'.session.findings = .none := by
  simp only [run, sniffed, checked]
  by_cases none : scanner'.session.findings = .none
  · rw [if_pos (Findings.isEmpty_iff.2 none)]
    constructor
    · rintro ⟨summary, report'', same, compliant⟩
      cases same
      exact (isCompliant_iff _).1 compliant
    · intro right
      exact ⟨_, report', rfl, (isCompliant_iff _).2 right⟩
  · rw [if_neg fun empty => none (Findings.isEmpty_iff.1 empty)]
    constructor
    · rintro ⟨summary, report'', same, compliant⟩
      split at same
      · cases same
        exact absurd ((isCompliant_iff _).1 compliant).2 none
      · cases same
    · intro right
      exact absurd right.2 none

/-- A file is found to be compliant just if it is sound, whatever supply it comes from and whatever room there is for
the report. -/
theorem accepts_iff_isSound (yields : Supply.Yields input data) (plain : ¬ Gzip.magic <+: data)
    (buffered : 0 < options.bufferSize) (encodes : options.Encodes) (report : Sink) :
    (∃ summary report', run options input report = .ok summary report' ∧ summary.isCompliant = true) ↔
      IsSound options data := by
  obtain ⟨holds, steady, held⟩ := yields
  obtain ⟨scanner, session, sniffed, fresh, zero, none, stands⟩ := sniffed_plain steady plain buffered held
  have gives := Scanner.plain_gives steady stands
  rw [fresh.base] at gives
  have sound : IsSound options data ↔
      session.Clean (Frame.plain 0 0 data).1 ∧ (Frame.plain 0 0 data).2 = .none := by
    constructor
    · exact fresh.clean_of_sound encodes
    · rintro ⟨clean, last⟩
      exact fresh.sound_of_clean encodes clean last
  rw [sound]
  rcases checkRecords_gives gives (fun _ _ ends => ends) report with
    ⟨scanner', report', memberStart, checked, same⟩ | ⟨failure, report', failed, wrong⟩
  · have counted := session.noncompliant_passAll (Frame.plain 0 0 data).1
    have findings : scanner'.session.findings = (Frame.plain 0 0 data).2 := by
      rw [same]
      change (session.passAll _).findings ++ _ = _
      rw [(session.kept_passAll _).2.2.2, none, Findings.none_append]
    have tally : scanner'.session.tally = (session.passAll (Frame.plain 0 0 data).1).tally := by
      rw [same]
      rfl
    rw [zero] at counted
    rw [run_isCompliant sniffed checked, tally, findings]
    apply and_congr_left
    intro _
    exact counted
  · constructor
    · rintro ⟨summary, report'', ran, -⟩
      simp only [run, sniffed, failed] at ran
      cases ran
    · intro right
      exact absurd right.1 wrong

/-- A version block and one more record. -/
def soundFile : Bytes := Bytes.ofString
  "filedesc://a.arc 0.0.0.0 20200101000000 text/plain 67\n1 0 Origin\nURL IP-address Archive-date Content-type Archive-length\n\nftp://b/ 1.1.1.1 20200101000000 text/html 1\nx\n"

theorem accepts_iff_isSound_soundFile : Supply.Yields (Input.ofBytes soundFile) soundFile ∧
    ¬ Gzip.magic <+: soundFile ∧ 0 < Options.default.bufferSize ∧ Options.default.Encodes ∧
    IsSound .default soundFile := by
  have yields := Input.yields_ofBytes soundFile
  have plain : ¬ Gzip.magic <+: soundFile := by decide +kernel
  have buffered : 0 < Options.default.bufferSize := by decide
  have encodes : Options.default.Encodes := .inr ⟨rfl, rfl⟩
  refine ⟨yields, plain, buffered, encodes, (accepts_iff_isSound yields plain buffered encodes (.empty none)).1 ?_⟩
  exact isAccepted_iff.1 (by decide +kernel)

end Run

end Audit
end ArcFile
