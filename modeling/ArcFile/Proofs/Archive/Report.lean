import ArcFile.Proofs.Archive.Acceptance
import ArcFile.Proofs.Archive.Closing
import ArcFile.Proofs.Archive.Progress
import ArcFile.Proofs.Record.OneLine
/-!
The report of a check. It has one line for each record with something wrong, in the order of the records, and a last one
for what is wrong with the data outside of them: nothing that is quoted can break a line in two. The counts of the
summary are those of the lines.
-/
namespace ArcFile

open Text

/-- Whatever is said of the record fits on one line. -/
structure Entry.IsOneLine {τ : Type} (entry : Entry τ) : Prop where
  header : entry.header.IsOneLine
  findings : entry.findings.All Finding.IsOneLine
  encoding : IsLine entry.options.digestEncoding

/-- Whatever is said of the data outside of records fits on one line. -/
structure Scanner.Session.IsOneLine (session : Session) : Prop where
  findings : session.findings.All Finding.IsOneLine
  encoding : IsLine session.options.digestEncoding

namespace Entry

variable {τ : Type} [Supply τ] {options : Options} {isMember : Bool} {header : RecordHeader} {findings : Findings}
  {c : Cursor τ} {entry entry' : Entry τ}

theorem isOneLine_ofHeader (h : header.IsOneLine) (all : findings.All Finding.IsOneLine)
    (encoding : IsLine options.digestEncoding) (opened : ofHeader options isMember header findings c = .ok entry) :
    entry.IsOneLine := by
  unfold ofHeader at opened
  dsimp only at opened
  split at opened
  · split at opened
    · cases opened
    · cases opened
      refine ⟨h, ?_, encoding⟩
      simp only [ofBody, Findings.addErrors_eq]
      exact Findings.all_append (Findings.all_append all (Findings.all_errors fun f =>
        VersionLines.isOneLine_headerFindings h)) (Findings.all_errors fun f => VersionLines.isOneLine_take)
  · have head {body body' : Body (Cursor τ)} {head : Option Http.Head} {more : Findings}
        (taken : takeHead options header body = .ok (head, more) body') : more.All Finding.IsOneLine := by
      unfold takeHead at taken
      split at taken
      · cases taken
        exact Findings.all_none
      · split at taken
        · cases taken
          exact Findings.all_error (by decide)
        · split at taken
          · cases taken
          · cases taken
            exact Findings.all_error (by decide)
          · next parsed =>
            cases taken
            unfold Body.parse at parsed
            split at parsed
            · next read =>
              cases parsed
              intro f among
              exact Http.Head.isOneLine_read read
                (by simpa [Findings.toList, Findings.addWarnings, Findings.none] using among)
            · cases parsed
    split at opened
    · cases opened
    · next taken =>
      cases opened
      exact ⟨h, Findings.all_append all (head taken), encoding⟩

theorem keeps_isOneLine : Supply.Keeps fun entry : Entry τ => entry.IsOneLine := by
  constructor
  intro n entry entry' data short found
  have found : read n entry = .ok data entry' := found
  unfold read at found
  split at found
  · cases found
    exact short
  · split at found
    · cases found
      exact ⟨short.header, short.findings, short.encoding⟩
    · cases found

theorem isOneLine_passTrailer {c c' : Cursor τ} (taken : passTrailer entry c = .ok findings c') :
    findings.All Finding.IsOneLine := by
  unfold passTrailer at taken
  split at taken
  · cases taken
    exact Findings.all_none
  · split at taken
    · next trailer _ _ =>
      cases taken
      intro f among
      simp only [Findings.toList, Trailer.findings, List.mem_append] at among
      rcases among with error | warning
      · split at error
        · cases error
        · obtain rfl := List.mem_singleton.1 error
          refine .of (by decide) fun detail among => ?_
          simp only [List.mem_cons, List.not_mem_nil, or_false] at among
          rcases among with rfl | rfl
          · exact isLine_nat _
          · decide
      · split at warning
        · obtain rfl := List.mem_singleton.1 warning
          decide
        · cases warning
    · cases taken

theorem isOneLine_passMember {c c' : Cursor τ} (left : passMember entry c = .ok findings c') :
    findings.All Finding.IsOneLine := by
  unfold passMember at left
  split at left
  · cases left
    exact Findings.all_none
  · split at left
    · cases left
      exact Findings.all_none
    · cases left
      refine Findings.all_error (.of (by decide) fun detail among => ?_)
      rw [List.mem_singleton.1 among]
      exact isLine_nat _
    · cases left

/-- What closing finds fits on one line, too. -/
theorem isOneLine_close (short : entry.IsOneLine) (closed : entry.close = .ok () entry') : entry'.IsOneLine := by
  have isSealed (result : Body.Sealed) : (entry.withSealed result).IsOneLine := by
    refine ⟨short.header, ?_, short.encoding⟩
    simp only [withSealed, Findings.addErrors_eq]
    refine Findings.all_append ?_ (Findings.all_errors fun f among => ?_)
    · split
      · exact short.findings
      · rw [Findings.addError_eq]
        refine Findings.all_append short.findings (Findings.all_error (.of (by decide) fun detail among => ?_))
        simp only [List.mem_cons, List.not_mem_nil, or_false] at among
        rcases among with rfl | rfl
        · decide
        · exact isLine_nat _
    · split at among
      · cases among
      · obtain rfl := List.mem_singleton.1 among
        exact .of (by decide) fun detail among => List.mem_singleton.1 among ▸ short.encoding
  have passed {entry : Entry τ} {c : Cursor τ} (short : entry.IsOneLine) (rest : passRest entry c = .ok () entry') :
      entry'.IsOneLine := by
    unfold passRest at rest
    split at rest
    · cases rest
    · next trailer c' taken =>
      dsimp only at rest
      split at rest
      · cases rest
      · next extra c'' left =>
        cases rest
        have all : trailer.All Finding.IsOneLine ∧ extra.All Finding.IsOneLine :=
          ⟨isOneLine_passTrailer taken, isOneLine_passMember left⟩
        exact ⟨short.header, Findings.all_append (Findings.all_append short.findings all.1) all.2, short.encoding⟩
  unfold close at closed
  split at closed
  · cases closed
    exact short
  · split at closed
    · cases closed
    · exact passed (isSealed _) closed

end Entry
namespace Scanner

variable {σ : Type} [Supply σ] {scanner scanner' : Scanner σ} {visit : Visit σ}

theorem isOneLine_nextHeader {findings : Findings} {header : Option RecordHeader}
    (next : scanner.nextHeader = .ok (header, findings) scanner') :
    (∀ h, header = some h → h.IsOneLine) ∧ findings.All Finding.IsOneLine := by
  refine of_nextHeader RecordHeader.isOneLine_of_next ?_ ?_ ⟨fun h is => (by cases is), Findings.all_none⟩ next
  · rintro header findings start ⟨texts, all⟩
    have own := texts header rfl
    exact ⟨fun h is => (by cases is; exact own), all⟩
  · rintro header found more ⟨-, short⟩ ⟨texts, all⟩
    exact ⟨texts, Findings.all_append short all⟩

theorem isOneLine_ended (short : scanner.session.IsOneLine) (found : scanner.next = .ended scanner') :
    scanner'.session.IsOneLine := by
  unfold next at found
  split at found
  · cases found
  · next findings behind sought =>
    cases found
    obtain ⟨memberStart, same⟩ := scanner.session_nextHeader
    rw [sought] at same
    have same : behind.session = scanner.session.at memberStart := same
    constructor
    · simp only [same, Session.at]
      exact Findings.all_append short.findings (isOneLine_nextHeader sought).2
    · simp only [same, Session.at]
      exact short.encoding
  · dsimp only at found
    split at found <;> cases found

/-- Whatever is said of a record that was found fits on one line. -/
theorem isOneLine_record (short : scanner.session.IsOneLine) (found : scanner.next = .record visit) :
    visit.session.IsOneLine ∧ visit.entry.IsOneLine := by
  obtain ⟨header, findings, between, sought, opened, sameSession⟩ := opened_of_next found
  obtain ⟨memberStart, same⟩ := scanner.session_nextHeader
  rw [sought] at same
  have same : between.session = scanner.session.at memberStart := same
  obtain ⟨sameOptions, -, -, sameFindings⟩ := between.session.kept_enter header
  have options : (between.session.enter header).1.options = scanner.session.options := by
    rw [sameOptions, same]
    rfl
  have before : (between.session.enter header).1.findings = scanner.session.findings := by
    rw [sameFindings, same]
    rfl
  obtain ⟨texts, all⟩ := isOneLine_nextHeader sought
  have placed : (findings.addErrors (between.session.enter header).2).All Finding.IsOneLine := by
    rw [Findings.addErrors_eq]
    refine Findings.all_append all (Findings.all_errors fun f among => ?_)
    rcases Session.mem_enter among with rfl | rfl | ⟨layout, expected, rfl⟩
    · decide
    · decide
    · refine .of (by decide) fun detail among => ?_
      simp only [List.mem_cons, List.not_mem_nil, or_false] at among
      rcases among with rfl | rfl <;> exact isLine_nat _
  refine ⟨?_, Entry.isOneLine_ofHeader (texts header rfl) placed (options ▸ short.encoding) opened⟩
  rw [sameSession]
  have entered : (between.session.enter header).1.IsOneLine :=
    ⟨before ▸ short.findings, options ▸ short.encoding⟩
  cases visit.entry.kind <;> exact ⟨entered.findings, entered.encoding⟩

/-- Reading all of a record and closing it counts it, and leaves what is said of the file as it was. -/
theorem readOut_isOneLine {stride : Nat} {account : Account} {behind : Scanner σ} (short : visit.session.IsOneLine)
    (own : visit.entry.IsOneLine) (isOpen : visit.entry.IsOpen)
    (read : visit.readOut stride = .ok (account, behind)) :
    account.header.IsOneLine ∧ account.findings.All Finding.IsOneLine ∧
      account.compliant = some account.findings.isEmpty ∧ behind.session.IsOneLine ∧
      behind.session.tally = visit.session.tally.add account.findings := by
  unfold Visit.readOut at read
  split at read
  · cases read
  · next _ unclosed all =>
    split at read
    · cases read
    · next entry closed =>
      cases read
      have short' := Entry.isOneLine_close (Entry.keeps_isOneLine.readAll own all) closed
      have complete := (Entry.keeps_isOpen.readAll isOpen all).close_ok closed
      have compliant := complete.judged
      have again : entry.close = .ok () entry := Entry.close_of_isClosed complete.passed
      have left : Visit.leave { visit with entry } = ⟨visit.session.count entry, entry.source⟩ := leave_eq again
      have counted : visit.session.count entry =
          { visit.session with tally := visit.session.tally.add entry.findings } := by
        rw [Session.count, compliant]
        rfl
      rw [left, counted]
      exact ⟨short'.header, short'.findings, compliant, ⟨short.findings, short.encoding⟩, rfl⟩

end Scanner

/-- Something was found wrong with the record. -/
def Account.isFlagged (account : Account) : Bool := account.compliant == some false

namespace Audit

/-- A line of the report without its end. -/
def lineText (start : Nat) (name : String) (findings : Findings) : String :=
  toString start ++ "\t" ++ name ++ "\t" ++ renderFindings findings

/-- The line of the report for a record. -/
def lineOf (account : Account) : Bytes :=
  Bytes.ofString (lineText account.header.start (account.header.url.text.getD "-") account.findings)

theorem reportLine_eq (start : Nat) (name : String) (findings : Findings) :
    reportLine start name findings = Bytes.ofString (lineText start name findings) ++ [Bytes.lineFeed] := by
  rw [reportLine, Bytes.ofString_append]
  rfl

theorem isLine_lineText {name : String} {findings : Findings} (start : Nat) (h : IsLine name)
    (all : findings.All Finding.IsOneLine) : IsLine (lineText start name findings) := by
  have rendered : IsLine (renderFindings findings) := by
    refine isLine_intercalate (by decide) fun part among => ?_
    rcases List.mem_append.1 among with error | warning
    · obtain ⟨f, isError, rfl⟩ := List.mem_map.1 error
      exact isLine_append (by decide) (all f (List.mem_append_left _ isError)).render
    · obtain ⟨f, isWarning, rfl⟩ := List.mem_map.1 warning
      exact isLine_append (by decide) (all f (List.mem_append_right _ isWarning)).render
  exact isLine_append (isLine_append (isLine_append (isLine_append (isLine_nat start) (by decide)) h) (by decide))
    rendered

theorem isLine_name {header : RecordHeader} (h : header.IsOneLine) : IsLine (header.url.text.getD "-") := by
  cases url : header.url.text with
  | none => decide
  | some text => exact h text (by simp [RecordHeader.rawTexts, url])

variable {σ : Type} {report report' : Sink}

theorem writeLine_ok {line : Bytes} (unlimited : report.room = none) (written : writeLine line report = .ok () report') :
    report'.room = none ∧ report'.bytes = report.bytes ++ line := by
  unfold writeLine Sink.write at written
  rw [unlimited] at written
  cases written
  exact ⟨rfl, rfl⟩

variable [Supply σ] {scanner last : Scanner σ} {visit visit' : Scanner.Visit σ}

/-- What is taken down of a record that is read to its end is what the report is written from. -/
theorem readOut_of_readThrough (through : readThrough visit = .ok visit') :
    ∃ account, visit.readOut stride = .ok (account, visit'.leave) ∧ account.header = visit'.entry.header ∧
      account.findings = visit'.entry.findings ∧ account.compliant = visit'.entry.compliant := by
  unfold readThrough at through
  unfold Scanner.Visit.readOut
  rcases all : Supply.readAll stride [] visit.entry with ⟨content, ⟨_, atEnd⟩ | ⟨fault, stopped⟩⟩
  · cases closed : atEnd.close with
    | ok _ entry =>
      simp only [all, closed] at through ⊢
      cases through
      exact ⟨_, rfl, rfl, rfl, rfl⟩
    | error fault stopped =>
      simp only [all, closed] at through
      cases through
  · simp only [all] at through
    cases through

omit [Supply σ] in
/-- A record has a line in the report just if something is wrong with it. -/
theorem reportRecord_ok {account : Account} (unlimited : report.room = none)
    (header : account.header = visit.entry.header) (findings : account.findings = visit.entry.findings)
    (compliant : account.compliant = visit.entry.compliant) (written : reportRecord visit report = .ok () report') :
    report'.room = none ∧
      report'.bytes = report.bytes ++ if account.isFlagged then lineOf account ++ [Bytes.lineFeed] else [] := by
  unfold reportRecord at written
  dsimp only at written
  rw [← compliant] at written
  split at written
  · next wrong =>
    obtain ⟨room, bytes⟩ := writeLine_ok unlimited written
    have flagged : account.isFlagged = true := by
      rw [Account.isFlagged, wrong]
      rfl
    rw [if_pos flagged, bytes, reportLine_eq, ← header, ← findings]
    exact ⟨room, rfl⟩
  · next right =>
    cases written
    have flagged : ¬ account.isFlagged = true := by
      rw [Account.isFlagged, beq_iff_eq]
      exact right
    rw [if_neg flagged, List.append_nil]
    exact ⟨unlimited, rfl⟩

/-- What has become of the report when all records that follow have been checked. -/
structure Reports (scanner : Scanner σ) (report : Sink) (last : Scanner σ) (report' : Sink) (records : List Account) :
    Prop where
  survey : Scanner.survey stride scanner =
    ⟨records, .ended, last.session.tally, last.session.findings, last.position⟩
  lines : report'.bytes = report.bytes ++
    ((records.filter Account.isFlagged).map fun account => lineOf account ++ [Bytes.lineFeed]).flatten
  room : report'.room = none
  short : ∀ account ∈ records, account.header.IsOneLine ∧ account.findings.All Finding.IsOneLine
  outside : last.session.IsOneLine
  counted : last.session.tally.noncompliant =
    scanner.session.tally.noncompliant + (records.filter Account.isFlagged).length

theorem checkRecords_reports (short : scanner.session.IsOneLine) (unlimited : report.room = none)
    (checked : checkRecords scanner report = .ok last report') :
    ∃ records, Reports scanner report last report' records := by
  fun_induction checkRecords scanner report with
  | case1 => cases checked
  | case2 scanner report last' found =>
    cases checked
    refine ⟨[], Scanner.survey_ended found, by simp, unlimited, by simp, Scanner.isOneLine_ended short found, ?_⟩
    have tally := scanner.tally_next
    rw [found] at tally
    exact congrArg Tally.noncompliant tally
  | case3 => cases checked
  | case4 => cases checked
  | case5 scanner report visit found visit' through report'' written _ ih =>
    obtain ⟨short', own⟩ := Scanner.isOneLine_record short found
    obtain ⟨account, read, header, findings, compliant⟩ := readOut_of_readThrough through
    obtain ⟨texts, all, isCompliant, later, tally⟩ := Scanner.readOut_isOneLine short' own (Scanner.isOpen_of_next found) read
    have before := scanner.tally_next
    rw [found] at before
    have before : visit.session.tally = scanner.session.tally := before
    rw [before] at tally
    obtain ⟨room, bytes⟩ := reportRecord_ok unlimited header findings compliant written
    obtain ⟨records, rest⟩ := ih later room checked
    have flagged : account.isFlagged = !account.findings.isEmpty := by
      rw [Account.isFlagged, isCompliant]
      cases account.findings.isEmpty <;> rfl
    refine ⟨account :: records, ?_, ?_, rest.room, List.forall_mem_cons.2 ⟨⟨texts, all⟩, rest.short⟩, rest.outside, ?_⟩
    · rw [Scanner.survey_record found read, rest.survey]
    · rw [rest.lines, bytes, List.filter_cons]
      cases account.isFlagged with
      | true => simp
      | false => simp
    · rw [rest.counted, tally, List.filter_cons, flagged]
      simp only [Tally.add]
      cases account.findings.isEmpty with
      | true => rfl
      | false =>
        simp only [Bool.not_false, Bool.false_eq_true, ↓reduceIte, List.length_cons]
        omega

/-- The lines of a report without their ends: one for each record with something wrong, in order, and a last one for what
is wrong outside of records. -/
def linesOf (records : List Account) (position : Nat) (outside : Findings) : List Bytes :=
  (records.filter Account.isFlagged).map lineOf ++
    if outside.isEmpty then [] else [Bytes.ofString (lineText position "-" outside)]

/-- A report that says of these records, and of the data outside of them, just what the summary counts. -/
structure Agrees (records : List Account) (position : Nat) (summary : Summary) (report : Bytes) : Prop where
  terminated : report = ((linesOf records position summary.findings).map (· ++ [Bytes.lineFeed])).flatten
  unbroken : ∀ line ∈ linesOf records position summary.findings, Bytes.lineFeed ∉ line
  count : report.count Bytes.lineFeed =
    summary.tally.noncompliant + if summary.findings.isEmpty then 0 else 1
  empty : report = [] ↔ summary.isCompliant = true
  flagged : (records.filter Account.isFlagged).length = summary.tally.noncompliant
  starts : ((records.filter Account.isFlagged).map fun account => account.header.start).Pairwise (· < ·)
  record : ∀ (i : Nat) (account : Account), (records.filter Account.isFlagged)[i]? = some account →
    ∃ rest, (linesOf records position summary.findings)[i]? =
      some (Bytes.ofString (toString account.header.start ++ "\t") ++ rest)
  outside : summary.findings.isEmpty = false → ∃ rest,
    (linesOf records position summary.findings).getLast? = some (Bytes.ofString (toString position ++ "\t-") ++ rest)

section Lines

variable {records : List Account} {position : Nat} {outside : Findings}

theorem unbroken_linesOf (short : ∀ account ∈ records, account.header.IsOneLine ∧ account.findings.All Finding.IsOneLine)
    (all : outside.All Finding.IsOneLine) : ∀ line ∈ linesOf records position outside, Bytes.lineFeed ∉ line := by
  intro line among
  rcases List.mem_append.1 among with first | last
  · obtain ⟨account, isFlagged, rfl⟩ := List.mem_map.1 first
    obtain ⟨texts, all⟩ := short account (List.mem_filter.1 isFlagged).1
    exact Bytes.lineFeed_not_mem_ofString (isLine_lineText _ (isLine_name texts) all)
  · split at last
    · cases last
    · rw [List.mem_singleton.1 last]
      exact Bytes.lineFeed_not_mem_ofString (isLine_lineText _ (by decide) all)

theorem length_linesOf : (linesOf records position outside).length =
    (records.filter Account.isFlagged).length + if outside.isEmpty then 0 else 1 := by
  rw [linesOf, List.length_append, List.length_map]
  split <;> rfl

/-- Lines without line feeds can be told apart by the line feeds between them. -/
theorem count_lineFeed {lines : List Bytes} (unbroken : ∀ line ∈ lines, Bytes.lineFeed ∉ line) :
    (lines.map (· ++ [Bytes.lineFeed])).flatten.count Bytes.lineFeed = lines.length := by
  induction lines with
  | nil => rfl
  | cons line more ih =>
    have first := List.count_eq_zero.2 (unbroken line List.mem_cons_self)
    have rest := ih fun other among => unbroken other (List.mem_cons_of_mem _ among)
    rw [List.map_cons, List.flatten_cons, List.count_append, List.count_append, first, rest, List.length_cons]
    simp only [List.count_singleton_self]
    omega

/-- What a line of the report begins with. -/
theorem lineText_start (start : Nat) (name : String) (findings : Findings) :
    ∃ rest, Bytes.ofString (lineText start name findings) = Bytes.ofString (toString start ++ "\t" ++ name) ++ rest := by
  unfold lineText
  rw [Bytes.ofString_append, Bytes.ofString_append, List.append_assoc]
  exact ⟨_, rfl⟩

theorem getElem?_linesOf {i : Nat} {account : Account} (h : (records.filter Account.isFlagged)[i]? = some account) :
    ∃ rest, (linesOf records position outside)[i]? =
      some (Bytes.ofString (toString account.header.start ++ "\t") ++ rest) := by
  obtain ⟨rest, same⟩ := lineText_start account.header.start (account.header.url.text.getD "-") account.findings
  rw [Bytes.ofString_append, List.append_assoc] at same
  refine ⟨Bytes.ofString (account.header.url.text.getD "-") ++ rest, ?_⟩
  obtain ⟨fits, -⟩ := List.getElem?_eq_some_iff.1 h
  rw [linesOf, List.getElem?_append_left (by rwa [List.length_map]), List.getElem?_map, h, ← same]
  rfl

theorem getLast?_linesOf (some : outside.isEmpty = false) :
    ∃ rest, (linesOf records position outside).getLast? =
      Option.some (Bytes.ofString (toString position ++ "\t-") ++ rest) := by
  obtain ⟨rest, same⟩ := lineText_start position "-" outside
  refine ⟨rest, ?_⟩
  rw [linesOf, some, if_neg Bool.false_ne_true, List.getLast?_concat, same, String.append_assoc]
  rfl

end Lines

/-- When all records have been checked, the report agrees with what has been counted. -/
theorem agrees_of_reports {summary : Summary} {records : List Account}
    (reports : Reports scanner (.empty none) last report records) (zero : scanner.session.tally = .zero)
    (starts : (records.map fun account => account.header.start).Pairwise (· < ·))
    (tally : summary.tally = last.session.tally) (findings : summary.findings = last.session.findings) :
    Agrees records last.position summary
      (report.bytes ++ if summary.findings.isEmpty then [] else reportLine last.position "-" summary.findings) := by
  have flagged : (records.filter Account.isFlagged).length = summary.tally.noncompliant := by
    have counted := reports.counted
    rw [zero, ← tally] at counted
    simp only [Tally.zero] at counted
    omega
  have unbroken : ∀ line ∈ linesOf records last.position summary.findings, Bytes.lineFeed ∉ line :=
    unbroken_linesOf reports.short (findings ▸ reports.outside.findings)
  have terminated : report.bytes ++ (if summary.findings.isEmpty then []
      else reportLine last.position "-" summary.findings) =
      ((linesOf records last.position summary.findings).map (· ++ [Bytes.lineFeed])).flatten := by
    have own : report.bytes = (((records.filter Account.isFlagged).map lineOf).map (· ++ [Bytes.lineFeed])).flatten := by
      rw [reports.lines, List.map_map]
      rfl
    rw [linesOf, List.map_append, List.flatten_append, own]
    split
    · rfl
    · rw [reportLine_eq]
      simp
  have count : (report.bytes ++ if summary.findings.isEmpty then []
      else reportLine last.position "-" summary.findings).count Bytes.lineFeed =
      summary.tally.noncompliant + if summary.findings.isEmpty then 0 else 1 := by
    rw [terminated, count_lineFeed unbroken, length_linesOf, flagged]
  have empty : (report.bytes ++ if summary.findings.isEmpty then []
      else reportLine last.position "-" summary.findings) = [] ↔ summary.isCompliant = true := by
    rw [isCompliant_iff, ← Findings.isEmpty_iff]
    constructor
    · intro none
      rw [none, List.count_nil] at count
      by_cases empty : summary.findings.isEmpty = true
      · rw [if_pos empty] at count
        exact ⟨count.symm, empty⟩
      · rw [if_neg empty] at count
        omega
    · rintro ⟨none, empty⟩
      have length : (linesOf records last.position summary.findings).length = _ := length_linesOf
      rw [flagged, none, empty] at length
      rw [terminated, List.eq_nil_of_length_eq_zero length]
      rfl
  exact ⟨terminated, unbroken, count, empty, flagged, starts.sublist (List.filter_sublist.map _),
    fun i account => getElem?_linesOf, getLast?_linesOf⟩

/-- The report of a check that succeeds and its summary agree, whatever supply the file comes from, as long as the name
of the digest encoding is one line: the records are those of a complete reading, each with something wrong has its line,
in the order in which they begin, and what is wrong outside of records has a line behind those of the records. -/
theorem run_report {options : Options} {input : σ} {summary : Summary} {report : Sink}
    (encoding : IsLine options.digestEncoding)
    (succeeded : run options input (.empty none) = .ok summary report) :
    ∃ (scanner : Scanner σ) (records : List Account) (position : Nat),
      Scanner.sniffed options input = .ok scanner ∧
      Scanner.survey stride scanner = ⟨records, .ended, summary.tally, summary.findings, position⟩ ∧
      Agrees records position summary report.bytes := by
  unfold run at succeeded
  split at succeeded
  · cases succeeded
  · next scanner sniffed =>
    have start : scanner.session.IsOneLine ∧ scanner.session.tally = .zero := by
      unfold Scanner.sniffed at sniffed
      split at sniffed
      · cases sniffed
        exact ⟨⟨Findings.all_none, encoding⟩, rfl⟩
      · cases sniffed
    split at succeeded
    · cases succeeded
    · next last report' checked =>
      obtain ⟨records, reports⟩ := checkRecords_reports start.1 rfl checked
      obtain ⟨most, atMost, -⟩ := Supply.givesAtMost_bound input
      have starts := (Scanner.starts_survey atMost stride scanner).2
      rw [reports.survey] at starts
      dsimp only at succeeded
      split at succeeded
      · next empty =>
        cases succeeded
        have agrees : Agrees records last.position
            ⟨last.session.packing, last.session.tally, last.session.findings⟩ _ :=
          agrees_of_reports reports start.2 starts rfl rfl
        rw [if_pos empty, List.append_nil] at agrees
        exact ⟨scanner, records, last.position, sniffed, reports.survey, agrees⟩
      · next some =>
        split at succeeded
        · next written =>
          cases succeeded
          have agrees : Agrees records last.position
              ⟨last.session.packing, last.session.tally, last.session.findings⟩ _ :=
            agrees_of_reports reports start.2 starts rfl rfl
          rw [if_neg some, ← (writeLine_ok reports.room written).2] at agrees
          exact ⟨scanner, records, last.position, sniffed, reports.survey, agrees⟩
        · cases succeeded

/-- The two records lack their HTTP headers, and the last line belongs to neither of them. -/
theorem run_report_twoRecords :
    IsLine Options.default.digestEncoding ∧ ∃ summary report,
      run .default (Input.ofBytes (Scanner.twoRecords ++ Bytes.ofString "\ngarbage\n")) (.empty none) =
        .ok summary report ∧
      report.bytes.count Bytes.lineFeed = 3 := by
  have encoding : IsLine Options.default.digestEncoding := by decide
  have counted : EStateM.Result.casesOn (motive := fun _ => Bool)
      (run .default (Input.ofBytes (Scanner.twoRecords ++ Bytes.ofString "\ngarbage\n")) (.empty none))
      (fun summary _ => decide (summary.tally.noncompliant = 2 ∧ summary.findings.isEmpty = false))
      (fun _ _ => false) = true := by decide +kernel
  cases succeeded :
      run .default (Input.ofBytes (Scanner.twoRecords ++ Bytes.ofString "\ngarbage\n")) (.empty none) with
  | error failure report =>
    rw [succeeded] at counted
    cases counted
  | ok summary report =>
    rw [succeeded] at counted
    obtain ⟨two, garbage⟩ := of_decide_eq_true counted
    obtain ⟨_, _, _, -, -, agrees⟩ := run_report encoding succeeded
    refine ⟨encoding, summary, report, rfl, ?_⟩
    rw [agrees.count, two, garbage]
    rfl

end Audit
end ArcFile
