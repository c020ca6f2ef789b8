import ArcFile.Proofs.Archive.Endless
import ArcFile.Proofs.Archive.Tour
import ArcFile.Proofs.Record.Line
/-!
Reading from the middle of a file. The offset where a record starts is enough to read it again: a scanner that begins
there comes to the same record at once. Only what there is before the record is not known then.
-/
namespace ArcFile

namespace Findings

/-- What the findings are about that depend on what comes before a record. -/
def placing : List String := ["ARC record", "version block", "record field version"]

/-- All findings but those: they are the record's own. -/
def own (all : Findings) : Findings :=
  ⟨all.errors.filter (·.subject ∉ placing), all.warnings.filter (·.subject ∉ placing)⟩

theorem own_append (all more : Findings) : (all ++ more).own = all.own ++ more.own := by
  simp only [own, append_eq, List.filter_append]

theorem own_of_placing {all : Findings} (h : all.All (·.subject ∈ placing)) : all.own = .none := by
  have none {findings : List Finding} (sub : ∀ f ∈ findings, f ∈ all.toList) :
      findings.filter (·.subject ∉ placing) = [] := by
    rw [List.filter_eq_nil_iff]
    intro f among
    simpa using h f (sub f among)
  rw [own, none fun f => List.mem_append_left _, none fun f => List.mem_append_right _]
  rfl

end Findings

/-- Lines that are passed over come before a record. -/
theorem RecordHeader.Skipped.placing (skipped : Skipped) :
    Findings.All (·.subject ∈ Findings.placing) ⟨skipped.findings, []⟩ := by
  apply Findings.all_errors
  intro finding among
  rcases mem_findings among with rfl | rfl <;> decide

/-- From the start of the header line on, data gives the same record, wherever it is said to begin. -/
theorem RecordHeader.first_again {pos : Nat} {data behind : Bytes} {header : RecordHeader} {findings : Findings}
    (h : first pos data = (some header, findings, behind)) :
    ∃ (before : Nat) (skipped : Skipped) (found : Findings), header.start = pos + before ∧
      findings = ⟨skipped.findings, []⟩ ++ found ∧
      ∀ pos', first pos' (data.drop before) = (some { header with start := pos' }, found, behind) := by
  obtain ⟨skipped, found, before, rfl, stands, read⟩ := findings_of_first h
  refine ⟨before, skipped, found, stands.start, rfl, ?_⟩
  intro pos'
  have nonempty : Bytes.firstLine (data.drop before) ≠ [] := by
    intro none
    have isLine := stands.isLine
    rw [none] at isLine
    cases isLine
  have read := ofLine?_start pos' read
  rw [stands.size] at read
  rw [first_of_line nonempty read, stands.behind, stands.size, List.drop_drop]

namespace Frame

/-- The frame as it is if nothing before it is known: only less has been found. -/
structure Resumed (f f' : Frame) : Prop where
  header : f'.header = f.header
  behind : f'.behind = f.behind
  found : ∃ earlier, f.found = earlier ++ f'.found ∧ earlier.All (·.subject ∈ Findings.placing)

theorem Resumed.eq {f f' : Frame} (h : f.Resumed f') : f' = { f with found := f'.found } := by
  rw [← h.header, ← h.behind]

/-- A record of plain data comes first in the data that begins where it starts. -/
theorem plain_resumed {base pos : Nat} {data : Bytes} {f : Frame} (among : f ∈ (plain base pos data).1) :
    ∃ before f', f.header.start = base + (pos + before) ∧ f.Resumed f' ∧
      (plain (base + (pos + before)) 0 (data.drop before)).1.head? = some f' := by
  induction len : data.length using Nat.strongRecOn generalizing pos data with
  | ind len ih =>
    rcases first : RecordHeader.first pos data with ⟨none | header, findings, behind⟩
    · rw [plain_none first] at among
      cases among
    obtain ⟨g, is, rfl, rfl⟩ := exists_of_found base header findings behind
    rw [plain_some first is] at among
    rcases List.mem_cons.1 among with rfl | later
    · obtain ⟨before, skipped, found, start, isFound, again⟩ := RecordHeader.first_again first
      obtain ⟨f', is', rfl, isBehind⟩ :=
        exists_of_found (base + (pos + before)) { header with start := 0 } found f.behind
      have first' := again 0
      rw [isBehind] at first'
      have same : f'.header = f.header := by rw [is', is, start, Nat.add_zero]
      refine ⟨before, f', by rw [is, start], ⟨same, isBehind.symm, _, isFound, skipped.placing⟩, ?_⟩
      rw [plain_some first' is', List.head?_cons]
    · obtain ⟨at', stands⟩ := RecordHeader.first_stands first
      have suffix : g.rest <:+ data := by
        refine (g.left_suffix false).trans ?_
        rw [stands.behind]
        exact List.drop_suffix _ _
      have less := (extent_of_stands stands (by rw [is])).2
      obtain ⟨before, f', start, resumed, made⟩ := ih _ (len ▸ less) later rfl
      have rest : g.rest.drop before = data.drop (data.length - g.rest.length + before) := by
        rw [← List.drop_drop, ← List.suffix_iff_eq_drop.1 suffix]
      rw [rest, Nat.add_assoc] at made
      rw [Nat.add_assoc] at start
      exact ⟨_, f', start, resumed, made⟩

/-- A record in gzip members comes first in the members from its own on. -/
theorem packed_resumed {base pos : Nat} {found : Findings} (placing : found.All (·.subject ∈ Findings.placing))
    {members : List (Bytes × Bytes)} {f : Frame} (among : f ∈ (packed base pos found members).1) :
    ∃ before m after, members = before ++ m :: after ∧ f.header.start = base + (pos + membersSize before) ∧
      ∃ f', f.Resumed f' ∧ (packed (base + (pos + membersSize before)) 0 .none (m :: after)).1.head? = some f' := by
  induction members generalizing pos found with
  | nil => cases among
  | cons m members ih =>
    obtain ⟨member, content⟩ := m
    rw [packed] at among
    have onward {pos' : Nat} {found' : Findings} (placing : found'.All (·.subject ∈ Findings.placing))
        (isPos : pos' = pos + member.length) (among : f ∈ (packed base pos' found' members).1) :
        ∃ before m after, (member, content) :: members = before ++ m :: after ∧
          f.header.start = base + (pos + membersSize before) ∧ ∃ f', f.Resumed f' ∧
          (packed (base + (pos + membersSize before)) 0 .none (m :: after)).1.head? = some f' := by
      obtain ⟨before, m, after, rfl, start, made⟩ := ih placing among
      have size : pos + membersSize ((member, content) :: before) = pos' + membersSize before := by
        rw [membersSize_cons, ← Nat.add_assoc, isPos]
      refine ⟨(member, content) :: before, m, after, rfl, ?_, ?_⟩
      · rw [size, start]
      · rw [size]
        exact made
    rcases first : RecordHeader.first 0 content with ⟨none | header, findings, behind⟩
    · rw [first] at among
      obtain ⟨skipped, -, rfl⟩ := RecordHeader.seek_of_first_none first
      exact onward (Findings.all_append placing skipped.placing) rfl among
    · rw [first] at among
      rcases List.mem_cons.1 among with rfl | later
      · refine ⟨[], _, members, rfl, rfl, ⟨{ header with start := base + pos }, findings, behind⟩,
          ⟨rfl, rfl, found, rfl, placing⟩, ?_⟩
        rw [packed, first]
        simp only [Findings.none_append]
        rfl
      · exact onward Findings.all_none rfl later

end Frame

namespace Scanner

/-- The session does not matter to what is taken down of a record, but for findings that depend on the records
before. -/
theorem Session.account_resumed {f f' : Frame} {session session' : Session} (resumed : f.Resumed f')
    (options : session'.options = session.options) (packing : session'.packing = session.packing) (position : Nat) :
    session'.account position f' = { session.account position f with
        findings := session'.allFoundBy f', compliant := some (session'.allFoundBy f').isEmpty } ∧
      (session'.allFoundBy f').own = (session.allFoundBy f).own := by
  have own (f : Frame) (session : Session) : (session.allFoundBy f).own = f.found.own ++
      ((f.opening session.options).own ++ (f.closing session.options (session.packing == .gzip)).own) := by
    have entering : Findings.own ⟨(session.enter f.header).2, []⟩ = .none := by
      apply Findings.own_of_placing
      apply Findings.all_errors
      intro finding among
      rcases Session.mem_enter among with rfl | rfl | ⟨layout, expected, rfl⟩
      · exact (by decide : "version block" ∈ Findings.placing)
      · exact (by decide : "version block" ∈ Findings.placing)
      · exact (by decide : "record field version" ∈ Findings.placing)
    rw [allFoundBy, foundBy, Findings.own_append, Findings.own_append, Findings.own_append, entering,
      Findings.append_none, Findings.append_assoc]
  obtain ⟨earlier, found, placing⟩ := resumed.found
  have isFound : f'.found.own = f.found.own := by
    rw [found, Findings.own_append, Findings.own_of_placing placing, Findings.none_append]
  constructor
  · rw [account, account, options, packing, resumed.eq]
    rfl
  · rw [own, own, isFound, options, packing, resumed.eq]
    rfl

/-- What is taken down is of the frames, each with what is known up to there. -/
theorem Session.mem_accounts {endOf : Frame → Nat} {frames : List Frame} {session : Session} {account : Account}
    (among : account ∈ session.accounts endOf frames) :
    ∃ f ∈ frames, ∃ session' : Session, session'.options = session.options ∧ session'.packing = session.packing ∧
      account = session'.account (endOf f) f := by
  induction frames generalizing session with
  | nil => cases among
  | cons f more ih =>
    rcases List.mem_cons.1 among with rfl | later
    · exact ⟨f, List.mem_cons_self, session, rfl, rfl, rfl⟩
    · obtain ⟨f', some, session', options, packing, is⟩ := ih later
      obtain ⟨sameOptions, samePacking, -⟩ := session.kept_pass f
      exact ⟨f', List.mem_cons_of_mem _ some, session', options.trans sameOptions, packing.trans samePacking, is⟩

theorem Session.header_accounts (endOf : Frame → Nat) (frames : List Frame) (session : Session) :
    (session.accounts endOf frames).map (·.header) = frames.map (·.header) := by
  induction frames generalizing session with
  | nil => rfl
  | cons f more ih => exact congrArg (f.header :: ·) (ih (session.pass f))

theorem Session.head?_accounts {endOf : Frame → Nat} {frames : List Frame} {f : Frame} (session : Session)
    (first : frames.head? = some f) : (session.accounts endOf frames).head? = some (session.account (endOf f) f) := by
  cases frames with
  | nil => cases first
  | cons f' more =>
    cases first
    rfl

/-- Data begins with some gzip members, and with no other. -/
theorem exists_members (data : Bytes) : ∃ members tail, data = bytesOf members tail ∧
    (∀ m ∈ members, Gzip.Decodes m.1 m.2) ∧
    ∀ member content after, tail = member ++ after → ¬ Gzip.Decodes member content := by
  induction len : data.length using Nat.strongRecOn generalizing data with
  | ind len ih =>
    by_cases begins : ∃ member content after, data = member ++ after ∧ Gzip.Decodes member content
    · obtain ⟨member, content, after, rfl, decodes⟩ := begins
      have some := List.length_pos_iff.2 decodes.ne_nil
      obtain ⟨members, tail, rfl, all, none⟩ := ih after.length (by simp at len; omega) after rfl
      refine ⟨(member, content) :: members, tail, by simp [bytesOf], ?_, none⟩
      intro m among
      rcases List.mem_cons.1 among with rfl | later
      · exact decodes
      · exact all m later
    · refine ⟨[], data, rfl, by simp, ?_⟩
      intro member content after whole decodes
      exact begins ⟨member, content, after, whole, decodes⟩

theorem drop_bytesOf (before members : List (Bytes × Bytes)) (tail : Bytes) :
    (bytesOf (before ++ members) tail).drop (Frame.membersSize before) = bytesOf members tail := by
  have size : Frame.membersSize before = (before.map (·.1)).flatten.length := by
    rw [Frame.membersSize, List.length_flatten, List.map_map]
    rfl
  rw [bytesOf, List.map_append, List.flatten_append, List.append_assoc, size, List.drop_left]
  rfl

variable {σ τ : Type} [Supply σ] [Supply τ] {input : σ} {input' : τ} {options : Options} {data tail : Bytes}
  {members : List (Bytes × Bytes)} {holds : σ → Bytes → Prop} {stride base : Nat}

theorem records_survey_plain (steady : Supply.Steady holds) (pos : 0 < stride) (buffered : 0 < options.bufferSize)
    (held : holds input data) : (survey stride (create .plain base options input)).records =
      (create .plain base options input).session.accounts (fun f => f.header.start + f.extent false)
        (Frame.plain base 0 data).1 := by
  rw [survey_plain steady pos (create_atPlain base buffered held)]
  rfl

/-- The records that can be read and closed are those in the members that the data begins with. -/
theorem records_survey_packed (steady : Supply.Steady holds) (pos : 0 < stride) (buffered : 0 < options.bufferSize)
    (held : holds input (bytesOf members tail)) (decodes : ∀ m ∈ members, Gzip.Decodes m.1 m.2)
    (other : ∀ member content after, tail = member ++ after → ¬ Gzip.Decodes member content) {endOf : Nat → Nat}
    (located : Frame.Located endOf (base + 0) members) : (survey stride (create .gzip base options input)).records =
      (create .gzip base options input).session.accounts (fun f => endOf f.header.start)
        (Frame.packed base 0 .none members).1 := by
  obtain ⟨last, behind, made⟩ :=
    survey_gives pos (packed_gives_at steady located (create_atMembers base buffered decodes held))
  rw [made, behind.records_survey steady other, List.append_nil]
  rfl

section Resume

variable {holds' : τ → Bytes → Prop} (steady : Supply.Steady holds) (steady' : Supply.Steady holds')
  (buffered : 0 < options.bufferSize) {stride' : Nat} (pos : 0 < stride) (pos' : 0 < stride') {account : Account}

include steady steady' buffered pos pos'

/-- A record of plain data comes first where it starts, and it ends at the same place. -/
theorem exists_resumed_plain (held : holds input data)
    (among : account ∈ (survey stride (create .plain base options input)).records)
    (held' : holds' input' (data.drop (account.header.start - base))) :
    base ≤ account.header.start ∧ ∃ (f f' : Frame) (session : Session) (position : Nat), f.Resumed f' ∧
      session.options = options ∧ session.packing = .plain ∧ account = session.account position f ∧
      (survey stride' (create .plain account.header.start options input')).records.head? =
        some ((create .plain account.header.start options input').session.account position f') := by
  rw [records_survey_plain steady pos buffered held] at among
  obtain ⟨f, some, session, isOptions, isPacking, is⟩ := Session.mem_accounts among
  obtain ⟨before, f', start, resumed, first⟩ := Frame.plain_resumed some
  rw [Nat.zero_add] at start first
  have start : account.header.start = base + before := is ▸ start
  rw [start, Nat.add_sub_cancel_left] at held'
  rw [← start] at first
  have made : (survey stride' (create .plain account.header.start options input')).records = _ :=
    records_survey_plain steady' pos' buffered held'
  have ends : f'.header.start + f'.extent false = f.header.start + f.extent false := by
    rw [resumed.eq]
    rfl
  refine ⟨start ▸ Nat.le_add_right base before, f, f', session, _, resumed, isOptions, isPacking, is, ?_⟩
  rw [made, ← ends]
  exact Session.head?_accounts _ first

/-- A record in gzip members comes first where its member starts, and it leaves the member at the same place. -/
theorem exists_resumed_packed (held : holds input data)
    (among : account ∈ (survey stride (create .gzip base options input)).records)
    (held' : holds' input' (data.drop (account.header.start - base))) :
    base ≤ account.header.start ∧ ∃ (f f' : Frame) (session : Session) (position : Nat), f.Resumed f' ∧
      session.options = options ∧ session.packing = .gzip ∧ account = session.account position f ∧
      (survey stride' (create .gzip account.header.start options input')).records.head? =
        some ((create .gzip account.header.start options input').session.account position f') := by
  obtain ⟨members, tail, rfl, decodes, other⟩ := exists_members data
  obtain ⟨endOf, located⟩ := Frame.exists_located (base + 0) fun m is => (decodes m is).ne_nil
  rw [records_survey_packed steady pos buffered held decodes other located] at among
  obtain ⟨f, some, session, isOptions, isPacking, is⟩ := Session.mem_accounts among
  obtain ⟨before, m, after, rfl, start, f', resumed, first⟩ := Frame.packed_resumed Findings.all_none some
  rw [Nat.zero_add] at start first
  have start : account.header.start = base + Frame.membersSize before := is ▸ start
  rw [start, Nat.add_sub_cancel_left, drop_bytesOf] at held'
  rw [← start] at first
  have located' := located.of_append
  rw [Nat.add_zero, ← start] at located'
  have decodes' : ∀ m' ∈ m :: after, Gzip.Decodes m'.1 m'.2 := by
    intro m' some
    exact decodes m' (List.mem_append_right _ some)
  have made := records_survey_packed steady' pos' buffered held' decodes' other located'
  refine ⟨start ▸ Nat.le_add_right base _, f, f', session, _, resumed, isOptions, isPacking, is, ?_⟩
  rw [made, ← resumed.header]
  exact Session.head?_accounts _ first

end Resume

/-- Whatever a file holds, a record that has been read to its end and closed without a fault is read again where it
starts: it comes first, and the same is taken down of it but for findings that depend on what was before. -/
theorem survey_resumed (packing : Packing) (base : Nat) (yields : Supply.Yields input data)
    (buffered : 0 < options.bufferSize) {stride stride' : Nat} (pos : 0 < stride) (pos' : 0 < stride')
    {account : Account} (among : account ∈ (survey stride (create packing base options input)).records)
    (yields' : Supply.Yields input' (data.drop (account.header.start - base))) :
    base ≤ account.header.start ∧ ∃ account',
      (survey stride' (create packing account.header.start options input')).records.head? = some account' ∧
      account' = { account with findings := account'.findings, compliant := account'.compliant } ∧
      account'.findings.own = account.findings.own := by
  obtain ⟨holds, steady, held⟩ := yields
  obtain ⟨holds', steady', held'⟩ := yields'
  have again : base ≤ account.header.start ∧ ∃ (f f' : Frame) (session : Session) (position : Nat), f.Resumed f' ∧
      session.options = options ∧ session.packing = packing ∧ account = session.account position f ∧
      (survey stride' (create packing account.header.start options input')).records.head? =
        some ((create packing account.header.start options input').session.account position f') := by
    cases packing with
    | plain => exact exists_resumed_plain steady steady' buffered pos pos' held among held'
    | gzip => exact exists_resumed_packed steady steady' buffered pos pos' held among held'
  obtain ⟨le, f, f', session, position, resumed, isOptions, isPacking, is, first⟩ := again
  have fresh : (create packing account.header.start options input').session.options = session.options :=
    isOptions.symm
  obtain ⟨same, own⟩ := Session.account_resumed resumed fresh isPacking.symm position
  subst is
  exact ⟨le, _, first, same, own⟩

/-- The second of two records, which is read again byte by byte. -/
theorem survey_resumed_twoRecords :
    ∃ account ∈ (survey 8192 (create .plain 0 .default (Input.ofBytes twoRecords))).records, account.header.start = 49 ∧
      ∃ account', (survey 1 (create .plain 49 .default (Input.ofBytes (twoRecords.drop 49)))).records.head? =
        some account' ∧ account'.content = account.content := by
  have yields := Input.yields_ofBytes twoRecords
  have headers : (survey 8192 (create .plain 0 .default (Input.ofBytes twoRecords))).records.map (·.header) =
      (Frame.plain 0 0 twoRecords).1.map (·.header) := by
    obtain ⟨holds, steady, held⟩ := yields
    rw [records_survey_plain steady (by decide) (by decide) held, Session.header_accounts]
  have second : ∃ header ∈ (Frame.plain 0 0 twoRecords).1.map (·.header), header.start = 49 := by decide +kernel
  obtain ⟨header, some, start⟩ := second
  rw [← headers] at some
  obtain ⟨account, among, rfl⟩ := List.mem_map.1 some
  have start : account.header.start = 49 := start
  obtain ⟨-, account', first, same, -⟩ := survey_resumed .plain 0 yields (by decide) (by decide) (by decide : 0 < 1)
    among (Input.yields_ofBytes (twoRecords.drop (account.header.start - 0)))
  rw [start] at first
  exact ⟨account, among, start, account', first, by rw [same]⟩

end Scanner
end ArcFile
