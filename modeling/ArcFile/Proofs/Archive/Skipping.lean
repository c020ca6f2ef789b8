import ArcFile.Proofs.Archive.Buffering
import ArcFile.Proofs.Archive.Passage.Dry
/-!
What is said of data that is passed over. Every gzip member that holds something but no header line gives findings,
which the scanner has with it until a record or the end of the file comes: they are the first ones of the record, or are
added to those of the file. If the scanner fails instead, they are gone.
-/
namespace ArcFile

namespace RecordHeader

/-- What is wrong with content in which there is no header line. -/
def strays (content : Bytes) : List Finding :=
  Skipped.findings ⟨content.lines.any (!·.isEmpty), content.lines.any (·.isEmpty)⟩

variable {content : Bytes}

theorem strays_ne_nil (some : content ≠ []) : strays content ≠ [] := by
  rw [strays, Bytes.lines, if_neg some, List.any_cons, List.any_cons]
  cases content.firstLine.isEmpty with
  | true => simp [Skipped.findings]
  | false => exact List.cons_ne_nil _ _

theorem subject_of_mem_strays {finding : Finding} (among : finding ∈ strays content) :
    finding.subject = "ARC record" := by
  rcases Skipped.mem_findings among with rfl | rfl <;> rfl

/-- A search that finds nothing has passed over all lines. -/
theorem seek_of_not_isIn (skipped : Skipped) (pos : Nat) {data : Bytes} (without : isIn data = false) :
    seek skipped pos data =
      (⟨skipped.data || data.lines.any (!·.isEmpty), skipped.emptyLines || data.lines.any (·.isEmpty)⟩, none, []) := by
  fun_induction seek skipped pos data with
  | case1 => simp [Bytes.lines]
  | case2 skipped pos data some rest empty ih =>
    rw [isIn, Bytes.lines, if_neg some, List.any_cons, Bool.or_eq_false_iff] at without
    rw [ih without.2, Bytes.lines.eq_def data, if_neg some]
    simp [empty, rest]
  | case3 skipped pos data some rest nonempty header read =>
    rw [isIn, Bytes.lines, if_neg some, List.any_cons, isHeaderLine_of_some nonempty read] at without
    cases without
  | case4 skipped pos data some rest nonempty read ih =>
    rw [isIn, Bytes.lines, if_neg some, List.any_cons, Bool.or_eq_false_iff] at without
    rw [ih without.2, Bytes.lines.eq_def data, if_neg some]
    simp [nonempty, rest]

theorem first_of_not_isIn (pos : Nat) (without : isIn content = false) :
    first pos content = (none, ⟨strays content, []⟩, []) := by
  rw [first, seek_of_not_isIn .nothing pos without]
  simp [Skipped.nothing, Findings.addErrors_eq, Findings.none_append, strays]

end RecordHeader

namespace Frame

variable {members : List (Bytes × Bytes)}

/-- Members without a header line give no frame, but what is wrong with them. -/
theorem packed_of_not_isIn (base pos : Nat) (found : Findings)
    (without : ∀ m ∈ members, RecordHeader.isIn m.2 = false) :
    packed base pos found members = ([], found ++ ⟨members.flatMap (RecordHeader.strays ·.2), []⟩) := by
  induction members generalizing pos found with
  | nil => rw [packed, List.flatMap_nil, show (⟨[], []⟩ : Findings) = .none from rfl, Findings.append_none]
  | cons m members ih =>
    obtain ⟨first, others⟩ := List.forall_mem_cons.1 without
    rw [packed, RecordHeader.first_of_not_isIn 0 first]
    dsimp only
    rw [ih _ _ others, Findings.append_assoc]
    rfl

/-- Behind a member with a header line nothing is found that counts for the next record. -/
theorem packed_last (base pos : Nat) (isLast : ∀ m ∈ members.getLast?, RecordHeader.isIn m.2 = true) :
    (packed base pos .none members).2 = .none := by
  rcases List.eq_nil_or_concat members with rfl | ⟨before, m, rfl⟩
  · rfl
  · have isIn := isLast m (by simp)
    rw [← RecordHeader.isSome_first 0] at isIn
    rw [List.concat_eq_append, packed_append]
    dsimp only
    rw [packed]
    rcases first : RecordHeader.first 0 m.2 with ⟨none | header, findings, behind⟩
    · rw [first] at isIn
      cases isIn
    · rfl

end Frame

namespace Scanner

variable {σ : Type}

/-- What comes next tells of these findings, unless it is a failure: then it tells of nothing more than before. -/
def Next.Tells (found : Findings) (before : Session) : Next σ → Prop
  | record visit => ∃ more, visit.entry.findings = found ++ more
  | ended scanner => ∃ more, scanner.session.findings = before.findings ++ (found ++ more)
  | failed _ scanner => scanner.session.findings = before.findings

/-- The same result, with findings in front. -/
def prepend (found : Findings) : EStateM.Result Failure (Scanner σ) (Option RecordHeader × Findings) →
    EStateM.Result Failure (Scanner σ) (Option RecordHeader × Findings)
  | .ok (header, more) scanner => .ok (header, found ++ more) scanner
  | .error failure scanner => .error failure scanner

variable [Supply σ] {scanner : Scanner σ} {found : Findings}

/-- The findings that a scanner has with it do not matter to where it goes. -/
theorem nextOfMembers_append (found more : Findings) (scanner : Scanner σ) :
    nextOfMembers (found ++ more) scanner = prepend found (nextOfMembers more scanner) := by
  fun_induction nextOfMembers more scanner with
  | case1 more scanner failure scanner' entered =>
    rw [nextOfMembers]
    split <;> simp_all [prepend]
  | case2 more scanner scanner' entered =>
    rw [nextOfMembers]
    split <;> simp_all [prepend]
  | case3 more scanner inside entered fault source read =>
    rw [nextOfMembers]
    split
    · simp_all
    · simp_all
    · next other =>
      obtain rfl : inside = _ := by simpa [entered] using other
      split <;> simp_all [prepend]
  | case4 more scanner inside entered header more' source read =>
    rw [nextOfMembers_member entered read, Findings.append_assoc]
    rfl
  | case5 more scanner inside entered more' source read _ ih =>
    rw [nextOfMembers_member entered read, Findings.append_assoc]
    exact ih

/-- A record or the end of the file tells of all findings, a failure of none. -/
theorem next_tells {result : EStateM.Result Failure (Scanner σ) (Option RecordHeader × Findings)}
    (sought : scanner.nextHeader = prepend found result) : scanner.next.Tells found scanner.session := by
  have same : (reached scanner.nextHeader).session.findings = scanner.session.findings := by
    obtain ⟨memberStart, same⟩ := session_nextHeader scanner
    rw [same]
    rfl
  unfold next
  split
  · next is =>
    rw [is] at same
    exact same
  · next findings scanner' is =>
    rw [is] at same sought
    obtain ⟨⟨_, more⟩, _⟩ | ⟨_, _⟩ := result
    · cases sought
      exact ⟨_, congrArg (· ++ _) same⟩
    · cases sought
  · next header findings scanner' is =>
    rw [is] at same sought
    obtain ⟨⟨_, more⟩, _⟩ | ⟨_, _⟩ := result
    · cases sought
      dsimp only
      split
      · obtain ⟨-, -, -, kept⟩ := Session.kept_enter header scanner'.session
        exact kept.trans same
      · next opened =>
        obtain ⟨_, later, _, is⟩ := Entry.exists_ofBody opened
        rw [Findings.addErrors_eq, Findings.append_assoc, Findings.append_assoc] at is
        exact ⟨_, congrArg Entry.findings is⟩
    · cases sought

omit [Supply σ] in
theorem prepend_none (result : EStateM.Result Failure (Scanner σ) (Option RecordHeader × Findings)) :
    prepend .none result = result := by
  obtain ⟨⟨_, more⟩, _⟩ | ⟨_, _⟩ := result
  · simp only [prepend, Findings.none_append]
  · rfl

variable {holds : σ → Bytes → Prop} {session : Session} {pos total : Nat} {tail : Bytes}
  {members before passed : List (Bytes × Bytes)}

/-- What is wrong with members that have no header line, in their order. -/
def straysOf (members : List (Bytes × Bytes)) : Findings := ⟨members.flatMap (RecordHeader.strays ·.2), []⟩

omit [Supply σ] in
theorem bytesOf_append (before passed : List (Bytes × Bytes)) (tail : Bytes) :
    bytesOf (before ++ passed) tail = bytesOf before (bytesOf passed tail) := by
  simp [bytesOf]

omit [Supply σ] in
/-- It does not matter which of the bytes are said to be members. -/
theorem AtMembers.regroup {members' : List (Bytes × Bytes)} {tail' : Bytes}
    (h : AtMembers holds session pos members tail scanner) (decodes : ∀ m ∈ members', Gzip.Decodes m.1 m.2)
    (same : bytesOf members tail = bytesOf members' tail') : AtMembers holds session pos members' tail' scanner :=
  { h with
    decodes
    stream := same ▸ h.stream }

variable (steady : Supply.Steady holds)

section Buffered

include steady

/-- Behind the last record, the members in front of the next header line give their findings. -/
theorem BehindMembers.next_tells (h : BehindMembers holds .none total (bytesOf passed tail) session scanner)
    (decodes : ∀ m ∈ passed, Gzip.Decodes m.1 m.2) (without : ∀ m ∈ passed, RecordHeader.isIn m.2 = false) :
    scanner.next.Tells (straysOf passed) scanner.session := by
  obtain ⟨scanner', sought, there⟩ := h
  have there : AtMembers holds session total passed tail scanner' := there.regroup decodes rfl
  have passes := nextOfMembers_holds steady .none there
  rw [Frame.packed_of_not_isIn _ _ _ without, Findings.none_append] at passes
  obtain ⟨behind, passes, -⟩ := passes
  have told : scanner.nextHeader = prepend (straysOf passed) (nextOfMembers .none behind) := by
    rw [sought, passes, ← nextOfMembers_append, Findings.append_none]
    rfl
  exact Scanner.next_tells told

/-- Whatever is done with the records in the members before, the scanner comes behind the last of them. -/
theorem AtMembers.tour_halted (h : AtMembers holds session pos (before ++ passed) tail scanner)
    (isLast : ∀ m ∈ before.getLast?, RecordHeader.isIn m.2 = true) {plans : List (List Entry.Call)}
    (enough : plans.length = before.countP (RecordHeader.isIn ·.2)) :
    ∃ last total session', (tour plans scanner).2 = .halted last ∧
      BehindMembers holds .none total (bytesOf passed tail) session' last := by
  have first : AtMembers holds session pos before (bytesOf passed tail) scanner :=
    h.regroup (fun m among => h.decodes m (List.mem_append_left _ among)) (bytesOf_append before passed tail)
  have nonempty : ∀ m ∈ before, m.1 ≠ [] := by
    intro m among
    exact (first.decodes m among).ne_nil
  obtain ⟨endOf, located⟩ := Frame.exists_located (session.base + pos) nonempty
  rw [← Frame.length_packed session.base pos .none] at enough
  obtain ⟨stops, last, -, atEnd, made⟩ :=
    tour_gives plans (packed_gives_at steady located first) (Nat.le_of_eq enough.symm)
  rw [Frame.packed_last _ _ isLast] at atEnd
  rw [← enough, List.drop_length] at made
  exact ⟨last, _, _, by rw [made]; rfl, atEnd⟩

end Buffered

section Dry

include steady

/-- Without a buffer no member is ever passed over, so that nothing is to be told. -/
theorem AtDry.next_tells (h : AtDry holds .gzip (bytesOf passed tail) scanner)
    (decodes : ∀ m ∈ passed, Gzip.Decodes m.1 m.2) : scanner.next.Tells (straysOf passed) scanner.session := by
  have whole : scanner.nextHeader = nextOfMembers .none scanner := by simp only [nextHeader, h.packing]
  cases passed with
  | nil => exact Scanner.next_tells (prepend_none scanner.nextHeader).symm
  | cons m passed =>
    rw [← List.singleton_append, bytesOf_append] at h
    obtain ⟨failure, scanner', failed⟩ := AtDry.nextOfMembers_member steady
      (by simpa [bytesOf] using h) (decodes m List.mem_cons_self) .none
    have told : scanner.nextHeader = prepend (straysOf (m :: passed)) (.error failure scanner') := whole.trans failed
    exact Scanner.next_tells told

/-- Without a buffer no record comes. -/
theorem AtDry.tour_halted {data : Bytes} {plans : List (List Entry.Call)} {last : Scanner σ}
    (h : AtDry holds .gzip data scanner) (halted : (tour plans scanner).2 = .halted last) :
    plans = [] ∧ last = scanner := by
  cases plans with
  | nil =>
    cases halted
    exact ⟨rfl, rfl⟩
  | cons calls plans =>
    rw [tour] at halted
    rcases h.next_packed steady with ⟨_, next, -⟩ | ⟨_, _, _, next, -⟩
    · rw [next] at halted
      cases halted
    · rw [next] at halted
      cases halted

end Dry

section Create

variable {input : σ} {options : Options} {base : Nat}

/-- What comes of data that is passed over. When the records in the members before have been read, however that was
done, the scanner goes past the members without a header line that follow. Whatever stands behind them, a record or the
end of the file tells of all their findings, and a member that holds anything gives one at least; but a failure tells of
none of them. -/
theorem next_tells_strays (yields : Supply.Yields input (bytesOf (before ++ passed) tail))
    (decodes : ∀ m ∈ before ++ passed, Gzip.Decodes m.1 m.2)
    (isLast : ∀ m ∈ before.getLast?, RecordHeader.isIn m.2 = true)
    (without : ∀ m ∈ passed, RecordHeader.isIn m.2 = false) (begins : Begins .gzip options input base scanner)
    {plans : List (List Entry.Call)} (enough : plans.length = before.countP (RecordHeader.isIn ·.2)) :
    (0 < options.bufferSize → ∃ last, (tour plans scanner).2 = .halted last) ∧
      (∀ last, (tour plans scanner).2 = .halted last → last.next.Tells (straysOf passed) last.session) ∧
      ∀ m ∈ passed, m.2 ≠ [] → RecordHeader.strays m.2 ≠ [] ∧
        ∀ finding ∈ RecordHeader.strays m.2, finding ∈ (straysOf passed).errors ∧ finding.subject = "ARC record" := by
  obtain ⟨holds, steady, held⟩ := yields
  obtain ⟨stream, rfl, held, still⟩ := begins.exists_stream steady held
  have later : ∀ m ∈ passed, Gzip.Decodes m.1 m.2 := by
    intro m among
    exact decodes m (List.mem_append_right _ among)
  have told : ∀ m ∈ passed, m.2 ≠ [] → RecordHeader.strays m.2 ≠ [] ∧
      ∀ finding ∈ RecordHeader.strays m.2, finding ∈ (straysOf passed).errors ∧ finding.subject = "ARC record" := by
    intro m among some
    refine ⟨RecordHeader.strays_ne_nil some, fun finding is => ⟨?_, RecordHeader.subject_of_mem_strays is⟩⟩
    exact List.mem_flatMap.2 ⟨m, among, is⟩
  rcases Nat.eq_zero_or_pos options.bufferSize with unbuffered | buffered
  · refine ⟨fun pos => by omega, fun last halted => ?_, told⟩
    have dry := ofStream_atDry .gzip base unbuffered held still
    obtain ⟨rfl, rfl⟩ := dry.tour_halted steady halted
    -- without plans there is no record in the members before, and so there are none of them
    have none : before = [] := by
      rcases List.eq_nil_or_concat before with nothing | ⟨others, m, rfl⟩
      · exact nothing
      · rw [List.concat_eq_append] at isLast enough
        have isIn := isLast m (by simp)
        rw [List.countP_append, List.countP_singleton, if_pos isIn] at enough
        cases enough
    subst none
    exact dry.next_tells steady later
  · have created := ofStream_atMembers base buffered decodes held still
    obtain ⟨last, total, session', halted, behind⟩ := created.tour_halted steady isLast enough
    refine ⟨fun _ => ⟨last, halted⟩, fun last' halted' => ?_, told⟩
    rw [halted] at halted'
    cases halted'
    exact behind.next_tells steady later without

/-- A member whose only line is no header line. -/
def strayMember : Bytes × Bytes := (Gzip.pack (Bytes.ofString "stray\n"), Bytes.ofString "stray\n")

/-- Behind a member with two records in it the file ends with a stray one. -/
theorem next_tells_strays_atEnd :
    let members := [(Gzip.pack twoRecords, twoRecords), strayMember]
    let scanner := create .gzip 0 .default (Input.ofBytes (bytesOf members []))
    ∃ last, (tour [[.read 1]] scanner).2 = .halted last ∧ last.next.Tells (straysOf [strayMember]) last.session := by
  intro members scanner
  have decodes : ∀ m ∈ [(Gzip.pack twoRecords, twoRecords)] ++ [strayMember], Gzip.Decodes m.1 m.2 := by
    simpa [strayMember] using ⟨Gzip.decodes_pack twoRecords, Gzip.decodes_pack _⟩
  have isLast : ∀ m ∈ [(Gzip.pack twoRecords, twoRecords)].getLast?, RecordHeader.isIn m.2 = true := by
    simpa using (by decide +kernel : RecordHeader.isIn twoRecords = true)
  have without : ∀ m ∈ [strayMember], RecordHeader.isIn m.2 = false := by
    simpa using (by decide +kernel : RecordHeader.isIn strayMember.2 = false)
  have enough : [[Entry.Call.read 1]].length = [(Gzip.pack twoRecords, twoRecords)].countP (RecordHeader.isIn ·.2) := by
    decide +kernel
  obtain ⟨halts, tells, -⟩ :=
    next_tells_strays (Input.yields_ofBytes _) decodes isLast without (.given 0 : Begins _ _ _ _ scanner) enough
  obtain ⟨last, halted⟩ := halts (by decide)
  exact ⟨last, halted, tells last halted⟩

/-- Where something else than a member stands behind it, what was wrong with the stray member is told nowhere. -/
theorem exists_strays_lost :
    let scanner := create .gzip 0 .default (Input.ofBytes (bytesOf [strayMember] [0]))
    ∃ last, scanner.next = .failed (.notMember (Frame.membersSize [strayMember])) last ∧
      RecordHeader.strays strayMember.2 = [.dataBeforeRecord] ∧ last.session.findings = .none := by
  intro scanner
  obtain ⟨holds, steady, held⟩ := Input.yields_ofBytes (bytesOf [strayMember] [0])
  have decodes : ∀ m ∈ [strayMember], Gzip.Decodes m.1 m.2 := by
    simpa [strayMember] using Gzip.decodes_pack _
  have without : ∀ m ∈ [strayMember], RecordHeader.isIn m.2 = false := by
    simpa using (by decide +kernel : RecordHeader.isIn strayMember.2 = false)
  have created := create_atMembers 0 (by decide : 0 < Options.default.bufferSize) decodes held
  have passes := nextOfMembers_holds steady .none created
  rw [Frame.packed_of_not_isIn _ _ _ without] at passes
  obtain ⟨behind, passes, there⟩ := passes
  have stands : BehindMembers holds _ _ [0] _ _ := ⟨behind, created.nextHeader_eq.trans passes, there⟩
  obtain ⟨last, next, -⟩ := stands.next_notMember steady (List.cons_ne_nil 0 []) (by decide)
  have next : scanner.next = .failed (.notMember (0 + (0 + Frame.membersSize [strayMember]))) last := next
  rw [Nat.zero_add, Nat.zero_add] at next
  have tells := Scanner.next_tells (prepend_none scanner.nextHeader).symm
  rw [next] at tells
  exact ⟨last, next, by decide +kernel, tells⟩

end Create

end Scanner
end ArcFile
