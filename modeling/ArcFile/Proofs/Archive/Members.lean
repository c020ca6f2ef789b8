import ArcFile.Proofs.Archive.Tour
import ArcFile.Proofs.Record.Findings
/-!
Gzip members as the places of records. Of every member with a header line a scanner gives one record, and it leaves
the record at the end of the member, with all that is left of the member counted as data that should not be there.
Behind the last member it stays where it is.
-/
namespace ArcFile

namespace Findings

/-- The findings that there is data where none should be. -/
def undesired (all : Findings) : List Finding := all.toList.filter (·.kind = .undesired)

/-- None of the findings is of that kind. -/
def Regular (all : Findings) : Prop := All (·.kind ≠ .undesired) all

theorem undesired_append {all : Findings} (more : Findings) (h : all.Regular) :
    (all ++ more).undesired = more.undesired := by
  have errors : all.errors.filter (·.kind = .undesired) = [] := by
    rw [List.filter_eq_nil_iff]
    intro f among
    simpa using h f (List.mem_append_left _ among)
  have warnings : all.warnings.filter (·.kind = .undesired) = [] := by
    rw [List.filter_eq_nil_iff]
    intro f among
    simpa using h f (List.mem_append_right _ among)
  simp only [undesired, toList, append_eq, List.filter_append, errors, warnings, List.nil_append]

end Findings

namespace Frame

variable {options : Options} {f : Frame}

theorem regular_found {pos : Nat} {data behind : Bytes} {header : Option RecordHeader} {findings : Findings}
    (first : RecordHeader.first pos data = (header, findings, behind)) : findings.Regular := by
  have passed (skipped : RecordHeader.Skipped) : Findings.Regular ⟨skipped.findings, []⟩ := by
    apply Findings.all_errors
    intro finding among
    rcases RecordHeader.Skipped.mem_findings among with rfl | rfl
    · exact (by decide : Finding.Kind.error ≠ .undesired)
    · exact (by decide : Finding.Kind.error ≠ .undesired)
  cases header with
  | none =>
    obtain ⟨skipped, -, rfl⟩ := RecordHeader.seek_of_first_none first
    exact passed skipped
  | some header =>
    obtain ⟨skipped, found, before, rfl, -, read⟩ := RecordHeader.findings_of_first first
    apply Findings.all_append (passed skipped)
    intro finding among
    exact (RecordHeader.isOfContent_ofLine? read finding among).kind

theorem regular_opening (options : Options) (f : Frame) : (f.opening options).Regular := by
  unfold opening
  split
  · apply Findings.all_errors
    intro finding among
    rcases List.mem_append.1 among with line | lines
    · exact (VersionLines.isOfContent_headerFindings line).kind
    · exact (VersionLines.isOfContent_ofContent lines).kind
  · split
    · exact Findings.all_none
    · split
      · exact Findings.all_error (by decide : Finding.Kind.invalid ≠ .undesired)
      · split
        · next head found =>
          intro finding among
          have read := found
          rw [Frame.head] at read
          split at read
          · exact (Http.Head.isOfContent_ofContent read among).kind
          · cases read
        · exact Findings.all_error (by decide : Finding.Kind.error ≠ .undesired)

theorem regular_sealing (options : Options) (f : Frame) : (f.sealing options).Regular := by
  unfold sealing
  apply Findings.all_append
  · split
    · exact Findings.all_none
    · exact Findings.all_error (by decide : Finding.Kind.invalid ≠ .undesired)
  · split
    · exact Findings.all_none
    · exact Findings.all_error (by decide : Finding.Kind.invalid ≠ .undesired)

theorem regular_trailing (f : Frame) : f.trailing.Regular := by
  unfold trailing
  split
  · intro finding among
    rcases List.mem_append.1 among with error | warning
    · simp only [Entry.Trailer.findings] at error
      split at error
      · cases error
      · obtain rfl := List.mem_singleton.1 error
        exact (by decide : Finding.Kind.mismatch ≠ .undesired)
    · simp only [Entry.Trailer.findings] at warning
      split at warning
      · obtain rfl := List.mem_singleton.1 warning
        exact (by decide : Finding.Kind.invalidData ≠ .undesired)
      · cases warning
  · exact Findings.all_none

theorem regular_packed (base pos : Nat) {found : Findings} (regular : found.Regular) (members : List (Bytes × Bytes)) :
    ∀ f ∈ (packed base pos found members).1, f.found.Regular := by
  induction members generalizing pos found with
  | nil =>
    intro f among
    cases among
  | cons m members ih =>
    obtain ⟨member, content⟩ := m
    rw [packed]
    rcases first : RecordHeader.first 0 content with ⟨none | header, findings, behind⟩
    · exact ih _ (Findings.all_append regular (regular_found first))
    · intro f among
      rcases List.mem_cons.1 among with rfl | later
      · exact Findings.all_append regular (regular_found first)
      · exact ih _ Findings.all_none f later

end Frame

namespace Scanner

theorem Session.regular_foundBy {f : Frame} (session : Session) (regular : f.found.Regular) :
    (session.foundBy f).Regular := by
  apply Findings.all_append
  · apply Findings.all_append regular
    apply Findings.all_errors
    intro finding among
    rcases Session.mem_enter among with rfl | rfl | ⟨layout, expected, rfl⟩
    · exact (by decide : Finding.Kind.duplicate ≠ .undesired)
    · exact (by decide : Finding.Kind.expected ≠ .undesired)
    · exact (by decide : Finding.Kind.mismatch ≠ .undesired)
  · exact f.regular_opening session.options

/-- Only what is left of its gzip member behind a record is data that should not be there. -/
theorem Session.undesired_allFoundBy {f : Frame} {session : Session} (isPacked : session.packing = .gzip)
    (regular : f.found.Regular) : (session.allFoundBy f).undesired =
      if f.rest = [] then [] else [.dataAfterRecord f.rest.length] := by
  rw [Session.allFoundBy, Frame.closing, Findings.undesired_append _ (session.regular_foundBy regular),
    Findings.undesired_append _ (f.regular_sealing session.options), Findings.undesired_append _ f.regular_trailing,
    isPacked, Frame.extra]
  by_cases nothing : f.rest = []
  · rw [if_pos nothing, if_neg (fun extra => extra.2 nothing)]
    rfl
  · rw [if_neg nothing, if_pos ⟨rfl, nothing⟩]
    rfl

variable {σ : Type}

/-- The scanner where the tour has ended. -/
def Ending.scanner : Ending σ → Scanner σ
  | .halted scanner => scanner
  | .ended scanner => scanner
  | .failed _ scanner => scanner

variable [Supply σ]

/-- Asked for the next record `n` times in a row, the scanner gives none: each time the file has ended, or there is
this failure. -/
def Refuses (failure : Option Failure) : (n : Nat) → Scanner σ → Prop
  | 0, _ => True
  | n + 1, scanner => ∃ scanner', scanner.next = failure.elim (.ended scanner') (.failed · scanner') ∧
    Refuses failure n scanner'

section Behind

variable {holds : σ → Bytes → Prop} {session : Session} {last : Findings} {total : Nat} {tail : Bytes}
  {scanner : Scanner σ}

/-- Why there is no other member at `offset`, where `tail` stands. -/
def failureAt (offset : Nat) (tail : Bytes) : Option Failure := if tail = [] then none else some (.notMember offset)

/-- Behind the last member, the scanner stays where it is. -/
theorem BehindMembers.next (steady : Supply.Steady holds) (h : BehindMembers holds last total tail session scanner)
    (other : ¬ Gzip.magic <+: tail) : ∃ scanner' session', session'.base = session.base ∧
      scanner.next = (failureAt (session.base + total) tail).elim (.ended scanner') (.failed · scanner') ∧
      BehindMembers holds .none total tail session' scanner' := by
  by_cases nothing : tail = []
  · subst nothing
    obtain ⟨scanner', next, there⟩ := h.next_ended steady
    exact ⟨scanner', session.finish last, rfl, next, there.behind⟩
  · obtain ⟨scanner', next, there⟩ := h.next_notMember steady nothing other
    refine ⟨scanner', session, rfl, ?_, there.behind⟩
    rw [next, failureAt, if_neg nothing]
    rfl

theorem BehindMembers.refuses (steady : Supply.Steady holds)
    (h : BehindMembers holds last total tail session scanner) (other : ¬ Gzip.magic <+: tail) (n : Nat) :
    Refuses (failureAt (session.base + total) tail) n scanner := by
  induction n generalizing last session scanner with
  | zero => trivial
  | succ n ih =>
    obtain ⟨scanner', session', base, next, there⟩ := h.next steady other
    refine ⟨scanner', next, ?_⟩
    rw [← base]
    exact ih there

/-- A tour that starts there sees no record, whatever its plans are. -/
theorem BehindMembers.tour (steady : Supply.Steady holds) (h : BehindMembers holds last total tail session scanner)
    (other : ¬ Gzip.magic <+: tail) (plans : List (List Entry.Call)) : (tour plans scanner).1 = [] ∧
      ∀ n, Refuses (failureAt (session.base + total) tail) n (tour plans scanner).2.scanner := by
  cases plans with
  | nil => exact ⟨rfl, h.refuses steady other⟩
  | cons calls plans =>
    obtain ⟨scanner', session', base, next, there⟩ := h.next steady other
    have ending : (Scanner.tour (calls :: plans) scanner).1 = [] ∧
        (Scanner.tour (calls :: plans) scanner).2.scanner = scanner' := by
      unfold Scanner.tour
      rw [next]
      cases failureAt (session.base + total) tail with
      | none => exact ⟨rfl, rfl⟩
      | some failure => exact ⟨rfl, rfl⟩
    rw [ending.2, ← base]
    exact ⟨ending.1, there.refuses steady other⟩

/-- With plans for all records, a tour comes behind the last of them. -/
theorem AtMembers.tour_behind (steady : Supply.Steady holds) {pos : Nat} {members : List (Bytes × Bytes)}
    {endOf : Nat → Nat} (located : Frame.Located endOf (session.base + pos) members)
    (h : AtMembers holds session pos members tail scanner) (other : ¬ Gzip.magic <+: tail)
    {plans : List (List Entry.Call)} (enough : members.countP (RecordHeader.isIn ·.2) ≤ plans.length) :
    (tour plans scanner).1.length = members.countP (RecordHeader.isIn ·.2) ∧
      ∀ n, Refuses (failureAt (session.base + (pos + Frame.membersSize members)) tail) n
        (tour plans scanner).2.scanner := by
  rw [← Frame.length_packed session.base pos .none members] at enough ⊢
  obtain ⟨stops, last, length, atEnd, made⟩ := tour_gives plans (packed_gives_at steady located h) enough
  obtain ⟨-, -, sameBase, -⟩ := session.kept_passAll (Frame.packed session.base pos .none members).1
  obtain ⟨none, refuses⟩ :=
    atEnd.tour steady other (plans.drop (Frame.packed session.base pos .none members).1.length)
  rw [sameBase] at refuses
  rw [made, none, List.append_nil]
  exact ⟨length, refuses⟩

end Behind

/-- What is left of its gzip member behind a record is counted when it is left. -/
theorem stop_undesired {session : Session} {f : Frame} {visit : Visit σ} {after : Scanner σ → Prop}
    (calls : List Entry.Call) (h : visit.Opens session f after) (isPacked : session.packing = .gzip)
    (regular : f.found.Regular) : ∃ entry, (visit.stop calls).closed = .ok () entry ∧
      entry.findings.undesired = if f.rest = [] then [] else [.dataAfterRecord f.rest.length] := by
  obtain ⟨entry, closed, -, found⟩ := stop_findings calls h
  exact ⟨entry, closed, by rw [found, Session.undesired_allFoundBy isPacked regular]⟩

section Create

variable {input : σ} {tail : Bytes} {options : Options} {members : List (Bytes × Bytes)}

/-- Of gzip members, a scanner gives one record for each with a header line. However the record is read, the scanner
comes to the end of the member, and what is left of its content behind the record is counted. Behind the last
member there is no record, whenever one is asked for. -/
theorem tour_members (yields : Supply.Yields input (bytesOf members tail))
    (decodes : ∀ m ∈ members, Gzip.Decodes m.1 m.2) (other : ¬ Gzip.magic <+: tail)
    (buffered : 0 < options.bufferSize) (base : Nat) (plans : List (List Entry.Call)) :
    let count := members.countP (RecordHeader.isIn ·.2)
    let run := tour plans (create .gzip base options input)
    run.1.length = min plans.length count ∧
      (∀ before member content after, members = before ++ (member, content) :: after → RecordHeader.isIn content →
        ∀ stop, run.1[before.countP (RecordHeader.isIn ·.2)]? = some stop →
          let start := base + Frame.membersSize before
          stop.behind.position = start + member.length ∧
          ∃ header behind at', RecordHeader.Stands 0 content header behind at' ∧
            stop.opened.header = { header with start } ∧
            ∃ entry, stop.closed = .ok () entry ∧
              let rest := (behind.drop header.declared).dropWhile Bytes.isLineEnd
              entry.findings.undesired = if rest = [] then [] else [.dataAfterRecord rest.length]) ∧
      (count ≤ plans.length →
        ∀ n, Refuses (failureAt (base + Frame.membersSize members) tail) n run.2.scanner) := by
  intro count run
  obtain ⟨holds, steady, held⟩ := yields
  obtain ⟨endOf, located⟩ := Frame.exists_located (base + 0) fun m is => (decodes m is).ne_nil
  have created := create_atMembers base buffered decodes held
  have enough (le : count ≤ plans.length) : run.1.length = count ∧
      ∀ n, Refuses (failureAt (base + Frame.membersSize members) tail) n run.2.scanner := by
    have behind := created.tour_behind steady located other le
    rwa [Nat.zero_add] at behind
  have gives := packed_gives_at steady located created
  change Gives _ _ _ (Frame.packed base 0 .none members).1 _ at gives
  obtain ⟨least, opens⟩ := tour_opens plans gives
  refine ⟨?_, ?_, fun le => (enough le).2⟩
  · rcases Nat.le_total count plans.length with le | fewer
    · rw [(enough le).1, Nat.min_eq_right le]
    · have most : run.1.length ≤ plans.length := length_tour_le plans _
      rw [Frame.length_packed] at least
      have least : min plans.length count ≤ run.1.length := least
      omega
  · rintro before member content after rfl isIn stop isStop
    have isSome := RecordHeader.isSome_first 0 content
    rcases first : RecordHeader.first 0 content with ⟨none | header, findings, behind⟩
    · rw [first, isIn] at isSome
      cases isSome
    have isFrame := Frame.getElem?_packed base 0 .none before after member first
    have regular := Frame.regular_packed base 0 Findings.all_none _ _ (List.mem_of_getElem? isFrame)
    obtain ⟨visit, calls, onward, rfl, opened, position⟩ := opens _ _ _ isFrame isStop
    obtain ⟨-, isPacked, -⟩ := (create .gzip base options input).session.kept_passAll
      ((Frame.packed base 0 .none (before ++ (member, content) :: after)).1.take
        (before.countP (RecordHeader.isIn ·.2)))
    obtain ⟨at', stands⟩ := RecordHeader.first_stands first
    refine ⟨?_, header, behind, at', stands, ?_, stop_undesired calls opened isPacked regular⟩
    · rw [position, Nat.zero_add]
      exact located.of_append.1
    · rw [Nat.zero_add] at opened
      exact opened.header

/-- A member with two records in it and one with nothing in it. -/
def twoMembers : List (Bytes × Bytes) := [(Gzip.pack twoRecords, twoRecords), (Gzip.pack [], [])]

/-- There are stray bytes behind the members. -/
theorem tour_members_twoMembers :
    (tour [[.read 1, .fill], []] (create .gzip 0 .default (Input.ofBytes (bytesOf twoMembers [0])))).1.length = 1 ∧
      Refuses (some (.notMember (Frame.membersSize twoMembers))) 2
        (tour [[.read 1, .fill], []] (create .gzip 0 .default
          (Input.ofBytes (bytesOf twoMembers [0])))).2.scanner := by
  have decodes : ∀ m ∈ twoMembers, Gzip.Decodes m.1 m.2 := by
    intro m among
    have either : m = (Gzip.pack twoRecords, twoRecords) ∨ m = (Gzip.pack [], []) := by
      simpa [twoMembers] using among
    rcases either with rfl | rfl
    · exact Gzip.decodes_pack twoRecords
    · exact Gzip.decodes_pack []
  obtain ⟨length, -, refuses⟩ := tour_members (Input.yields_ofBytes (bytesOf twoMembers [0])) decodes (by decide)
    (by decide : 0 < Options.default.bufferSize) 0 [[.read 1, .fill], []]
  have count : twoMembers.countP (RecordHeader.isIn ·.2) = 1 := by decide +kernel
  rw [count] at length refuses
  rw [Nat.zero_add, failureAt, if_neg (List.cons_ne_nil 0 [])] at refuses
  exact ⟨length, refuses (Nat.le_succ 1) 2⟩

end Create

end Scanner
end ArcFile
