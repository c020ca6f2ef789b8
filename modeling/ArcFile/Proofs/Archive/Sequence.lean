import ArcFile.Proofs.Archive.Ledger
import ArcFile.Proofs.Record.Findings
/-!
The order of the records. What is said of a record's place in the file is told by the records before it alone: the
session keeps three facts of them, which change at different times, but in whatever way records are read or left they
are those of the records that have come.

* `sequenceErrors` says what is wrong with a record's place in view of all records before it;
* `step_tracks` shows that the session keeps track of the records, and `run_sequence` that each of them had just these
  errors when it came.
-/
namespace ArcFile

namespace Findings

/-- The errors that tell how a record follows those before it. -/
def ofSequence (all : Findings) : List Finding := all.errors.filter (·.subject ∈ Finding.sequenceSubjects)

variable {all : Findings}

theorem ofSequence_append (all more : Findings) : (all ++ more).ofSequence = all.ofSequence ++ more.ofSequence := by
  rw [ofSequence, append_eq, List.filter_append]
  rfl

theorem ofSequence_eq_nil (others : ∀ f ∈ all.errors, f.subject ∉ Finding.sequenceSubjects) : all.ofSequence = [] := by
  rw [ofSequence, List.filter_eq_nil_iff]
  intro f among
  simpa using others f among

theorem ofSequence_append_others (all : Findings) {more : Findings}
    (others : ∀ f ∈ more.errors, f.subject ∉ Finding.sequenceSubjects) : (all ++ more).ofSequence = all.ofSequence := by
  rw [ofSequence_append, ofSequence_eq_nil others, List.append_nil]

end Findings

theorem VersionLines.isOfContent_take {σ : Type} [Supply σ] {c : Cursor σ} {f : Finding} (among : f ∈ (take c).1) :
    f.IsOfContent := by
  unfold take at among
  split at among
  · cases among
  · obtain rfl := List.mem_singleton.1 among
    exact .of (by decide) (by decide)
  · dsimp only at among
    split at among
    · exact isOfContent_readFirst among
    · rcases List.mem_append.1 among with early | late
      · exact isOfContent_readFirst early
      · obtain rfl := List.mem_singleton.1 late
        exact .of (by decide) (by decide)
    · rcases List.mem_append.1 among with early | late
      · exact isOfContent_readFirst early
      · exact isOfContent_readSecond late

namespace RecordHeader

variable {σ : Type} [Supply σ] {c c' : Cursor σ}

theorem isOfContent_of_search {skipped skipped' : Skipped} {header : RecordHeader} {findings : Findings}
    (found : search skipped c = .ok (skipped', some (header, findings)) c') : findings.All Finding.IsOfContent := by
  fun_induction search skipped c with
  | case1 => cases found
  | case2 => cases found
  | case3 _ _ _ _ _ _ _ ih => exact ih found
  | case4 _ _ _ _ _ _ _ read =>
    cases found
    exact isOfContent_ofLine? ‹_›
  | case5 _ _ _ _ _ _ _ _ ih => exact ih found

/-- Nothing is said of the place of a header line before it has been taken into account. -/
theorem ofSequence_of_next {header : Option RecordHeader} {findings : Findings}
    (found : next c = .ok (header, findings) c') : findings.ofSequence = [] := by
  have skips (skipped : Skipped) : (⟨skipped.findings, []⟩ : Findings).ofSequence = [] := by
    apply Findings.ofSequence_eq_nil
    intro f among
    rcases skipped.mem_findings among with rfl | rfl <;> decide
  unfold next at found
  split at found
  · cases found
  · cases found
    rw [Findings.addErrors_eq, Findings.none_append]
    exact skips _
  · next sought =>
    cases found
    rw [Findings.addErrors_eq, Findings.none_append, Findings.ofSequence_append, skips, List.nil_append]
    apply Findings.ofSequence_eq_nil
    intro f among
    exact (isOfContent_of_search sought f (List.mem_append_left _ among)).place

end RecordHeader

namespace Entry

variable {τ : Type} [Supply τ] {options : Options} {isMember : Bool} {header : RecordHeader} {findings : Findings}
  {c : Cursor τ} {entry : Entry τ}

def isVersionBlock (entry : Entry τ) : Bool := entry.versionLines.isSome

theorem mem_errors_takeHead {body body' : Body (Cursor τ)} {head : Option Http.Head} {more : Findings} {f : Finding}
    (taken : takeHead options header body = .ok (head, more) body') (among : f ∈ more.errors) :
    f = .noPayload ∨ f = .noHttpHead := by
  unfold takeHead at taken
  split at taken
  · cases taken
    cases among
  · split at taken
    · cases taken
      exact .inl (List.mem_singleton.1 among)
    · split at taken
      · cases taken
      · cases taken
        exact .inr (List.mem_singleton.1 among)
      · cases taken
        cases among

/-- Opening a record says nothing of its place. -/
theorem ofSequence_ofHeader (opened : ofHeader options isMember header findings c = .ok entry) :
    entry.header = header ∧ entry.isVersionBlock = header.isVersionBlock ∧
      entry.findings.ofSequence = findings.ofSequence := by
  unfold ofHeader at opened
  dsimp only at opened
  split at opened
  · next block =>
    split at opened
    · cases opened
    · cases opened
      refine ⟨rfl, block.symm, ?_⟩
      simp only [ofBody, Findings.addErrors_eq, Findings.append_assoc]
      apply Findings.ofSequence_append_others
      intro f among
      rcases List.mem_append.1 among with line | lines
      · exact (VersionLines.isOfContent_headerFindings line).place
      · exact (VersionLines.isOfContent_take lines).place
  · next block =>
    split at opened
    · cases opened
    · next taken =>
      cases opened
      refine ⟨rfl, (Bool.eq_false_iff.2 block).symm, Findings.ofSequence_append_others _ ?_⟩
      intro f among
      rcases mem_errors_takeHead taken among with rfl | rfl <;> decide

end Entry

namespace Scanner

variable {σ : Type} [Supply σ] {scanner scanner' : Scanner σ} {findings : Findings} {header : Option RecordHeader}

theorem ofSequence_nextHeader (next : scanner.nextHeader = .ok (header, findings) scanner') :
    findings.ofSequence = [] := by
  apply of_nextHeader RecordHeader.ofSequence_of_next (fun _ => id) ?_ rfl next
  intro header found more before after
  rw [Findings.ofSequence_append, before, after, List.append_nil]

/-- The layout that the last version block among the records describes. -/
def lastLayout? {τ : Type} (records : List (Entry τ)) : Option Layout :=
  (records.filterMap Entry.versionLines).getLast?.map (·.layout)

/-- What is wrong with the place of a record behind these others, in input that begins at offset `base` of its file. -/
def sequenceErrors {τ : Type} (base : Nat) (before : List (Entry τ)) (entry : Entry τ) : List Finding :=
  if entry.isVersionBlock then
    if before.any Entry.isVersionBlock then [.repeatedVersionBlock] else []
  else
    (if before.length = 0 ∧ base = 0 then [.noVersionBlock] else []) ++
      match lastLayout? before with
      | some layout =>
        if entry.header.layout = layout then [] else [.wrongLayout entry.header.layout.number layout.number]
      | none => []

/-- The session knows of these records what it has to know. -/
structure Session.Tracks {τ : Type} (base : Nat) (known : List (Entry τ)) (session : Session) : Prop where
  begins : session.base = base
  count : session.records = known.length
  seen : session.versionBlockSeen = known.any Entry.isVersionBlock
  declared : session.layout = lastLayout? known

section Session

variable {τ : Type} {base : Nat} {known : List (Entry τ)} {session : Session} {entry : Entry τ}

/-- What is found wrong with the place of a header line is what is wrong with that of its record. -/
theorem Session.Tracks.enter (h : session.Tracks base known)
    (same : entry.isVersionBlock = entry.header.isVersionBlock) :
    (session.enter entry.header).2 = sequenceErrors base known entry := by
  unfold Session.enter sequenceErrors
  dsimp only
  rw [same, h.begins, h.count, h.seen, h.declared]
  split <;> rfl

/-- A record that has been opened is known. -/
theorem Session.Tracks.declare (h : session.Tracks base known)
    (same : entry.isVersionBlock = entry.header.isVersionBlock) :
    ((session.enter entry.header).1.declare entry.kind).Tracks base (known ++ [entry]) := by
  unfold Session.enter
  dsimp only
  rw [← same]
  unfold Entry.isVersionBlock Entry.versionLines
  cases kind : entry.kind with
  | versionBlock lines =>
    refine ⟨h.begins, ?_, ?_, ?_⟩
    · simp [Session.declare, h.count]
    · simp [Session.declare, Entry.isVersionBlock, Entry.versionLines, kind]
    · simp [Session.declare, lastLayout?, Entry.versionLines, kind]
  | data head =>
    refine ⟨h.begins, ?_, ?_, ?_⟩
    · simp [Session.declare, h.count]
    · simp [Session.declare, h.seen, Entry.isVersionBlock, Entry.versionLines, kind]
    · simp [Session.declare, h.declared, lastLayout?, Entry.versionLines, kind]

omit known in
/-- It is enough that what is known of the records is the same. -/
theorem Session.Tracks.of_same {known : List (Entry τ)} {session' : Session} (h : session.Tracks base known)
    (begins : session'.base = session.base) (count : session'.records = session.records)
    (seen : session'.versionBlockSeen = session.versionBlockSeen) (declared : session'.layout = session.layout) :
    session'.Tracks base known :=
  ⟨begins.trans h.begins, count.trans h.count, seen.trans h.seen, declared.trans h.declared⟩

end Session

/-- Whatever is wrong with the place of a header line is about its place. -/
theorem Session.ofSequence_enter (header : RecordHeader) (session : Session) :
    (⟨(session.enter header).2, []⟩ : Findings).ofSequence = (session.enter header).2 := by
  rw [Findings.ofSequence, List.filter_eq_self]
  intro f among
  rcases Session.mem_enter among with rfl | rfl | ⟨layout, expected, rfl⟩
  · decide
  · decide
  · exact decide_eq_true (by decide : "record field version" ∈ Finding.sequenceSubjects)

section Run

variable {base : Nat} {known : List (Entry (Feed σ))} {place : Place σ} {visit : Visit σ}

/-- A record that comes is found wrong in its place as it should be, and is known from then on. -/
theorem tracks_record (h : scanner.session.Tracks base known) (arrived : scanner.next = .record visit) :
    visit.session.Tracks base (known ++ [visit.entry]) ∧
      visit.entry.findings.ofSequence = sequenceErrors base known visit.entry := by
  obtain ⟨header, findings, between, sought, opened, session⟩ := opened_of_next arrived
  obtain ⟨memberStart, same⟩ := scanner.session_nextHeader
  rw [sought] at same
  have same : between.session = scanner.session.at memberStart := same
  have tracks : between.session.Tracks base known := by
    rw [same]
    exact h.of_same rfl rfl rfl rfl
  obtain ⟨rfl, kind, found⟩ := Entry.ofSequence_ofHeader opened
  constructor
  · rw [session]
    exact tracks.declare kind
  · rw [found, Findings.addErrors_eq, Findings.ofSequence_append, ofSequence_nextHeader sought, List.nil_append,
      Session.ofSequence_enter, tracks.enter kind]

/-- Where no record comes, nothing changes that is known of the records. A header line whose record cannot be opened
would count. -/
theorem tracks_between (h : scanner.session.Tracks base known) (opens : scanner.OpensNext)
    (none : ∀ visit, scanner.next ≠ .record visit) : scanner.next.session.Tracks base known := by
  obtain ⟨memberStart, same⟩ := scanner.session_nextHeader
  unfold next
  split
  · next failure between sought =>
    rw [sought] at same
    have same : between.session = scanner.session.at memberStart := same
    simp only [Next.session, same]
    exact h.of_same rfl rfl rfl rfl
  · next findings between sought =>
    rw [sought] at same
    have same : between.session = scanner.session.at memberStart := same
    simp only [Next.session, same]
    exact h.of_same rfl rfl rfl rfl
  · next sought =>
    obtain ⟨visit, arrived⟩ := opens _ _ _ sought
    exact absurd arrived (none visit)

theorem tracks_leave {session : Session} {entry : Entry (Feed σ)} (h : session.Tracks base known) :
    (Visit.leave ⟨session, entry⟩).session.Tracks base known := by
  unfold Visit.leave Session.count
  dsimp only
  split
  · exact h.of_same rfl rfl rfl rfl
  · exact h

/-- The record that an action brings. -/
def arrived? : Action → Place σ → Option (Entry (Feed σ))
  | .next, .between scanner =>
    match scanner.next with
    | .record visit => some visit.entry
    | _ => none
  | _, _ => none

/-- The records that come in a run, as they are when they come. -/
def arrivals : List Action → Place σ → List (Entry (Feed σ))
  | [], _ => []
  | action :: more, place => (arrived? action place).toList ++ arrivals more (step action place).2

/-- A reader that is between two records can open the next one. -/
def Place.OpensNext : Place σ → Prop
  | between scanner => scanner.OpensNext
  | within _ _ => True

/-- Every step keeps track of the records, and the record that it brings has the errors that it should have. -/
theorem step_tracks (action : Action) (h : place.session.Tracks base known) (opens : place.OpensNext) :
    (step action place).2.session.Tracks base (known ++ (arrived? action place).toList) ∧
      ∀ entry, arrived? action place = some entry → entry.findings.ofSequence = sequenceErrors base known entry := by
  have nobody (none : arrived? action place = none) (same : (step action place).2.session.Tracks base known) :
      (step action place).2.session.Tracks base (known ++ (arrived? action place).toList) ∧
        ∀ entry, arrived? action place = some entry →
          entry.findings.ofSequence = sequenceErrors base known entry := by
    rw [none, Option.toList_none, List.append_nil]
    exact ⟨same, fun entry is => by cases is⟩
  cases place with
  | between scanner =>
    cases action with
    | call _ | drop => exact nobody rfl h
    | next =>
      have quiet := tracks_between h opens
      cases found : scanner.next with
      | record visit =>
        obtain ⟨known', errors⟩ := tracks_record h found
        simp only [step, arrived?, found, Option.toList_some]
        refine ⟨known', ?_⟩
        rintro entry ⟨⟩
        exact errors
      | ended scanner' =>
        rw [found] at quiet
        apply nobody
        · simp only [arrived?, found]
        · simp only [step, found]
          exact quiet fun visit is => by cases is
      | failed failure scanner' =>
        rw [found] at quiet
        apply nobody
        · simp only [arrived?, found]
        · simp only [step, found]
          exact quiet fun visit is => by cases is
  | within session hand =>
    cases action with
    | next => exact nobody rfl h
    | call call =>
      apply nobody rfl
      cases called : hand.call call <;> simp only [step, called] <;> exact h
    | drop =>
      apply nobody rfl
      cases closed : hand.entry.close <;> simp only [step, closed] <;> exact tracks_leave h

/-- And so does a run. -/
theorem run_tracks {fails : Failure → Prop} {goes rests : Scanner σ → Prop} (course : Course fails goes rests)
    (opens : ∀ scanner : Scanner σ, goes scanner → scanner.OpensNext) (actions : List Action)
    (stands : place.Stands goes) (h : place.session.Tracks base known) {i : Nat} {entry : Entry (Feed σ)}
    (came : (arrivals actions place)[i]? = some entry) :
    entry.findings.ofSequence = sequenceErrors base (known ++ (arrivals actions place).take i) entry := by
  induction actions generalizing place known i with
  | nil => cases came
  | cons action more ih =>
    have opensNext : place.OpensNext := by
      cases stands with
      | between still => exact opens _ still
      | within => trivial
    obtain ⟨tracks, errors⟩ := step_tracks action h opensNext
    obtain ⟨-, stands'⟩ := step_stands course action stands
    cases arrived : arrived? action place with
    | none =>
      simp only [arrivals, arrived, Option.toList_none, List.nil_append, List.append_nil] at came tracks ⊢
      exact ih stands' tracks came
    | some first =>
      simp only [arrivals, arrived, Option.toList_some, List.singleton_append] at came tracks ⊢
      cases i with
      | zero =>
        obtain rfl : first = entry := by simpa using came
        simpa using errors first arrived
      | succ i =>
        have later := ih stands' tracks (by simpa using came)
        simpa [List.append_assoc] using later

end Run

variable {packing : Packing} {options : Options} {input : σ} {base : Nat} {data : Bytes}

/-- In data that can be read to its end, what is said of the place of each record is told by the records that came
before it, in whatever way these were read or left. -/
theorem run_sequence (yields : Supply.Yields input data) (readable : Readable packing data)
    (begins : Begins packing options input base scanner) (actions : List Action) {i : Nat} {entry : Entry (Feed σ)}
    (came : (arrivals actions (.between scanner))[i]? = some entry) :
    entry.findings.ofSequence =
      sequenceErrors base ((arrivals actions (.between scanner)).take i) entry := by
  obtain ⟨goes, rests, course, opens, still, start⟩ := begins.course_opensNext yields readable
  have nothing : (Place.between scanner).session.Tracks base ([] : List (Entry (Feed σ))) := by
    rw [Place.session, start]
    exact ⟨rfl, rfl, rfl, rfl⟩
  exact run_tracks course opens actions (.between still) nothing came

/-- A version block with five fields, a record with ten, and another version block. Nothing has any content. -/
def mixedFile : Bytes := Bytes.ofString "filedesc:a - - - 0\nftp:b - - - - - - - - 0\nfiledesc:c - - - 0\n"

/-- The first record is closed before it is left, the second is not. -/
theorem run_sequence_mixedFile :
    let scanner := create .plain 0 .default (Input.ofBytes mixedFile)
    let records := arrivals [.next, .call .close, .drop, .next] (.between scanner)
    Supply.Yields (Input.ofBytes mixedFile) mixedFile ∧ Readable .plain mixedFile ∧
      Begins .plain .default (Input.ofBytes mixedFile) 0 scanner ∧
      ∃ entry, records[1]? = some entry ∧ entry.findings.ofSequence = sequenceErrors 0 (records.take 1) entry := by
  intro scanner records
  have yields := Input.yields_ofBytes mixedFile
  have came : (records[1]?).isSome := by decide +kernel
  obtain ⟨entry, came⟩ := Option.isSome_iff_exists.1 came
  exact ⟨yields, .plain mixedFile, .given 0, entry, came, run_sequence yields (.plain mixedFile) (.given 0) _ came⟩

example : (arrivals [.next, .drop, .next, .drop, .next]
    (.between (create .plain 0 .default (Input.ofBytes mixedFile)))).map (·.findings.ofSequence) =
      [[], [.wrongLayout 2 1], [.repeatedVersionBlock]] := by
  decide +kernel

end Scanner
end ArcFile
