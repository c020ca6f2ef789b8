import ArcFile.Proofs.Archive.Course
import ArcFile.Proofs.Archive.Tour
import ArcFile.Proofs.Supply.Endless
/-!
Closing records over input that may fail anywhere. Closing a record for the first time either completes it, and says
whether anything was found, or faults. Either way the record is closed then, and closing it again succeeds at once: a
record whose closing has faulted is never completed, and is not counted.
-/
namespace ArcFile

namespace Entry

variable {τ : Type} [Supply τ] {entry entry' : Entry τ} {c : Cursor τ} {fault : Fault}

/-- The record is being read, and nothing is said of it as a whole. -/
structure IsOpen (entry : Entry τ) : Prop where
  isReading : entry.isClosed = false
  silent : entry.compliant = none

/-- The record has been closed, and it is said whether anything is wrong with it. -/
structure IsComplete (entry : Entry τ) : Prop where
  passed : entry.isClosed = true
  judged : entry.compliant = some entry.findings.isEmpty

/-- The record has been closed, but not to the end. -/
structure IsBroken (entry : Entry τ) : Prop where
  passed : entry.isClosed = true
  silent : entry.compliant = none

theorem isComplete_of_passRest (passed : passRest entry c = .ok () entry') : entry'.IsComplete := by
  unfold passRest at passed
  split at passed
  · cases passed
  · dsimp only at passed
    split at passed
    · cases passed
    · cases passed
      exact ⟨rfl, rfl⟩

theorem isBroken_of_passRest (silent : entry.compliant = none) (stopped : passRest entry c = .error fault entry') :
    entry'.IsBroken := by
  unfold passRest at stopped
  split at stopped
  · cases stopped
    exact ⟨rfl, silent⟩
  · dsimp only at stopped
    split at stopped
    · cases stopped
      exact ⟨rfl, silent⟩
    · cases stopped

/-- Closing an open record completes it. -/
theorem IsOpen.close_ok (is : entry.IsOpen) (closed : entry.close = .ok () entry') : entry'.IsComplete := by
  unfold close at closed
  split at closed
  · next stands =>
    have isReading := is.isReading
    simp [isClosed, stands] at isReading
  · split at closed
    · cases closed
    · exact isComplete_of_passRest closed

/-- The fault may be one of the content, of the line ends or of the gzip member: nothing is said of the record. -/
theorem IsOpen.close_error (is : entry.IsOpen) (stopped : entry.close = .error fault entry') : entry'.IsBroken := by
  unfold close at stopped
  split at stopped
  · cases stopped
  · split at stopped
    · cases stopped
      exact ⟨rfl, is.silent⟩
    · next result _ _ =>
      have silent : (entry.withSealed result).compliant = none := is.silent
      exact isBroken_of_passRest silent stopped

theorem isOpen_read (n : Nat) (is : entry.IsOpen) : (entry.read n).state.IsOpen := by
  unfold read
  split
  · exact is
  · split <;> exact ⟨rfl, is.silent⟩

theorem keeps_isOpen : Supply.Keeps fun entry : Entry τ => entry.IsOpen := by
  constructor
  intro n entry entry' data is found
  have found : entry.read n = .ok data entry' := found
  have reads := isOpen_read n is
  rwa [found] at reads

theorem isOpen_fill (is : entry.IsOpen) : entry.fill.state.IsOpen := by
  unfold fill
  split
  · exact is
  · split <;> exact ⟨rfl, is.silent⟩

omit [Supply τ] in
theorem isOpen_advance (n : Nat) (is : entry.IsOpen) : (entry.advance n).IsOpen := by
  unfold advance
  split
  · exact is
  · exact ⟨rfl, is.silent⟩

namespace Hand

variable {hand hand' : Hand τ}

/-- What a record may be like as long as closing it has not faulted. -/
inductive IsSound (hand : Hand τ) : Prop where
  | reading (is : hand.entry.IsOpen)
  | complete (is : hand.entry.IsComplete) (shown : hand.shown = [])

/-- What a record is like once closing it has faulted. -/
structure IsBroken (hand : Hand τ) : Prop where
  entry : hand.entry.IsBroken
  shown : hand.shown = []

/-- A closed record gives nothing, and stays as it is. -/
theorem call_of_isClosed (passed : hand.entry.isClosed = true) (shown : hand.shown = []) (call : Call) :
    hand.call call = .ok () hand := by
  obtain ⟨entry, out, _⟩ := hand
  cases shown
  unfold isClosed at passed
  split at passed
  · cases passed
  · next source stands =>
    have stands : entry.content = .passed source := stands
    cases call <;> simp [Hand.call, read, fill, advance, Entry.close, stands]

theorem IsBroken.call (is : hand.IsBroken) (call : Call) : hand.call call = .ok () hand :=
  call_of_isClosed is.entry.passed is.shown call

/-- A close that succeeds has completed the record, unless one has faulted before. -/
theorem IsSound.close_ok (is : hand.IsSound) (closed : hand.call .close = .ok () hand') :
    hand'.entry.IsComplete ∧ hand'.shown = [] := by
  cases is with
  | complete is shown =>
    rw [call_of_isClosed is.passed shown] at closed
    cases closed
    exact ⟨is, shown⟩
  | reading is =>
    simp only [Hand.call] at closed
    split at closed
    · next found =>
      cases closed
      exact ⟨is.close_ok found, rfl⟩
    · cases closed

theorem IsSound.close_error (is : hand.IsSound) (stopped : hand.call .close = .error fault hand') :
    hand'.IsBroken := by
  cases is with
  | complete is shown =>
    rw [call_of_isClosed is.passed shown] at stopped
    cases stopped
  | reading is =>
    simp only [Hand.call] at stopped
    split at stopped
    · cases stopped
    · next found =>
      cases stopped
      exact ⟨is.close_error found, rfl⟩

/-- Whatever comes of any other call, the record can be read on. -/
theorem IsSound.call (is : hand.IsSound) {call : Call} (other : call ≠ .close) : (hand.call call).state.IsSound := by
  cases is with
  | complete is shown =>
    rw [call_of_isClosed is.passed shown]
    exact .complete is shown
  | reading is =>
    cases call with
    | read n =>
      have reads := isOpen_read n is
      simp only [Hand.call]
      split
      all_goals
        next found =>
          rw [found] at reads
          exact .reading reads
    | fill =>
      have fills := isOpen_fill is
      simp only [Hand.call]
      split
      all_goals
        next found =>
          rw [found] at fills
          exact .reading fills
    | consume n => exact .reading (isOpen_advance _ is)
    | close => exact absurd rfl other

end Hand
end Entry

namespace Scanner

variable {σ : Type} [Supply σ] {scanner : Scanner σ} {session : Session} {hand : Entry.Hand (Feed σ)}

/-- A record that comes next is open. -/
theorem isOpen_of_next {visit : Visit σ} (arrived : scanner.next = .record visit) : visit.entry.IsOpen := by
  obtain ⟨_, _, _, -, opened, -⟩ := opened_of_next arrived
  obtain ⟨_, _, _, is⟩ := Entry.exists_ofBody opened
  rw [is]
  exact ⟨rfl, rfl⟩

/-- Closing a complete record again has no effect, and leaving it counts it. -/
theorem step_drop_complete (is : hand.entry.IsComplete) :
    (step .drop (.within session hand)).2.session.tally = session.tally.add hand.entry.findings := by
  have again := Entry.close_of_isClosed is.passed
  simp only [step, again, leave_eq again]
  change (session.count hand.entry).tally = _
  rw [Session.count, is.judged, Option.isSome_some, if_pos rfl]

theorem step_drop_broken (is : hand.entry.IsBroken) :
    (step .drop (.within session hand)).2.session.tally = session.tally := by
  have again := Entry.close_of_isClosed is.passed
  simp only [step, again, leave_eq again]
  change (session.count hand.entry).tally = _
  rw [Session.count, is.silent, Option.isSome_none, if_neg Bool.false_ne_true]

/-- One of the calls was a close, and it faulted. -/
def CloseFaulted (calls : List Entry.Call) (events : List Event) : Prop :=
  ∃ fault, (Entry.Call.close, Event.faulted fault) ∈ calls.zip events

theorem closeFaulted_cons {call : Entry.Call} {calls : List Entry.Call} {event : Event} {events : List Event} :
    CloseFaulted (call :: calls) (event :: events) ↔
      (call = .close ∧ ∃ fault, event = .faulted fault) ∨ CloseFaulted calls events := by
  constructor
  · rintro ⟨fault, among⟩
    rw [List.zip_cons_cons, List.mem_cons, Prod.mk.injEq] at among
    rcases among with ⟨isClose, isFault⟩ | later
    · exact .inl ⟨isClose.symm, fault, isFault.symm⟩
    · exact .inr ⟨fault, later⟩
  · rintro (⟨rfl, fault, rfl⟩ | ⟨fault, later⟩)
    · exact ⟨fault, List.mem_cons_self⟩
    · exact ⟨fault, List.mem_cons_of_mem _ later⟩

/-- Calls to a closed record are all served, and nothing comes of them. -/
theorem run_of_isClosed (passed : hand.entry.isClosed = true) (shown : hand.shown = []) (calls : List Entry.Call) :
    run (calls.map .call) (.within session hand) = (List.replicate calls.length .served, .within session hand) := by
  induction calls with
  | nil => rfl
  | cons call more ih =>
    simp only [List.map_cons, run, step, Entry.Hand.call_of_isClosed passed shown, ih, List.length_cons,
      List.replicate_succ]

/-- Calls leave the record sound, unless one of them is a close that faults. -/
theorem run_calls (session : Session) (calls : List Entry.Call) (is : hand.IsSound) :
    ∃ hand', (run (calls.map .call) (.within session hand)).2 = .within session hand' ∧
      (CloseFaulted calls (run (calls.map .call) (.within session hand)).1 → hand'.IsBroken) ∧
      (¬ CloseFaulted calls (run (calls.map .call) (.within session hand)).1 → hand'.IsSound) := by
  induction calls generalizing hand with
  | nil =>
    refine ⟨hand, rfl, ?_, fun _ => is⟩
    rintro ⟨_, among⟩
    cases among
  | cons call more ih =>
    simp only [List.map_cons, run, closeFaulted_cons]
    -- only a close that faults ends what `ih` is about, and from there on nothing changes
    by_cases isClose : call = .close
    · subst isClose
      cases called : hand.call .close with
      | ok _ hand' =>
        obtain ⟨complete, shown⟩ := is.close_ok called
        simpa [step, called] using ih (.complete complete shown)
      | error fault hand' =>
        have broken := is.close_error called
        simp only [step, called]
        rw [run_of_isClosed broken.entry.passed broken.shown]
        exact ⟨hand', rfl, fun _ => broken, fun none => absurd (.inl ⟨trivial, fault, rfl⟩) none⟩
    · have sound := is.call isClose
      cases called : hand.call call with
      | ok _ hand' =>
        rw [called] at sound
        simpa [step, called, isClose, Outcome.state] using ih sound
      | error fault hand' =>
        rw [called] at sound
        simpa [step, called, isClose, Outcome.state] using ih sound

/-- What a close that succeeds means. As long as none has faulted, it means that the record is complete: it is said
whether anything was found, and the record is counted once, whatever is called and however often it is closed later.
Once a close has faulted, it means nothing: nothing is said of the record, which is never counted. -/
theorem run_close {visit : Visit σ} (arrived : scanner.next = .record visit) (calls : List Entry.Call) :
    let start := Place.within visit.session (.start visit.entry)
    let events := (run (calls.map .call) start).1
    let place := (run (calls.map .call) start).2
    (¬ CloseFaulted calls events → ∀ session hand, step (.call .close) place = (.served, .within session hand) →
      hand.entry.compliant = some hand.entry.findings.isEmpty ∧
        (step .drop (.within session hand)).2.session.tally = scanner.session.tally.add hand.entry.findings ∧
        ∀ later : List Entry.Call,
          run (later.map .call) (.within session hand) = (List.replicate later.length .served, .within session hand)) ∧
    (CloseFaulted calls events → ∃ hand, place = .within visit.session hand ∧ hand.entry.isClosed = true ∧
      hand.entry.compliant = none ∧ step (.call .close) place = (.served, place) ∧
        (step .drop place).2.session.tally = scanner.session.tally) := by
  intro start events place
  have same : visit.session.tally = scanner.session.tally := by
    have tally := tally_next scanner
    rwa [arrived] at tally
  have isSound : (Entry.Hand.start visit.entry).IsSound := .reading (isOpen_of_next arrived)
  obtain ⟨hand, reached, broken, sound⟩ := run_calls visit.session calls isSound
  have reached : place = .within visit.session hand := reached
  constructor
  · intro none session closed served
    have sound := sound none
    rw [reached] at served
    simp only [step] at served
    split at served
    · next found =>
      cases served
      obtain ⟨complete, shown⟩ := sound.close_ok found
      refine ⟨complete.judged, ?_, run_of_isClosed complete.passed shown⟩
      rw [step_drop_complete complete, same]
    · cases served
  · intro faulted
    have broken := broken faulted
    refine ⟨hand, reached, broken.entry.passed, broken.entry.silent, ?_, ?_⟩
    · rw [reached]
      simp only [step, broken.call]
    · rw [reached, step_drop_broken broken.entry, same]

/-- The input fails behind the first line feed that ends a record: closing it faults, and then succeeds. -/
theorem run_close_cutShort :
    let input : Input := ⟨twoRecords, none, some 48, .inputFailed⟩
    ∃ visit, (create .plain 0 .default input).next = .record visit ∧
      ∃ hand : Entry.Hand (Feed Input), hand.entry.compliant = none ∧ step (.call .close) (.within visit.session hand) =
        (.served, .within visit.session hand) := by
  intro input
  have faults : (match (create .plain 0 .default input).next with
      | .record visit =>
        decide ((run [.call .close] (.within visit.session (.start visit.entry))).1 = [.faulted .inputFailed])
      | .ended _ | .failed .. => false) = true := by decide +kernel
  split at faults
  · next visit arrived =>
    obtain ⟨hand, reached, -, silent, again, -⟩ :=
      (run_close arrived [.close]).2 ⟨.inputFailed, by rw [List.map_singleton, of_decide_eq_true faults]; decide⟩
    rw [reached] at again
    exact ⟨visit, arrived, hand, silent, again⟩
  · cases faults
  · cases faults

/-- A close that succeeds need not have completed the record, nor is the record counted then. -/
theorem exists_served_incomplete :
    let input : Input := ⟨twoRecords, none, some 48, .inputFailed⟩
    ∃ visit session hand, (create .plain 0 .default input).next = .record visit ∧
      run [.call .close, .call .close] (.within visit.session (.start visit.entry)) =
        ([.faulted .inputFailed, .served], .within session hand) ∧
      hand.entry.isClosed = true ∧ hand.entry.compliant = none ∧
      (step .drop (.within session hand)).2.session.tally = .zero := by
  intro input
  have served : (match (create .plain 0 .default input).next with
      | .record visit =>
        match run [.call .close, .call .close] (.within visit.session (.start visit.entry)) with
        | (events, .within session hand) =>
          decide (events = [.faulted .inputFailed, .served] ∧ hand.entry.isClosed = true ∧
            hand.entry.compliant = none ∧ (step .drop (.within session hand)).2.session.tally = .zero)
        | (_, .between _) => false
      | .ended _ | .failed .. => false) = true := by decide +kernel
  split at served
  · next visit arrived =>
    split at served
    · next events session hand reached =>
      obtain ⟨rfl, rest⟩ := of_decide_eq_true served
      exact ⟨visit, session, hand, arrived, reached, rest⟩
    · cases served
  · cases served
  · cases served

end Scanner
end ArcFile
