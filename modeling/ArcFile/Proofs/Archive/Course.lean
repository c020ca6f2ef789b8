import ArcFile.Proofs.Archive.Passage
/-!
Reading a file step by step. A reader goes to the next record, calls it as it likes and leaves it, closed or not, in
any order; `step` is one such action and `run` any number of them. What a scanner needs so that nothing can go wrong
on the way is a `Course`: from wherever it goes there is a record, an end or a failure that is allowed, and it goes on
from there.

What has been counted is kept apart from that: `run_counts` follows the tally through a run, record by record.
-/
namespace ArcFile.Scanner

variable {σ : Type}

/-- What a reader of a file may do. -/
inductive Action where
  | next
  | call (call : Entry.Call)
  | drop
  deriving DecidableEq, Repr

/-- Where a reader is: between two records, or within a record that it holds. -/
inductive Place (σ : Type) where
  | between (scanner : Scanner σ)
  | within (session : Session) (hand : Entry.Hand (Feed σ))

/-- What came of an action. -/
inductive Event where
  | arrived
  | ended
  | failed (failure : Failure)
  | served
  | faulted (fault : Fault)
  /-- The record was left, with all that had been found wrong with it. -/
  | left (findings : Findings)
  /-- The action was not possible: there was no record, or there was one already. -/
  | idle
  deriving DecidableEq, Repr

namespace Event

def isError : Event → Bool
  | failed _ | faulted _ => true
  | arrived | ended | served | left _ | idle => false

/-- The final findings of a record that was left. -/
def final? : Event → Option Findings
  | left findings => some findings
  | arrived | ended | failed _ | served | faulted _ | idle => none

end Event

section Step

variable [Supply σ]

/-- One action. A record that is dropped is closed on the way. -/
def step : Action → Place σ → Event × Place σ
  | .next, .between scanner =>
    match scanner.next with
    | .record visit => (.arrived, .within visit.session (.start visit.entry))
    | .ended scanner => (.ended, .between scanner)
    | .failed failure scanner => (.failed failure, .between scanner)
  | .call call, .within session hand =>
    match hand.call call with
    | .ok () hand => (.served, .within session hand)
    | .error fault hand => (.faulted fault, .within session hand)
  | .drop, .within session hand =>
    match hand.entry.close with
    | .ok () entry => (.left entry.findings, .between (Visit.leave ⟨session, hand.entry⟩))
    | .error fault _ => (.faulted fault, .between (Visit.leave ⟨session, hand.entry⟩))
  | .next, place | .call _, place | .drop, place => (.idle, place)

def run : List Action → Place σ → List Event × Place σ
  | [], place => ([], place)
  | action :: more, place =>
    let (events, last) := run more (step action place).2
    ((step action place).1 :: events, last)

end Step

/-- The session that a reader is in. -/
def Place.session : Place σ → Session
  | between scanner => scanner.session
  | within session _ => session

variable [Supply σ]

/-- What a scanner that goes on can come to. -/
inductive Onward (fails : Failure → Prop) (goes rests : Scanner σ → Prop) (scanner : Scanner σ) : Prop where
  | record {session : Session} {f : Frame} {visit : Visit σ} (next : scanner.next = .record visit)
    (opens : visit.Opens session f goes)
  | ended {scanner' : Scanner σ} (next : scanner.next = .ended scanner') (atRest : rests scanner')
  | failed {failure : Failure} {scanner' : Scanner σ} (next : scanner.next = .failed failure scanner')
    (allowed : fails failure) (still : goes scanner')

/-- A scanner that is as `goes` says can always go on, and only fails as is allowed. Once it is as `rests` says, the
file has ended for good. -/
structure Course (fails : Failure → Prop) (goes rests : Scanner σ → Prop) : Prop where
  next : ∀ {scanner : Scanner σ}, goes scanner → Onward fails goes rests scanner
  goes : ∀ {scanner : Scanner σ}, rests scanner → goes scanner
  again : ∀ {scanner : Scanner σ}, rests scanner → ∃ scanner' : Scanner σ, scanner.next = .ended scanner' ∧
    rests scanner' ∧ scanner'.session.findings = scanner.session.findings

/-- If a header line comes next, its record can be opened. -/
def OpensNext (scanner : Scanner σ) : Prop :=
  ∀ header findings between, scanner.nextHeader = .ok (some header, findings) between →
    ∃ visit, scanner.next = .record visit

/-- Where nothing else goes wrong than that no gzip member begins, every record can be opened. -/
theorem Course.opensNext {goes rests : Scanner σ → Prop} {scanner : Scanner σ}
    (course : Course (fun failure => ∃ offset, failure = .notMember offset) goes rests) (still : goes scanner) :
    scanner.OpensNext := by
  intro header findings between sought
  cases course.next still with
  | record next _ => exact ⟨_, next⟩
  | ended next _ =>
    unfold Scanner.next at next
    simp only [sought] at next
    split at next <;> cases next
  | failed next allowed _ =>
    obtain ⟨offset, rfl⟩ := allowed
    unfold Scanner.next at next
    simp only [sought] at next
    split at next <;> cases next

/-- A reader that is on course: between two records, or within one that can be read and closed without a fault. -/
inductive Place.Stands (goes : Scanner σ → Prop) : Place σ → Prop where
  | between {scanner : Scanner σ} (still : goes scanner) : Stands goes (.between scanner)
  | within {session : Session} {f : Frame} {visit : Visit σ} {hand : Entry.Hand (Feed σ)}
    {holds : Feed σ → Bytes → Prop} {source : Cursor (Feed σ)} (opens : visit.Opens session f goes)
    (steady : Supply.Steady holds) (room : 0 < source.pushbackSize)
    (stands : hand.Stands holds source session.options f visit.entry)
    (onward : ∀ entry, Entry.Done holds source session.options f visit.entry entry →
      goes ⟨visit.session.count entry, entry.source⟩) : Stands goes (.within visit.session hand)

/-- An event that may happen on course. -/
def Event.Allowed (fails : Failure → Prop) : Event → Prop
  | failed failure => fails failure
  | faulted _ => False
  | arrived | ended | served | left _ | idle => True

variable {fails : Failure → Prop} {goes rests : Scanner σ → Prop} {place : Place σ} {scanner : Scanner σ}
  {session : Session} {hand : Entry.Hand (Feed σ)}

/-- Within a record, closing succeeds and leaves it so that closing it again has no effect. -/
theorem Place.Stands.close (h : Place.Stands goes (.within session hand)) :
    ∃ entry, hand.entry.close = .ok () entry ∧ entry.close = .ok () entry ∧ entry.isClosed = true ∧
      entry.compliant = some entry.findings.isEmpty ∧ goes ⟨session.count entry, entry.source⟩ := by
  cases h with
  | within opens steady room stands onward =>
    obtain ⟨entry, closed, done⟩ := Entry.Hand.close_stands steady room opens.options stands
    refine ⟨entry, closed, done.close, ?_, ?_, onward entry done⟩
    · have := hand.entry.isClosed_close
      rwa [closed] at this
    · obtain ⟨source', rfl, -, -⟩ := done
      rfl

theorem leave_eq {entry closed : Entry (Feed σ)} (h : entry.close = .ok () closed) :
    Visit.leave ⟨session, entry⟩ = ⟨session.count closed, closed.source⟩ := by
  simp only [Visit.leave, h, Outcome.state]

/-- One step stays on course. -/
theorem step_stands (course : Course fails goes rests) (action : Action) (h : place.Stands goes) :
    (step action place).1.Allowed fails ∧ (step action place).2.Stands goes := by
  cases place with
  | between scanner =>
    cases h with
    | between still =>
      cases action with
      | call _ | drop => exact ⟨trivial, .between still⟩
      | next =>
        cases course.next still with
        | record next opens =>
          obtain ⟨holds, source, steady, room, -, reads, onward⟩ := opens.reads
          simp only [step, next]
          exact ⟨trivial, .within opens steady room (.reading reads rfl (.inl rfl)) onward⟩
        | ended next atRest =>
          simp only [step, next]
          exact ⟨trivial, .between (course.goes atRest)⟩
        | failed next allowed still =>
          simp only [step, next]
          exact ⟨allowed, .between still⟩
  | within session hand =>
    cases action with
    | next => exact ⟨trivial, h⟩
    | call call =>
      cases h with
      | within opens steady room stands onward =>
        obtain ⟨hand', called, stands'⟩ := Entry.Hand.call_stands steady room opens.options call stands
        simp only [step, called]
        exact ⟨trivial, .within opens steady room stands' onward⟩
    | drop =>
      obtain ⟨entry, closed, -, -, -, onward⟩ := h.close
      simp only [step, closed, leave_eq closed]
      exact ⟨trivial, .between onward⟩

/-- And so does a run. -/
theorem run_stands (course : Course fails goes rests) (actions : List Action) (h : place.Stands goes) :
    (∀ event ∈ (run actions place).1, event.Allowed fails) ∧ (run actions place).2.Stands goes := by
  induction actions generalizing place with
  | nil => exact ⟨List.forall_mem_nil _, h⟩
  | cons action more ih =>
    obtain ⟨allowed, stands⟩ := step_stands course action h
    obtain ⟨all, last⟩ := ih stands
    exact ⟨List.forall_mem_cons.2 ⟨allowed, all⟩, last⟩

/-- The records that a reader holds. -/
def Place.held : Place σ → Nat
  | between _ => 0
  | within _ _ => 1

/-- One step counts what it leaves, and nothing else; and a record is held from when it arrives until it is left. -/
theorem step_counts (action : Action) (h : place.Stands goes) :
    (step action place).2.session.tally = (step action place).1.final?.toList.foldl .add place.session.tally ∧
      (step action place).2.held + (step action place).1.final?.toList.length =
        place.held + if (step action place).1 = .arrived then 1 else 0 := by
  cases place with
  | between scanner =>
    cases action with
    | call _ | drop => exact ⟨rfl, rfl⟩
    | next =>
      have tally := tally_next scanner
      cases found : scanner.next with
      | record visit =>
        rw [found] at tally
        simp only [step, found]
        exact ⟨tally, rfl⟩
      | ended scanner' =>
        rw [found] at tally
        simp only [step, found]
        exact ⟨tally, rfl⟩
      | failed failure scanner' =>
        rw [found] at tally
        simp only [step, found]
        exact ⟨tally, rfl⟩
  | within session hand =>
    cases action with
    | next => exact ⟨rfl, rfl⟩
    | call call =>
      cases called : hand.call call with
      | ok _ hand' =>
        simp only [step, called]
        exact ⟨rfl, rfl⟩
      | error fault hand' =>
        simp only [step, called]
        exact ⟨rfl, rfl⟩
    | drop =>
      obtain ⟨entry, closed, -, -, compliant, -⟩ := h.close
      simp only [step, closed, leave_eq closed]
      refine ⟨?_, rfl⟩
      change (session.count entry).tally = session.tally.add entry.findings
      rw [Session.count, if_pos (by rw [compliant]; rfl)]

/-- What a run has counted is what it left, in order. -/
theorem run_counts (course : Course fails goes rests) (actions : List Action) (h : place.Stands goes) :
    (run actions place).2.session.tally =
        ((run actions place).1.filterMap Event.final?).foldl .add place.session.tally ∧
      (run actions place).2.held + ((run actions place).1.filterMap Event.final?).length =
        place.held + (run actions place).1.count .arrived := by
  induction actions generalizing place with
  | nil => exact ⟨rfl, rfl⟩
  | cons action more ih =>
    obtain ⟨tally, held⟩ := step_counts action h
    obtain ⟨-, stands⟩ := step_stands course action h
    obtain ⟨later, others⟩ := ih stands
    have events : (run (action :: more) place).1 = (step action place).1 :: (run more (step action place).2).1 := rfl
    have cut : (run (action :: more) place).1.filterMap Event.final? =
        (step action place).1.final?.toList ++ (run more (step action place).2).1.filterMap Event.final? := by
      rw [events, List.filterMap_cons]
      cases (step action place).1.final? <;> rfl
    rw [cut]
    constructor
    · rw [List.foldl_append, ← tally]
      exact later
    · rw [events, List.count_cons, List.length_append]
      simp only [beq_iff_eq]
      have last : (run (action :: more) place).2 = (run more (step action place).2).2 := rfl
      rw [last]
      omega

/-- Where the file has ended, it has ended for good. -/
theorem Course.rests_of_ended (course : Course fails goes rests) (h : place.Stands goes)
    (ended : step .next place = (.ended, .between scanner)) : rests scanner := by
  cases h with
  | within => cases ended
  | between still =>
    cases course.next still with
    | record next _ =>
      simp only [step, next] at ended
      cases ended
    | ended next atRest =>
      simp only [step, next] at ended
      cases ended
      exact atRest
    | failed next _ _ =>
      simp only [step, next] at ended
      cases ended

/-- Behind the end of a file nothing comes, and nothing more is found or counted. -/
structure Rests (rests : Scanner σ → Prop) (scanner : Scanner σ) (place : Place σ) : Prop where
  between : ∃ scanner', place = .between scanner' ∧ rests scanner'
  tally : place.session.tally = scanner.session.tally
  findings : place.session.findings = scanner.session.findings

theorem step_rests (course : Course fails goes rests) (action : Action) (h : rests scanner) :
    ((step action (.between scanner)).1 = .ended ∨ (step action (.between scanner)).1 = .idle) ∧
      Rests rests scanner (step action (.between scanner)).2 := by
  cases action with
  | call _ | drop => exact ⟨.inr rfl, ⟨scanner, rfl, h⟩, rfl, rfl⟩
  | next =>
    obtain ⟨scanner', next, atRest, findings⟩ := course.again h
    have tally := tally_next scanner
    rw [next] at tally
    have ended : step .next (.between scanner) = (.ended, .between scanner') := by simp only [step, next]
    rw [ended]
    exact ⟨.inl rfl, ⟨scanner', rfl, atRest⟩, tally, findings⟩

theorem run_rests (course : Course fails goes rests) (actions : List Action) (h : rests scanner) :
    (∀ event ∈ (run actions (.between scanner)).1, event = .ended ∨ event = .idle) ∧
      Rests rests scanner (run actions (.between scanner)).2 := by
  induction actions generalizing scanner with
  | nil => exact ⟨List.forall_mem_nil _, ⟨scanner, rfl, h⟩, rfl, rfl⟩
  | cons action more ih =>
    obtain ⟨event, ⟨scanner', place, atRest⟩, tally, findings⟩ := step_rests course action h
    obtain ⟨later, last⟩ := ih atRest
    rw [place] at tally findings
    have onward : run more (step action (.between scanner)).2 = run more (.between scanner') := by rw [place]
    simp only [run, onward]
    exact ⟨List.forall_mem_cons.2 ⟨event, later⟩, last.between, last.tally.trans tally, last.findings.trans findings⟩

end ArcFile.Scanner
