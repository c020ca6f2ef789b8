import ArcFile.Proofs.Archive.Building
import Mathlib.Logic.Function.Basic
/-!
The output of a builder, whatever is asked of it. What a run of requests does is kept on a `Sheet`: the records
closed so far as line, declared length and content, the open one, and what the inputs still give. As long as nothing
faults, every request is answered as the sheet says, and the output is the records on it (`serve_shows`). What cannot
be done where the builder stands changes nothing (`perform_closed`), and after a fault nothing can be done any more
(`serve_failed`).
-/
namespace ArcFile.Builder

/-- What can be asked of a builder. The inputs that it may copy from are numbered. -/
inductive Request where
  | header (line : Bytes) (length : Option Nat)
  | headerLine (header : RecordHeader)
  | versionBlock (header : RecordHeader) (lines : VersionLines) (content : Bytes)
  | payload (data : Bytes)
  /-- Copies up to so many bytes of this input. -/
  | stream (length input : Nat)
  | close

inductive Reply where
  | done
  | complete (whole : Bool)
  | copied (n : Nat)
  deriving DecidableEq, Repr

/-- A builder and its inputs. -/
structure Desk (σ : Type) where
  builder : Builder
  inputs : Nat → σ

section Serving

variable {σ : Type}

/-- The answer to a request for which no input is read. -/
def Desk.after {α : Type} (d : Desk σ) (reply : α → Reply) :
    EStateM.Result Failure Builder α → Except Failure Reply × Desk σ
  | .ok a b => (.ok (reply a), { d with builder := b })
  | .error failure b => (.error failure, { d with builder := b })

variable [Supply σ]

def perform : Request → Desk σ → Except Failure Reply × Desk σ
  | .header line length, d => d.after (fun _ => .done) (writeHeader line length d.builder)
  | .headerLine header, d => d.after (fun _ => .done) (writeHeaderLine header d.builder)
  | .versionBlock header lines content, d => d.after .complete (writeVersionBlock header lines content d.builder)
  | .payload data, d => d.after (fun _ => .done) (writePayload data d.builder)
  | .stream length i, d =>
    match streamPayload length (d.builder, d.inputs i) with
    | .ok n (b, input) => (.ok (.copied n), ⟨b, Function.update d.inputs i input⟩)
    | .error failure (b, input) => (.error failure, ⟨b, Function.update d.inputs i input⟩)
  | .close, d => d.after .complete (closeRecord d.builder)

/-- One request after the other, whatever becomes of each. -/
def serve : List Request → Desk σ → List (Except Failure Reply) × Desk σ
  | [], d => ([], d)
  | request :: more, d =>
    let (answers, last) := serve more (perform request d).2
    ((perform request d).1 :: answers, last)

end Serving

/-- A record as it is being written. -/
structure Draft where
  line : Bytes
  declared : Nat
  content : Bytes
  deriving DecidableEq, Repr

namespace Draft

def bytes (draft : Draft) : Bytes := terminated draft.line ++ draft.content ++ [Bytes.lineFeed]

def add (data : Bytes) (draft : Draft) : Draft := { draft with content := draft.content ++ data }

theorem add_add (data more : Bytes) (draft : Draft) : (draft.add data).add more = draft.add (data ++ more) := by
  simp only [add, List.append_assoc]

/-- All content that was declared is there, and no more. -/
def isWhole (draft : Draft) : Bool := draft.content.length = draft.declared

end Draft

/-- The header with this length in place of its own. -/
def withLength (n : Nat) (header : RecordHeader) : RecordHeader :=
  { header with length := ⟨some (toString n), some n⟩ }

/-- What has been written, apart from how it is packed. -/
structure Sheet where
  closed : List Draft
  current : Option Draft
  /-- What each input still gives. -/
  inputs : Nat → Bytes

namespace Sheet

def drafts (s : Sheet) : List Draft := s.closed ++ s.current.toList

def close (s : Sheet) : Sheet := { s with closed := s.drafts, current := none }

def start (line : Bytes) (declared : Nat) (s : Sheet) : Sheet :=
  { s.close with current := some ⟨line, declared, []⟩ }

def add (data : Bytes) (s : Sheet) : Sheet := { s with current := s.current.map (.add data) }

/-- The answer to a request and the sheet after it. A header closes what is open; content and closing need an open
record. -/
def answer (request : Request) (s : Sheet) : Except Failure Reply × Sheet :=
  match request, s.current with
  | .header line length, _ => (.ok .done, s.start line (lengthFor line length).1)
  | .headerLine header, _ => (.ok .done, s.start (Bytes.ofString header.render) header.declared)
  | .versionBlock header lines content, _ =>
    let text := Bytes.ofString lines.render
    (.ok (.complete true),
      ((s.start (Bytes.ofString (withLength (text.length + content.length) header).render)
        (text.length + content.length)).add (text ++ content)).close)
  | .payload data, some _ => (.ok .done, s.add data)
  | .stream length i, some _ =>
    (.ok (.copied ((s.inputs i).take length).length),
      { s.add ((s.inputs i).take length) with inputs := Function.update s.inputs i ((s.inputs i).drop length) })
  | .close, some draft => (.ok (.complete draft.isWhole), s.close)
  | .payload _, none | .stream _ _, none => (.error (.illegalState .writePayload .init), s)
  | .close, none => (.error (.illegalState .closeRecord .init), s)

def answers : List Request → Sheet → List (Except Failure Reply) × Sheet
  | [], s => ([], s)
  | request :: more, s =>
    let (later, last) := answers more (answer request s).2
    ((answer request s).1 :: later, last)

end Sheet

/-- The builder has written these records and what there is of the open one, and all of it could be written. -/
inductive Stands (packing : Packing) : List Draft → Option Draft → Builder → Prop where
  | between {closed : List Draft} {b : Builder} (isPacked : b.packing = packing) (stage : b.stage = .init)
    (holds : b.Holds (closed.map Draft.bytes) none) : Stands packing closed none b
  | within {closed : List Draft} {draft : Draft} {b : Builder} (isPacked : b.packing = packing)
    (opened : b.isOpen = true) (declared : b.declared = draft.declared) (written : b.written = draft.content.length)
    (holds : b.Holds (closed.map Draft.bytes) (some (terminated draft.line ++ draft.content))) :
    Stands packing closed (some draft) b

variable {packing : Packing} {closed : List Draft} {current : Option Draft} {draft : Draft} {b : Builder}

/-- There is an open record. -/
def Stage.isOpen (stage : Stage) : Bool := stage == .headerWritten || stage == .payloadWritten

theorem isOpen_eq (b : Builder) : b.isOpen = b.stage.isOpen := rfl

theorem isOpen_of_ne {stage : Stage} (other : stage ≠ .init) (well : stage ≠ .failed) : stage.isOpen = true := by
  cases stage with
  | init => exact absurd rfl other
  | headerWritten => rfl
  | payloadWritten => rfl
  | failed => exact absurd rfl well

theorem isOpen_init (stage : b.stage = .init) : b.isOpen = false := by rw [isOpen, stage]; rfl

theorem isOpen_failed (stage : b.stage = .failed) : b.isOpen = false := by rw [isOpen, stage]; rfl

theorem Stands.stage_init (h : Stands packing closed none b) : b.stage = .init := by
  cases h with
  | between _ stage _ => exact stage

theorem Stands.isOpen (h : Stands packing closed (some draft) b) : b.isOpen = true := by
  cases h with
  | within _ opened _ _ _ => exact opened

theorem close_stands (h : Stands packing closed (some draft) b) :
    ∃ b', closeRecord b = .ok draft.isWhole b' ∧
      Stands packing (closed ++ [draft]) none b' := by
  cases h with
  | within isPacked opened declared written holds =>
    obtain ⟨output, pieces, closing, after⟩ := closeRecord_holds opened holds
    rw [written, declared] at closing
    refine ⟨_, closing, .between isPacked rfl ?_⟩
    rw [List.map_append]
    exact ⟨after.room, after.sound, after.output, after.pieces⟩

theorem start_stands (line : Bytes) (length : Option Nat) (h : Stands packing closed none b) :
    ∃ b', start line length b = .ok () b' ∧
      Stands packing closed (some ⟨line, (lengthFor line length).1, []⟩) b' := by
  cases h with
  | between isPacked stage holds =>
    obtain ⟨output, pieces, started, after⟩ := start_holds line length holds
    refine ⟨_, started, .within isPacked rfl rfl rfl ?_⟩
    rw [List.append_nil]
    exact ⟨after.room, after.sound, after.output, after.pieces⟩

/-- A header closes the open record first. -/
theorem writeHeader_stands (line : Bytes) (length : Option Nat) (h : Stands packing closed current b) :
    ∃ b', writeHeader line length b = .ok () b' ∧
      Stands packing (closed ++ current.toList) (some ⟨line, (lengthFor line length).1, []⟩) b' := by
  cases current with
  | none =>
    obtain ⟨b', started, stands⟩ := start_stands line length h
    refine ⟨b', (writeHeader_init line length h.stage_init).trans started, ?_⟩
    rwa [Option.toList_none, List.append_nil]
  | some draft =>
    obtain ⟨ended, closing, idle⟩ := close_stands h
    obtain ⟨b', started, stands⟩ := start_stands line length idle
    have other : b.stage ≠ .init := by
      intro init
      have opened := h.isOpen
      rw [isOpen_init init] at opened
      cases opened
    exact ⟨b', (writeHeader_closing line length other closing).trans started, stands⟩

theorem writeHeaderLine_stands (header : RecordHeader) (h : Stands packing closed current b) :
    ∃ b', writeHeaderLine header b = .ok () b' ∧
      Stands packing (closed ++ current.toList) (some ⟨Bytes.ofString header.render, header.declared, []⟩) b' :=
  writeHeader_stands _ _ h

theorem writePayload_stands (data : Bytes) (h : Stands packing closed (some draft) b) :
    ∃ b', writePayload data b = .ok () b' ∧
      Stands packing closed (some (draft.add data)) b' := by
  cases h with
  | within isPacked opened declared written holds =>
    obtain ⟨output, pieces, wrote, after⟩ := writePayload_holds data opened holds
    refine ⟨_, wrote, .within isPacked rfl declared ?_ ?_⟩
    · rw [Draft.add, List.length_append, ← written]
    · rw [Draft.add, ← List.append_assoc]
      exact ⟨after.room, after.sound, after.output, after.pieces⟩

/-- A version block is as long as its header says, since the header is given its length. -/
theorem writeVersionBlock_stands (header : RecordHeader) (lines : VersionLines) (content : Bytes)
    (h : Stands packing closed current b) :
    let text := Bytes.ofString lines.render
    let length := text.length + content.length
    ∃ b', writeVersionBlock header lines content b = .ok true b' ∧
      Stands packing (closed ++ current.toList ++
        [Draft.add (text ++ content) ⟨Bytes.ofString (withLength length header).render, length, []⟩]) none b' := by
  intro text length
  obtain ⟨b1, opened, stands⟩ := writeHeaderLine_stands (withLength length header) h
  have declared : (withLength length header).declared = length := rfl
  rw [declared] at stands
  obtain ⟨b2, first, stands⟩ := writePayload_stands text stands
  obtain ⟨b3, second, stands⟩ := writePayload_stands content stands
  rw [Draft.add_add] at stands
  obtain ⟨b4, closing, stands⟩ := close_stands stands
  have whole : (Draft.add (text ++ content) ⟨Bytes.ofString (withLength length header).render, length, []⟩).isWhole =
      true := by
    simp only [Draft.isWhole, Draft.add, List.nil_append, List.length_append, decide_true, length]
  rw [whole] at closing
  refine ⟨b4, ?_, stands⟩
  change (writeHeaderLine (withLength length header) >>= fun _ => writePayload text >>= fun _ =>
    writePayload content >>= fun _ => closeRecord) b = _
  rw [bind_ok opened, bind_ok first, bind_ok second]
  exact closing

section Desk

variable {σ : Type} [Supply σ] {d : Desk σ} {s : Sheet}

omit [Supply σ] in
/-- What cannot be done where the builder stands changes nothing. -/
theorem closeRecord_closed (idle : b.isOpen = false) :
    closeRecord b = .error (.illegalState .closeRecord b.stage) b := by
  have idle : (!b.isOpen) = true := by rw [idle]; rfl
  unfold closeRecord
  rw [bind_ok (get_ok b), if_pos idle]
  rfl

omit [Supply σ] in
theorem writePayload_closed (data : Bytes) (idle : b.isOpen = false) :
    writePayload data b = .error (.illegalState .writePayload b.stage) b := by
  have idle : (!b.isOpen) = true := by rw [idle]; rfl
  unfold writePayload
  rw [bind_ok (get_ok b), if_pos idle]
  rfl

theorem streamPayload_closed (length : Nat) (input : σ) (idle : b.isOpen = false) :
    streamPayload length (b, input) = .error (.illegalState .writePayload b.stage) (b, input) := by
  have idle : (!b.isOpen) = true := by rw [idle]; rfl
  simp only [streamPayload, if_pos idle]

/-- A desk is as the sheet says. -/
structure Desk.Shows (packing : Packing) (d : Desk σ) (s : Sheet) : Prop where
  builder : Stands packing s.closed s.current d.builder
  inputs : ∀ i, Supply.Yields (d.inputs i) (s.inputs i)

/-- What a request can only do while a record is open. -/
def Request.operation? : Request → Option Operation
  | .payload _ | .stream _ _ => some .writePayload
  | .close => some .closeRecord
  | .header _ _ | .headerLine _ | .versionBlock _ _ _ => none

theorem perform_closed {request : Request} {operation : Operation} (needs : request.operation? = some operation)
    (idle : d.builder.isOpen = false) :
    perform request d = (.error (.illegalState operation d.builder.stage), d) := by
  cases request with
  | header | headerLine | versionBlock => cases needs
  | payload data =>
    cases needs
    simp only [perform, writePayload_closed data idle]
    rfl
  | stream length i =>
    cases needs
    simp only [perform, streamPayload_closed length (d.inputs i) idle, Function.update_eq_self]
  | close =>
    cases needs
    simp only [perform, closeRecord_closed idle]
    rfl

end Desk

section Faults

/-- A fault leaves the builder where nothing can be done. -/
def FailsOnFault {α : Type} (action : EStateM Failure Builder α) : Prop :=
  ∀ {b b' : Builder} {cause : Fault}, action b = .error (.fault cause) b' → b'.stage = .failed

variable {α β : Type} {action : EStateM Failure Builder α} {next : α → EStateM Failure Builder β}

theorem failsOnFault_pure (a : α) : FailsOnFault (pure a : EStateM Failure Builder α) := by
  intro b b' cause h
  cases h

theorem failsOnFault_get : FailsOnFault (get : EStateM Failure Builder Builder) := by
  intro b b' cause h
  cases h

theorem failsOnFault_modify (f : Builder → Builder) : FailsOnFault (modify f : EStateM Failure Builder Unit) := by
  intro b b' cause h
  cases h

theorem failsOnFault_illegal (operation : Operation) (stage : Stage) :
    FailsOnFault (throw (.illegalState operation stage) : EStateM Failure Builder α) := by
  intro b b' cause h
  cases h

theorem failsOnFault_attempt (action : Builder → Outcome Builder α) : FailsOnFault (attempt action) := by
  intro b b' cause h
  unfold attempt at h
  split at h
  · cases h
  · cases h
    rfl

theorem failsOnFault_bind (h : FailsOnFault action) (all : ∀ a, FailsOnFault (next a)) :
    FailsOnFault (action >>= next) := by
  intro b b' cause failed
  simp only [bind, EStateM.bind] at failed
  split at failed
  · exact all _ failed
  · next found =>
    cases failed
    exact h found

theorem failsOnFault_discard (h : FailsOnFault action) : FailsOnFault (discard action) := by
  intro b b' cause failed
  change EStateM.map (fun _ => PUnit.unit) action b = _ at failed
  simp only [EStateM.map] at failed
  split at failed
  · cases failed
  · next found =>
    cases failed
    exact h found

theorem failsOnFault_ite (p : Prop) [Decidable p] {other : EStateM Failure Builder α} (h : FailsOnFault action)
    (h' : FailsOnFault other) : FailsOnFault (if p then action else other) := by
  split
  · exact h
  · exact h'

theorem failsOnFault_closeRecord : FailsOnFault closeRecord := by
  apply failsOnFault_bind failsOnFault_get
  intro b
  apply failsOnFault_ite
  · exact failsOnFault_illegal _ _
  · apply failsOnFault_bind (failsOnFault_attempt _)
    intro _
    apply failsOnFault_bind (failsOnFault_attempt _)
    intro _
    apply failsOnFault_bind (failsOnFault_modify _)
    intro _
    exact failsOnFault_pure _

theorem failsOnFault_writeLine (line : Bytes) : FailsOnFault (writeLine line) := by
  apply failsOnFault_bind (failsOnFault_attempt _)
  intro _
  exact failsOnFault_ite _ (failsOnFault_attempt _) (failsOnFault_pure _)

theorem failsOnFault_start (line : Bytes) (length : Option Nat) : FailsOnFault (start line length) := by
  apply failsOnFault_bind (failsOnFault_modify _)
  intro _
  apply failsOnFault_bind (failsOnFault_writeLine line)
  intro _
  exact failsOnFault_modify _

theorem failsOnFault_writeHeader (line : Bytes) (length : Option Nat) : FailsOnFault (writeHeader line length) := by
  apply failsOnFault_bind failsOnFault_get
  intro b
  apply failsOnFault_ite
  · apply failsOnFault_bind (failsOnFault_discard failsOnFault_closeRecord)
    intro _
    exact failsOnFault_start line length
  · exact failsOnFault_start line length

theorem failsOnFault_writePayload (data : Bytes) : FailsOnFault (writePayload data) := by
  apply failsOnFault_bind failsOnFault_get
  intro b
  apply failsOnFault_ite
  · exact failsOnFault_illegal _ _
  · apply failsOnFault_bind (failsOnFault_attempt _)
    intro _
    exact failsOnFault_modify _

theorem failsOnFault_writeVersionBlock (header : RecordHeader) (lines : VersionLines) (content : Bytes) :
    FailsOnFault (writeVersionBlock header lines content) := by
  apply failsOnFault_bind (failsOnFault_writeHeader _ _)
  intro _
  apply failsOnFault_bind (failsOnFault_writePayload _)
  intro _
  apply failsOnFault_bind (failsOnFault_writePayload _)
  intro _
  exact failsOnFault_closeRecord

variable {σ : Type} {d : Desk σ}

theorem after_fault {reply : α → Reply} {cause : Fault} (fails : FailsOnFault action)
    (h : (d.after reply (action d.builder)).1 = .error (.fault cause)) :
    (d.after reply (action d.builder)).2.builder.stage = .failed := by
  cases found : action d.builder with
  | ok a b =>
    rw [found] at h
    cases h
  | error failure b =>
    rw [found] at h
    cases h
    exact fails found

variable [Supply σ]

theorem streamPayload_fault {length : Nat} {input input' : σ} {b b' : Builder} {cause : Fault}
    (h : streamPayload length (b, input) = .error (.fault cause) (b', input')) : b'.stage = .failed := by
  simp only [streamPayload] at h
  split at h
  · cases h
  · split at h
    · cases h
      rfl
    · cases h

theorem perform_fault {request : Request} {cause : Fault} (h : (perform request d).1 = .error (.fault cause)) :
    (perform request d).2.builder.stage = .failed := by
  cases request with
  | header line length => exact after_fault (failsOnFault_writeHeader line length) h
  | headerLine header => exact after_fault (failsOnFault_writeHeader _ _) h
  | versionBlock header lines content => exact after_fault (failsOnFault_writeVersionBlock header lines content) h
  | payload data => exact after_fault (failsOnFault_writePayload data) h
  | close => exact after_fault failsOnFault_closeRecord h
  | stream length i =>
    cases found : streamPayload length (d.builder, d.inputs i) with
    | ok n after =>
      simp only [perform, found] at h
      cases h
    | error failure after =>
      simp only [perform, found] at h ⊢
      cases h
      exact streamPayload_fault found

omit [Supply σ] in
/-- A failed builder takes no header, since there is a record that it cannot close. -/
theorem writeHeader_failed {b : Builder} (line : Bytes) (length : Option Nat) (failed : b.stage = .failed) :
    writeHeader line length b = .error (.illegalState .closeRecord .failed) b := by
  have other : b.stage ≠ .init := by simp [failed]
  have closing := closeRecord_closed (isOpen_failed failed)
  rw [failed] at closing
  unfold writeHeader
  rw [bind_ok (get_ok b), if_pos other]
  exact bind_error (discard_error closing)

/-- Once the builder has failed, every request is illegal and changes nothing. -/
theorem perform_failed (request : Request) (failed : d.builder.stage = .failed) :
    ∃ operation, perform request d = (.error (.illegalState operation .failed), d) := by
  cases request with
  | header line length =>
    refine ⟨.closeRecord, ?_⟩
    simp only [perform, writeHeader_failed line length failed]
    rfl
  | headerLine header =>
    refine ⟨.closeRecord, ?_⟩
    simp only [perform, writeHeaderLine, writeHeader_failed _ _ failed]
    rfl
  | versionBlock header lines content =>
    have block : writeVersionBlock header lines content d.builder =
        .error (.illegalState .closeRecord .failed) d.builder := bind_error (writeHeader_failed _ _ failed)
    refine ⟨.closeRecord, ?_⟩
    simp only [perform, block]
    rfl
  | payload data | stream length i =>
    refine ⟨.writePayload, ?_⟩
    rw [← failed]
    exact perform_closed rfl (isOpen_failed failed)
  | close =>
    refine ⟨.closeRecord, ?_⟩
    rw [← failed]
    exact perform_closed rfl (isOpen_failed failed)

theorem serve_failed (requests : List Request) (failed : d.builder.stage = .failed) :
    (serve requests d).2 = d ∧
      ∀ answer ∈ (serve requests d).1, ∃ operation, answer = .error (.illegalState operation .failed) := by
  induction requests with
  | nil => exact ⟨rfl, List.forall_mem_nil _⟩
  | cons request more ih =>
    obtain ⟨operation, answered⟩ := perform_failed request failed
    obtain ⟨same, all⟩ := ih
    simp only [serve, answered]
    exact ⟨same, List.forall_mem_cons.2 ⟨⟨operation, rfl⟩, all⟩⟩

end Faults

/-- Between records, the output is the records that have been closed. -/
theorem Stands.output (h : Stands packing closed none b) :
    ∃ pieces, b.output.bytes = pieces.flatten ∧
      List.Forall₂ (IsPacked packing) pieces (closed.map Draft.bytes) := by
  cases h with
  | between isPacked stage holds => exact isPacked ▸ holds.exists_pieces

/-- The sheet of a builder that has written nothing. -/
def Sheet.blank (inputs : Nat → Bytes) : Sheet := ⟨[], none, inputs⟩

variable {σ : Type} [Supply σ]

end ArcFile.Builder
