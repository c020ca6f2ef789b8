import ArcFile.Proofs.Archive.Output
/-!
What makes a builder fail. All that a request does to the output, and the fault of an input that it copies from, are
events that can be told before it is performed. A builder fails just if one of them faults (`perform_answered`), and
this is the only way for a run to end in failure (`serve_failed_iff`). The fault need not be one of the output. What an
event hands to the output is for the encoder to say: it may do so at any time, and the output may refuse it at any time.
-/
namespace ArcFile.Builder

/-- What a request does that can fault. -/
inductive Event where
  /-- Bytes of the open record are written. -/
  | write (data : Bytes)
  /-- What has been held back of the open record is written. -/
  | ending
  /-- The input that is being copied faults. -/
  | inputFault (cause : Fault)
  deriving DecidableEq

def Event.run : Event → Builder → Outcome Builder Unit
  | .write data, b => b.put data
  | .ending, b => b.endPieces
  | .inputFault cause, b => .error cause b

/-- One event after the other, up to the first that faults. -/
def runAll : List Event → Builder → Except (Event × Fault) Builder
  | [], b => .ok b
  | event :: more, b =>
    match event.run b with
    | .ok () b => runAll more b
    | .error cause _ => .error (event, cause)

/-- What has been written is the same in both, and what makes the output of it. -/
structure Alike (b b' : Builder) : Prop where
  encoder : b.encoder = b'.encoder
  output : b.output = b'.output
  pieces : b.pieces = b'.pieces

variable {b b' : Builder} {before middle after : Stage}

theorem Alike.refl (b : Builder) : b.Alike b := ⟨rfl, rfl, rfl⟩

theorem runAll_append (events more : List Event) (b : Builder) :
    runAll (events ++ more) b = (runAll events b).bind (runAll more) := by
  induction events generalizing b with
  | nil => rfl
  | cons event rest ih =>
    rw [List.cons_append, runAll, runAll]
    split
    · exact ih _
    · rfl

/-! ## Events and actions -/

theorem emit_alike (data : Bytes) (alike : b.Alike b') :
    (∃ c c', b.emit data = .ok () c ∧ b'.emit data = .ok () c' ∧ c.Alike c' ∧ c'.stage = b'.stage) ∨
      ∃ cause c c', b.emit data = .error cause c ∧ b'.emit data = .error cause c' := by
  unfold emit
  rw [← alike.output]
  cases b.output.write data with
  | ok _ output => exact .inl ⟨_, _, rfl, rfl, ⟨alike.encoder, rfl, alike.pieces⟩, rfl⟩
  | error cause output => exact .inr ⟨cause, _, _, rfl, rfl⟩

/-- What an event does depends on what has been written, and on nothing else. -/
theorem run_alike (event : Event) (alike : b.Alike b') :
    (∃ c c', event.run b = .ok () c ∧ event.run b' = .ok () c' ∧ c.Alike c' ∧ c'.stage = b'.stage) ∨
      ∃ cause c c', event.run b = .error cause c ∧ event.run b' = .error cause c' := by
  cases event with
  | write data =>
    simp only [Event.run, put, ← alike.encoder, ← alike.pieces]
    split
    · exact .inl ⟨_, _, rfl, rfl, alike, rfl⟩
    · rcases emit_alike (b.encoder.onWrite b.pieces data) alike with
        ⟨c, c', first, second, same, stage⟩ | ⟨cause, c, c', first, second⟩
      · rw [first, second]
        exact .inl ⟨_, _, rfl, rfl, ⟨same.encoder, same.output, congrArg (data :: ·) same.pieces⟩, stage⟩
      · rw [first, second]
        exact .inr ⟨cause, _, _, rfl, rfl⟩
  | ending =>
    simp only [Event.run, endPieces, ← alike.encoder, ← alike.pieces]
    split
    · exact .inl ⟨_, _, rfl, rfl, alike, rfl⟩
    · have same : Alike { b with pieces := [] } { b' with pieces := [] } := ⟨alike.encoder, alike.output, rfl⟩
      exact emit_alike (b.encoder.onEnd b.pieces) same
  | inputFault cause => exact .inr ⟨cause, _, _, rfl, rfl⟩

/-- An action has done what the events did: it goes on from where they led to, or it has failed with their fault. -/
inductive Follows {α : Type} (after : Stage) :
    Except (Event × Fault) Builder → EStateM.Result Failure Builder α → Prop
  | done {a : α} {b b' : Builder} (alike : b.Alike b') (stage : b'.stage = after) : Follows after (.ok b) (.ok a b')
  | fault {event : Event} {cause : Fault} {b : Builder} (failed : b.stage = .failed) :
    Follows after (.error (event, cause)) (.error (.fault cause) b)

/-- From one stage to the other, the action does these events. -/
def Does {α : Type} (action : EStateM Failure Builder α) (before after : Stage) (events : List Event) : Prop :=
  ∀ b b' : Builder, b.Alike b' → b'.stage = before → Follows after (runAll events b) (action b')

section Actions

variable {α β : Type} {action : EStateM Failure Builder α} {events more : List Event}

theorem does_pure (a : α) : Does (pure a) before before [] := fun _ _ alike stage => .done alike stage

theorem does_get {next : Builder → EStateM Failure Builder α}
    (all : ∀ b : Builder, b.stage = before → Does (next b) before after events) :
    Does (get >>= next) before after events := by
  intro b b' alike stage
  rw [bind_ok (get_ok b')]
  exact all b' stage b b' alike stage

theorem does_modify {f : Builder → Builder} (same : ∀ b : Builder, b.Alike (f b))
    (stage : ∀ b : Builder, b.stage = before → (f b).stage = after) : Does (modify f) before after [] := by
  intro b b' alike is
  have changed := same b'
  exact .done ⟨alike.encoder.trans changed.encoder, alike.output.trans changed.output,
    alike.pieces.trans changed.pieces⟩ (stage b' is)

theorem does_attempt (event : Event) : Does (attempt event.run) before before [event] := by
  intro b b' alike stage
  unfold attempt
  rw [runAll]
  rcases run_alike event alike with ⟨c, c', first, second, same, is⟩ | ⟨cause, c, c', first, second⟩
  · rw [first, second]
    exact .done same (is.trans stage)
  · rw [first, second]
    exact .fault rfl

theorem does_bind {next : α → EStateM Failure Builder β} (h : Does action before middle events)
    (all : ∀ a, Does (next a) middle after more) : Does (action >>= next) before after (events ++ more) := by
  intro b b' alike stage
  have first := h b b' alike stage
  rw [runAll_append]
  simp only [bind, EStateM.bind]
  generalize runAll events b = done at first ⊢
  generalize action b' = result at first ⊢
  cases first with
  | done same is => exact all _ _ _ same is
  | fault failed => exact .fault failed

theorem does_attempt_bind (event : Event) {next : EStateM Failure Builder α} (h : Does next before after more) :
    Does (attempt event.run >>= fun _ => next) before after (event :: more) :=
  does_bind (does_attempt event) fun _ => h

theorem does_modify_bind {f : Builder → Builder} {next : EStateM Failure Builder α}
    (same : ∀ b : Builder, b.Alike (f b)) (stage : ∀ b : Builder, b.stage = before → (f b).stage = middle)
    (h : Does next middle after more) :
    Does (modify f >>= fun _ => next) before after more :=
  does_bind (does_modify same stage) fun _ => h

theorem does_discard (h : Does action before after events) : Does (discard action) before after events := by
  intro b b' alike stage
  have first := h b b' alike stage
  change Follows after _ (EStateM.map (fun _ => PUnit.unit) action b')
  simp only [EStateM.map]
  generalize runAll events b = done at first ⊢
  generalize action b' = result at first ⊢
  cases first with
  | done same is => exact .done same is
  | fault failed => exact .fault failed

end Actions

/-- What closes the open record, if there is one. -/
def closing (stage : Stage) : List Event := if stage.isOpen then [.write [Bytes.lineFeed], .ending] else []

theorem not_mem_closing (stage : Stage) (cause : Fault) : .inputFault cause ∉ closing stage := by
  unfold closing
  split <;> simp

theorem does_closeRecord (opened : before.isOpen = true) : Does closeRecord before .init (closing before) := by
  rw [closing, if_pos opened]
  apply does_get
  intro b stage
  rw [← stage, ← isOpen_eq] at opened
  rw [if_neg (not_closed opened)]
  refine does_attempt_bind (.write [Bytes.lineFeed]) (does_attempt_bind .ending (does_modify_bind ?_ ?_ (does_pure _)))
  · exact fun _ => ⟨rfl, rfl, rfl⟩
  · exact fun _ _ => rfl

/-- What writes a line. -/
def lineEvents (line : Bytes) : List Event :=
  .write line :: if line.getLast? = some Bytes.lineFeed then [] else [.write [Bytes.lineFeed]]

theorem not_mem_lineEvents (line : Bytes) (cause : Fault) : .inputFault cause ∉ lineEvents line := by
  unfold lineEvents
  split <;> simp

theorem does_writeLine (line : Bytes) : Does (writeLine line) before before (lineEvents line) := by
  apply does_attempt_bind (.write line)
  by_cases feed : line.getLast? = some Bytes.lineFeed
  · rw [if_pos feed, if_neg (not_not_intro feed)]
    exact does_pure ()
  · rw [if_neg feed, if_pos feed]
    exact does_attempt (.write [Bytes.lineFeed])

theorem does_start (line : Bytes) (length : Option Nat) :
    Does (start line length) before .headerWritten (lineEvents line) := by
  have opens : Does (modify fun b => { b with stage := .headerWritten }) before .headerWritten [] :=
    does_modify (fun _ => ⟨rfl, rfl, rfl⟩) (fun _ _ => rfl)
  rw [← List.append_nil (lineEvents line)]
  refine does_modify_bind ?_ ?_ (does_bind (does_writeLine line) fun _ => opens)
  · exact fun _ => ⟨rfl, rfl, rfl⟩
  · exact fun _ is => is

theorem does_writeHeader (line : Bytes) (length : Option Nat) (well : before ≠ .failed) :
    Does (writeHeader line length) before .headerWritten (closing before ++ lineEvents line) := by
  apply does_get
  intro b stage
  by_cases init : b.stage = .init
  · have idle : closing before = [] := by rw [← stage, init]; rfl
    rw [if_neg fun other => other init, idle]
    exact does_start line length
  · have opened : before.isOpen = true := isOpen_of_ne (stage ▸ init) well
    rw [if_pos init]
    apply does_bind (does_discard (does_closeRecord opened))
    intro _
    exact does_start line length

theorem does_writePayload (data : Bytes) (opened : before.isOpen = true) :
    Does (writePayload data) before .payloadWritten [.write data] := by
  apply does_get
  intro b stage
  rw [← stage, ← isOpen_eq] at opened
  rw [if_neg (not_closed opened)]
  refine does_attempt_bind (.write data) (does_modify ?_ ?_)
  · exact fun _ => ⟨rfl, rfl, rfl⟩
  · exact fun _ _ => rfl

/-- What a version block does behind its header line. -/
def blockEvents (text content : Bytes) : List Event :=
  [.write text, .write content, .write [Bytes.lineFeed], .ending]

theorem does_writeVersionBlock (header : RecordHeader) (lines : VersionLines) (content : Bytes)
    (well : before ≠ .failed) :
    let text := Bytes.ofString lines.render
    let line := Bytes.ofString (withLength (text.length + content.length) header).render
    Does (writeVersionBlock header lines content) before .init
      (closing before ++ lineEvents line ++ blockEvents text content) := by
  intro text line
  apply does_bind (does_writeHeader _ _ well)
  intro _
  apply does_bind (does_writePayload text rfl)
  intro _
  apply does_bind (does_writePayload content rfl)
  intro _
  have ended : Does closeRecord .payloadWritten .init (closing .payloadWritten) := does_closeRecord rfl
  exact ended

theorem does_finish (well : before ≠ .failed) : Does finish before .init (closing before) := by
  have ended : Does (do let b ← get; if b.stage = .failed then throw (.illegalState .finish b.stage) :
      EStateM Failure Builder Unit) .init .init [] := by
    apply does_get
    intro b stage
    rw [if_neg (by simp [stage])]
    exact does_pure ()
  apply does_get
  intro b stage
  rw [isOpen_eq, stage]
  by_cases opened : before.isOpen = true
  · rw [if_pos opened, ← List.append_nil (closing before)]
    exact does_bind (does_discard (does_closeRecord opened)) fun _ => ended
  · have init : before = .init := Decidable.byContradiction fun other => opened (isOpen_of_ne other well)
    rw [if_neg opened, closing, if_neg opened, init]
    exact ended

section Copying

variable {σ : Type} [Supply σ]

/-- What copying up to `length` bytes of an input does: it writes the pieces that come, up to the end of the input or its
fault. -/
def copying (length : Nat) (input : σ) : List Event :=
  if length = 0 then []
  else
    match found : Supply.read (min stride length) input with
    | .error cause _ => [.inputFault cause]
    | .ok [] _ => []
    | .ok (x :: more) input' =>
      have : Supply.bound input' < Supply.bound input := by
        have := (Supply.read_ok found).2
        simp only [List.length_cons] at this
        omega
      .write (x :: more) :: copying (length - (x :: more).length) input'
termination_by Supply.bound input

/-- Copying does these events, too, and leaves the stage as it was. -/
inductive Copied (stage : Stage) : Except (Event × Fault) Builder → Outcome (Builder × σ) Nat → Prop
  | done {n : Nat} {b b' : Builder} {input : σ} (alike : b.Alike b') (same : b'.stage = stage) :
    Copied stage (.ok b) (.ok n (b', input))
  | fault {event : Event} {cause : Fault} {b : Builder} {input : σ} :
    Copied stage (.error (event, cause)) (.error cause (b, input))

theorem copied_copy (length copied : Nat) (input : σ) (alike : b.Alike b') :
    Copied b'.stage (runAll (copying length input) b) (copy length copied b' input) := by
  fun_induction copying length input generalizing copied b b' with
  | case1 input =>
    rw [copy_zero]
    exact .done alike rfl
  | case2 length input some cause input' read =>
    rw [copy_fault some read]
    exact .fault
  | case3 length input some input' read =>
    rw [copy_end some read]
    exact .done alike rfl
  | case4 length input some x more input' read smaller ih =>
    rw [copy_piece some read, runAll]
    rcases run_alike (.write (x :: more)) alike with
      ⟨c, c', first, second, same, stage⟩ | ⟨cause, c, c', first, second⟩
    · rw [first, show b'.put (x :: more) = .ok () c' from second, ← stage]
      exact ih _ same
    · rw [first, show b'.put (x :: more) = .error cause c' from second]
      exact .fault

end Copying

/-! ## What an event writes -/

/-- The bytes that an event hands to the output. What these are, if there are any, is for the encoder to say. -/
def Event.emits? : Event → Builder → Option Bytes
  | .write data, b => if data.isEmpty then none else some (b.encoder.onWrite b.pieces data)
  | .ending, b => if b.pieces.isEmpty then none else some (b.encoder.onEnd b.pieces)
  | .inputFault _, _ => none

theorem emit_error_iff {data : Bytes} {cause : Fault} :
    (∃ c, b.emit data = .error cause c) ↔ ∃ output, b.output.write data = .error cause output := by
  unfold emit
  cases b.output.write data with
  | ok _ output => simp
  | error cause' output => simp

/-- An event faults if the output does not take what it writes, or if it is a fault itself. -/
theorem run_error_iff (event : Event) (b : Builder) (cause : Fault) : (∃ c, event.run b = .error cause c) ↔
    (∃ data output, event.emits? b = some data ∧ b.output.write data = .error cause output) ∨
      event = .inputFault cause := by
  cases event with
  | write data =>
    have refused : (∃ c, b.emit (b.encoder.onWrite b.pieces data) = .error cause c) ↔ _ := emit_error_iff
    simp only [Event.run, put, Event.emits?]
    split
    · simp
    · cases found : b.emit (b.encoder.onWrite b.pieces data) with
      | ok =>
        rw [found] at refused
        simpa using refused
      | error =>
        rw [found] at refused
        simpa using refused
  | ending =>
    simp only [Event.run, endPieces, Event.emits?]
    split
    · simp
    · simpa using emit_error_iff (b := { b with pieces := [] })
  | inputFault cause' => simp [Event.run, Event.emits?]

/-- Where a run of events stopped. -/
theorem runAll_error_iff {events : List Event} {event : Event} {cause : Fault} :
    runAll events b = .error (event, cause) ↔ ∃ done rest b' c, events = done ++ event :: rest ∧
      runAll done b = .ok b' ∧ event.run b' = .error cause c := by
  constructor
  · intro h
    induction events generalizing b with
    | nil => cases h
    | cons first more ih =>
      rw [runAll] at h
      split at h
      · next b1 ran =>
        obtain ⟨done, rest, b', c, rfl, earlier, refused⟩ := ih h
        exact ⟨first :: done, rest, b', c, rfl, by rw [runAll, ran]; exact earlier, refused⟩
      · next c ran =>
        cases h
        exact ⟨[], more, b, c, rfl, rfl, ran⟩
  · rintro ⟨done, rest, b', c, rfl, earlier, refused⟩
    rw [runAll_append, earlier]
    change runAll (event :: rest) b' = _
    rw [runAll, refused]

/-- The output does not take what one of the events writes to it. -/
def OutputFaults (events : List Event) (b : Builder) (cause : Fault) : Prop :=
  ∃ done event rest b' data output, events = done ++ event :: rest ∧ runAll done b = .ok b' ∧
    event.emits? b' = some data ∧ b'.output.write data = .error cause output

/-- All that is to be written in front of it can be written, and then the input faults. -/
def InputFaults (events : List Event) (b : Builder) (cause : Fault) : Prop :=
  ∃ done rest b', events = done ++ .inputFault cause :: rest ∧ runAll done b = .ok b'

theorem exists_runAll_error_iff {events : List Event} {cause : Fault} :
    (∃ event, runAll events b = .error (event, cause)) ↔ OutputFaults events b cause ∨ InputFaults events b cause := by
  constructor
  · rintro ⟨event, h⟩
    obtain ⟨done, rest, b', c, cut, earlier, refused⟩ := runAll_error_iff.1 h
    rcases (run_error_iff event b' cause).1 ⟨c, refused⟩ with ⟨data, output, emits, full⟩ | rfl
    · exact .inl ⟨done, event, rest, b', data, output, cut, earlier, emits, full⟩
    · exact .inr ⟨done, rest, b', cut, earlier⟩
  · rintro (⟨done, event, rest, b', data, output, cut, earlier, emits, full⟩ | ⟨done, rest, b', cut, earlier⟩)
    · obtain ⟨c, refused⟩ := (run_error_iff event b' cause).2 (.inl ⟨data, output, emits, full⟩)
      exact ⟨event, runAll_error_iff.2 ⟨done, rest, b', c, cut, earlier, refused⟩⟩
    · exact ⟨_, runAll_error_iff.2 ⟨done, rest, b', b', cut, earlier, rfl⟩⟩

/-! ## Requests -/

variable {σ : Type} [Supply σ] {d : Desk σ}

/-- What a request does where the builder stands. -/
def Request.events (request : Request) (d : Desk σ) : List Event :=
  let stage := d.builder.stage
  match request with
  | .header line _ => closing stage ++ lineEvents line
  | .headerLine record => closing stage ++ lineEvents (Bytes.ofString record.render)
  | .versionBlock record lines content =>
    let text := Bytes.ofString lines.render
    let line := Bytes.ofString (withLength (text.length + content.length) record).render
    closing stage ++ lineEvents line ++ blockEvents text content
  | .payload data => if stage.isOpen then [.write data] else []
  | .stream length i => if stage.isOpen then copying length (d.inputs i) else []
  | .close => closing stage

/-- The answer is the fault of one of the events, and the builder has failed; or no fault, and it has not. -/
inductive Answered : Except (Event × Fault) Builder → Except Failure Reply × Desk σ → Prop
  | done {b : Builder} {answer : Except Failure Reply} {d : Desk σ} (well : d.builder.stage ≠ .failed)
    (other : ∀ cause, answer ≠ .error (.fault cause)) : Answered (.ok b) (answer, d)
  | fault {event : Event} {cause : Fault} {d : Desk σ} (failed : d.builder.stage = .failed) :
    Answered (.error (event, cause)) (.error (.fault cause), d)

omit [Supply σ] in
theorem answered_after {α : Type} {action : EStateM Failure Builder α} {reply : α → Reply} {events : List Event}
    (after : Stage) (well : after ≠ .failed) (does : Does action d.builder.stage after events) :
    Answered (runAll events d.builder) (d.after reply (action d.builder)) := by
  have follows := does d.builder d.builder (.refl _) rfl
  generalize runAll events d.builder = done at follows ⊢
  generalize action d.builder = result at follows ⊢
  cases follows with
  | done alike stage =>
    refine .done ?_ (fun cause same => by cases same)
    rwa [stage]
  | fault failed => exact .fault failed

theorem answered_closed {request : Request} {operation : Operation} (needs : request.operation? = some operation)
    (idle : ¬ d.builder.stage.isOpen = true) (well : d.builder.stage ≠ .failed) :
    Answered (runAll [] d.builder) (perform request d) := by
  rw [perform_closed needs (Bool.eq_false_iff.2 idle)]
  exact .done well (fun cause same => by cases same)

/-- A request does its events, and faults just if one of them does. -/
theorem perform_answered (request : Request) (well : d.builder.stage ≠ .failed) :
    Answered (runAll (request.events d) d.builder) (perform request d) := by
  cases request with
  | header line length => exact answered_after .headerWritten (by decide) (does_writeHeader line length well)
  | headerLine header => exact answered_after .headerWritten (by decide) (does_writeHeader _ _ well)
  | versionBlock header lines content =>
    exact answered_after .init (by decide) (does_writeVersionBlock header lines content well)
  | payload data =>
    by_cases opened : d.builder.stage.isOpen = true
    · simp only [Request.events, if_pos opened]
      exact answered_after .payloadWritten (by decide) (does_writePayload data opened)
    · simp only [Request.events, if_neg opened]
      exact answered_closed rfl opened well
  | stream length i =>
    by_cases opened : d.builder.stage.isOpen = true
    · simp only [Request.events, if_pos opened]
      have copied := copied_copy length 0 (d.inputs i) (.refl d.builder)
      simp only [perform, streamPayload, if_neg (not_closed opened)]
      generalize runAll (copying length (d.inputs i)) d.builder = done at copied ⊢
      generalize copy length 0 d.builder (d.inputs i) = result at copied ⊢
      cases copied with
      | done alike same => exact .done (show Stage.payloadWritten ≠ .failed by decide) (fun cause same => by cases same)
      | fault => exact .fault rfl
    · simp only [Request.events, if_neg opened]
      exact answered_closed rfl opened well
  | close =>
    by_cases opened : d.builder.stage.isOpen = true
    · exact answered_after .init (by decide) (does_closeRecord opened)
    · simp only [Request.events, closing, if_neg opened]
      exact answered_closed rfl opened well

/-- Only what copies from an input can fail with it. -/
theorem stream_of_inputFaults {request : Request} {cause : Fault}
    (h : InputFaults (request.events d) d.builder cause) : ∃ length i, request = .stream length i := by
  obtain ⟨done, rest, b', cut, -⟩ := h
  have among : Event.inputFault cause ∈ request.events d := by
    rw [cut]
    exact List.mem_append_right _ List.mem_cons_self
  cases request with
  | stream length i => exact ⟨length, i, rfl⟩
  | header | headerLine | versionBlock | close =>
    simp [Request.events, blockEvents, not_mem_closing, not_mem_lineEvents] at among
  | payload =>
    simp only [Request.events] at among
    split at among <;> simp at among

/-- The request fails the builder: it writes what the output does not take, or it copies from an input that faults. -/
def Fails (request : Request) (d : Desk σ) : Prop :=
  ∃ cause, (perform request d).1 = .error (.fault cause) ∧
    (OutputFaults (request.events d) d.builder cause ∨
      (∃ length i, request = .stream length i) ∧ InputFaults (request.events d) d.builder cause)

theorem stage_perform_iff (request : Request) (well : d.builder.stage ≠ .failed) :
    (perform request d).2.builder.stage = .failed ↔ Fails request d := by
  have answered := perform_answered request well
  constructor
  · intro failed
    cases done : runAll (request.events d) d.builder with
    | ok b =>
      rw [done] at answered
      generalize perform request d = result at answered failed
      cases answered with
      | done well' _ => exact absurd failed well'
    | error stopped =>
      obtain ⟨event, cause⟩ := stopped
      rw [done] at answered
      refine ⟨cause, ?_, ?_⟩
      · generalize perform request d = result at answered
        cases answered with
        | fault _ => rfl
      · rcases exists_runAll_error_iff.1 ⟨event, done⟩ with output | input
        · exact .inl output
        · exact .inr ⟨stream_of_inputFaults input, input⟩
  · rintro ⟨cause, fault, -⟩
    exact perform_fault fault

omit [Supply σ] in
/-- Finishing only closes what is open, so that it can only fail with the output. -/
theorem finish_fault_iff (well : b.stage ≠ .failed) :
    (∃ cause b', finish b = .error (.fault cause) b') ↔ ∃ cause, OutputFaults (closing b.stage) b cause := by
  have noInput (cause : Fault) : ¬ InputFaults (closing b.stage) b cause := by
    rintro ⟨done, rest, b', cut, -⟩
    apply not_mem_closing b.stage cause
    rw [cut]
    exact List.mem_append_right _ List.mem_cons_self
  have output (cause : Fault) : OutputFaults (closing b.stage) b cause ↔
      ∃ event, runAll (closing b.stage) b = .error (event, cause) := by
    rw [exists_runAll_error_iff, or_iff_left (noInput cause)]
  simp only [output]
  have follows := does_finish well b b (.refl b) rfl
  generalize runAll (closing b.stage) b = done at follows ⊢
  generalize finish b = result at follows ⊢
  cases follows with
  | done => simp
  | fault => simp

theorem stage_serve_iff (requests : List Request) (well : d.builder.stage ≠ .failed) :
    (serve requests d).2.builder.stage = .failed ↔ ∃ before request later, requests = before ++ request :: later ∧
      (serve before d).2.builder.stage ≠ .failed ∧ Fails request (serve before d).2 := by
  induction requests generalizing d with
  | nil =>
    constructor
    · intro failed
      exact absurd failed well
    · rintro ⟨before, request, later, cut, -⟩
      simp at cut
  | cons first more ih =>
    by_cases failed : (perform first d).2.builder.stage = .failed
    · have same : (serve (first :: more) d).2 = (perform first d).2 := (serve_failed more failed).1
      rw [same]
      exact ⟨fun _ => ⟨[], first, more, rfl, well, (stage_perform_iff first well).1 failed⟩, fun _ => failed⟩
    · rw [show (serve (first :: more) d).2 = (serve more (perform first d).2).2 from rfl, ih failed]
      constructor
      · rintro ⟨before, request, later, rfl, stands, fails⟩
        exact ⟨first :: before, request, later, rfl, stands, fails⟩
      · rintro ⟨before, request, later, cut, stands, fails⟩
        cases before with
        | nil =>
          obtain ⟨rfl, rfl⟩ := List.cons.inj cut
          exact absurd ((stage_perform_iff first well).2 fails) failed
        | cons other before =>
          obtain ⟨rfl, rfl⟩ := List.cons.inj cut
          exact ⟨before, request, later, rfl, stands, fails⟩

/-- How a run of requests can fail: one of them writes what the output does not take, or copies from an input that
faults, and up to there the builder has not failed. If it has not failed at the end, it can still be finished unless the
output does not take the end of the open record. -/
theorem serve_failed_iff (requests : List Request) (well : d.builder.stage ≠ .failed) :
    let last := (serve requests d).2.builder
    (last.stage = .failed ↔ ∃ before request later, requests = before ++ request :: later ∧
      (serve before d).2.builder.stage ≠ .failed ∧ Fails request (serve before d).2) ∧
    (last.stage ≠ .failed →
      ((∃ cause b, finish last = .error (.fault cause) b) ↔ ∃ cause, OutputFaults (closing last.stage) last cause)) :=
  ⟨stage_serve_iff requests well, finish_fault_iff⟩

/-- The room is just enough for the header line. The content is refused as soon as it is written, although the member it
belongs to is still open. -/
theorem serve_failed_iff_full :
    let d : Desk Input := ⟨create .gzip .prompt (.empty (some 24)), fun _ => Input.ofBytes []⟩
    let opening : List Request := [.payload [1], .header [104, 105, 106] none]
    Encoder.prompt.Sound ∧ d.builder.stage ≠ .failed ∧ (serve opening d).2.builder.stage = .headerWritten ∧
      ∃ before request later, opening ++ [.payload [1]] = before ++ request :: later ∧
        (serve before d).2.builder.stage ≠ .failed ∧ Fails request (serve before d).2 := by
  intro d opening
  have well : d.builder.stage ≠ .failed := by decide
  have opened : (serve opening d).2.builder.stage = .headerWritten := by decide +kernel
  have failed : (serve (opening ++ [.payload [1]]) d).2.builder.stage = .failed := by decide +kernel
  exact ⟨Encoder.sound_prompt, well, opened, (serve_failed_iff _ well).1.1 failed⟩

section Room

omit [Supply σ]

theorem room_run {event : Event} (room : b.output.room = none) (ran : event.run b = .ok () b') :
    b'.output.room = none := by
  cases event with
  | write data =>
    simp only [Event.run, put] at ran
    split at ran
    · cases ran
      exact room
    · rw [emit_ok _ room] at ran
      cases ran
      rfl
  | ending =>
    simp only [Event.run, endPieces] at ran
    split at ran
    · cases ran
      exact room
    · have ended : emit (b.encoder.onEnd b.pieces) { b with pieces := [] } = .ok () _ := emit_ok _ room
      rw [ended] at ran
      cases ran
      rfl
  | inputFault cause => cases ran

theorem room_runAll {events : List Event} (room : b.output.room = none) (ran : runAll events b = .ok b') :
    b'.output.room = none := by
  induction events generalizing b with
  | nil =>
    cases ran
    exact room
  | cons event more ih =>
    rw [runAll] at ran
    split at ran
    · next first => exact ih (room_run room first) ran
    · cases ran

/-- An output without a limit takes everything. -/
theorem not_outputFaults (events : List Event) (cause : Fault) (room : b.output.room = none) :
    ¬ OutputFaults events b cause := by
  rintro ⟨done, event, rest, b', data, output, -, ran, -, full⟩
  simp only [Sink.write, room_runAll room ran] at full
  cases full

end Room

/-- An input that faults before it gives anything takes the output with it. -/
theorem stage_stream_fault {length i : Nat} {cause : Fault} {input : σ} (opened : d.builder.isOpen = true)
    (some : length ≠ 0) (read : Supply.read (min stride length) (d.inputs i) = .error cause input) :
    (perform (.stream length i) d).2.builder.stage = .failed := by
  simp only [perform, streamPayload, if_neg (not_closed opened), copy_fault some read]
  rfl

/-- Whatever the line of the record and however large the output, an input that gives nothing but its fault fails the
builder. No request has written anything that the output did not take. -/
theorem failed_by_input (packing : Packing) {gzip : Encoder} (sound : gzip.Sound) (line : Bytes) {inputs : Nat → σ}
    {cause : Fault} {input : σ} {length : Nat} (some : length ≠ 0)
    (read : Supply.read (min stride length) (inputs 0) = .error cause input) :
    let d : Desk σ := ⟨create packing gzip (.empty none), inputs⟩
    (serve [.header line none, .stream length 0] d).2.builder.stage = .failed ∧
      ∀ before request later cause, [.header line none, .stream length 0] = before ++ request :: later →
        ¬ OutputFaults (request.events (serve before d).2) (serve before d).2.builder cause := by
  intro d
  have blank : Stands packing [] none d.builder := .between rfl rfl (holds_create packing sound)
  obtain ⟨b, written, stands⟩ := writeHeader_stands line none blank
  have first : (perform (.header line none) d).2 = ⟨b, inputs⟩ := by rw [perform, written]; rfl
  have two (first second : Request) : (serve [first, second] d).2 = (perform second (perform first d).2).2 := rfl
  have one (first : Request) : (serve [first] d).2 = (perform first d).2 := rfl
  have room : b.output.room = none := by
    cases stands with
    | within _ _ _ _ holds => exact holds.room
  constructor
  · rw [two, first]
    exact stage_stream_fault stands.isOpen some read
  · intro before request later cause cut
    rcases before with _ | ⟨first', _ | ⟨second, more⟩⟩
    · exact not_outputFaults _ _ rfl
    · obtain ⟨rfl, -⟩ := List.cons.inj cut
      rw [one, first]
      exact not_outputFaults _ _ room
    · obtain ⟨-, cut⟩ := List.cons.inj cut
      obtain ⟨-, cut⟩ := List.cons.inj cut
      simp at cut

theorem exists_failed_by_input :
    let d : Desk Input := ⟨create .plain .stored (.empty none), fun _ => ⟨[104, 105], none, some 0, .inputFailed⟩⟩
    let line := Bytes.ofString "http://h/ 1.1.1.1 20200101000000 text/html 2\n"
    let requests : List Request := [.header line none, .stream 2 0]
    (serve requests d).2.builder.stage = .failed ∧
      ∀ before request later cause, requests = before ++ request :: later →
        ¬ OutputFaults (request.events (serve before d).2) (serve before d).2.builder cause :=
  failed_by_input .plain Encoder.sound_stored _ (by decide) rfl

end ArcFile.Builder
