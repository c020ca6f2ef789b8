import ArcFile.Proofs.Archive.Encoder
import ArcFile.Proofs.Record.Lossy
import ArcFile.Proofs.Supply.Steady
import Mathlib.Data.List.Forall2
/-!
What a builder has written. The output of a builder with room for all is the records it has closed, each as the encoder
makes it, and what the encoder has handed on of the open one; every operation only adds to the open record or closes it.
-/
namespace ArcFile.Builder

/-- A line with a line feed at its end. -/
def terminated (line : Bytes) : Bytes :=
  if line.getLast? = some Bytes.lineFeed then line else line ++ [Bytes.lineFeed]

/-- The builder has closed these records, and has written `part` of another one. Nothing limits its output. -/
structure Holds (records : List Bytes) (part : Option Bytes) (b : Builder) : Prop where
  room : b.output.room = none
  sound : b.gzip.Sound
  output : ∃ closed : List (List Bytes), closed.map Encoder.content = records ∧
    b.output.bytes = (closed.map b.encoder.whole).flatten ++ b.encoder.handed b.pieces
  pieces : match part with
    | none => b.pieces = []
    | some data => Encoder.content b.pieces = data

variable {records : List Bytes} {part : Option Bytes} {b : Builder}

theorem holds_create (packing : Packing) {gzip : Encoder} (sound : gzip.Sound) :
    (create packing gzip (.empty none)).Holds [] none := ⟨rfl, sound, ⟨[], rfl, rfl⟩, rfl⟩

theorem Holds.content_pieces (h : b.Holds records part) : Encoder.content b.pieces = part.getD [] := by
  have pieces := h.pieces
  cases part with
  | none => exact congrArg Encoder.content pieces
  | some data => exact pieces

theorem emit_ok (data : Bytes) (room : b.output.room = none) :
    b.emit data = .ok () { b with output := ⟨b.output.bytes ++ data, none⟩ } := by
  simp only [emit, Sink.write, room]

/-- With nothing in it a piece is not written at all. -/
theorem put_nil (b : Builder) : b.put [] = .ok () b := rfl

theorem put_cons (x : UInt8) (more : Bytes) (room : b.output.room = none) : b.put (x :: more) = .ok () { b with
    output := ⟨b.output.bytes ++ b.encoder.onWrite b.pieces (x :: more), none⟩
    pieces := (x :: more) :: b.pieces } := by
  have some : ¬ (x :: more).isEmpty = true := by simp
  rw [put, if_neg some, emit_ok _ room]

theorem put_holds (data : Bytes) (h : b.Holds records part) :
    ∃ output pieces, b.put data = .ok () { b with output, pieces } ∧
      Holds records (some (part.getD [] ++ data)) { b with output, pieces } := by
  obtain ⟨closed, are, output⟩ := h.output
  cases data with
  | nil =>
    refine ⟨b.output, b.pieces, put_nil b, h.room, h.sound, h.output, ?_⟩
    rw [List.append_nil]
    exact h.content_pieces
  | cons x more =>
    refine ⟨_, _, put_cons x more h.room, rfl, h.sound, ⟨closed, are, ?_⟩, ?_⟩
    · rw [output, List.append_assoc]
      rfl
    · rw [← h.content_pieces]
      exact Encoder.content_cons (x :: more) b.pieces

theorem endPieces_ok (some : b.pieces ≠ []) (room : b.output.room = none) : b.endPieces = .ok () { b with
    output := ⟨b.output.bytes ++ b.encoder.onEnd b.pieces, none⟩
    pieces := [] } := by
  have some : ¬ b.pieces.isEmpty = true := by simpa using some
  rw [endPieces, if_neg some]
  exact emit_ok (b := { b with pieces := [] }) _ room

theorem endPieces_holds {data : Bytes} (some : data ≠ []) (h : b.Holds records (.some data)) :
    ∃ output pieces, b.endPieces = .ok () { b with output, pieces } ∧
      Holds (records ++ [data]) none { b with output, pieces } := by
  obtain ⟨closed, rfl, output⟩ := h.output
  have written : b.pieces ≠ [] := by
    intro none
    have pieces := h.content_pieces
    rw [none] at pieces
    exact some pieces.symm
  refine ⟨_, _, endPieces_ok written h.room, rfl, h.sound, ⟨closed ++ [b.pieces], ?_, ?_⟩, rfl⟩
  · rw [List.map_append, List.map_singleton, h.content_pieces]
    rfl
  · rw [output, List.map_append, List.map_singleton, List.flatten_append, List.flatten_singleton, List.append_assoc,
      List.append_assoc]
    exact congrArg _ (List.append_nil _).symm

/-- Between records, the output is a piece for each of them. -/
theorem Holds.exists_pieces (h : b.Holds records none) :
    ∃ pieces, b.output.bytes = pieces.flatten ∧ List.Forall₂ (IsPacked b.packing) pieces records := by
  obtain ⟨closed, rfl, output⟩ := h.output
  have none : b.pieces = [] := h.pieces
  refine ⟨closed.map b.encoder.whole, ?_, ?_⟩
  · rw [output, none]
    exact List.append_nil _
  · rw [List.forall₂_map_left_iff, List.forall₂_map_right_iff, List.forall₂_same]
    intro pieces _
    exact isPacked_whole h.sound pieces

section Actions

variable {α β : Type} {action : EStateM Failure Builder α} {next : α → EStateM Failure Builder β} {a : α}
  {b' : Builder}

theorem not_closed (opened : b.isOpen = true) : ¬ (!b.isOpen) = true := by simp [opened]

theorem bind_ok (h : action b = .ok a b') : (action >>= next) b = next a b' := by
  simp only [bind, EStateM.bind, h]

theorem bind_error {failure : Failure} (h : action b = .error failure b') : (action >>= next) b = .error failure b' := by
  simp only [bind, EStateM.bind, h]

theorem get_ok (b : Builder) : (get : EStateM Failure Builder Builder) b = .ok b b := rfl

theorem modify_ok (f : Builder → Builder) (b : Builder) :
    (modify f : EStateM Failure Builder Unit) b = .ok () (f b) := rfl

theorem discard_ok (h : action b = .ok a b') : discard action b = .ok () b' := by
  change EStateM.map (fun _ => PUnit.unit) action b = _
  simp only [EStateM.map, h]

theorem discard_error {failure : Failure} (h : action b = .error failure b') :
    discard action b = .error failure b' := by
  change EStateM.map (fun _ => PUnit.unit) action b = _
  simp only [EStateM.map, h]

theorem attempt_ok {action : Builder → Outcome Builder α} (h : action b = .ok a b') : attempt action b = .ok a b' := by
  simp only [attempt, h]

end Actions

/-- Between two records. All that has been closed was as long as declared. -/
structure Idle (packing : Packing) (records : List Bytes) (b : Builder) : Prop where
  packing : b.packing = packing
  stage : b.stage = .init
  tally : b.tally = ⟨records.length, 0, 0, 0⟩
  holds : b.Holds records none

/-- Within a record of which this line and this content have been written, and which is to have `declared` bytes of
content. -/
structure Writing (packing : Packing) (records : List Bytes) (line content : Bytes) (declared : Nat) (b : Builder) :
    Prop where
  packing : b.packing = packing
  isOpen : b.isOpen = true
  tally : b.tally = ⟨records.length, 0, 0, 0⟩
  declared : b.declared = declared
  written : b.written = content.length
  findings : b.findings = .none
  holds : b.Holds records (some (terminated line ++ content))

variable {packing : Packing} {line content : Bytes} {declared : Nat}

theorem idle_create (packing : Packing) {gzip : Encoder} (sound : gzip.Sound) :
    (create packing gzip (.empty none)).Idle packing [] :=
  ⟨rfl, rfl, rfl, holds_create packing sound⟩

/-- What is wrong with the open record when it is closed as it stands. -/
def closingFindings (b : Builder) : Findings :=
  if b.written = b.declared then b.findings else b.findings.addError (.wrongPayloadLength b.written b.declared)

/-- Closing an open record is to write its line feed and to end its pieces. -/
theorem closeRecord_open {b1 b2 : Builder} (opened : b.isOpen = true) (put : b.put [Bytes.lineFeed] = .ok () b1)
    (ended : b1.endPieces = .ok () b2) : closeRecord b = .ok (decide (b.written = b.declared)) { b2 with
      stage := .init
      findings := .none
      lastFindings := b.closingFindings
      tally := b.tally.add b.closingFindings } := by
  unfold closeRecord
  rw [bind_ok (get_ok b), if_neg (not_closed opened), bind_ok (attempt_ok put), bind_ok (attempt_ok ended),
    bind_ok (modify_ok _ _)]
  rfl

/-- However much of it has been written, an open record is ended and counted. -/
theorem closeRecord_holds {data : Bytes} (opened : b.isOpen = true) (h : b.Holds records (some data)) :
    ∃ output pieces, closeRecord b = .ok (decide (b.written = b.declared)) { b with
        output, pieces
        stage := .init
        findings := .none
        lastFindings := b.closingFindings
        tally := b.tally.add b.closingFindings } ∧
      Holds (records ++ [data ++ [Bytes.lineFeed]]) none { b with output, pieces } := by
  obtain ⟨output1, pieces1, put, holds1⟩ := put_holds [Bytes.lineFeed] h
  obtain ⟨output2, pieces2, ended, holds2⟩ := endPieces_holds (List.append_ne_nil_of_right_ne_nil _ (by simp)) holds1
  exact ⟨output2, pieces2, closeRecord_open opened put ended, holds2⟩

/-- A record that is as long as was declared is closed with success. -/
theorem closeRecord_idle (h : b.Writing packing records line content content.length) :
    ∃ b', closeRecord b = .ok true b' ∧
      b'.Idle packing (records ++ [terminated line ++ content ++ [Bytes.lineFeed]]) := by
  obtain ⟨output, pieces, closed, holds⟩ := closeRecord_holds h.isOpen h.holds
  have whole : b.written = b.declared := h.written.trans h.declared.symm
  rw [decide_eq_true whole] at closed
  refine ⟨_, closed, h.packing, rfl, ?_, holds.room, holds.sound, holds.output, holds.pieces⟩
  simp [closingFindings, whole, h.tally, h.findings, Tally.add, Findings.none, Findings.isEmpty]

/-- The length that is given with a header line, or else the one that the line itself gives. -/
def lengthFor (line : Bytes) (length : Option Nat) : Nat × Findings :=
  match length with
  | some length => (length, .none)
  | none => declaredIn line

/-- Opens a record when none is open. -/
def start (line : Bytes) (length : Option Nat) : EStateM Failure Builder Unit := do
  modify fun b => { b with
    declared := (lengthFor line length).1
    written := 0
    findings := (lengthFor line length).2 }
  writeLine line
  modify fun b => { b with stage := .headerWritten }

/-- A header line is written as if nothing had been open, after the open record has been closed. -/
theorem writeHeader_init (line : Bytes) (length : Option Nat) (init : b.stage = .init) :
    writeHeader line length b = start line length b := by
  unfold writeHeader
  rw [bind_ok (get_ok b), if_neg fun other => other init]
  rfl

theorem writeHeader_closing (line : Bytes) (length : Option Nat) {whole : Bool} {b' : Builder} (other : b.stage ≠ .init)
    (closing : closeRecord b = .ok whole b') : writeHeader line length b = start line length b' := by
  unfold writeHeader
  rw [bind_ok (get_ok b), if_pos other, bind_ok (discard_ok closing)]
  rfl

/-- A line may be written in two pieces, but it is all written. -/
theorem writeLine_holds (line : Bytes) (h : b.Holds records part) :
    ∃ output pieces, writeLine line b = .ok () { b with output, pieces } ∧
      Holds records (some (part.getD [] ++ terminated line)) { b with output, pieces } := by
  obtain ⟨output, pieces, put, holds⟩ := put_holds line h
  unfold writeLine terminated
  rw [bind_ok (attempt_ok put)]
  by_cases feed : line.getLast? = some Bytes.lineFeed
  · rw [if_neg (not_not_intro feed), if_pos feed]
    exact ⟨output, pieces, rfl, holds⟩
  · obtain ⟨output', pieces', put', holds'⟩ := put_holds [Bytes.lineFeed] holds
    rw [if_pos feed, if_neg feed, attempt_ok put', ← List.append_assoc]
    exact ⟨output', pieces', rfl, holds'⟩

theorem start_holds (line : Bytes) (length : Option Nat) (h : b.Holds records none) :
    ∃ output pieces, start line length b = .ok () { b with
        output, pieces
        declared := (lengthFor line length).1
        written := 0
        findings := (lengthFor line length).2
        stage := .headerWritten } ∧
      Holds records (some (terminated line)) { b with output, pieces } := by
  have opens : Holds records none { b with
      declared := (lengthFor line length).1
      written := 0
      findings := (lengthFor line length).2 } := ⟨h.room, h.sound, h.output, h.pieces⟩
  obtain ⟨output, pieces, wrote, holds⟩ := writeLine_holds line opens
  refine ⟨output, pieces, ?_, holds.room, holds.sound, holds.output, holds.pieces⟩
  unfold start
  rw [bind_ok (modify_ok _ b), bind_ok wrote]
  rfl

theorem start_writing {length : Option Nat} (declares : lengthFor line length = (declared, .none))
    (h : b.Idle packing records) :
    ∃ b', start line length b = .ok () b' ∧ b'.Writing packing records line [] declared := by
  obtain ⟨output, pieces, started, holds⟩ := start_holds line length h.holds
  rw [declares] at started
  refine ⟨_, started, h.packing, rfl, h.tally, rfl, rfl, rfl, ?_⟩
  rw [List.append_nil]
  exact ⟨holds.room, holds.sound, holds.output, holds.pieces⟩

theorem writeHeader_idle {length : Option Nat} (declares : lengthFor line length = (declared, .none))
    (h : b.Idle packing records) :
    ∃ b', writeHeader line length b = .ok () b' ∧ b'.Writing packing records line [] declared := by
  obtain ⟨b', started, writing⟩ := start_writing declares h
  exact ⟨b', (writeHeader_init line length h.stage).trans started, writing⟩

/-- If a record is open and all of its content has been written, the next header line closes it. -/
theorem writeHeader_writing {length : Option Nat} {next : Bytes} (declares : lengthFor next length = (declared, .none))
    (h : b.Writing packing records line content content.length) :
    ∃ b', writeHeader next length b = .ok () b' ∧
      b'.Writing packing (records ++ [terminated line ++ content ++ [Bytes.lineFeed]]) next [] declared := by
  obtain ⟨closed, closing, idle⟩ := closeRecord_idle h
  obtain ⟨b', started, writing⟩ := start_writing declares idle
  have open' : b.stage ≠ .init := by
    intro init
    have isOpen := h.isOpen
    rw [Builder.isOpen, init] at isOpen
    cases isOpen
  exact ⟨b', (writeHeader_closing next length open' closing).trans started, writing⟩

theorem writePayload_holds {part : Bytes} (data : Bytes) (opened : b.isOpen = true) (h : b.Holds records (some part)) :
    ∃ output pieces, writePayload data b = .ok () { b with
        output, pieces
        written := b.written + data.length
        stage := .payloadWritten } ∧
      Holds records (some (part ++ data)) { b with output, pieces } := by
  obtain ⟨output, pieces, put, holds⟩ := put_holds data h
  refine ⟨output, pieces, ?_, holds⟩
  unfold writePayload
  rw [bind_ok (get_ok b), if_neg (not_closed opened), bind_ok (attempt_ok put)]
  rfl

theorem writePayload_writing (data : Bytes) (h : b.Writing packing records line content declared) :
    ∃ b', writePayload data b = .ok () b' ∧ b'.Writing packing records line (content ++ data) declared := by
  obtain ⟨output, pieces, wrote, holds⟩ := writePayload_holds data h.isOpen h.holds
  refine ⟨_, wrote, h.packing, rfl, h.tally, h.declared, ?_, h.findings, ?_⟩
  · rw [List.length_append, ← h.written]
  · rw [← List.append_assoc]
    exact ⟨holds.room, holds.sound, holds.output, holds.pieces⟩

section Parts

variable {σ : Type} [Supply σ] {holds : σ → Bytes → Prop}

section Copy

variable {length copied : Nat} {input input' : σ} {x : UInt8} {more : Bytes}

theorem copy_zero : copy 0 copied b input = .ok copied (b, input) := by
  unfold copy
  exact if_pos rfl

theorem copy_fault {cause : Fault} (some : length ≠ 0)
    (read : Supply.read (min stride length) input = .error cause input') :
    copy length copied b input = .error cause (b, input') := by
  unfold copy
  rw [if_neg some]
  split <;> simp_all

theorem copy_end (some : length ≠ 0) (read : Supply.read (min stride length) input = .ok [] input') :
    copy length copied b input = .ok copied (b, input') := by
  unfold copy
  rw [if_neg some]
  split <;> simp_all

theorem copy_piece (some : length ≠ 0) (read : Supply.read (min stride length) input = .ok (x :: more) input') :
    copy length copied b input =
      match b.put (x :: more) with
      | .error cause b => .error cause (b, input')
      | .ok () b => copy (length - (x :: more).length) (copied + (x :: more).length) b input' := by
  conv => lhs; unfold copy
  rw [if_neg some]
  split
  · simp_all
  · simp_all
  · next found =>
    rw [read] at found
    cases found
    rfl

end Copy

/-- What is copied of an input is its first bytes, whatever pieces they come in. -/
theorem copy_holds (steady : Supply.Steady holds) {input : σ} {data part : Bytes} (length copied : Nat)
    (held : holds input data) (h : b.Holds records (some part)) :
    ∃ output pieces input', copy length copied b input =
        .ok (copied + (data.take length).length) ({ b with output, pieces }, input') ∧
      Holds records (some (part ++ data.take length)) { b with output, pieces } ∧
      holds input' (data.drop length) := by
  induction len : data.length using Nat.strongRecOn generalizing b input data part length copied with
  | ind len ih =>
    by_cases zero : length = 0
    · refine ⟨b.output, b.pieces, input, ?_, ?_, ?_⟩
      · rw [zero, copy_zero]
        rfl
      · rw [zero, List.take_zero, List.append_nil]
        exact h
      · rwa [zero, List.drop_zero]
    · obtain ⟨got, rest, input', read, rfl, only, after⟩ := steady.read (min stride length) held
      have most : got.length ≤ length := Nat.le_trans (Supply.read_ok read).1 (Nat.min_le_right _ _)
      cases got with
      | nil =>
        have room : min stride length ≠ 0 := by
          unfold stride
          omega
        obtain rfl : rest = [] := (only rfl).resolve_left room
        refine ⟨b.output, b.pieces, input', ?_, ?_, ?_⟩
        · rw [copy_end zero read, List.append_nil, List.take_nil]
          rfl
        · rw [List.append_nil, List.take_nil, List.append_nil]
          exact h
        · rwa [List.append_nil, List.drop_nil]
      | cons x more =>
        obtain ⟨output, pieces, put, holds1⟩ := put_holds (x :: more) h
        obtain ⟨output', pieces', input'', copying, holds2, last⟩ := ih rest.length (by simp at len; omega)
          (length - (x :: more).length) (copied + (x :: more).length) after holds1 rfl
        have cut : ((x :: more) ++ rest).take length = (x :: more) ++ rest.take (length - (x :: more).length) := by
          rw [List.take_append, List.take_of_length_le most]
        refine ⟨output', pieces', input'', ?_, ?_, ?_⟩
        · rw [copy_piece zero read, put, cut, List.length_append, ← Nat.add_assoc]
          exact copying
        · rw [cut, ← List.append_assoc]
          exact holds2
        · rwa [List.drop_append, List.drop_of_length_le most]

/-- What is streamed into an open record is gone from the input, and the rest of it is not. -/
theorem streamPayload_holds (steady : Supply.Steady holds) {input : σ} {data part : Bytes} (length : Nat)
    (held : holds input data) (opened : b.isOpen = true) (h : b.Holds records (some part)) :
    ∃ output pieces input', streamPayload length (b, input) = .ok (data.take length).length ({ b with
        output, pieces
        written := b.written + (data.take length).length
        stage := .payloadWritten }, input') ∧
      Holds records (some (part ++ data.take length)) { b with output, pieces } ∧
      holds input' (data.drop length) := by
  obtain ⟨output, pieces, input', copying, holds', last⟩ := copy_holds steady length 0 held h
  refine ⟨output, pieces, input', ?_, holds', last⟩
  simp only [streamPayload, if_neg (not_closed opened), copying, Nat.zero_add]

/-- A way to write some of the content. -/
inductive Part (σ : Type) where
  | payload (data : Bytes)
  /-- Copies so many bytes of an input, or all if there are fewer. -/
  | stream (length : Nat) (input : σ)

def Part.write : Part σ → EStateM Failure Builder Unit
  | .payload data => writePayload data
  | .stream length input => fun b =>
    match streamPayload length (b, input) with
    | .ok _ (b, _) => .ok () b
    | .error failure (b, _) => .error failure b

def writeParts : List (Part σ) → EStateM Failure Builder Unit
  | [] => pure ()
  | part :: more => do
    part.write
    writeParts more

/-- The bytes that a part adds to the content. -/
inductive Part.Gives : Part σ → Bytes → Prop where
  | payload (data : Bytes) : Gives (.payload data) data
  | stream (length : Nat) {input : σ} {data : Bytes} (yields : Supply.Yields input data) :
    Gives (.stream length input) (data.take length)

/-- The bytes of all parts together. -/
inductive Contents : List (Part σ) → Bytes → Prop where
  | nil : Contents [] []
  | cons {part : Part σ} {more : List (Part σ)} {data rest : Bytes} (gives : part.Gives data)
    (others : Contents more rest) :
    Contents (part :: more) (data ++ rest)

theorem write_writing {part : Part σ} {data : Bytes} (gives : part.Gives data)
    (h : b.Writing packing records line content declared) :
    ∃ b', part.write b = .ok () b' ∧ b'.Writing packing records line (content ++ data) declared := by
  cases gives with
  | payload data => exact writePayload_writing data h
  | @stream length input data yields =>
    obtain ⟨holds, steady, held⟩ := yields
    obtain ⟨output, pieces, input', streamed, holds', -⟩ :=
      streamPayload_holds steady length held h.isOpen h.holds
    refine ⟨{ b with output, pieces, written := b.written + (data.take length).length, stage := .payloadWritten }, ?_,
      h.packing, rfl, h.tally, h.declared, ?_, h.findings, ?_⟩
    · simp only [Part.write, streamed]
    · rw [List.length_append, ← h.written]
    · rw [← List.append_assoc]
      exact ⟨holds'.room, holds'.sound, holds'.output, holds'.pieces⟩

theorem writeParts_writing {parts : List (Part σ)} {data : Bytes} (gives : Contents parts data)
    (h : b.Writing packing records line content declared) :
    ∃ b', writeParts parts b = .ok () b' ∧ b'.Writing packing records line (content ++ data) declared := by
  induction gives generalizing b content with
  | nil => exact ⟨b, rfl, by rwa [List.append_nil]⟩
  | cons gives others ih =>
    obtain ⟨b1, written, writing⟩ := write_writing gives h
    obtain ⟨b2, later, all⟩ := ih writing
    refine ⟨b2, ?_, by rwa [← List.append_assoc]⟩
    rw [writeParts, bind_ok written]
    exact later

end Parts

theorem terminated_eq (noFeed : Bytes.lineFeed ∉ line) : terminated line = line ++ [Bytes.lineFeed] := by
  apply if_neg
  intro last
  apply noFeed
  exact List.mem_of_getLast? last

/-- What is left of a line when the line ends behind it have been taken off. -/
theorem trimLineEnds_eq {text : List Char} (ends : List Char) (only : ∀ c ∈ ends, c = '\n' ∨ c = '\r')
    (other : ∀ c, text.getLast? = some c → c ≠ '\n' ∧ c ≠ '\r') :
    trimLineEnds (String.ofList (text ++ ends)) = String.ofList text := by
  have gone : ∀ c ∈ ends.reverse, (decide (c = '\n' ∨ c = '\r')) = true := by
    intro c among
    exact decide_eq_true (only c (List.mem_reverse.1 among))
  have stays : text.reverse.dropWhile (fun c => decide (c = '\n' ∨ c = '\r')) = text.reverse := by
    cases last : text.reverse with
    | nil => rfl
    | cons c more =>
      have := other c (by rw [List.getLast?_eq_head?_reverse, last]; rfl)
      rw [List.dropWhile_cons, if_neg (by simp [this])]
  rw [trimLineEnds, String.toList_ofList, List.reverse_append, List.dropWhile_append_of_pos gone, stays,
    List.reverse_reverse]

/-- The length that a builder finds in a line is the one that a reader will find in it. -/
theorem declaredIn_line {header : RecordHeader} {errors : List Finding} {n : Nat}
    (parsed : RecordHeader.parse? (RecordHeader.textOf (Bytes.dropReturn line)) = some (header, errors))
    (value : header.length.value = some (n : Int)) : declaredIn line = (n, .none) := by
  obtain ⟨found, errors', read, is⟩ := RecordHeader.length_lossy parsed value
  have some : found.length.value.isSome := by
    rw [is]
    rfl
  have other (c : Char) (last : (Utf8.chars (Bytes.dropReturn line)).getLast? = .some c) : c ≠ '\n' ∧ c ≠ '\r' := by
    rw [← RecordHeader.toList_lossy] at last
    have numeral := RecordHeader.isNumeral_of_getLast? read some last
    constructor
    · rintro rfl
      exact absurd numeral (by decide)
    · rintro rfl
      exact absurd numeral (by decide)
  have trimmed : trimLineEnds (Utf8.decodeLossy line) = Utf8.decodeLossy (Bytes.dropReturn line) := by
    rcases Bytes.dropReturn_cases line with whole | cut
    · have := trimLineEnds_eq [] (by simp) other
      rw [List.append_nil] at this
      conv => lhs; rw [whole]
      exact this
    · have ends : Utf8.chars line = Utf8.chars (Bytes.dropReturn line) ++ ['\r'] := by
        conv => lhs; rw [cut, Utf8.chars_append_ascii (by decide), Utf8.chars_nil]
        rfl
      have := trimLineEnds_eq ['\r'] (by simp) other
      rw [← ends] at this
      exact this
  have declared : found.declared = n := by
    rw [RecordHeader.declared, is]
    rfl
  simp only [declaredIn, trimmed, read, some, declared, ↓reduceIte]

/-- A record to be written: its header line, the length that is given with it, and the parts of its content. -/
structure Job (σ : Type) where
  line : Bytes
  length : Option Nat
  parts : List (Part σ)
  /-- The content that all parts together give. -/
  content : Bytes
  /-- The record is closed as soon as it is complete, and not only by what comes next. -/
  closes : Bool

section Jobs

variable {σ : Type} [Supply σ]

/-- Writes a record, and gives what closing it told if it has been closed. -/
def Job.write (job : Job σ) : EStateM Failure Builder (List Bool) := do
  writeHeader job.line job.length
  writeParts job.parts
  if job.closes then
    let whole ← closeRecord
    return [whole]
  else return []

/-- Writes one record after the other, and the end. -/
def writeAll : List (Job σ) → EStateM Failure Builder (List Bool)
  | [] => do
    finish
    return []
  | job :: more => do
    let closed ← job.write
    let later ← writeAll more
    return closed ++ later

/-- The record of a job as it is to be read. -/
def Job.bytes (job : Job σ) : Bytes := terminated job.line ++ job.content ++ [Bytes.lineFeed]

/-- A length that is given is right, and so is the one in the line if none is given. -/
structure Job.Complete (job : Job σ) : Prop where
  declares : lengthFor job.line job.length = (job.content.length, .none)
  gives : Contents job.parts job.content

/-- Nothing is open, or a record that is complete. -/
inductive Ready (packing : Packing) : List Bytes → Builder → Prop where
  | idle {records : List Bytes} {b : Builder} (h : b.Idle packing records) : Ready packing records b
  | complete {records : List Bytes} {line content : Bytes} {b : Builder}
    (h : b.Writing packing records line content content.length) :
    Ready packing (records ++ [terminated line ++ content ++ [Bytes.lineFeed]]) b

theorem write_ready {job : Job σ} (complete : job.Complete) (h : Ready packing records b) :
    ∃ closed b', job.write b = .ok closed b' ∧ closed = (if job.closes then [true] else []) ∧
      Ready packing (records ++ [job.bytes]) b' := by
  obtain ⟨b1, header, writing⟩ : ∃ b', writeHeader job.line job.length b = .ok () b' ∧
      b'.Writing packing records job.line [] job.content.length := by
    cases h with
    | idle idle => exact writeHeader_idle complete.declares idle
    | complete writing => exact writeHeader_writing complete.declares writing
  obtain ⟨b2, parts, writing⟩ := writeParts_writing complete.gives writing
  rw [List.nil_append] at writing
  cases closes : job.closes with
  | false =>
    refine ⟨[], b2, ?_, rfl, .complete writing⟩
    rw [Job.write, bind_ok header, bind_ok parts, closes]
    rfl
  | true =>
    obtain ⟨b3, closing, idle⟩ := closeRecord_idle writing
    refine ⟨[true], b3, ?_, rfl, .idle idle⟩
    rw [Job.write, bind_ok header, bind_ok parts, closes, if_pos rfl, bind_ok closing]
    rfl

theorem finish_ready (h : Ready packing records b) : ∃ b', finish b = .ok () b' ∧ b'.Idle packing records := by
  have ended {last : Builder} (idle : last.Idle packing records) :
      (do let b ← get; if b.stage = .failed then throw (.illegalState .finish b.stage) :
        EStateM Failure Builder Unit) last = .ok () last := by
    have well : ¬ last.stage = .failed := by simp [idle.stage]
    rw [bind_ok (get_ok last), if_neg well]
    rfl
  cases h with
  | idle idle =>
    have closed : ¬ b.isOpen = true := by simp [Builder.isOpen, idle.stage]
    refine ⟨b, ?_, idle⟩
    unfold finish
    rw [bind_ok (get_ok b), if_neg closed]
    exact ended idle
  | complete writing =>
    obtain ⟨b', closing, idle⟩ := closeRecord_idle writing
    refine ⟨b', ?_, idle⟩
    unfold finish
    rw [bind_ok (get_ok b), if_pos writing.isOpen, bind_ok (discard_ok closing)]
    exact ended idle

/-- Every record that is closed turns out to be as long as was declared, and the output is all records in order. -/
theorem writeAll_ready {jobs : List (Job σ)} (complete : ∀ job ∈ jobs, job.Complete) (h : Ready packing records b) :
    ∃ closed b', writeAll jobs b = .ok closed b' ∧ (∀ whole ∈ closed, whole = true) ∧
      closed.length = jobs.countP (·.closes) ∧ b'.Idle packing (records ++ jobs.map Job.bytes) := by
  induction jobs generalizing b records with
  | nil =>
    obtain ⟨b', finished, idle⟩ := finish_ready h
    refine ⟨[], b', ?_, by simp, rfl, by rwa [List.map_nil, List.append_nil]⟩
    rw [writeAll, bind_ok finished]
    rfl
  | cons job more ih =>
    obtain ⟨closed, b1, written, told, ready⟩ := write_ready (complete job List.mem_cons_self) h
    have rest : ∀ other ∈ more, other.Complete := by
      intro other among
      exact complete other (List.mem_cons_of_mem job among)
    obtain ⟨later, b2, others, all, count, idle⟩ := ih rest ready
    refine ⟨closed ++ later, b2, ?_, ?_, ?_, ?_⟩
    · rw [writeAll, bind_ok written, bind_ok others]
      rfl
    · intro whole among
      rcases List.mem_append.1 among with first | among
      · rw [told] at first
        split at first
        · simpa using first
        · cases first
      · exact all whole among
    · rw [List.length_append, count, List.countP_cons, told, Nat.add_comm]
      cases job.closes <;> rfl
    · rw [List.map_cons, List.append_cons]
      exact idle

end Jobs

end ArcFile.Builder
