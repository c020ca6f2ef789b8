import ArcFile.Archive.Encoder
import ArcFile.Archive.Packing
import ArcFile.Record.VersionLines
import ArcFile.Supply.Sink
/-!
Writing a file record by record. A record is its header line, its content and a line feed. It is opened by
its header line and open until it is closed; opening the next one closes it, too. In a packed file
every record is a gzip member of its own, which any encoder may make of it.

A `Builder` says of every record whether its content is as long as was declared. A fault ends it: from then on every
operation is illegal.
-/
namespace ArcFile

open Text

/-- Where a builder stands within a record. -/
inductive Builder.Stage where
  /-- No record is open. -/
  | init
  /-- A header line has been written, but no content. -/
  | headerWritten
  | payloadWritten
  /-- There was a fault, and the output is lost. -/
  | failed
  deriving DecidableEq, Repr

def Builder.Stage.name : Stage → String
  | .init => "Init"
  | .headerWritten => "HeaderWritten"
  | .payloadWritten => "PayloadWritten"
  | .failed => "Failed"

/-- What can only be done at some stages. -/
inductive Builder.Operation where
  | writePayload
  | closeRecord
  | finish
  deriving DecidableEq, Repr

def Builder.Operation.words : Operation → String
  | .writePayload => "write a payload"
  | .closeRecord => "close a record"
  | .finish => "finish"

inductive Builder.Failure where
  | fault (cause : Fault)
  | illegalState (operation : Operation) (stage : Stage)
  deriving DecidableEq, Repr

def Builder.Failure.message : Failure → String
  | .fault cause => "I/O error: " ++ cause.message
  | .illegalState operation stage => "cannot " ++ operation.words ++ " in writer state " ++ stage.name

structure Builder where
  packing : Packing
  /-- What makes the members of a packed file. -/
  gzip : Encoder
  output : Sink
  /-- The pieces of the open record that have been written, the last one first. -/
  pieces : List Bytes
  stage : Builder.Stage
  /-- The number of bytes of content that the open record is to have. -/
  declared : Nat
  /-- The number of bytes of content that it has. -/
  written : Nat
  /-- What is wrong with the open record. -/
  findings : Findings
  /-- What is wrong with the record closed last. -/
  lastFindings : Findings
  tally : Tally

namespace Builder

def create (packing : Packing) (gzip : Encoder) (output : Sink) : Builder where
  packing := packing
  gzip := gzip
  output := output
  pieces := []
  stage := .init
  declared := 0
  written := 0
  findings := .none
  lastFindings := .none
  tally := .zero

def isOpen (b : Builder) : Bool := b.stage == .headerWritten || b.stage == .payloadWritten

/-- Writes bytes to the output. -/
def emit (data : Bytes) (b : Builder) : Outcome Builder Unit :=
  match b.output.write data with
  | .ok () output => .ok () { b with output }
  | .error fault output => .error fault { b with output }

/-- The encoder of records. -/
def encoder (b : Builder) : Encoder :=
  match b.packing with
  | .plain => .plain
  | .gzip => b.gzip

/-- Writes a piece of the open record, if there is anything in it. -/
def put (data : Bytes) (b : Builder) : Outcome Builder Unit :=
  if data.isEmpty then .ok () b
  else
    match b.emit (b.encoder.onWrite b.pieces data) with
    | .ok () b => .ok () { b with pieces := data :: b.pieces }
    | .error fault b => .error fault b

/-- Writes what the encoder has held back of the pieces, if there are any. -/
def endPieces (b : Builder) : Outcome Builder Unit :=
  if b.pieces.isEmpty then .ok () b
  else { b with pieces := [] }.emit (b.encoder.onEnd b.pieces)

/-- Gives up after a fault. What has been written of the open record is still ended. -/
def fail (b : Builder) : Builder := { b.endPieces.state with stage := .failed }

/-- Does something that can only fault, and gives up if it does. -/
def attempt {α : Type} (action : Builder → Outcome Builder α) : EStateM Failure Builder α := fun b =>
  match action b with
  | .ok a b => .ok a b
  | .error fault b => .error (.fault fault) b.fail

/-- Closes the open record: ends it with a line feed and counts it. Tells whether its content is as long
as was declared. -/
def closeRecord : EStateM Failure Builder Bool := do
  let b ← get
  if !b.isOpen then throw (.illegalState .closeRecord b.stage)
  else
    attempt (put [Bytes.lineFeed])
    attempt endPieces
    let findings := if b.written = b.declared then b.findings
      else b.findings.addError (.wrongPayloadLength b.written b.declared)
    modify fun after => { after with
      stage := .init
      findings := .none
      lastFindings := findings
      tally := b.tally.add findings }
    return b.written = b.declared

/-- A line without the line ends behind it. -/
def trimLineEnds (line : String) : String :=
  String.ofList (line.toList.reverse.dropWhile fun c => c = '\n' ∨ c = '\r').reverse

/-- The content length in a header line; a line that has none is reported. -/
def declaredIn (line : Bytes) : Nat × Findings :=
  let text := trimLineEnds (Utf8.decodeLossy line)
  match RecordHeader.parse? text with
  | some (header, _) =>
    if header.length.value.isSome then (header.declared, .none)
    else (0, Findings.none.addError (.headerWithoutLength text))
  | none => (0, Findings.none.addError (.headerWithoutLength text))

/-- Writes a line, and a line feed behind it if it does not end in one. -/
def writeLine (line : Bytes) : EStateM Failure Builder Unit := do
  attempt (put line)
  if line.getLast? ≠ some Bytes.lineFeed then attempt (put [Bytes.lineFeed])

/-- Closes the open record if there is one, and opens a record with this header line. Without a length, the
line itself says how long its content will be. -/
def writeHeader (line : Bytes) (length : Option Nat) : EStateM Failure Builder Unit := do
  if (← get).stage ≠ .init then discard closeRecord
  let (declared, findings) := match length with
    | some length => (length, Findings.none)
    | none => declaredIn line
  modify fun b => { b with declared, written := 0, findings }
  writeLine line
  modify fun b => { b with stage := .headerWritten }

/-- Opens a record with this header, whose content will be as long as it says. -/
def writeHeaderLine (header : RecordHeader) : EStateM Failure Builder Unit :=
  writeHeader (Bytes.ofString header.render) (some header.declared)

/-- Writes bytes of content. -/
def writePayload (data : Bytes) : EStateM Failure Builder Unit := do
  let b ← get
  if !b.isOpen then throw (.illegalState .writePayload b.stage)
  else
    attempt (put data)
    modify fun b => { b with written := b.written + data.length, stage := .payloadWritten }

/-- Writes a whole version block with these lines and this content behind them. The header line tells
the true length, whatever the header says. Tells whether the block is complete. -/
def writeVersionBlock (header : RecordHeader) (lines : VersionLines) (content : Bytes) :
    EStateM Failure Builder Bool := do
  let text := Bytes.ofString lines.render
  let length := text.length + content.length
  writeHeaderLine { header with length := ⟨some (toString length), some length⟩ }
  writePayload text
  writePayload content
  closeRecord

section Copying

variable {σ : Type} [Supply σ]

/-- The most bytes that are copied at a time. -/
def stride : Nat := 8192

/-- Copies up to `length` more bytes of an input, of which `copied` have been copied. -/
def copy (length copied : Nat) (b : Builder) (input : σ) : Outcome (Builder × σ) Nat :=
  if length = 0 then .ok copied (b, input)
  else
    match found : Supply.read (min stride length) input with
    | .error fault input => .error fault (b, input)
    | .ok [] input => .ok copied (b, input)
    | .ok (x :: more) input' =>
      match b.put (x :: more) with
      | .error fault b => .error fault (b, input')
      | .ok () b =>
        have : Supply.bound input' < Supply.bound input := by
          have := (Supply.read_ok found).2
          simp only [List.length_cons] at this
          omega
        copy (length - (x :: more).length) (copied + (x :: more).length) b input'
termination_by Supply.bound input

/-- Writes up to `length` bytes of an input as content and gives their number. A fault of the input
counts like one of the output. -/
def streamPayload (length : Nat) : EStateM Failure (Builder × σ) Nat := fun (b, input) =>
  if !b.isOpen then .error (.illegalState .writePayload b.stage) (b, input)
  else
    match copy length 0 b input with
    | .error fault (b, input) => .error (.fault fault) (b.fail, input)
    | .ok copied (b, input) =>
      .ok copied ({ b with written := b.written + copied, stage := .payloadWritten }, input)

end Copying

/-- Closes the open record if there is one. The output is then complete. -/
def finish : EStateM Failure Builder Unit := do
  if (← get).isOpen then discard closeRecord
  let b ← get
  if b.stage = .failed then throw (.illegalState .finish b.stage)

/-- Closes the open record if there is one, whether that fails or not. -/
def abandon (b : Builder) : Builder :=
  if b.isOpen then
    match closeRecord b with
    | .ok _ b => b
    | .error _ b => b
  else b

end Builder
end ArcFile
