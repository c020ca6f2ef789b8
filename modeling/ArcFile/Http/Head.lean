import ArcFile.Http.Fields
import ArcFile.Http.StartLine
import ArcFile.Supply.Cursor
import ArcFile.Value.MediaType
/-!
Headers of HTTP messages at the start of a record's content. `Head.read` takes a whole header from a cursor or
nothing: what is not a header is pushed back, so that no more bytes are read than the cursor can
take back.
-/
namespace ArcFile.Http

structure Head where
  start : StartLine
  fields : Fields
  /-- The size of the header in bytes, with the empty line that ends it. -/
  size : Nat
  /-- The number of content bytes after the header. -/
  payload : Nat
  deriving DecidableEq, Repr

namespace Head

/-- What has been read of a header. -/
structure Draft where
  start : Option StartLine
  fields : Fields
  /-- The line under way, backwards. -/
  line : Bytes
  /-- All bytes, backwards. -/
  recorded : Bytes
  /-- The number of all bytes. -/
  count : Nat

namespace Draft

def empty : Draft := ⟨none, .empty, [], [], 0⟩

/-- What to do after some bytes: read on, or stop with a header or without one. -/
inductive Verdict where
  | more (draft : Draft)
  | head (start : StartLine) (draft : Draft)
  | none (draft : Draft)

/-- Takes up a line without its terminator. The first must be a start line, and an empty one ends
the header. -/
def addLine (draft : Draft) (line : Bytes) : Verdict :=
  match draft.start with
  | .none =>
    match StartLine.parse? line.latin1 with
    | some start => .more { draft with start := some start }
    | .none => .none draft
  | some start =>
    if line.isEmpty then .head start draft
    else .more { draft with fields := draft.fields.add line.latin1 }

/-- Takes up a byte. -/
def add (draft : Draft) (b : UInt8) : Verdict :=
  let draft := { draft with recorded := b :: draft.recorded, count := draft.count + 1 }
  if b = Bytes.lineFeed then
    { draft with line := [] }.addLine (Bytes.dropReturn draft.line.reverse)
  else .more { draft with line := b :: draft.line }

/-- The content has ended. That is the end of a header only if the content is nothing else. -/
def finish (draft : Draft) (declared : Nat) : Verdict :=
  match draft.start with
  | .none => .none draft
  | some start =>
    if draft.count ≠ declared then .none draft
    else if draft.line.isEmpty then .head start draft
    else .head start { draft with fields := draft.fields.add (Bytes.latin1 draft.line.reverse) }

/-- What has been read of the header. -/
def Verdict.draft : Verdict → Draft
  | .more draft => draft
  | .head _ draft => draft
  | .none draft => draft

theorem recorded_addLine (draft : Draft) (line : Bytes) :
    (draft.addLine line).draft.recorded = draft.recorded := by
  unfold addLine
  repeat' split
  all_goals rfl

/-- Every byte that is taken up is recorded. -/
theorem recorded_add (draft : Draft) (b : UInt8) : (draft.add b).draft.recorded = b :: draft.recorded := by
  unfold add
  dsimp only
  split
  · rw [recorded_addLine]
  · rfl

theorem recorded_finish (draft : Draft) (declared : Nat) :
    (draft.finish declared).draft.recorded = draft.recorded := by
  unfold finish
  repeat' split
  all_goals rfl

end Draft

variable {σ : Type} [Supply σ]

/-- Reads on until it is clear whether there is a header of at most `limit` bytes. -/
def readDraft (limit declared : Nat) (draft : Draft) (c : Cursor σ) :
    Outcome (Cursor σ) Draft.Verdict :=
  if limit ≤ draft.count then
    match Cursor.fill c with
    | .error fault c => .error fault c
    | .ok [] c => .ok (draft.finish declared) c
    | .ok (_ :: _) c => .ok (.none draft) c
  else
    match found : Cursor.readByte c with
    | .error fault c => .error fault c
    | .ok none c => .ok (draft.finish declared) c
    | .ok (some b) c' =>
      have := Cursor.left_of_readByte found
      match draft.add b with
      | .more draft => readDraft limit declared draft c'
      | verdict => .ok verdict c'
termination_by c.left

/-- What was taken from the cursor is what the draft has recorded. -/
theorem left_readDraft (limit declared : Nat) (draft : Draft) (c : Cursor σ) :
    match readDraft limit declared draft c with
    | .ok verdict c' => verdict.draft.recorded.length + c'.left ≤ draft.recorded.length + c.left
    | .error _ c' => c'.left ≤ c.left := by
  fun_induction readDraft limit declared draft c with
  | case1 _ c _ _ _ found => exact Cursor.fill_error found
  | case2 draft c _ _ found =>
    have := (Cursor.fill_ok found).2.1
    simp only [Draft.recorded_finish]
    omega
  | case3 draft c _ _ _ _ found =>
    have := (Cursor.fill_ok found).2.1
    simp only [Draft.Verdict.draft]
    omega
  | case4 _ c _ _ _ found => exact Cursor.readByte_error found
  | case5 draft c _ _ found =>
    have := Cursor.left_readByte c
    rw [found] at this
    simp only [Draft.recorded_finish]
    exact Nat.add_le_add_left this _
  | case6 draft c _ b c' found smaller draft' added ih =>
    have := Draft.recorded_add draft b
    rw [added] at this
    simp only [Draft.Verdict.draft] at this
    split at ih
    · simp only [this, List.length_cons] at ih
      omega
    · omega
  | case7 draft c _ b c' found smaller =>
    have := Draft.recorded_add draft b
    simp only [this, List.length_cons]
    omega

/-- The header at the start of content of the declared length, if it has one that the cursor could take
back. -/
def read (declared : Nat) (c : Cursor σ) : Outcome (Cursor σ) (Option Head) :=
  match readDraft c.pushbackSize declared .empty c with
  | .error fault c => .error fault c
  | .ok (.head start draft) c =>
    .ok (some ⟨start, draft.fields, draft.count, declared - draft.count⟩) c
  | .ok (.none draft) c | .ok (.more draft) c =>
    match Cursor.unread draft.recorded.reverse c with
    | .ok () c => .ok none c
    | .error fault c => .error fault c

theorem left_read (declared : Nat) (c : Cursor σ) : (read declared c).state.left ≤ c.left := by
  have taken := left_readDraft c.pushbackSize declared .empty c
  unfold read
  split
  · next found =>
    rw [found] at taken
    exact taken
  · next found =>
    rw [found] at taken
    simp only [Draft.Verdict.draft, Draft.empty, List.length_nil] at taken
    simp only [Outcome.state]
    omega
  all_goals
    next draft c' found =>
      rw [found] at taken
      have back := Cursor.left_unread draft.recorded.reverse c'
      simp only [Draft.Verdict.draft, Draft.empty, List.length_nil, List.length_reverse] at taken back
      split <;> simp_all only [Outcome.state] <;> omega

/-- This is the header of a response. -/
def isResponse (head : Head) : Bool :=
  match head.start with
  | .status .. => true
  | .request .. => false

def statusCode (head : Head) : Option Nat :=
  match head.start with
  | .status _ code _ => some code
  | .request .. => none

/-- The content type that the header gives. -/
def mediaType (head : Head) : Option MediaType :=
  (head.fields.get? "Content-Type").bind MediaType.parse?

end Head
end ArcFile.Http
