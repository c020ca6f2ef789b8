import ArcFile.Gzip.Bits
import ArcFile.Gzip.Crc32
import ArcFile.Supply.Action
/-!
What surrounds the deflate data of a gzip member (RFC 1952): a header with optional parts in front, and a
trailer with the checksum and the length of the content behind. `pack` gives a member whose
deflate data is stored blocks; its two parts are `plainHeader` and `body`.
-/
namespace ArcFile.Gzip

/-- The first bytes of every member. -/
def magic : Bytes := [0x1f, 0x8b]

/-- The number of the deflate method. -/
def deflate : UInt8 := 8

/-- The flags of a header, each for an optional part. -/
structure Flags where
  extra : Bool
  name : Bool
  comment : Bool
  checksum : Bool
  /-- One of the reserved flags is set. -/
  reserved : Bool
  deriving DecidableEq, Repr

/-- The flags in a byte. The lowest only says that the content is text. -/
def Flags.ofByte (b : UInt8) : Flags :=
  let bit := b.toNat.testBit
  ⟨bit 2, bit 3, bit 4, bit 1, bit 5 || bit 6 || bit 7⟩

namespace Member

/-- The longest name or comment in a header. -/
def longestText : Nat := 65535

/-- The lowest 16 bits of the checksum of a header, which may follow it. -/
def headerChecksum (header : Bytes) : Nat := (Crc32.start.update header).value % (1 <<< 16)

/-- The trailer behind some content: its checksum and its length modulo 2^32. -/
def trailer (content : Bytes) : Bytes :=
  Bytes.toLittleEndian 4 (Crc32.start.update content).value ++
    Bytes.toLittleEndian 4 content.length

open Cursor

variable {σ : Type} [Supply σ]

/-- Reads `n` bytes, all of which must be there. -/
def take (n : Nat) : EStateM Fault (Cursor σ) Bytes := do
  let data ← Cursor.readUpTo n []
  if data.length < n then throw .unexpectedEnd else return data

/-- Reads a text of at most `room` bytes and the zero byte that ends it. -/
def takeText : (room : Nat) → EStateM Fault (Cursor σ) Bytes
  | 0 => do
    let b ← take 1
    if b = [0] then return b else throw .gzipHeaderField
  | room + 1 => do
    let b ← take 1
    if b = [0] then return b
    else
      let more ← takeText room
      return b ++ more

/-- Reads a part of the header if it is there. -/
def optional (there : Bool) (part : EStateM Fault (Cursor σ) Bytes) : EStateM Fault (Cursor σ) Bytes :=
  if there then part else return []

/-- Reads extra data, which begins with its length. -/
def takeExtra : EStateM Fault (Cursor σ) Bytes := do
  let length ← take 2
  let more ← take length.littleEndian
  return length ++ more

/-- Reads the part of the header that is always there. -/
def takeStart : EStateM Fault (Cursor σ) Bytes := do
  let start ← take 10
  if start.startsWith (magic ++ [deflate]) ∧ !(Flags.ofByte (start.getD 3 0)).reserved then return start
  else throw .gzipHeader

/-- Reads the optional parts of the header but for its checksum. -/
def takeParts (flags : Flags) : EStateM Fault (Cursor σ) Bytes := do
  let extra ← optional flags.extra takeExtra
  let name ← optional flags.name (takeText longestText)
  let comment ← optional flags.comment (takeText longestText)
  return extra ++ name ++ comment

/-- Reads the checksum of the header. -/
def takeChecksum (header : Bytes) : EStateM Fault (Cursor σ) Bytes := do
  let checksum ← take 2
  if checksum.littleEndian = headerChecksum header then return checksum else throw .gzipChecksum

/-- Reads the header of a member. -/
def takeHeader : EStateM Fault (Cursor σ) Bytes := do
  let start ← takeStart
  let flags := Flags.ofByte (start.getD 3 0)
  let parts ← takeParts flags
  let checksum ← optional flags.checksum (takeChecksum (start ++ parts))
  return start ++ parts ++ checksum

/-- Reads the trailer of a member, which must be that of the content. -/
def takeTrailer (content : Bytes) : EStateM Fault (Cursor σ) Bytes := do
  let found ← take 8
  if found = trailer content then return found else throw .gzipChecksum

section Along

variable {after : Cursor σ → Cursor σ → Prop} (tracks : Tracks after)

include tracks

theorem along_take (n : Nat) : Along after (take n : EStateM Fault (Cursor σ) Bytes) :=
  along_bind tracks (tracks.read n) fun _ => along_ite _ (along_throw tracks _) (along_pure tracks _)

theorem along_takeText (room : Nat) : Along after (takeText room : EStateM Fault (Cursor σ) Bytes) := by
  induction room with
  | zero =>
    apply along_bind tracks (along_take tracks 1)
    intro b
    exact along_ite _ (along_pure tracks _) (along_throw tracks _)
  | succ room ih =>
    apply along_bind tracks (along_take tracks 1)
    intro b
    exact along_ite _ (along_pure tracks _) (along_bind tracks ih fun _ => along_pure tracks _)

theorem along_optional (there : Bool) {part : EStateM Fault (Cursor σ) Bytes} (h : Along after part) :
    Along after (optional there part) := along_ite _ h (along_pure tracks _)

theorem along_takeExtra : Along after (takeExtra : EStateM Fault (Cursor σ) Bytes) :=
  along_bind tracks (along_take tracks 2) fun _ => along_bind tracks (along_take tracks _) fun _ => along_pure tracks _

theorem along_takeStart : Along after (takeStart : EStateM Fault (Cursor σ) Bytes) :=
  along_bind tracks (along_take tracks 10) fun _ => along_ite _ (along_pure tracks _) (along_throw tracks _)

theorem along_takeParts (flags : Flags) : Along after (takeParts flags : EStateM Fault (Cursor σ) Bytes) := by
  apply along_bind tracks (along_optional tracks _ (along_takeExtra tracks))
  intro extra
  apply along_bind tracks (along_optional tracks _ (along_takeText tracks _))
  intro name
  apply along_bind tracks (along_optional tracks _ (along_takeText tracks _))
  intro comment
  exact along_pure tracks _

theorem along_takeChecksum (header : Bytes) : Along after (takeChecksum header : EStateM Fault (Cursor σ) Bytes) :=
  along_bind tracks (along_take tracks 2) fun _ => along_ite _ (along_pure tracks _) (along_throw tracks _)

/-- The part of a header behind its start. -/
theorem along_takeRest (start : Bytes) (flags : Flags) :
    Along after (do
      let parts ← takeParts flags
      let checksum ← optional flags.checksum (takeChecksum (start ++ parts))
      return start ++ parts ++ checksum : EStateM Fault (Cursor σ) Bytes) := by
  apply along_bind tracks (along_takeParts tracks _)
  intro parts
  apply along_bind tracks (along_optional tracks _ (along_takeChecksum tracks _))
  intro checksum
  exact along_pure tracks _

theorem along_takeHeader : Along after (takeHeader : EStateM Fault (Cursor σ) Bytes) :=
  along_bind tracks (along_takeStart tracks) fun start => along_takeRest tracks start _

theorem along_takeTrailer (content : Bytes) :
    Along after (takeTrailer content : EStateM Fault (Cursor σ) Bytes) :=
  along_bind tracks (along_take tracks 8) fun _ => along_ite _ (along_pure tracks _) (along_throw tracks _)

end Along

theorem shrinks_takeTrailer (content : Bytes) :
    Shrinks (takeTrailer content : EStateM Fault (Cursor σ) Bytes) := along_takeTrailer tracks_left content

/-- What reading the start of a header makes so, reading all of it makes so. -/
theorem takeHeader_of_start {P : Cursor σ → Prop} (tracks : Tracks fun c c' => P c → P c') {c : Cursor σ}
    (first : P (Outcome.state (Cursor.readUpTo 10 [] c))) : P (Outcome.state (takeHeader c)) := by
  have taken : P (Outcome.state (take 10 c)) :=
    holds_bind first fun _ => along_ite _ (along_throw tracks _) (along_pure tracks _)
  have start : P (Outcome.state (takeStart c)) :=
    holds_bind taken fun _ => along_ite _ (along_pure tracks _) (along_throw tracks _)
  exact holds_bind start fun start => along_takeRest tracks start _

/-- If the start of a member was looked at, its header takes at least that. -/
theorem left_takeHeader {c : Cursor σ} (held : c.pushback.bytes ≠ []) :
    (Outcome.state (takeHeader c)).left < c.left := by
  have tracks : Tracks fun c' c'' : Cursor σ => c'.left < c.left → c''.left < c.left :=
    ⟨fun _ less => less, fun first second less => second (first less),
      fun n c' less => Nat.lt_of_le_of_lt (left_readUpTo n [] c') less⟩
  exact takeHeader_of_start tracks (left_readUpTo_of_pushback (by decide) held)

end Member

/-- The header of members that `pack` gives: no optional parts, no time, an unknown system. -/
def plainHeader : Bytes := magic ++ [deflate, 0, 0, 0, 0, 0, 0, 255]

/-- The most bytes that a stored block holds. -/
def longestStored : Nat := 65535

/-- Stored blocks with this data, at least one. The last of them may be the last of the member, and is then marked. -/
def storedBlocks (final : Bool) (data : Bytes) : Bytes :=
  let size := Bytes.toLittleEndian 2 (min data.length longestStored)
  let block := size ++ size.map (255 - ·) ++ data.take longestStored
  if data.length ≤ longestStored then cond final 1 0 :: block
  else 0 :: (block ++ storedBlocks final (data.drop longestStored))
termination_by data.length
decreasing_by simp [longestStored] at *; omega

/-- What a member with this content has behind its header. -/
def body (content : Bytes) : Bytes := storedBlocks true content ++ Member.trailer content

/-- A member with this content. -/
def pack (content : Bytes) : Bytes := plainHeader ++ body content

end ArcFile.Gzip
