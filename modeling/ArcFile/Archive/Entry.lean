import ArcFile.Archive.Options
import ArcFile.Http.Head
import ArcFile.Record.Header.Search
import ArcFile.Record.VersionLines
import ArcFile.Supply.Span
/-!
Records that are being read. An `Entry` holds the source that its record stands in, and gives the content of
the record without the version lines or the HTTP header in front. Closing it leaves the source behind
the record, with all that is wrong with the record found.
-/
namespace ArcFile

/-- What a record is, apart from its header line. -/
inductive Entry.Kind where
  /-- The block that opens a file. -/
  | versionBlock (lines : VersionLines)
  /-- An archived resource, with the HTTP header in front of it if there is one. -/
  | data (head : Option Http.Head)
  deriving DecidableEq, Repr

/-- Where the source of a record is. -/
inductive Entry.Content (τ : Type) where
  | reading (body : Body (Cursor τ))
  /-- The content has been passed. -/
  | passed (source : Cursor τ)

structure Entry (τ : Type) where
  header : RecordHeader
  kind : Entry.Kind
  findings : Findings
  content : Entry.Content τ
  options : Options
  /-- The record is all that its gzip member should hold. -/
  isMember : Bool
  /-- Where the header line begins, by the count of the source. -/
  sourceStart : Nat
  /-- The number of bytes of content, if none are missing. -/
  payloadLength : Nat
  /-- The number of bytes that the record takes; zero until it has been closed. -/
  consumed : Nat
  /-- The number of bytes of content that are missing. -/
  unavailable : Nat
  blockDigest : Option Digest
  payloadDigest : Option Digest
  /-- Nothing is wrong with the record; known once it has been closed without a fault. -/
  compliant : Option Bool

namespace Entry

variable {τ : Type}

def isClosed (entry : Entry τ) : Bool :=
  match entry.content with
  | .reading _ => false
  | .passed _ => true

/-- The source that the record stands in. -/
def source (entry : Entry τ) : Cursor τ :=
  match entry.content with
  | .reading body => body.source
  | .passed source => source

def versionLines (entry : Entry τ) : Option VersionLines :=
  match entry.kind with
  | .versionBlock lines => some lines
  | .data _ => none

def httpHead (entry : Entry τ) : Option Http.Head :=
  match entry.kind with
  | .versionBlock _ => none
  | .data head => head

/-- A record that has just been opened. -/
def ofBody (options : Options) (isMember : Bool) (sourceStart : Nat) (header : RecordHeader)
    (kind : Kind) (findings : Findings) (body : Body (Cursor τ)) : Entry τ :=
  { header, kind, findings, options, isMember, sourceStart
    content := .reading body
    payloadLength := body.remaining
    consumed := 0
    unavailable := 0
    blockDigest := none
    payloadDigest := none
    compliant := none }

/-- The record should begin with an HTTP header. -/
def expectsHttp (options : Options) (header : RecordHeader) : Bool :=
  options.parseHttp && (header.scheme == some "http" || header.scheme == some "https") &&
    header.mediaType.given != some RecordHeader.noType

/-- The number of bytes of content that can be pushed back, which is as many as an HTTP header may have. -/
def contentPushback (options : Options) (header : RecordHeader) : Nat :=
  if expectsHttp options header then max options.httpLimit options.pushbackSize
  else options.pushbackSize

/-- Takes the HTTP header from the start of the content, if there should be one. -/
def takeHead [Supply τ] (options : Options) (header : RecordHeader) (body : Body (Cursor τ)) :
    Outcome (Body (Cursor τ)) (Option Http.Head × Findings) :=
  if !expectsHttp options header then .ok (none, .none) body
  else if header.declared = 0 then .ok (none, Findings.none.addError .noPayload) body
  else
    match body.parse (Http.Head.read header.declared) with
    | .error fault body => .error fault body
    | .ok none body => .ok (none, Findings.none.addError .noHttpHead) body
    | .ok (some head) body =>
      .ok (some head, Findings.none.addWarnings head.fields.warnings)
        (match options.payloadDigest with
          | some algorithm => body.startDigest algorithm
          | none => body)

variable [Supply τ]

/-- Opens the record whose header line has just been read from the source. A fault gives the source
back. -/
def ofHeader (options : Options) (isMember : Bool) (header : RecordHeader) (findings : Findings)
    (source : Cursor τ) : Except (Fault × Cursor τ) (Entry τ) :=
  let sourceStart := source.consumed - header.size
  let body := Body.create source header.declared (options.blockDigest.map .start)
    options.bufferSize (contentPushback options header)
  if header.isVersionBlock then
    let (more, read) := VersionLines.take body.cursor
    match read with
    | .error fault cursor => .error (fault, cursor.supply.inner)
    | .ok lines cursor =>
      let all := (findings.addErrors (VersionLines.headerFindings header)).addErrors more
      .ok (ofBody options isMember sourceStart header (.versionBlock lines) all { body with cursor })
  else
    match takeHead options header body with
    | .error fault body => .error (fault, body.source)
    | .ok (head, more) body =>
      .ok (ofBody options isMember sourceStart header (.data head) (findings ++ more) body)

theorem left_takeHead (options : Options) (header : RecordHeader) (body : Body (Cursor τ)) :
    (takeHead options header body).state.left ≤ body.left := by
  unfold takeHead
  split
  · exact Nat.le_refl _
  · split
    · exact Nat.le_refl _
    · have parsed : (body.parse (Http.Head.read header.declared)).state.left ≤ body.left :=
        Body.left_parse (Http.Head.left_read header.declared body.cursor)
      split
      · next found =>
        rw [found] at parsed
        exact parsed
      · next found =>
        rw [found] at parsed
        exact parsed
      · next found =>
        rw [found] at parsed
        dsimp only [Outcome.state]
        split <;> exact parsed

/-- Reads content; there is none once the record has been closed. -/
def read (n : Nat) (entry : Entry τ) : Outcome (Entry τ) Bytes :=
  match entry.content with
  | .passed _ => .ok [] entry
  | .reading body =>
    match body.read n with
    | .ok data body => .ok data { entry with content := .reading body }
    | .error fault body => .error fault { entry with content := .reading body }

/-- The content at hand, without handing it out. -/
def fill (entry : Entry τ) : Outcome (Entry τ) Bytes :=
  match entry.content with
  | .passed _ => .ok [] entry
  | .reading body =>
    match body.fill with
    | .ok data body => .ok data { entry with content := .reading body }
    | .error fault body => .error fault { entry with content := .reading body }

/-- A bound on what can still be read from the record, and from its source after it. -/
def bound (entry : Entry τ) : Nat :=
  match entry.content with
  | .reading body => body.left
  | .passed source => source.left

theorem read_ok {n : Nat} {entry entry' : Entry τ} {data : Bytes} (h : read n entry = .ok data entry') :
    data.length ≤ n ∧ data.length + bound entry' ≤ bound entry := by
  unfold read at h
  split at h
  · cases h
    simp
  · next body stands =>
    split at h
    · next found =>
      cases h
      simpa [bound, stands] using Body.read_ok found
    · cases h

theorem read_error {n : Nat} {entry entry' : Entry τ} {fault : Fault}
    (h : read n entry = .error fault entry') : bound entry' ≤ bound entry := by
  unfold read at h
  split at h
  · cases h
  · next body stands =>
    split at h
    · cases h
    · next found =>
      cases h
      simpa [bound, stands] using Body.read_error found

instance : Supply (Entry τ) where
  read := read
  bound := bound
  read_ok := read_ok
  read_error := read_error

/-- Hands out `n` of the bytes that `fill` gave. -/
def advance (n : Nat) (entry : Entry τ) : Entry τ :=
  match entry.content with
  | .passed _ => entry
  | .reading body => { entry with content := .reading (body.advance n) }

/-- The line ends behind the content of a record. -/
structure Trailer where
  newlines : Nat
  carriageReturn : Bool
  deriving DecidableEq, Repr

namespace Trailer

def nothing : Trailer := ⟨0, false⟩

/-- There should be one line feed and nothing else. -/
def findings (trailer : Trailer) : Findings :=
  ⟨if trailer.newlines = 1 then [] else [.wrongNewlines trailer.newlines],
    if trailer.carriageReturn then [.carriageReturn] else []⟩

/-- Takes all line feeds and carriage returns up to the next other byte. -/
def take (seen : Trailer) (c : Cursor τ) : Outcome (Cursor τ) Trailer :=
  match found : Cursor.readByte c with
  | .error fault c' => .error fault c'
  | .ok none c' => .ok seen c'
  | .ok (some b) c' =>
    have := Cursor.left_of_readByte found
    if b = Bytes.lineFeed then take { seen with newlines := seen.newlines + 1 } c'
    else if b = Bytes.carriageReturn then take { seen with carriageReturn := true } c'
    else
      match Cursor.unread [b] c' with
      | .ok () c' => .ok seen c'
      | .error fault c' => .error fault c'
termination_by c.left

theorem left_take (seen : Trailer) (c : Cursor τ) : (take seen c).state.left ≤ c.left := by
  fun_induction take seen c with
  | case1 _ _ _ _ found => exact Cursor.readByte_error found
  | case2 _ c _ found =>
    have := Cursor.left_readByte c
    rw [found] at this
    exact this
  | case3 _ _ _ _ smaller ih => exact Nat.le_trans ih (Nat.le_of_lt smaller)
  | case4 _ _ _ _ smaller _ ih => exact Nat.le_trans ih (Nat.le_of_lt smaller)
  | case5 seen c b c' found smaller _ _ c'' back =>
    have := Cursor.left_unread [b] c'
    rw [back] at this
    simp only [Outcome.state, List.length_singleton] at *
    omega
  | case6 seen c b c' found smaller _ _ _ c'' back =>
    have := Cursor.left_unread [b] c'
    rw [back] at this
    simp only [Outcome.state, List.length_singleton] at *
    omega

end Trailer

/-- Takes up what closing the content gave. -/
def withSealed (result : Body.Sealed) (entry : Entry τ) : Entry τ :=
  let encode := fun digest : Digest => digest.encode entry.options.digestEncoding
  let block := result.blockDigest.map encode
  let payload := result.payloadDigest.map encode
  let known := (block.toList ++ payload.toList).all fun digest => digest.text.isSome
  { entry with
    findings := (if result.unavailable = 0 then entry.findings
        else entry.findings.addError (.truncated result.unavailable)).addErrors
      (if known then [] else [.unknownEncoding entry.options.digestEncoding])
    unavailable := result.unavailable
    blockDigest := block
    payloadDigest := payload }

/-- Takes the line ends behind the content; none are expected if the content was cut short. -/
def passTrailer (entry : Entry τ) (source : Cursor τ) : Outcome (Cursor τ) Findings :=
  if entry.unavailable ≠ 0 then .ok .none source
  else
    match Trailer.take .nothing source with
    | .ok trailer source => .ok trailer.findings source
    | .error fault source => .error fault source

/-- Passes over all that is left of a gzip member. -/
def passMember (entry : Entry τ) (source : Cursor τ) : Outcome (Cursor τ) Findings :=
  if !entry.isMember then .ok .none source
  else
    match Cursor.skipAll source with
    | .ok 0 source => .ok .none source
    | .ok (extra + 1) source => .ok (Findings.none.addError (.dataAfterRecord (extra + 1))) source
    | .error fault source => .error fault source

/-- Takes the source behind the record, whose content has been passed. -/
def passRest (entry : Entry τ) (source : Cursor τ) : Outcome (Entry τ) Unit :=
  match passTrailer entry source with
  | .error fault source => .error fault { entry with content := .passed source }
  | .ok trailer source =>
    let entry := { entry with findings := entry.findings ++ trailer }
    match passMember entry source with
    | .error fault source => .error fault { entry with content := .passed source }
    | .ok extra source =>
      let findings := entry.findings ++ extra
      .ok () { entry with
        findings
        content := .passed source
        consumed := source.consumed - entry.sourceStart
        compliant := some findings.isEmpty }

/-- Closes the record. Doing so again has no effect, not even if it faulted. -/
def close (entry : Entry τ) : Outcome (Entry τ) Unit :=
  match entry.content with
  | .passed _ => .ok () entry
  | .reading body =>
    match body.close with
    | .error fault source => .error fault { entry with content := .passed source }
    | .ok result source => passRest (entry.withSealed result) source

theorem left_source_le_bound (entry : Entry τ) : entry.source.left ≤ entry.bound := by
  unfold source bound
  split
  · next body _ => exact Body.bound_source_le_left body
  · exact Nat.le_refl _

theorem left_passTrailer (entry : Entry τ) (c : Cursor τ) : (passTrailer entry c).state.left ≤ c.left := by
  have := Trailer.left_take .nothing c
  unfold passTrailer
  split
  · exact Nat.le_refl _
  · split <;> simp_all [Outcome.state]

theorem left_passMember (entry : Entry τ) (c : Cursor τ) : (passMember entry c).state.left ≤ c.left := by
  have := Cursor.left_skipFrom 0 (c.left + 1) c
  unfold passMember Cursor.skipAll
  split
  · exact Nat.le_refl _
  · split <;> simp_all [Outcome.state]

theorem left_passRest (entry : Entry τ) (c : Cursor τ) :
    (passRest entry c).state.source.left ≤ c.left := by
  have trailer := left_passTrailer entry c
  unfold passRest
  split
  · next found =>
    rw [found] at trailer
    exact trailer
  · next findings c' found =>
    rw [found] at trailer
    have extra := left_passMember { entry with findings := entry.findings ++ findings } c'
    dsimp only
    split
    all_goals
      next passed =>
        rw [passed] at extra
        exact Nat.le_trans extra trailer

/-- Closing a record only goes forward in its source. -/
theorem left_close (entry : Entry τ) : entry.close.state.source.left ≤ entry.bound := by
  unfold close
  split
  · exact left_source_le_bound entry
  · next body stands =>
    have closed := Body.bound_close body
    have same : entry.bound = body.left := by simp [bound, stands]
    rw [same]
    split
    · next found =>
      rw [found] at closed
      exact closed
    · next found =>
      rw [found] at closed
      exact Nat.le_trans (left_passRest _ _) closed

theorem isClosed_passRest (entry : Entry τ) (c : Cursor τ) : (passRest entry c).state.isClosed = true := by
  unfold passRest
  split
  · rfl
  · dsimp only
    split <;> rfl

theorem isClosed_close (entry : Entry τ) : entry.close.state.isClosed = true := by
  unfold close
  split
  · next stands => simp [Outcome.state, isClosed, stands]
  · split
    · rfl
    · exact isClosed_passRest _ _

/-- Closing a closed record has no effect. -/
theorem close_of_isClosed {entry : Entry τ} (h : entry.isClosed = true) : entry.close = .ok () entry := by
  unfold isClosed at h
  split at h
  · cases h
  · next stands => simp [close, stands]

theorem bound_of_isClosed {entry : Entry τ} (h : entry.isClosed = true) : entry.bound = entry.source.left := by
  unfold isClosed at h
  split at h
  · cases h
  · next stands => simp [bound, source, stands]

theorem bound_close (entry : Entry τ) : entry.close.state.bound ≤ entry.bound := by
  rw [bound_of_isClosed entry.isClosed_close]
  exact entry.left_close

/-- A record that has been read to its end and closed holds no more than it did. -/
theorem bound_of_readAll {stride : Nat} {entry atEnd closed : Entry τ} {content : Bytes}
    (all : Supply.readAll stride [] entry = (content, .ok () atEnd)) (isClosed : atEnd.close = .ok () closed) :
    closed.bound ≤ entry.bound := by
  have reading := Supply.bound_readAll stride [] entry
  have closing := atEnd.bound_close
  rw [all] at reading
  rw [isClosed] at closing
  exact Nat.le_trans closing reading

/-- A record holds no more than was left in the source behind its header line. -/
theorem bound_ofHeader {options : Options} {isMember : Bool} {header : RecordHeader}
    {findings : Findings} {source : Cursor τ} {entry : Entry τ}
    (h : ofHeader options isMember header findings source = .ok entry) : entry.bound ≤ source.left := by
  have created := Body.left_create source header.declared (options.blockDigest.map .start)
    options.bufferSize (contentPushback options header)
  unfold ofHeader at h
  dsimp only at h
  split at h
  · have lines := VersionLines.left_take (Body.create source header.declared
      (options.blockDigest.map .start) options.bufferSize (contentPushback options header)).cursor
    split at h
    · cases h
    · next found =>
      cases h
      rw [found] at lines
      exact Nat.le_trans lines (Nat.le_of_eq created)
  · have head := left_takeHead options header (Body.create source header.declared
      (options.blockDigest.map .start) options.bufferSize (contentPushback options header))
    split at h
    · cases h
    · next found =>
      cases h
      rw [found] at head
      exact Nat.le_trans head (Nat.le_of_eq created)

end Entry
end ArcFile
