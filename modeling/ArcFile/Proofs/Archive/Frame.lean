import ArcFile.Archive.Entry
import ArcFile.Proofs.Finding
import ArcFile.Proofs.Record.Opening
import ArcFile.Proofs.Record.Search
/-!
Frames: records as parts of a byte string. A frame says of bytes alone what a reader finds in a record and
what is wrong with it. Nothing here depends on how the bytes are read.
-/
namespace ArcFile

namespace Bytes

def isLineEnd (b : UInt8) : Bool := b = lineFeed || b = carriageReturn

end Bytes

/-- The line ends that `data` begins with. -/
def Entry.Trailer.ofBytes (data : Bytes) : Entry.Trailer :=
  let run := data.takeWhile Bytes.isLineEnd
  ⟨run.count Bytes.lineFeed, run.contains Bytes.carriageReturn⟩

/-- The bytes in front of the content that a reader hands out. -/
def Entry.Kind.size : Entry.Kind → Nat
  | .versionBlock lines => lines.size
  | .data head => head.elim 0 (·.size)

structure Frame where
  header : RecordHeader
  /-- What is wrong up to the end of the header line. -/
  found : Findings
  /-- The data behind the header line. -/
  behind : Bytes

namespace Frame

/-- The declared content, as far as it is there. -/
def region (f : Frame) : Bytes := f.behind.take f.header.declared

/-- The number of declared bytes that are not there. -/
def missing (f : Frame) : Nat := f.header.declared - f.region.length

/-- The data behind the declared content. -/
def after (f : Frame) : Bytes := f.behind.drop f.header.declared

/-- The data behind the line ends that follow the content. -/
def rest (f : Frame) : Bytes := f.after.dropWhile Bytes.isLineEnd

/-- The HTTP header, if one is looked for and is there. -/
def head (options : Options) (f : Frame) : Option Http.Head :=
  if Entry.expectsHttp options f.header ∧ f.header.declared ≠ 0 then
    Http.Head.ofContent (max options.httpLimit options.pushbackSize) f.header.declared f.region
  else none

def kind (options : Options) (f : Frame) : Entry.Kind :=
  if f.header.isVersionBlock then .versionBlock (VersionLines.ofContent f.region).2
  else .data (f.head options)

/-- The content that a reader hands out: all but the version lines or the HTTP header. -/
def content (options : Options) (f : Frame) : Bytes := f.region.drop (f.kind options).size

/-- What is wrong with the start of the content, and with its header line in view of it. -/
def opening (options : Options) (f : Frame) : Findings :=
  if f.header.isVersionBlock then
    ⟨VersionLines.headerFindings f.header ++ (VersionLines.ofContent f.region).1, []⟩
  else if !Entry.expectsHttp options f.header then .none
  else if f.header.declared = 0 then ⟨[.noPayload], []⟩
  else match f.head options with
    | some head => ⟨[], head.fields.warnings⟩
    | none => ⟨[.noHttpHead], []⟩

/-- The payload digest is one of what follows the HTTP header, so there is none without. -/
def running (options : Options) (f : Frame) : Option Digest.Running :=
  match f.kind options with
  | .data (some _) => options.payloadDigest.map .start
  | _ => none

/-- The digest of all content. -/
def blockDigest (options : Options) (f : Frame) : Option Digest :=
  options.blockDigest.map fun algorithm => ⟨algorithm.name, algorithm.hash f.region, none⟩

/-- The digest of the content behind the HTTP header. -/
def payloadDigest (options : Options) (f : Frame) : Option Digest :=
  match f.kind options with
  | .data (some _) =>
    options.payloadDigest.map fun algorithm => ⟨algorithm.name, algorithm.hash (f.content options), none⟩
  | _ => none

theorem finish_blockDigest (options : Options) (f : Frame) :
    (options.blockDigest.map Digest.Running.start).map (fun running => (running.update f.region).finish) =
      f.blockDigest options := by
  unfold blockDigest
  cases options.blockDigest with
  | none => rfl
  | some algorithm => exact congrArg some (Digest.Running.finish_update (.start algorithm) _)

theorem finish_running (options : Options) (f : Frame) :
    (f.running options).map (fun running => (running.update (f.content options)).finish) =
      f.payloadDigest options := by
  unfold running payloadDigest
  split
  · cases options.payloadDigest with
    | none => rfl
    | some algorithm => exact congrArg some (Digest.Running.finish_update (.start algorithm) _)
  · rfl

/-- The digests have a text form, or there are none. -/
def encodes (options : Options) (f : Frame) : Bool :=
  (Radix.ofName? options.digestEncoding).isSome ||
    ((f.blockDigest options).isNone && (f.payloadDigest options).isNone)

/-- What is wrong with the length of the content and with the digests. -/
def sealing (options : Options) (f : Frame) : Findings :=
  (if f.missing = 0 then .none else ⟨[.truncated f.missing], []⟩) ++
    if f.encodes options then .none else ⟨[.unknownEncoding options.digestEncoding], []⟩

/-- What is wrong with the line ends behind the content. None are looked for if some of it is missing. -/
def trailing (f : Frame) : Findings :=
  if f.missing = 0 then (Entry.Trailer.ofBytes f.after).findings else .none

/-- What is wrong with the data behind the record in the member it stands in. -/
def extra (isMember : Bool) (f : Frame) : Findings :=
  if isMember ∧ f.rest ≠ [] then ⟨[.dataAfterRecord f.rest.length], []⟩ else .none

/-- What closing finds wrong. -/
def closing (options : Options) (isMember : Bool) (f : Frame) : Findings :=
  f.sealing options ++ (f.trailing ++ f.extra isMember)

/-- What is left of the data behind the record; a member holds no other record. -/
def left (isMember : Bool) (f : Frame) : Bytes := if isMember then [] else f.rest

theorem rest_suffix_after (f : Frame) : f.rest <:+ f.after := List.dropWhile_suffix _

theorem left_suffix_rest (f : Frame) (isMember : Bool) : f.left isMember <:+ f.rest := by
  cases isMember with
  | false => exact List.suffix_refl _
  | true => exact List.nil_suffix

theorem left_suffix (f : Frame) (isMember : Bool) : f.left isMember <:+ f.behind :=
  ((f.left_suffix_rest isMember).trans f.rest_suffix_after).trans (List.drop_suffix _ _)

theorem missing_add_length (f : Frame) : f.missing + f.region.length = f.header.declared := by
  simp only [missing, region, List.length_take]
  omega

theorem after_of_missing {f : Frame} (some : f.missing ≠ 0) : f.after = [] := by
  refine List.drop_eq_nil_of_le ?_
  simp only [missing, region, List.length_take] at some
  omega

theorem after_length (f : Frame) : f.region.length + f.after.length = f.behind.length := by
  simp only [region, after, List.length_take, List.length_drop]
  omega

/-- Version lines and HTTP header are part of the content. -/
theorem size_kind_le (options : Options) (f : Frame) : (f.kind options).size ≤ f.region.length := by
  unfold kind
  split
  · exact VersionLines.size_ofContent_le f.region
  · unfold head
    split
    · exact Http.Head.size_ofContent_le _ _ f.region
    · exact Nat.zero_le _

theorem length_content (options : Options) (f : Frame) :
    (f.content options).length + f.missing + (f.kind options).size = f.header.declared := by
  have := f.missing_add_length
  have := f.size_kind_le options
  simp only [content, List.length_drop]
  omega

end Frame
end ArcFile
