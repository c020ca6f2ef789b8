import ArcFile.Proofs.Archive.Passage
import Mathlib.Data.List.Forall2
/-!
Records that are alike. The sizes of buffers do not matter to a record, nor does where it stands, nor whether what is
behind it is the rest of a file or the end of a gzip member; and what is known of a file does not depend on
them either.
-/
namespace ArcFile

/-- The options differ in the sizes of buffers at most, and leave as much room for HTTP headers. -/
structure Options.Alike (options options' : Options) : Prop where
  blockDigest : options'.blockDigest = options.blockDigest
  payloadDigest : options'.payloadDigest = options.payloadDigest
  digestEncoding : options'.digestEncoding = options.digestEncoding
  parseHttp : options'.parseHttp = options.parseHttp
  room : max options'.httpLimit options'.pushbackSize = max options.httpLimit options.pushbackSize

theorem Options.Alike.refl (options : Options) : options.Alike options := ⟨rfl, rfl, rfl, rfl, rfl⟩

namespace Frame

variable {options options' : Options} {isMember isMember' : Bool} {f f' : Frame}

/-- The records are the same but for where they stand and what was found in front of their content. -/
structure Like (isMember isMember' : Bool) (f f' : Frame) : Prop where
  header : f'.header = { f.header with start := f'.header.start }
  region : f'.region = f.region
  trailing : f'.trailing = f.trailing
  extra : f'.extra isMember' = f.extra isMember
  extent : f'.extent isMember' = f.extent isMember

theorem Like.refl (isMember : Bool) (f : Frame) : Like isMember isMember f f := ⟨rfl, rfl, rfl, rfl, rfl⟩

theorem Like.isVersionBlock (h : Like isMember isMember' f f') :
    f'.header.isVersionBlock = f.header.isVersionBlock := by
  rw [h.header]
  rfl

theorem Like.declared (h : Like isMember isMember' f f') : f'.header.declared = f.header.declared := by
  rw [h.header]
  rfl

theorem Like.missing (h : Like isMember isMember' f f') : f'.missing = f.missing := by
  rw [Frame.missing, Frame.missing, h.declared, h.region]

theorem Like.expectsHttp (alike : options.Alike options') (h : Like isMember isMember' f f') :
    Entry.expectsHttp options' f'.header = Entry.expectsHttp options f.header := by
  rw [Entry.expectsHttp, Entry.expectsHttp, alike.parseHttp, h.header]

theorem Like.head (alike : options.Alike options') (h : Like isMember isMember' f f') :
    f'.head options' = f.head options := by
  rw [Frame.head, Frame.head, h.expectsHttp alike, h.declared, h.region, alike.room]

theorem Like.kind (alike : options.Alike options') (h : Like isMember isMember' f f') :
    f'.kind options' = f.kind options := by
  rw [Frame.kind, Frame.kind, h.isVersionBlock, h.region, h.head alike]

theorem Like.content (alike : options.Alike options') (h : Like isMember isMember' f f') :
    f'.content options' = f.content options := by
  rw [Frame.content, Frame.content, h.region, h.kind alike]

theorem Like.opening (alike : options.Alike options') (h : Like isMember isMember' f f') :
    f'.opening options' = f.opening options := by
  have line : VersionLines.headerFindings f'.header = VersionLines.headerFindings f.header := by
    rw [h.header]
    rfl
  rw [Frame.opening, Frame.opening, h.isVersionBlock, line, h.region, h.expectsHttp alike, h.declared, h.head alike]

theorem Like.blockDigest (alike : options.Alike options') (h : Like isMember isMember' f f') :
    f'.blockDigest options' = f.blockDigest options := by
  rw [Frame.blockDigest, Frame.blockDigest, alike.blockDigest, h.region]

theorem Like.payloadDigest (alike : options.Alike options') (h : Like isMember isMember' f f') :
    f'.payloadDigest options' = f.payloadDigest options := by
  rw [Frame.payloadDigest, Frame.payloadDigest, h.kind alike, alike.payloadDigest, h.content alike]

theorem Like.closing (alike : options.Alike options') (h : Like isMember isMember' f f') :
    f'.closing options' isMember' = f.closing options isMember := by
  rw [Frame.closing, Frame.closing, Frame.sealing, Frame.sealing, Frame.encodes, Frame.encodes,
    alike.digestEncoding, h.missing, h.blockDigest alike, h.payloadDigest alike, h.trailing, h.extra]

/-- The records are alike, and the same was found in front of their content. -/
def Same (isMember isMember' : Bool) (f f' : Frame) : Prop := Like isMember isMember' f f' ∧ f'.found = f.found

end Frame

namespace Scanner.Session

variable {isMember isMember' : Bool} {session session' : Session} {f f' : Frame} {header : RecordHeader}

/-- The same is known of both files, of which each may be packed or not. -/
structure Alike (isMember isMember' : Bool) (session session' : Session) : Prop where
  isMember : (session.packing == .gzip) = isMember
  isMember' : (session'.packing == .gzip) = isMember'
  options : session.options.Alike session'.options
  base : session'.base = session.base
  tally : session'.tally = session.tally
  findings : session'.findings = session.findings
  records : session'.records = session.records
  versionBlockSeen : session'.versionBlockSeen = session.versionBlockSeen
  layout : session'.layout = session.layout

/-- Where a header line stands has no bearing on its place among the others. -/
theorem Alike.enter (h : session.Alike isMember isMember' session') (header : RecordHeader) (start : Nat) :
    (session'.enter { header with start }).2 = (session.enter header).2 ∧
      (session.enter header).1.Alike isMember isMember' (session'.enter { header with start }).1 := by
  have version : RecordHeader.isVersionBlock { header with start } = header.isVersionBlock := rfl
  have records : session'.records + 1 = session.records + 1 := congrArg (· + 1) h.records
  unfold Session.enter
  rw [version]
  by_cases isVersion : header.isVersionBlock
  · rw [if_pos isVersion, if_pos isVersion, h.versionBlockSeen]
    exact ⟨rfl, { h with records, versionBlockSeen := rfl }⟩
  · rw [if_neg isVersion, if_neg isVersion]
    refine ⟨?_, { h with records }⟩
    rw [h.records, h.base, h.layout]

theorem Alike.declare (h : session.Alike isMember isMember' session') (kind : Entry.Kind) :
    (session.declare kind).Alike isMember isMember' (session'.declare kind) := by
  cases kind with
  | data head => exact h
  | versionBlock lines => exact { h with layout := rfl }

theorem Alike.allFoundBy (h : session.Alike isMember isMember' session') (same : f.Same isMember isMember' f') :
    session'.allFoundBy f' = session.allFoundBy f := by
  obtain ⟨like, found⟩ := same
  have entering := (h.enter f.header f'.header.start).1
  rw [← like.header] at entering
  rw [Session.allFoundBy, Session.allFoundBy, Session.foundBy, Session.foundBy, h.isMember, h.isMember', found,
    entering, like.opening h.options, like.closing h.options]

theorem Alike.pass (h : session.Alike isMember isMember' session') (same : f.Same isMember isMember' f') :
    (session.pass f).Alike isMember isMember' (session'.pass f') := by
  have entered := (h.enter f.header f'.header.start).2
  rw [← same.1.header] at entered
  have declared := entered.declare (f.kind session.options)
  rw [Session.pass, Session.pass, h.allFoundBy same, h.tally, same.1.kind h.options]
  exact { declared with tally := rfl }

/-- Behind records that are the same, the same is still known. -/
theorem Alike.passAll {frames frames' : List Frame} (h : session.Alike isMember isMember' session')
    (same : List.Forall₂ (Frame.Same isMember isMember') frames frames') :
    (session.passAll frames).Alike isMember isMember' (session'.passAll frames') := by
  induction same generalizing session session' with
  | nil => exact h
  | cons first _ ih => exact ih (h.pass first)

end Scanner.Session
end ArcFile
