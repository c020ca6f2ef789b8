import ArcFile.Proofs.Archive.Acceptance
import ArcFile.Proofs.Archive.Output
import ArcFile.Proofs.Archive.Tour
import ArcFile.Proofs.Record.Written
/-!
Version blocks that are written and read again. Whatever the length in a header was, the block that is written with it
tells its own; and reading it, in either packing, gives the same fields, the same version lines and the same content,
with nothing wrong but what is wrong with the header line itself.
-/
namespace ArcFile

namespace RecordHeader

variable {header found : RecordHeader} {errors : List Finding}

/-- The line that is written for a header is found at once, with nothing wrong but what its text has wrong. -/
theorem first_render (parsed : parse? header.line = some (found, errors)) (isLine : Text.IsLine header.line)
    (length : found.length.value.isSome) (rest : Bytes) :
    first 0 (Bytes.ofString header.render ++ rest) =
      (some { found with start := 0, size := (Bytes.ofString header.render).length }, ⟨errors, []⟩, rest) := by
  have decoded := Utf8.decode?_ofString header.line
  have whole : Bytes.dropReturn (Bytes.ofString header.line) = Bytes.ofString header.line :=
    Bytes.dropReturn_of_getLast? (getLast?_ne_return decoded parsed length)
  have bytes : Bytes.ofString header.render = Bytes.ofString header.line ++ [Bytes.lineFeed] := by
    rw [render_eq, Bytes.ofString_append]
    rfl
  have read : ofLine? (Bytes.dropReturn (Bytes.ofString header.line)) 0 ((Bytes.ofString header.line).length + 1) =
      some ({ found with start := 0, size := (Bytes.ofString header.line).length + 1 }, ⟨errors, []⟩) := by
    rw [whole]
    simp only [ofLine?, decoded, parsed, Option.map_some, Findings.addErrors, Findings.none, List.nil_append]
  rw [bytes, List.append_assoc, List.length_append]
  exact first_terminated (Bytes.lineFeed_not_mem_ofString isLine) read 0 rest

end RecordHeader

namespace Frame

variable {f : Frame} {bytes content : Bytes}

/-- Data that is one record and nothing else has one frame. -/
theorem plain_single (first : RecordHeader.first 0 bytes = (some f.header, f.found, f.behind)) (rest : f.rest = []) :
    plain 0 0 bytes = ([f], .none) := by
  have is : f.header = { f.header with start := 0 + f.header.start } := by rw [Nat.zero_add]
  rw [plain_some first is, rest, plain_none (RecordHeader.first_nil _)]

theorem packed_single (piece : Bytes) (first : RecordHeader.first 0 bytes = (some f.header, f.found, f.behind))
    (start : f.header.start = 0) : packed 0 0 .none [(piece, bytes)] = ([f], .none) := by
  rw [packed, first]
  simp only [packed, Findings.none_append, Nat.add_zero]
  rw [← start]

end Frame

namespace Scanner

variable {σ : Type} [Supply σ] {options : Options} {input : σ} {piece bytes : Bytes} {f : Frame}

/-- In either packing, a scanner goes through one record and then comes to the end. -/
theorem gives_single {packing : Packing} (isPacked : IsPacked packing piece bytes)
    (first : RecordHeader.first 0 bytes = (some f.header, f.found, f.behind)) (start : f.header.start = 0)
    (rest : f.rest = []) (yields : Supply.Yields input piece) (buffered : 0 < options.bufferSize) :
    Gives (fun _ _ => True) (Ends .none) (create packing 0 options input).session [f]
      (create packing 0 options input) := by
  obtain ⟨holds, steady, held⟩ := yields
  cases packing with
  | plain =>
    obtain rfl : piece = bytes := isPacked
    have gives := plain_gives steady (create_atPlain 0 buffered held)
    rw [show (create .plain 0 options input).session.base = 0 from rfl, Frame.plain_single first rest] at gives
    exact gives.mono (fun _ _ _ => trivial) fun _ _ => id
  | gzip =>
    have decodes : ∀ m ∈ [(piece, bytes)], Gzip.Decodes m.1 m.2 := by
      intro m among
      obtain rfl := List.mem_singleton.1 among
      exact isPacked
    have member : bytesOf [(piece, bytes)] [] = piece := by simp [bytesOf]
    have gives := packed_gives steady (create_atMembers 0 buffered decodes (member.symm ▸ held))
    rw [show (create .gzip 0 options input).session.base = 0 from rfl, Frame.packed_single piece first start] at gives
    exact gives.mono (fun _ _ _ => trivial) fun _ _ ends => ends rfl

/-- What a visit to a version block with this header, these lines and this content behind them brings: all of it, with
nothing wrong but these findings. -/
structure Stop.ReturnsBlock (header : RecordHeader) (lines : VersionLines) (content : Bytes) (findings : Findings)
    (stop : Stop σ) : Prop where
  header : stop.opened.header = header
  kind : stop.opened.kind = .versionBlock lines
  payloadLength : stop.opened.payloadLength = content.length
  readable : ∀ stride, 0 < stride → ∃ entry, Supply.readAll stride [] stop.opened = (content, .ok () entry)
  used : ∃ hand, stop.used = .ok () hand ∧ hand.out <+: content
  closed : ∃ entry, stop.closed = .ok () entry ∧ entry.unavailable = 0 ∧ entry.findings = findings

end Scanner

namespace Frame

/-- The frame is a version block with these lines and this content, and with nothing wrong but what these errors say
and what is wrong with its header. -/
structure IsBlock (lines : VersionLines) (content : Bytes) (errors : List Finding) (f : Frame) : Prop extends
    Wraps (Bytes.ofString lines.render ++ content) [] f where
  isVersionBlock : f.header.isVersionBlock = true
  found : f.found = ⟨errors, []⟩
  size : lines.size = (Bytes.ofString lines.render).length
  lines : VersionLines.ofContent (Bytes.ofString lines.render ++ content) = ([], lines)

variable {lines : VersionLines} {content : Bytes} {errors : List Finding} {f : Frame} {options : Options}

theorem IsBlock.kind (h : f.IsBlock lines content errors) : f.kind options = .versionBlock lines := by
  rw [Frame.kind, if_pos h.isVersionBlock, h.region, h.lines]

theorem IsBlock.content_eq (h : f.IsBlock lines content errors) : f.content options = content := by
  rw [Frame.content, h.kind, h.region]
  change List.drop lines.size _ = _
  rw [h.size, List.drop_left]

theorem IsBlock.opening (h : f.IsBlock lines content errors) :
    f.opening options = ⟨VersionLines.headerFindings f.header, []⟩ := by
  rw [Frame.opening, if_pos h.isVersionBlock, h.region, h.lines, List.append_nil]

theorem IsBlock.closing (h : f.IsBlock lines content errors) (encodes : options.Encodes) (isMember : Bool) :
    f.closing options isMember = .none := by
  have extra : f.extra isMember = .none := if_neg fun more => more.2 h.rest_eq
  rw [Frame.closing, Frame.sealing, if_pos h.missing, encodes_of encodes, if_pos rfl, h.trailing, extra]
  rfl

/-- As the first record of a file, a version block is in its place. -/
theorem IsBlock.allFoundBy {session : Scanner.Session} (h : f.IsBlock lines content errors)
    (encodes : session.options.Encodes) (first : session.versionBlockSeen = false) :
    session.allFoundBy f = ⟨errors ++ VersionLines.headerFindings f.header, []⟩ := by
  have entered := (Scanner.Session.enter_version h.isVersionBlock).2 first
  rw [Scanner.Session.allFoundBy, Scanner.Session.foundBy, entered, h.found, h.opening, h.closing encodes,
    Findings.append_none]
  simp [Findings.append_eq]

end Frame

namespace Scanner

variable {σ : Type} [Supply σ] {session : Session} {f : Frame} {visit : Visit σ} {after : Scanner σ → Prop}
  {lines : VersionLines} {content : Bytes} {errors : List Finding}

theorem stop_returnsBlock (calls : List Entry.Call) (h : visit.Opens session f after)
    (block : f.IsBlock lines content errors) (encodes : session.options.Encodes)
    (first : session.versionBlockSeen = false) : (visit.stop calls).ReturnsBlock f.header lines content
      ⟨errors ++ VersionLines.headerFindings f.header, []⟩ := by
  have shows := (stop_shows calls h).1
  refine ⟨shows.header, shows.kind.trans block.kind, ?_, ?_, ?_, ?_⟩
  · rw [shows.payloadLength, block.content_eq, block.missing, Nat.add_zero]
  · rw [← block.content_eq]
    exact shows.readable
  · obtain ⟨hand, used, out, -⟩ := shows.used
    exact ⟨hand, used, block.content_eq ▸ out⟩
  · obtain ⟨entry, closed, missing, findings⟩ := stop_findings calls h
    exact ⟨entry, closed, missing.trans block.missing, findings.trans (block.allFoundBy encodes first)⟩

/-- A tour that is planned past a version block with nothing behind it comes to that one record and to the end. -/
theorem tour_block {piece bytes : Bytes} {packing : Packing} {options : Options} {input : σ}
    (isPacked : IsPacked packing piece bytes)
    (found : RecordHeader.first 0 bytes = (some f.header, f.found, f.behind)) (start : f.header.start = 0)
    (block : f.IsBlock lines content errors) (yields : Supply.Yields input piece) (encodes : options.Encodes)
    (buffered : 0 < options.bufferSize) {plans : List (List Entry.Call)} (enough : 1 < plans.length) :
    ∃ stop scanner, tour plans (create packing 0 options input) = ([stop], .ended scanner) ∧
      scanner.session.findings = .none ∧ stop.ReturnsBlock f.header lines content
        ⟨errors ++ VersionLines.headerFindings f.header, []⟩ := by
  have gives := gives_single isPacked found start block.rest_eq yields buffered
  generalize isStart : create packing 0 options input = scanner at gives
  have none : scanner.session.findings = .none := by rw [← isStart]; rfl
  have first : scanner.session.versionBlockSeen = false := by rw [← isStart]; rfl
  have sameOptions : scanner.session.options = options := by rw [← isStart]; rfl
  obtain ⟨length, ended⟩ := tour_ends_clean plans gives none fun _ => id
  obtain ⟨last, isEnd, clean⟩ := ended enough
  obtain ⟨stop, only⟩ := List.length_eq_one_iff.1 (length.trans (Nat.min_eq_right (Nat.le_of_lt enough)))
  obtain ⟨visit, calls, after, rfl, opened, -⟩ := (tour_opens plans gives).2 0 f stop rfl (by rw [only]; rfl)
  refine ⟨_, last, Prod.ext only isEnd, clean, ?_⟩
  exact stop_returnsBlock calls opened block (sameOptions ▸ encodes) first

end Scanner

namespace Builder

open Text

variable {σ : Type} [Supply σ] {original origin : String} {header : RecordHeader} {errors : List Finding}

omit [Supply σ] in
theorem terminated_render (header : RecordHeader) :
    terminated (Bytes.ofString header.render) = Bytes.ofString header.render := by
  apply if_pos
  have feed : Bytes.ofString "\n" = [Bytes.lineFeed] := rfl
  rw [RecordHeader.render_eq, Bytes.ofString_append, feed, List.getLast?_concat]

/-- What is written for a version block is one record. -/
theorem writeVersionBlock_output (packing : Packing) {gzip : Encoder} (sound : gzip.Sound) (header : RecordHeader)
    (lines : VersionLines) (content : Bytes) :
    let length := (Bytes.ofString lines.render).length + content.length
    ∃ b, writeVersionBlock header lines content (create packing gzip (.empty none)) = .ok true b ∧
      IsPacked packing b.output.bytes (Bytes.ofString (withLength length header).render ++
        (Bytes.ofString lines.render ++ content ++ [Bytes.lineFeed])) := by
  intro length
  obtain ⟨b, wrote, stands⟩ := writeVersionBlock_stands header lines content
    (.between rfl rfl (holds_create packing sound) : Stands packing [] none (create packing gzip (.empty none)))
  obtain ⟨pieces, output, packed⟩ := stands.output
  obtain ⟨piece, none, isPacked, rest, rfl⟩ := List.forall₂_cons_right_iff.1 packed
  obtain rfl := List.forall₂_nil_right_iff.1 rest
  refine ⟨b, wrote, ?_⟩
  simp only [Draft.bytes, Draft.add, terminated_render, List.nil_append, List.append_assoc] at isPacked
  rw [output, List.flatten_singleton, List.append_assoc (Bytes.ofString lines.render)]
  exact isPacked

/-- A version block is read as it was written. The header may come from any line that opens a version block, whatever
length that line gives and whatever is wrong with it; the name of the maker may be any text that is known for one and
ends where its line does; and the content may be anything whose length can be written down. What is read has the fields
of the header but for the length, which is that of the lines and the content; the very lines; and the content behind
them. Nothing is found wrong that is not wrong with the line as it was written. -/
theorem writeVersionBlock_reads (parsed : RecordHeader.parse? original = some (header, errors))
    (isLine : IsLine original) (versionBlock : header.scheme = some RecordHeader.versionScheme) (named : origin ≠ "")
    (known : origin ≠ "-") (unbroken : IsLine origin) (noReturn : origin.toList.getLast? ≠ some '\r')
    (packing : Packing) {gzip : Encoder} (sound : gzip.Sound) (version : FormatVersion) (content : Bytes) :
    let lines := VersionLines.ofVersion version origin
    let length := (Bytes.ofString lines.render).length + content.length
    let written := withLength length header
    length ≤ 0x7fffffffffffffff →
    ∃ b found errors', writeVersionBlock header lines content (create packing gzip (.empty none)) = .ok true b ∧
      RecordHeader.parse? written.line = some (found, errors') ∧ found.rawTexts = written.texts.map some ∧
      found.layout = header.layout ∧ found.length = ⟨some (toString length), some length⟩ ∧
      ∀ {input : σ} {options : Options} {plans : List (List Entry.Call)}, Supply.Yields input b.output.bytes →
        options.Encodes → 0 < options.bufferSize → 1 < plans.length →
        ∃ stop scanner, Scanner.tour plans (Scanner.create packing 0 options input) = ([stop], .ended scanner) ∧
          scanner.session.findings = .none ∧
          stop.ReturnsBlock { found with start := 0, size := (Bytes.ofString written.render).length } lines content
            ⟨errors' ++ VersionLines.headerFindings found, []⟩ := by
  intro lines length written small
  obtain ⟨found, errors', again, raw, layout, isLength, scheme⟩ := RecordHeader.parse?_again parsed small
  obtain ⟨b, wrote, isPacked⟩ := writeVersionBlock_output packing sound header lines content
  refine ⟨b, found, errors', wrote, again, raw, layout, isLength, ?_⟩
  intro input options plans yields encodes buffered enough
  have oneLine : IsLine written.line := by
    apply isLine_intercalate (by decide)
    exact RecordHeader.all_texts_length (RecordHeader.isLine_texts (RecordHeader.isOneLine_of_parse? isLine parsed).1)
      (isLine_nat length)
  have again : RecordHeader.parse? written.line = some (found, errors') := again
  have first := RecordHeader.first_render again oneLine (by rw [isLength]; rfl)
    (Bytes.ofString lines.render ++ content ++ [Bytes.lineFeed])
  let f : Frame := ⟨{ found with start := 0, size := (Bytes.ofString written.render).length }, ⟨errors', []⟩,
    Bytes.ofString lines.render ++ content ++ [Bytes.lineFeed]⟩
  have block : f.IsBlock lines content errors' := {
    behind := rfl
    length := by
      change _ = found.declared
      rw [RecordHeader.declared, isLength, List.length_append]
      rfl
    clear := by
      intro b among
      cases among
    isVersionBlock := by
      have isVersion : found.scheme = some RecordHeader.versionScheme := by
        rw [scheme (by rw [versionBlock]; rfl), versionBlock]
      change (found.scheme == some RecordHeader.versionScheme) = true
      rw [isVersion]
      rfl
    found := rfl
    size := VersionLines.size_eq_length version origin
    lines := VersionLines.ofContent_ofVersion version named known unbroken noReturn content }
  exact Scanner.tour_block (f := f) isPacked first rfl block yields encodes buffered enough

/-- The date is missing, and the length is no number. -/
def looseLine : String := "filedesc:a 0.0.0.0  text/plain x"

theorem writeVersionBlock_reads_looseLine : ∃ header errors, RecordHeader.parse? looseLine = some (header, errors) ∧
    Encoder.stored.Sound ∧ IsLine looseLine ∧ header.scheme = some RecordHeader.versionScheme ∧
    let lines := VersionLines.ofVersion .v1_1 "Ann é"
    "Ann é" ≠ "" ∧ "Ann é" ≠ "-" ∧ IsLine "Ann é" ∧ "Ann é".toList.getLast? ≠ some '\r' ∧
      (Bytes.ofString lines.render).length + 2 ≤ 0x7fffffffffffffff ∧
      ∃ b, writeVersionBlock header lines [10, 13] (create .gzip .stored (.empty none)) = .ok true b ∧
        Supply.Yields (Input.ofBytes b.output.bytes) b.output.bytes ∧ Options.default.Encodes ∧
        0 < Options.default.bufferSize ∧ 1 < [[Entry.Call.read 1], []].length ∧
        ∃ stop scanner, Scanner.tour [[.read 1], []] (Scanner.create .gzip 0 .default (Input.ofBytes b.output.bytes)) =
          ([stop], .ended scanner) ∧ stop.opened.kind = .versionBlock lines := by
  have opens : (RecordHeader.parse? looseLine).bind (fun found => found.1.scheme) =
      some RecordHeader.versionScheme := by decide +kernel
  have size : (Bytes.ofString (VersionLines.ofVersion .v1_1 "Ann é").render).length + 2 ≤ 0x7fffffffffffffff := by
    decide +kernel
  obtain ⟨⟨header, errors⟩, parsed, scheme⟩ := Option.bind_eq_some_iff.1 opens
  have isLine : IsLine looseLine := by decide
  have named : "Ann é" ≠ "" ∧ "Ann é" ≠ "-" ∧ IsLine "Ann é" ∧ "Ann é".toList.getLast? ≠ some '\r' := by decide
  obtain ⟨some, other, unbroken, noReturn⟩ := named
  obtain ⟨b, found, errors', wrote, -, -, -, -, reading⟩ := writeVersionBlock_reads (σ := Input) parsed isLine scheme
    some other unbroken noReturn .gzip Encoder.sound_stored .v1_1 [10, 13] size
  have yields := Input.yields_ofBytes b.output.bytes
  have encodes : Options.default.Encodes := .inl (by decide)
  have enough : 1 < [[Entry.Call.read 1], []].length := by decide
  obtain ⟨stop, scanner, toured, -, block⟩ := reading yields encodes (by decide) enough
  exact ⟨header, errors, parsed, Encoder.sound_stored, isLine, scheme, some, other, unbroken, noReturn, size, b, wrote,
    yields, encodes,
    by decide, enough, stop, scanner, toured, block.kind⟩

end Builder
end ArcFile
