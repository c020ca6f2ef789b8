import ArcFile.Proofs.Archive.Passage
import ArcFile.Proofs.Record.Line
/-!
The format itself, apart from any reader. A sound file is one sound record after the other, the first of which is its
version block. The frames of a file have nothing wrong with them just if the file is sound.
-/
namespace ArcFile

/-- A record as it should stand in a file. -/
structure Piece where
  line : Bytes
  /-- The line feed behind the header line has a carriage return in front of it. -/
  hasReturn : Bool
  content : Bytes
  header : RecordHeader

namespace Piece

def lineEnd (p : Piece) : Bytes :=
  if p.hasReturn then [Bytes.carriageReturn, Bytes.lineFeed] else [Bytes.lineFeed]

/-- The header line, the content and a line feed. -/
def bytes (p : Piece) : Bytes := p.line ++ p.lineEnd ++ p.content ++ [Bytes.lineFeed]

/-- A cursor at the start of the content that can take so many bytes back. -/
def cursor (pushback : Nat) (p : Piece) : Cursor Input :=
  Cursor.create (Input.ofBytes p.content) Cursor.defaultCapacity pushback

/-- The line is a header line without anything wrong with it, and it says how long the content is. -/
structure Sound (p : Piece) : Prop where
  nonempty : p.line ≠ []
  noFeed : Bytes.lineFeed ∉ p.line
  noReturn : p.line.head? ≠ some Bytes.carriageReturn
  parsed : ∃ text, Utf8.decode? p.line = some text ∧ RecordHeader.parse? text = some (p.header, [])
  length : p.content.length = p.header.declared

/-- The record is a version block with nothing wrong with it, which declares this layout. -/
structure Opens (layout : Layout) (p : Piece) : Prop where
  isVersionBlock : p.header.isVersionBlock = true
  header : VersionLines.headerFindings p.header = []
  lines : ∃ lines c, VersionLines.take (p.cursor 0) = ([], .ok lines c) ∧ lines.layout = layout

/-- The record may stand behind a version block that declares this layout. If it should begin with an HTTP
header, it does, and nothing is wrong with that. -/
structure Follows (options : Options) (layout : Layout) (p : Piece) : Prop where
  notVersionBlock : p.header.isVersionBlock = false
  layout : p.header.layout = layout
  http : Entry.expectsHttp options p.header = true → p.content ≠ [] ∧
    ∃ head c, Http.Head.read p.header.declared (p.cursor (Entry.contentPushback options p.header)) =
      .ok (some head) c ∧ head.fields.warnings = []

/-- The records of a file, if there are any, are a version block and data records. -/
def InOrder (options : Options) : List Piece → Prop
  | [] => True
  | first :: more => ∃ layout, first.Opens layout ∧ ∀ p ∈ more, p.Follows options layout

end Piece

/-- The data is one sound record after the other, and they are in order. -/
def IsSound (options : Options) (data : Bytes) : Prop :=
  ∃ pieces : List Piece, data = (pieces.map Piece.bytes).flatten ∧ (∀ p ∈ pieces, p.Sound) ∧
    Piece.InOrder options pieces

namespace Bytes

/-- No line end comes first. -/
def IsClear (data : Bytes) : Prop := ∀ b, data.head? = some b → isLineEnd b = false

theorem dropWhile_of_isClear {data : Bytes} (h : IsClear data) : data.dropWhile isLineEnd = data := by
  cases data with
  | nil => rfl
  | cons b rest => rw [List.dropWhile_cons, h b rfl, if_neg Bool.false_ne_true]

theorem isClear_dropWhile (data : Bytes) : IsClear (data.dropWhile isLineEnd) := by
  intro b first
  simpa [first] using List.head?_dropWhile_not isLineEnd data

/-- A line that does not begin with a carriage return is no line end. -/
theorem isClear_of_line {line : Bytes} (nonempty : line ≠ []) (noFeed : lineFeed ∉ line)
    (noReturn : line.head? ≠ some carriageReturn) (rest : Bytes) : IsClear (line ++ rest) := by
  obtain ⟨b, more, rfl⟩ := List.exists_cons_of_ne_nil nonempty
  intro c first
  obtain rfl : b = c := by simpa using first
  have notFeed : b ≠ lineFeed := by
    rintro rfl
    exact noFeed List.mem_cons_self
  have notReturn : b ≠ carriageReturn := by
    rintro rfl
    exact noReturn rfl
  simp [isLineEnd, notFeed, notReturn]

/-- Data with a line feed in it begins with its first line and the end of that line. -/
theorem exists_first_line {data : Bytes} (hasFeed : lineFeed ∈ data) :
    ∃ (line : Bytes) (hasReturn : Bool) (rest : Bytes),
      data = line ++ (if hasReturn then [carriageReturn, lineFeed] else [lineFeed]) ++ rest ∧ lineFeed ∉ line ∧
        firstLine data = line ∧ data.drop (lineSize data) = rest := by
  obtain ⟨line, rest, rfl, noFeed⟩ := List.eq_append_cons_of_mem hasFeed
  have behind := drop_lineSize_append rest noFeed
  rcases dropReturn_cases line with whole | cut
  · exact ⟨line, false, rest, by simp, noFeed, by rw [firstLine_append rest noFeed, ← whole], behind⟩
  · refine ⟨dropReturn line, true, rest, ?_, ?_, firstLine_append rest noFeed, behind⟩
    · conv => lhs; rw [cut]
      simp
    · intro among
      rw [cut] at noFeed
      exact noFeed (List.mem_append_left _ among)

end Bytes

namespace Entry.Trailer

open Bytes (isLineEnd lineFeed isClear_dropWhile)

/-- Nothing is wrong with what is behind the content just if one line feed comes first, and then something else. -/
theorem findings_ofBytes {data : Bytes} : (ofBytes data).findings = .none ↔
    data = lineFeed :: data.dropWhile isLineEnd := by
  constructor
  · intro none
    have one : (data.takeWhile isLineEnd).count lineFeed = 1 := by
      have := congrArg Findings.errors none
      simpa [findings, ofBytes, Findings.none] using this
    have noReturn : Bytes.carriageReturn ∉ data.takeWhile isLineEnd := by
      have := congrArg Findings.warnings none
      simpa [findings, ofBytes, Findings.none] using this
    have feeds : ∀ b ∈ data.takeWhile isLineEnd, lineFeed = b := by
      intro b among
      have isEnd := List.all_eq_true.1 List.all_takeWhile b among
      simp only [isLineEnd, Bool.or_eq_true, decide_eq_true_eq] at isEnd
      rcases isEnd with rfl | rfl
      · rfl
      · exact absurd among noReturn
    have length := List.count_eq_length.2 feeds
    rw [one] at length
    obtain ⟨b, single⟩ := List.length_eq_one_iff.1 length.symm
    obtain rfl : lineFeed = b := feeds b (by simp [single])
    conv => lhs; rw [← List.takeWhile_append_dropWhile (p := isLineEnd) (l := data), single]
    rfl
  · intro cut
    have clear := isClear_dropWhile data
    generalize data.dropWhile isLineEnd = rest at cut clear
    subst cut
    have ends : isLineEnd lineFeed = true := by decide
    have none : rest.takeWhile isLineEnd = [] := by
      cases rest with
      | nil => rfl
      | cons b more => rw [List.takeWhile_cons, clear b rfl, if_neg Bool.false_ne_true]
    have other : Bytes.carriageReturn ≠ lineFeed := by decide
    simp [findings, ofBytes, ends, none, Findings.none, other]

end Entry.Trailer

namespace Frame

variable {options : Options} {f : Frame} {p : Piece}

/-- The declared content of the frame is all there, with a run of line ends behind it and then `rest`. -/
structure Spans (content lineEnds rest : Bytes) (f : Frame) : Prop where
  behind : f.behind = content ++ lineEnds ++ rest
  length : content.length = f.header.declared
  lineEnds : ∀ b ∈ lineEnds, Bytes.isLineEnd b = true
  clear : Bytes.IsClear rest

namespace Spans

variable {content lineEnds rest : Bytes} (h : f.Spans content lineEnds rest)

include h

theorem region : f.region = content := by
  rw [Frame.region, h.behind, ← h.length, List.append_assoc, List.take_left]

theorem after : f.after = lineEnds ++ rest := by
  rw [Frame.after, h.behind, ← h.length, List.append_assoc, List.drop_left]

theorem rest_eq : f.rest = rest := by
  rw [Frame.rest, h.after, List.dropWhile_append_of_pos h.lineEnds, Bytes.dropWhile_of_isClear h.clear]

theorem missing : f.missing = 0 := by
  rw [Frame.missing, h.region, h.length, Nat.sub_self]

theorem trailing : f.trailing = (Entry.Trailer.ofBytes lineEnds).findings := by
  have none : rest.takeWhile Bytes.isLineEnd = [] := by
    have split := List.takeWhile_append_dropWhile (p := Bytes.isLineEnd) (l := rest)
    rw [Bytes.dropWhile_of_isClear h.clear] at split
    exact List.append_left_eq_self.1 split
  have run (rest : Bytes) (none : rest.takeWhile Bytes.isLineEnd = []) :
      (lineEnds ++ rest).takeWhile Bytes.isLineEnd = lineEnds := by
    rw [List.takeWhile_append_of_pos h.lineEnds, none, List.append_nil]
  have alone := run [] rfl
  rw [List.append_nil] at alone
  rw [Frame.trailing, if_pos h.missing, h.after, Entry.Trailer.ofBytes, Entry.Trailer.ofBytes, run rest none, alone]

end Spans

/-- The declared content of the frame is all there, with one line feed behind it and then `rest`. -/
structure Wraps (content rest : Bytes) (f : Frame) : Prop where
  behind : f.behind = content ++ Bytes.lineFeed :: rest
  length : content.length = f.header.declared
  clear : Bytes.IsClear rest

namespace Wraps

variable {content rest : Bytes} (h : f.Wraps content rest)

include h

theorem spans : f.Spans content [Bytes.lineFeed] rest where
  behind := by simp [h.behind]
  length := h.length
  lineEnds := by simp [Bytes.isLineEnd]
  clear := h.clear

theorem region : f.region = content := h.spans.region

theorem rest_eq : f.rest = rest := h.spans.rest_eq

theorem missing : f.missing = 0 := h.spans.missing

theorem trailing : f.trailing = .none := h.spans.trailing

end Wraps

/-- The record of the frame is this piece, and it is left in front of `rest`. -/
structure Is (p : Piece) (rest : Bytes) (f : Frame) : Prop extends Wraps p.content rest f where
  header : ∃ start size, f.header = { p.header with start, size }
  found : f.found = .none

end Frame

namespace Piece

open Bytes (lineFeed carriageReturn)

variable {p : Piece}

/-- A sound line is the first line of the data that it begins, whichever way it ends. -/
theorem Sound.line_first (h : p.Sound) (rest : Bytes) :
    Bytes.firstLine (p.line ++ p.lineEnd ++ rest) = p.line ∧
      Bytes.lineSize (p.line ++ p.lineEnd ++ rest) = (p.line ++ p.lineEnd).length := by
  obtain ⟨text, decoded, parsed⟩ := h.parsed
  have noReturn := RecordHeader.getLast?_ne_return decoded parsed (RecordHeader.isSome_length_of_parse? parsed)
  have noFeed := h.noFeed
  unfold lineEnd
  cases p.hasReturn with
  | false =>
    have cut : p.line ++ [lineFeed] ++ rest = p.line ++ lineFeed :: rest := by simp
    simp only [Bool.false_eq_true, ↓reduceIte, cut, Bytes.firstLine_append rest noFeed,
      Bytes.lineSize_append rest noFeed, Bytes.dropReturn_of_getLast? noReturn, List.length_append,
      List.length_singleton, and_self]
  | true =>
    have cut : p.line ++ [carriageReturn, lineFeed] ++ rest = (p.line ++ [carriageReturn]) ++ lineFeed :: rest := by
      simp
    have noFeed : lineFeed ∉ p.line ++ [carriageReturn] := by
      have other : lineFeed ≠ carriageReturn := by decide
      simp [noFeed, other]
    rw [if_pos rfl, cut, Bytes.firstLine_append rest noFeed, Bytes.lineSize_append rest noFeed,
      Bytes.dropReturn_append]
    simp

/-- A sound piece in front of something else than a line end is the record of a frame. -/
theorem Sound.first (h : p.Sound) (base pos : Nat) {rest : Bytes} (clear : Bytes.IsClear rest) :
    ∃ (header : RecordHeader) (f : Frame), f.Is p rest ∧ f.header = { header with start := base + header.start } ∧
      RecordHeader.first pos (p.bytes ++ rest) = (some header, f.found, f.behind) := by
  obtain ⟨text, decoded, parsed⟩ := h.parsed
  have cut : p.bytes ++ rest = p.line ++ p.lineEnd ++ (p.content ++ lineFeed :: rest) := by
    simp [bytes, List.append_assoc]
  obtain ⟨line, size⟩ := h.line_first (p.content ++ lineFeed :: rest)
  rw [← cut] at line size
  have read : RecordHeader.ofLine? (Bytes.firstLine (p.bytes ++ rest)) pos (Bytes.lineSize (p.bytes ++ rest)) =
      some ({ p.header with start := pos, size := Bytes.lineSize (p.bytes ++ rest) }, .none) := by
    rw [line]
    exact RecordHeader.ofLine?_clean.2 ⟨text, p.header, decoded, parsed, rfl⟩
  have found := RecordHeader.first_of_line (line ▸ h.nonempty) read
  have behind : (p.bytes ++ rest).drop (Bytes.lineSize (p.bytes ++ rest)) = p.content ++ lineFeed :: rest := by
    rw [size, cut, List.drop_left]
  rw [behind] at found
  exact ⟨_, ⟨{ p.header with start := base + pos, size := _ }, .none, p.content ++ lineFeed :: rest⟩,
    ⟨⟨rfl, h.length, clear⟩, ⟨_, _, rfl⟩, rfl⟩, rfl, found⟩

theorem Sound.isClear (h : p.Sound) (rest : Bytes) : Bytes.IsClear (p.bytes ++ rest) := by
  rw [bytes, List.append_assoc, List.append_assoc, List.append_assoc]
  exact Bytes.isClear_of_line h.nonempty h.noFeed h.noReturn _

theorem isClear_flatten {pieces : List Piece} (sound : ∀ p ∈ pieces, p.Sound) :
    Bytes.IsClear (pieces.map Piece.bytes).flatten := by
  cases pieces with
  | nil =>
    intro b first
    cases first
  | cons p more => exact (sound p List.mem_cons_self).isClear _

/-- If nothing is wrong with a header line, with the length of the content behind it and with the line ends behind
that, the data begins with a sound piece. -/
theorem exists_of_clean {base pos : Nat} {data : Bytes} {header : RecordHeader} {f : Frame}
    (first : RecordHeader.first pos data = (some header, f.found, f.behind))
    (is : f.header = { header with start := base + header.start }) (noReturn : data.head? ≠ some carriageReturn)
    (found : f.found = .none) (whole : f.missing = 0) (trailing : f.trailing = .none) :
    ∃ p : Piece, p.Sound ∧ f.Is p f.rest ∧ data = p.bytes ++ f.rest := by
  rw [found] at first
  obtain ⟨nonempty, read, behind⟩ := RecordHeader.first_some_clean first
  obtain ⟨text, parsedHeader, decoded, parsed, same⟩ := RecordHeader.ofLine?_clean.1 read
  have after : f.after = lineFeed :: f.rest := by
    rw [Frame.trailing, if_pos whole] at trailing
    exact Entry.Trailer.findings_ofBytes.1 trailing
  have cutBehind : f.behind = f.region ++ lineFeed :: f.rest := by
    rw [← after, Frame.region, Frame.after, List.take_append_drop]
  -- the header line ends in a line feed, for there is something behind it
  have hasFeed : lineFeed ∈ data := by
    refine (List.drop_suffix data.lineSize data).subset ?_
    rw [← behind, cutBehind]
    simp
  obtain ⟨line, hasReturn, rest, cut, noFeed, line_eq, rest_eq⟩ := Bytes.exists_first_line hasFeed
  rw [line_eq] at nonempty decoded
  have declared : f.header.declared = parsedHeader.declared := by rw [is, same]; rfl
  have length : f.region.length = f.header.declared := by
    have := f.missing_add_length
    omega
  refine ⟨⟨line, hasReturn, f.region, parsedHeader⟩, ⟨nonempty, noFeed, ?_, ⟨text, decoded, parsed⟩, ?_⟩,
    ⟨⟨cutBehind, length, Bytes.isClear_dropWhile _⟩, ⟨_, _, by rw [is, same]⟩, found⟩, ?_⟩
  · intro first
    refine noReturn ?_
    rw [cut, List.append_assoc, List.head?_append]
    exact Option.or_eq_some_iff.2 (.inl first)
  · exact length.trans declared
  · rw [behind, rest_eq] at cutBehind
    rw [cut, cutBehind]
    simp [bytes, lineEnd]

end Piece

/-- The digests that are called for have a text form. -/
def Options.Encodes (options : Options) : Prop :=
  (Radix.ofName? options.digestEncoding).isSome = true ∨
    options.blockDigest = none ∧ options.payloadDigest = none

namespace Frame

variable {options : Options} {f : Frame} {p : Piece} {layout : Layout} {rest : Bytes}

theorem encodes_of (h : options.Encodes) : f.encodes options = true := by
  unfold encodes
  rcases h with known | ⟨block, payload⟩
  · rw [known]
    rfl
  · have noBlock : f.blockDigest options = none := by rw [blockDigest, block]; rfl
    have noPayload : f.payloadDigest options = none := by
      unfold payloadDigest
      split
      · rw [payload]
        rfl
      · rfl
    rw [noBlock, noPayload]
    simp

theorem closing_eq_none (encodes : options.Encodes) :
    f.closing options false = .none ↔ f.missing = 0 ∧ f.trailing = .none := by
  have noExtra : f.extra false = .none := by simp [extra]
  have sealing : f.sealing options = .none ↔ f.missing = 0 := by
    rw [Frame.sealing, encodes_of encodes, if_pos rfl, Findings.append_none]
    by_cases whole : f.missing = 0
    · simp [whole]
    · simp [whole, Findings.none]
  rw [closing, noExtra, Findings.append_none, Findings.append_eq_none, sealing]

theorem Is.opening_version (h : f.Is p rest) (version : p.header.isVersionBlock = true) :
    f.opening options = .none ↔
      VersionLines.headerFindings p.header = [] ∧ (VersionLines.ofContent p.content).1 = [] := by
  obtain ⟨start, size, same⟩ := h.header
  have isVersion : f.header.isVersionBlock = true := by rw [same]; exact version
  have sameFindings : VersionLines.headerFindings f.header = VersionLines.headerFindings p.header := by rw [same]; rfl
  rw [opening, if_pos isVersion, h.region, sameFindings]
  simp [Findings.none]

theorem Is.opening_data (h : f.Is p rest) (data : p.header.isVersionBlock = false) :
    f.opening options = .none ↔ (Entry.expectsHttp options p.header = true → p.content ≠ [] ∧
      ∃ head, Http.Head.ofContent (max options.httpLimit options.pushbackSize) p.header.declared p.content =
        some head ∧ head.fields.warnings = []) := by
  obtain ⟨start, size, same⟩ := h.header
  have notVersion : ¬ f.header.isVersionBlock = true := by
    rw [same]
    exact Bool.eq_false_iff.1 data
  have expects : Entry.expectsHttp options f.header = Entry.expectsHttp options p.header := by rw [same]; rfl
  have declared : f.header.declared = p.header.declared := by rw [same]; rfl
  rw [opening, if_neg notVersion, expects]
  cases expected : Entry.expectsHttp options p.header with
  | false => simp
  | true =>
    by_cases empty : p.header.declared = 0
    · have none : p.content = [] := List.length_eq_zero_iff.1 (by rw [h.length, declared, empty])
      simp [declared, empty, none, Findings.none]
    · have some : p.content ≠ [] := by
        intro none
        have := h.length
        rw [none, declared] at this
        exact empty this.symm
      have head : f.head options =
          Http.Head.ofContent (max options.httpLimit options.pushbackSize) p.header.declared p.content := by
        rw [Frame.head, h.region, declared, expects, if_pos ⟨expected, empty⟩]
      rw [if_neg (by simp), declared, if_neg empty, head]
      cases Http.Head.ofContent (max options.httpLimit options.pushbackSize) p.header.declared p.content with
      | none => simp [Findings.none]
      | some head => simp [Findings.none, some]

end Frame

namespace Piece

variable {options : Options} {p : Piece} {layout : Layout}

/-- The version lines depend on the content alone. -/
theorem opens_iff : p.Opens layout ↔ p.header.isVersionBlock = true ∧
    VersionLines.headerFindings p.header = [] ∧ (VersionLines.ofContent p.content).1 = [] ∧
    (VersionLines.ofContent p.content).2.layout = layout := by
  have held : (p.cursor 0).Holds Input.Holds p.content :=
    Cursor.holds_create (by decide) ⟨rfl, rfl, by simp [Input.ofBytes]⟩
  obtain ⟨c, taken, -, -⟩ := VersionLines.take_holds Input.steady_holds held
  constructor
  · rintro ⟨version, header, lines, c', found, is⟩
    rw [taken] at found
    obtain ⟨none, same⟩ := Prod.mk.inj found
    cases same
    exact ⟨version, header, none, is⟩
  · rintro ⟨version, header, none, is⟩
    exact ⟨version, header, _, c, by rw [taken, none], is⟩

theorem follows_iff : p.Follows options layout ↔ p.header.isVersionBlock = false ∧ p.header.layout = layout ∧
    (Entry.expectsHttp options p.header = true → p.content ≠ [] ∧
      ∃ head, Http.Head.ofContent (max options.httpLimit options.pushbackSize) p.header.declared p.content =
        some head ∧ head.fields.warnings = []) := by
  have held (pushback : Nat) : (p.cursor pushback).Holds Input.Holds p.content :=
    Cursor.holds_create (by decide) ⟨rfl, rfl, by simp [Input.ofBytes]⟩
  have read (expected : Entry.expectsHttp options p.header = true) :
      ∃ c, Http.Head.read p.header.declared (p.cursor (Entry.contentPushback options p.header)) =
        .ok (Http.Head.ofContent (max options.httpLimit options.pushbackSize) p.header.declared p.content) c := by
    obtain ⟨c, found, -, -⟩ := Http.Head.read_holds Input.steady_holds p.header.declared
      (held (Entry.contentPushback options p.header))
    have size : (p.cursor (Entry.contentPushback options p.header)).pushbackSize =
        max options.httpLimit options.pushbackSize := by
      rw [Entry.contentPushback, if_pos expected]
      rfl
    rw [size] at found
    exact ⟨c, found⟩
  constructor
  · rintro ⟨data, is, http⟩
    refine ⟨data, is, ?_⟩
    intro expected
    obtain ⟨some, head, c, found, none⟩ := http expected
    obtain ⟨c', taken⟩ := read expected
    rw [taken] at found
    have same := (EStateM.Result.ok.inj found).1
    exact ⟨some, head, same, none⟩
  · rintro ⟨data, is, http⟩
    refine ⟨data, is, ?_⟩
    intro expected
    obtain ⟨some, head, found, none⟩ := http expected
    obtain ⟨c, taken⟩ := read expected
    exact ⟨some, head, c, by rw [taken, found], none⟩

end Piece
end ArcFile
