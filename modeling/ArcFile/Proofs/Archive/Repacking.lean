import ArcFile.Proofs.Archive.Format
import ArcFile.Proofs.Archive.Survey
import ArcFile.Proofs.Archive.Tour
import ArcFile.Proofs.Record.Fields
/-!
Packed and plain files. Records that follow each other without anything in between read the same whether each is in a
gzip member of its own or not, although the end of a member is found in another way than that of a record in
plain data.
-/
namespace ArcFile

/-- A header line, content and line ends. -/
structure Segment where
  line : Bytes
  content : Bytes
  lineEnds : Bytes

namespace Segment

def bytes (s : Segment) : Bytes := s.line ++ Bytes.lineFeed :: (s.content ++ s.lineEnds)

/-- The text of the header line. A carriage return behind it is part of the end of the line. -/
def text (s : Segment) : String := RecordHeader.textOf (Bytes.dropReturn s.line)

/-- The gzip members, with the segments as their contents. -/
def members (parts : List (Bytes × Segment)) : List (Bytes × Bytes) := parts.map fun part => (part.1, part.2.bytes)

/-- The line has as many fields as a header line, whatever they say, and declares just the content. -/
structure Sound (s : Segment) : Prop where
  noFeed : Bytes.lineFeed ∉ s.line
  noReturn : s.line.head? ≠ some Bytes.carriageReturn
  fields : (RecordHeader.parts s.text).length = 5 ∨ (RecordHeader.parts s.text).length = 10
  declares : ∀ header errors, RecordHeader.parse? s.text = some (header, errors) →
    header.declared = s.content.length
  lineEnds : ∀ b ∈ s.lineEnds, b = Bytes.lineFeed ∨ b = Bytes.carriageReturn

variable {s : Segment}

theorem Sound.isLine (h : s.Sound) (start size : Nat) :
    (RecordHeader.ofLine? (Bytes.dropReturn s.line) start size).isSome = true := by
  rw [RecordHeader.isSome_ofLine?_eq, RecordHeader.isSome_parse?]
  exact h.fields

/-- Wherever a segment stands, its record is found at once, and is the same. -/
theorem Sound.first (h : s.Sound) : ∃ (header : RecordHeader) (findings : Findings), ∀ pos rest,
    Bytes.IsClear rest → ∃ behind,
      RecordHeader.first pos (s.bytes ++ rest) = (some { header with start := pos }, findings, behind) ∧
      ∀ start found, Frame.Spans s.content s.lineEnds rest ⟨{ header with start }, found, behind⟩ := by
  obtain ⟨⟨header, findings⟩, read⟩ := Option.isSome_iff_exists.1 (h.isLine 0 (s.line.length + 1))
  refine ⟨header, findings, ?_⟩
  intro pos rest clear
  have cut : s.bytes ++ rest = s.line ++ Bytes.lineFeed :: (s.content ++ s.lineEnds ++ rest) := by simp [bytes]
  refine ⟨s.content ++ s.lineEnds ++ rest, cut ▸ RecordHeader.first_terminated h.noFeed read pos _, ?_⟩
  intro start found
  obtain ⟨header', errors, parsed, same, -⟩ := RecordHeader.parse?_of_ofLine? read
  refine ⟨rfl, ?_, ?_, clear⟩
  · rw [same]
    exact (h.declares header' errors parsed).symm
  intro b among
  rcases h.lineEnds b among with rfl | rfl <;> decide

/-- Segments do not begin with a line end. -/
theorem isClear_flatten {segments : List Segment} (sound : ∀ s ∈ segments, s.Sound) :
    Bytes.IsClear (segments.map bytes).flatten := by
  cases segments with
  | nil =>
    intro b first
    cases first
  | cons s more =>
    have h := sound s List.mem_cons_self
    have nonempty : s.line ≠ [] := by
      intro none
      have isLine := h.isLine 0 0
      rw [none, show Bytes.dropReturn [] = [] from rfl, RecordHeader.ofLine?_nil] at isLine
      cases isLine
    rw [List.map_cons, List.flatten_cons, bytes, List.append_assoc]
    exact Bytes.isClear_of_line nonempty h.noFeed h.noReturn _

end Segment

namespace Frame

/-- A record with line ends behind it is the same in plain data and alone in a gzip member. -/
theorem Spans.same {content lineEnds rest : Bytes} {f f' : Frame} (h : f.Spans content lineEnds rest)
    (h' : f'.Spans content lineEnds []) (header : f'.header = { f.header with start := f'.header.start })
    (found : f'.found = f.found) : f.Same false true f' := by
  refine ⟨⟨header, ?_, ?_, ?_, ?_⟩, found⟩
  · rw [h.region, h'.region]
  · rw [h.trailing, h'.trailing]
  · simp [Frame.extra, h'.rest_eq]
  · have size : f'.header.size = f.header.size := by rw [header]
    have left : f.left false = rest := h.rest_eq
    have left' : f'.left true = [] := rfl
    rw [Frame.extent, Frame.extent, left, left', size, h.behind, h'.behind]
    simp only [List.length_append, List.length_nil]
    omega

/-- Packed or plain, the frames of segments are the same, and nothing is found behind the last of them. -/
theorem plain_same_packed (base pos pos' : Nat) {parts : List (Bytes × Segment)}
    (sound : ∀ part ∈ parts, part.2.Sound) :
    let plain := Frame.plain base pos (parts.map (·.2.bytes)).flatten
    let packed := Frame.packed base pos' .none (Segment.members parts)
    List.Forall₂ (Same false true) plain.1 packed.1 ∧ plain.1.length = parts.length ∧ plain.2 = .none ∧
      packed.2 = .none := by
  induction parts generalizing pos pos' with
  | nil =>
    dsimp only
    rw [List.map_nil, List.flatten_nil, plain_none (RecordHeader.first_nil pos)]
    exact ⟨.nil, rfl, rfl, rfl⟩
  | cons part more ih =>
    obtain ⟨member, s⟩ := part
    have h : s.Sound := sound _ List.mem_cons_self
    have others : ∀ part ∈ more, part.2.Sound := by
      intro part among
      exact sound part (List.mem_cons_of_mem _ among)
    have clear : Bytes.IsClear (more.map (·.2.bytes)).flatten := by
      have segments : ∀ s ∈ more.map (·.2), s.Sound := by
        intro s among
        obtain ⟨part, is, rfl⟩ := List.mem_map.1 among
        exact others part is
      have clear := Segment.isClear_flatten segments
      rwa [List.map_map] at clear
    obtain ⟨header, findings, found⟩ := h.first
    obtain ⟨behind, first, spans⟩ := found pos _ clear
    obtain ⟨behind', first', spans'⟩ := found 0 [] (fun b first => by cases first)
    rw [List.append_nil] at first'
    obtain ⟨f, is, rfl, rfl⟩ := exists_of_found base { header with start := pos } findings behind
    have here : f = ⟨{ header with start := base + pos }, f.found, f.behind⟩ := by rw [← is]
    have spans : f.Spans s.content s.lineEnds (more.map (·.2.bytes)).flatten := by
      rw [here]
      exact spans (base + pos) f.found
    have same : f.Same false true ⟨{ header with start := base + pos' }, f.found, behind'⟩ :=
      spans.same (spans' (base + pos') f.found) (by rw [is]) rfl
    obtain ⟨frames, length, last, last'⟩ := ih (pos + ((s.bytes ++ (more.map (·.2.bytes)).flatten).length -
      (more.map (·.2.bytes)).flatten.length)) (pos' + member.length) others
    have packed : Frame.packed base pos' .none (Segment.members ((member, s) :: more)) =
        (⟨{ header with start := base + pos' }, f.found, behind'⟩ ::
          (Frame.packed base (pos' + member.length) .none (Segment.members more)).1,
          (Frame.packed base (pos' + member.length) .none (Segment.members more)).2) := by
      rw [Segment.members, List.map_cons, Frame.packed, first']
      simp only [Findings.none_append]
      rfl
    dsimp only
    rw [List.map_cons, List.flatten_cons, plain_some first is, spans.rest_eq, packed]
    exact ⟨.cons same frames, congrArg (· + 1) length, last, last'⟩

end Frame

/-- The account without the place of the record. -/
def Account.unplaced (account : Account) : Account :=
  { account with header := { account.header with start := 0 }, position := 0 }

namespace Scanner

theorem Session.Alike.accounts_unplaced {isMember isMember' : Bool} {session session' : Session}
    {frames frames' : List Frame} (h : session.Alike isMember isMember' session')
    (same : List.Forall₂ (Frame.Same isMember isMember') frames frames') (endOf endOf' : Frame → Nat) :
    (session'.accounts endOf' frames').map Account.unplaced = (session.accounts endOf frames).map Account.unplaced := by
  induction same generalizing session session' with
  | nil => rfl
  | @cons f f' _ _ first _ ih =>
    have unplaced : (session'.account (endOf' f') f').unplaced = (session.account (endOf f) f).unplaced := by
      rw [h.account first (endOf f) (endOf' f'), first.1.header]
      rfl
    rw [Session.accounts, Session.accounts, List.map_cons, List.map_cons, unplaced, ih (h.pass first)]

variable {σ τ : Type} [Supply σ] [Supply τ] {input : σ} {input' : τ} {options : Options}

/-- Whether each of some segments is packed in a gzip member or they stand in plain data, a survey takes down the same
of their records but for the places where these are, and the same of the file. -/
theorem survey_repacked {parts : List (Bytes × Segment)} (sound : ∀ part ∈ parts, part.2.Sound)
    (decodes : ∀ part ∈ parts, Gzip.Decodes part.1 part.2.bytes)
    (yields : Supply.Yields input (parts.map (·.1)).flatten)
    (yields' : Supply.Yields input' (parts.map (·.2.bytes)).flatten) (buffered : 0 < options.bufferSize) (base : Nat)
    {stride stride' : Nat} (pos : 0 < stride) (pos' : 0 < stride') :
    let packed := survey stride (create .gzip base options input)
    let plain := survey stride' (create .plain base options input')
    packed.records.length = parts.length ∧
      packed.records.map Account.unplaced = plain.records.map Account.unplaced ∧
      packed.tally = plain.tally ∧ packed.findings = plain.findings ∧
      packed.ending = .ended ∧ plain.ending = .ended := by
  intro packed plain
  obtain ⟨holds, steady, held⟩ := yields
  obtain ⟨holds', steady', held'⟩ := yields'
  have decodes : ∀ m ∈ Segment.members parts, Gzip.Decodes m.1 m.2 := by
    intro m among
    obtain ⟨part, is, rfl⟩ := List.mem_map.1 among
    exact decodes part is
  have whole : (parts.map (·.1)).flatten = bytesOf (Segment.members parts) [] := by
    rw [bytesOf, List.append_nil, Segment.members, List.map_map]
    rfl
  rw [whole] at held
  obtain ⟨endOf, located⟩ := Frame.exists_located (base + 0) fun m is => (decodes m is).ne_nil
  have made : packed = _ :=
    survey_packed steady pos located (by decide) (create_atMembers base buffered decodes held)
  have made' : plain = _ := survey_plain steady' pos' (create_atPlain base buffered held')
  obtain ⟨same, length, last, last'⟩ := Frame.plain_same_packed base 0 0 sound
  have alike : (create .plain base options input').session.Alike false true (create .gzip base options input).session :=
    ⟨rfl, rfl, .refl options, rfl, rfl, rfl, rfl, rfl, rfl⟩
  have tally := (alike.passAll same).tally
  have records := alike.accounts_unplaced same (fun f => f.header.start + f.extent false)
    (fun f => endOf f.header.start)
  have base' : (create .plain base options input').session.base = base := rfl
  have base'' : (create .gzip base options input).session.base = base := rfl
  rw [base''] at made
  rw [base'] at made'
  rw [made, made']
  dsimp only
  refine ⟨?_, records, tally, ?_, rfl, rfl⟩
  · rw [Session.length_accounts, ← same.length_eq, length]
  · rw [last, last']
    rfl

/-- Two records, the first with an empty line behind it and a field that is wrong. -/
def twoSegments : List (Bytes × Segment) :=
  [⟨Bytes.ofString "http://a/ x 20200101000000 text/html 2\r", Bytes.ofString "hi", Bytes.ofString "\n\r\n"⟩,
    ⟨Bytes.ofString "http://b/ 1.1.1.1 20200101000000 text/html 1", Bytes.ofString "x", []⟩].map
    fun s => (Gzip.pack s.bytes, s)

theorem survey_repacked_twoSegments : (∀ part ∈ twoSegments, part.2.Sound) ∧
    (survey 8192 (create .gzip 0 .default
      (Input.ofBytes (twoSegments.map (·.1)).flatten))).records.length = 2 := by
  have sound : ∀ part ∈ twoSegments, part.2.Sound := by
    have lines : ∀ part ∈ twoSegments, Bytes.lineFeed ∉ part.2.line ∧
        part.2.line.head? ≠ some Bytes.carriageReturn ∧
        ((RecordHeader.parts part.2.text).length = 5 ∨ (RecordHeader.parts part.2.text).length = 10) ∧
        (RecordHeader.parse? part.2.text).map (·.1.declared) = some part.2.content.length ∧
        ∀ b ∈ part.2.lineEnds, b = Bytes.lineFeed ∨ b = Bytes.carriageReturn := by
      decide +kernel
    intro part among
    obtain ⟨noFeed, noReturn, fields, declared, lineEnds⟩ := lines part among
    refine ⟨noFeed, noReturn, fields, ?_, lineEnds⟩
    intro header errors parsed
    rw [parsed] at declared
    exact Option.some.inj declared
  refine ⟨sound, ?_⟩
  refine (survey_repacked sound ?_ (Input.yields_ofBytes _) (Input.yields_ofBytes _) (by decide) 0 (by decide)
    (by decide : 0 < 8192)).1
  intro part among
  obtain ⟨s, -, rfl⟩ := List.mem_map.1 among
  exact Gzip.decodes_pack s.bytes

end Scanner
end ArcFile
