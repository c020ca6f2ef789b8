import ArcFile.Proofs.Archive.Passage
/-!
From record to record in plain data. The scanner goes through the frames that `Frame.plain` finds in the bytes.
-/
namespace ArcFile

namespace Feed

variable {σ : Type} [Supply σ] {holds : σ → Bytes → Prop} {data : Bytes}

/-- The feed is plain, and its stream holds `data`. -/
def Plain (holds : σ → Bytes → Prop) (feed : Feed σ) (data : Bytes) : Prop :=
  ∃ stream, feed = .plain stream ∧ stream.Holds holds data

theorem steady_plain (steady : Supply.Steady holds) : Supply.Steady (Plain holds) where
  read := by
    rintro _ data n ⟨stream, rfl, held⟩
    obtain ⟨got, rest, stream', found, cut, only, after⟩ := (Cursor.steady_holds steady).read n held
    have found : Cursor.read n stream = .ok got stream' := found
    exact ⟨got, rest, .plain stream', by simp only [Supply.read, read, found], cut, only, stream', rfl,
      after⟩

end Feed

namespace Scanner

variable {σ : Type} [Supply σ] {session : Session} {scanner : Scanner σ}

/-- A scanner between two records of plain data. -/
structure AtPlain (holds : σ → Bytes → Prop) (session : Session) (pos : Nat) (data : Bytes)
    (scanner : Scanner σ) : Prop where
  isPlain : session.packing = .plain
  buffered : 0 < session.options.bufferSize
  same : ∃ memberStart, scanner.session = session.at memberStart
  source : scanner.source.Holds (Feed.Plain holds) data
  consumed : scanner.source.consumed = pos
  room : 0 < scanner.source.pushbackSize

variable {holds : σ → Bytes → Prop} {pos : Nat} {data : Bytes}

omit [Supply σ] in
theorem AtPlain.packing (h : AtPlain holds session pos data scanner) : scanner.session.packing = .plain := by
  obtain ⟨memberStart, same⟩ := h.same
  rw [same]
  exact h.isPlain

omit [Supply σ] in
theorem AtPlain.position (h : AtPlain holds session pos data scanner) : scanner.position = session.base + pos := by
  obtain ⟨memberStart, same⟩ := h.same
  simp only [Scanner.position, h.packing, h.consumed]
  rw [same]
  rfl

/-- The next header line is the first one in the data. -/
theorem AtPlain.nextHeader_holds (steady : Supply.Steady holds) (h : AtPlain holds session pos data scanner) :
    ∃ source, scanner.nextHeader = .ok ((RecordHeader.first pos data).1.map fun header =>
        { header with start := session.base + header.start }, (RecordHeader.first pos data).2.1)
        { scanner with source } ∧
      source.Holds (Feed.Plain holds) (RecordHeader.first pos data).2.2 ∧
      source.consumed = pos + (data.length - (RecordHeader.first pos data).2.2.length) ∧
      0 < source.pushbackSize := by
  obtain ⟨source, found, held, moved, -⟩ := RecordHeader.next_holds (Feed.steady_plain steady) h.source
  have consumed := moved.consumed
  rw [h.consumed] at found held consumed
  refine ⟨source, ?_, held, consumed, moved.size ▸ h.room⟩
  obtain ⟨memberStart, same⟩ := h.same
  have base : scanner.session.base = session.base := by
    rw [same]
    rfl
  simp only [nextHeader, h.packing, found]
  cases (RecordHeader.first pos data).1 with
  | none => rfl
  | some header => simp only [base, Option.map_some]

/-- Behind the last record of plain data, which goes on for `total` bytes from the base. What is left gives no record,
only these findings. -/
def BehindPlain (holds : σ → Bytes → Prop) (last : Findings) (total : Nat) (final : Session) (scanner : Scanner σ) :
    Prop :=
  ∃ pos data, AtPlain holds final pos data scanner ∧ Frame.plain final.base pos data = ([], last) ∧
    pos + data.length = total

/-- A scanner of plain data goes through the frames of the data. -/
theorem plain_gives_at (steady : Supply.Steady holds) (h : AtPlain holds session pos data scanner) :
    Gives (fun f scanner => scanner.position = f.header.start + f.extent false)
      (BehindPlain holds (Frame.plain session.base pos data).2 (pos + data.length))
      session (Frame.plain session.base pos data).1 scanner := by
  induction len : data.length using Nat.strongRecOn generalizing session pos data scanner with
  | ind size ih =>
    subst len
    obtain ⟨source, read, held, consumed, room⟩ := h.nextHeader_holds steady
    rcases first : RecordHeader.first pos data with ⟨none | header, findings, behind⟩
    · rw [Frame.plain_none first]
      exact ⟨pos, data, h, Frame.plain_none first, rfl⟩
    · obtain ⟨before, stands⟩ := RecordHeader.first_stands first
      obtain ⟨f, is, rfl, rfl⟩ := Frame.exists_of_found session.base header findings behind
      have isSize : f.header.size = header.size := by rw [is]
      have start : f.header.start = session.base + (pos + before) := by rw [is, stands.start]
      obtain ⟨extent, fewer⟩ := Frame.extent_of_stands stands isSize
      obtain ⟨memberStart, same⟩ := h.same
      rw [first] at read held consumed
      rw [Option.map_some, ← is, same] at read
      have within := stands.lt
      have behind : f.behind.length = data.length - (before + header.size) := by
        rw [stands.behind, List.length_drop]
      have consumed : source.consumed = pos + (data.length - f.behind.length) := consumed
      rw [Frame.plain_some first is]
      obtain ⟨sameOptions, samePacking, sameBase, -⟩ := session.kept_pass f
      apply next_opens (Feed.steady_plain steady) h.buffered read held room (by omega)
      intro source' past _
      have plain : (session.packing == .gzip) = false := by
        rw [h.isPlain]
        rfl
      rw [plain] at past
      obtain ⟨taken, cut, left, moved⟩ := past
      have size := congrArg List.length cut
      rw [List.length_append] at size
      change _ = _ + f.rest.length at size
      have consumed' := moved.consumed
      have stands : AtPlain holds (session.pass f) (pos + (data.length - f.rest.length)) f.rest
          ⟨(session.pass f).at memberStart, source'⟩ :=
        ⟨samePacking.trans h.isPlain, by rw [sameOptions]; exact h.buffered, ⟨memberStart, rfl⟩, left,
          by simp only; omega, by rw [moved.size]; exact room⟩
      constructor
      · change Scanner.position _ = _
        rw [stands.position, sameBase]
        omega
      · have later := ih _ fewer stands rfl
        rwa [sameBase, Nat.add_assoc, Nat.sub_add_cancel (Nat.le_of_lt fewer)] at later

/-- Behind the last record the file ends. -/
theorem BehindPlain.next_ended (steady : Supply.Steady holds) {last : Findings} {total : Nat}
    (h : BehindPlain holds last total session scanner) :
    ∃ scanner', scanner.next = .ended scanner' ∧ AtPlain holds (session.finish last) total [] scanner' := by
  obtain ⟨pos, data, h, nothing, rfl⟩ := h
  obtain ⟨source, ended, held, consumed, room⟩ := h.nextHeader_holds steady
  rw [Frame.first_of_plain_nil nothing] at ended held consumed
  obtain ⟨memberStart, same⟩ := h.same
  refine ⟨{ scanner with source, session := { scanner.session with
    findings := scanner.session.findings ++ last } }, by simp only [next, ended, Option.map_none], h.isPlain,
    h.buffered, ⟨memberStart, ?_⟩, held, by simpa using consumed, room⟩
  simp only [same]
  rfl

theorem plain_gives (steady : Supply.Steady holds) (h : AtPlain holds session pos data scanner) :
    Gives (fun f scanner => scanner.position = f.header.start + f.extent false)
      (Ends (Frame.plain session.base pos data).2) session (Frame.plain session.base pos data).1 scanner := by
  refine (plain_gives_at steady h).mono (fun _ _ => id) ?_
  intro final scanner behind
  obtain ⟨scanner', next, stands⟩ := behind.next_ended steady
  obtain ⟨memberStart, same⟩ := stands.same
  exact ⟨scanner', memberStart, next, same⟩

omit [Supply σ] in
theorem ofStream_atPlain {options : Options} {stream : Cursor σ} (base : Nat) (buffered : 0 < options.bufferSize)
    (held : stream.Holds holds data) :
    AtPlain holds (ofStream .plain base options stream).session 0 data (ofStream .plain base options stream) :=
  ⟨rfl, buffered, ⟨base, rfl⟩, Cursor.holds_create buffered ⟨stream, rfl, held⟩, rfl, options.pushbackSize_pos⟩

end Scanner
end ArcFile
