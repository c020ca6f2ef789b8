import ArcFile.Proofs.Archive.Passage
import ArcFile.Proofs.Gzip.Unpacking
/-!
From record to record in gzip members. The scanner goes through the frames that `Frame.packed` finds in the members,
and comes to the end of a member behind each record.
-/
namespace ArcFile

namespace Feed

variable {σ : Type} [Supply σ] {reads : Gzip.Unpacker σ → Bytes → Prop}

/-- The feed is the content of a gzip member. -/
def Member (reads : Gzip.Unpacker σ → Bytes → Prop) (feed : Feed σ) (data : Bytes) : Prop :=
  ∃ unpacker, feed = .member unpacker ∧ reads unpacker data

theorem steady_member (steady : Supply.Steady reads) : Supply.Steady (Member reads) where
  read := by
    rintro _ data n ⟨unpacker, rfl, held⟩
    obtain ⟨got, rest, unpacker', found, cut, only, after⟩ := steady.read n held
    have found : Gzip.Unpacker.read n unpacker = .ok got unpacker' := found
    exact ⟨got, rest, .member unpacker', by simp only [Supply.read, read, found], cut, only, unpacker',
      rfl, after⟩

/-- A feed at the end of its member is an unpacker at the end. -/
theorem spent_member {feed : Feed σ} (steady : Supply.Steady reads)
    (h : Supply.Spent (Member reads) feed) : ∃ unpacker, feed = .member unpacker ∧ Supply.Spent reads unpacker := by
  obtain ⟨_, n, some, ⟨unpacker, rfl, held⟩, found⟩ := h
  obtain ⟨got, rest, unpacker', read, none, -⟩ := steady.read n held
  obtain rfl : got = [] := (List.append_eq_nil_iff.1 none.symm).1
  refine ⟨unpacker', ?_, unpacker, n, some, held, read⟩
  have read : Gzip.Unpacker.read n unpacker = .ok [] unpacker' := read
  simp only [Supply.read, Feed.read, read, EStateM.Result.ok.injEq] at found
  exact found.2.symm

end Feed

namespace Scanner

variable {σ : Type} [Supply σ] {session : Session} {scanner : Scanner σ}

/-- The bytes of the members and what follows them. -/
def bytesOf (members : List (Bytes × Bytes)) (tail : Bytes) : Bytes := (members.map (·.1)).flatten ++ tail

/-- A scanner between two gzip members, the first of which is still to be entered. -/
structure AtMembers (holds : σ → Bytes → Prop) (session : Session) (pos : Nat)
    (members : List (Bytes × Bytes)) (tail : Bytes) (scanner : Scanner σ) : Prop where
  isPacked : session.packing = .gzip
  buffered : 0 < session.options.bufferSize
  same : ∃ memberStart, scanner.session = session.at memberStart
  decodes : ∀ m ∈ members, Gzip.Decodes m.1 m.2
  stream : scanner.source.supply.stream.Holds holds (bytesOf members tail)
  consumed : scanner.source.supply.stream.consumed = pos
  look : Gzip.magic.length ≤ scanner.source.supply.stream.pushbackSize
  capacity : 0 < scanner.source.capacity
  room : 0 < scanner.source.pushbackSize

section Packed

variable {holds : σ → Bytes → Prop} {pos : Nat} {member content tail : Bytes}
  {members : List (Bytes × Bytes)} {found : Findings}

/-- Inside of a member, whose first byte `start` stood at. -/
structure Inside (holds : σ → Bytes → Prop) (start : Cursor σ) (member content after : Bytes)
    (inside : Scanner σ) : Prop where
  source : inside.source.Holds
    (Feed.Member (Gzip.Unpacker.Reads holds start (member ++ after) content after)) content
  consumed : inside.source.consumed = 0
  room : 0 < inside.source.pushbackSize
  look : Gzip.magic.length ≤ start.pushbackSize
  suffix : Gzip.Member.trailer content ++ after <:+ member ++ after

variable (steady : Supply.Steady holds)

include steady

theorem enterMember_inside (h : AtMembers holds session pos ((member, content) :: members) tail scanner) :
    ∃ start inside, scanner.enterMember = .ok true inside ∧
      inside.session = session.at (session.base + pos) ∧ start.consumed = pos ∧
      Inside holds start member content (bytesOf members tail) inside := by
  obtain ⟨memberStart, same⟩ := h.same
  have decodes : Gzip.Decodes member content := h.decodes _ List.mem_cons_self
  have whole : bytesOf ((member, content) :: members) tail = member ++ bytesOf members tail := by
    simp only [bytesOf, List.map_cons, List.flatten_cons, List.append_assoc]
  have stream := h.stream
  rw [whole] at stream
  obtain ⟨start, peeked, held, moved⟩ := Cursor.peek_holds steady h.look stream
  rw [decodes.take_magic] at peeked
  obtain ⟨reads, suffix⟩ := Gzip.Unpacker.create_reads steady decodes held
  refine ⟨start, ⟨session.at (session.base + pos),
    (scanner.restart (.member (.create start))).source⟩, ?_, rfl, ?_, ?_⟩
  · simp only [enterMember, peeked, h.consumed, restart, same]
    rfl
  · rw [moved.consumed, h.consumed, Nat.add_zero]
  · exact ⟨Cursor.holds_create h.capacity ⟨_, rfl, reads⟩, rfl, h.room, by rw [moved.size]; exact h.look,
      suffix⟩

/-- A member that has been read to its end has left the stream behind it. -/
theorem atMembers_of_spent (memberStart : Nat) {start : Cursor σ} {inside : Scanner σ} {source' : Cursor (Feed σ)}
    {n : Nat}
    (isPacked : session.packing = .gzip) (buffered : 0 < session.options.bufferSize)
    (decodes : ∀ m ∈ members, Gzip.Decodes m.1 m.2)
    (is : Inside holds start member content (bytesOf members tail) inside) (consumed : start.consumed = pos)
    (moved : Cursor.Moved n inside.source source')
    (spent : Supply.Spent
      (Feed.Member (Gzip.Unpacker.Reads holds start (member ++ bytesOf members tail) content
        (bytesOf members tail))) source'.supply) :
    AtMembers holds session (pos + member.length) members tail ⟨session.at memberStart, source'⟩ := by
  obtain ⟨u, isMember, atEnd⟩ :=
    Feed.spent_member (Gzip.Unpacker.steady_reads steady is.suffix) spent
  obtain ⟨taken, cut, held, further⟩ := Gzip.Unpacker.reads_spent steady is.suffix atEnd
  obtain rfl : member = taken := List.append_cancel_right cut
  have stream : source'.supply.stream = u.stream := by
    rw [isMember]
    rfl
  refine ⟨isPacked, buffered, ⟨memberStart, rfl⟩, decodes, ?_, ?_, ?_, ?_, ?_⟩
  · rw [stream]
    exact held
  · rw [stream, further.consumed, consumed]
  · rw [stream, further.size]
    exact is.look
  · simp only [moved.capacity]
    exact is.source.capacity
  · simp only [moved.size]
    exact is.room

/-- The record of a frame stands in a member at whose header line `source` has just arrived. At the end of
the member, the scanner stands before the other members. -/
structure Found (holds : σ → Bytes → Prop) (session : Session) (f : Frame) (pos : Nat)
    (members : List (Bytes × Bytes)) (tail : Bytes) (source : Cursor (Feed σ)) (feeds : Feed σ → Bytes → Prop) :
    Prop where
  steady : Supply.Steady feeds
  held : source.Holds feeds f.behind
  room : 0 < source.pushbackSize
  size : f.header.size ≤ source.consumed
  onward : ∀ {after : Session} {n : Nat} {source' : Cursor (Feed σ)} (memberStart : Nat),
    after.packing = .gzip → 0 < after.options.bufferSize → Cursor.Moved n source source' →
    Supply.Spent feeds source'.supply →
    AtMembers holds after pos members tail ⟨after.at memberStart, source'⟩

omit steady in
/-- In a member either the next header line is found or it is looked for behind the member. -/
theorem nextOfMembers_member {inside : Scanner σ} {source : Cursor (Feed σ)} {header : Option RecordHeader}
    {more : Findings} (entered : scanner.enterMember = .ok true inside)
    (read : RecordHeader.next inside.source = .ok (header, more) source) (found : Findings) :
    nextOfMembers found scanner = header.elim (nextOfMembers (found ++ more) { inside with source })
      fun header => .ok (some { header with start := inside.session.memberStart }, found ++ more)
        { inside with source } := by
  rw [nextOfMembers]
  split
  · next other => simp [entered] at other
  · next other => simp [entered] at other
  · next other =>
    simp only [entered, EStateM.Result.ok.injEq] at other
    obtain ⟨-, rfl⟩ := other
    cases header <;> split <;> simp_all

omit steady [Supply σ] in
theorem AtMembers.packing (h : AtMembers holds session pos members tail scanner) :
    scanner.session.packing = .gzip := by
  obtain ⟨memberStart, same⟩ := h.same
  rw [same]
  exact h.isPacked

omit steady [Supply σ] in
theorem AtMembers.position (h : AtMembers holds session pos members tail scanner) :
    scanner.position = session.base + pos := by
  obtain ⟨memberStart, same⟩ := h.same
  simp only [Scanner.position, h.packing, h.consumed]
  rw [same]
  rfl

/-- Members are passed over up to the first that has a header line. -/
theorem nextOfMembers_holds (found : Findings) (h : AtMembers holds session pos members tail scanner) :
    match Frame.packed session.base pos found members with
    | ([], last) => ∃ scanner', nextOfMembers found scanner = nextOfMembers last scanner' ∧
      AtMembers holds session (pos + Frame.membersSize members) [] tail scanner'
    | (f :: more, last) => ∃ memberStart source pos' members' feeds,
      nextOfMembers found scanner = .ok (some f.header, f.found) ⟨session.at memberStart, source⟩ ∧
      Frame.packed session.base pos' .none members' = (more, last) ∧
      f.Within session.base pos members pos' members' ∧ Found holds session f pos' members' tail source feeds := by
  induction members generalizing scanner pos found with
  | nil => exact ⟨scanner, rfl, h⟩
  | cons m members ih =>
    obtain ⟨member, content⟩ := m
    obtain ⟨start, inside, entered, same, consumed, is⟩ := enterMember_inside steady h
    have reads : Supply.Steady (Feed.Member (Gzip.Unpacker.Reads holds start
        (member ++ bytesOf members tail) content (bytesOf members tail))) :=
      Feed.steady_member (Gzip.Unpacker.steady_reads steady is.suffix)
    obtain ⟨source, read, held, moved, spent⟩ := RecordHeader.next_holds reads is.source
    rw [is.consumed] at read held moved spent
    have decodes : ∀ m ∈ members, Gzip.Decodes m.1 m.2 := by
      intro m some
      exact h.decodes m (List.mem_cons_of_mem _ some)
    have sizes : pos + member.length + Frame.membersSize members =
        pos + Frame.membersSize ((member, content) :: members) := by
      rw [Frame.membersSize_cons, Nat.add_assoc]
    rw [Frame.packed]
    rcases first : RecordHeader.first 0 content with ⟨none | header, findings, behind⟩
    · rw [first] at read held moved spent
      dsimp only at read held moved spent ⊢
      have passed : nextOfMembers found scanner =
          nextOfMembers (found ++ findings) ⟨session.at (session.base + pos), source⟩ := by
        rw [nextOfMembers_member entered read, ← same]
        rfl
      have next := ih (found ++ findings) (atMembers_of_spent steady (session.base + pos) h.isPacked
        h.buffered decodes is consumed moved.toMoved (spent rfl))
      rw [passed]
      split at next
      · rwa [sizes] at next
      · obtain ⟨memberStart, source', pos', members', feeds, read', rest, within, there⟩ := next
        exact ⟨memberStart, source', pos', members', feeds, read', rest, within.cons, there⟩
    · rw [first] at read held moved
      dsimp only at read held moved ⊢
      obtain ⟨before, stands⟩ := RecordHeader.first_stands first
      have within := stands.lt
      have behindSize : behind.length = content.length - (before + header.size) := by
        rw [stands.behind, List.length_drop]
      have consumed' := moved.consumed
      rw [is.consumed] at consumed'
      refine ⟨session.base + pos, source, pos + member.length, members, _, ?_, rfl, .first rfl, reads, held,
        by rw [moved.size]; exact is.room, by simp only; omega, ?_⟩
      · rw [nextOfMembers_member entered read, ← same]
        simp only [Option.elim, same]
        rfl
      · intro after n source' memberStart isPacked buffered further spent
        exact atMembers_of_spent steady memberStart isPacked buffered decodes is consumed
          (moved.toMoved.trans further) spent

omit steady in
/-- Behind the last record of gzip members, which take `total` bytes from the base. What is left of them gives no
record, only these findings. -/
def BehindMembers (holds : σ → Bytes → Prop) (last : Findings) (total : Nat) (tail : Bytes) (final : Session)
    (scanner : Scanner σ) : Prop :=
  ∃ scanner', scanner.nextHeader = nextOfMembers last scanner' ∧ AtMembers holds final total [] tail scanner'

omit steady in
theorem AtMembers.nextHeader_eq (h : AtMembers holds session pos members tail scanner) :
    scanner.nextHeader = nextOfMembers .none scanner := by
  simp only [nextHeader, h.packing]

omit steady in
theorem AtMembers.behind (h : AtMembers holds session pos [] tail scanner) :
    BehindMembers holds .none pos tail session scanner := ⟨scanner, h.nextHeader_eq, h⟩

/-- A scanner of gzip members goes through the frames of the members. What follows the members only matters
behind the last frame. -/
theorem packed_gives_at {endOf : Nat → Nat} (located : Frame.Located endOf (session.base + pos) members)
    (h : AtMembers holds session pos members tail scanner) :
    Gives (fun f scanner => scanner.position = endOf f.header.start)
      (BehindMembers holds (Frame.packed session.base pos .none members).2 (pos + Frame.membersSize members) tail)
      session (Frame.packed session.base pos .none members).1 scanner := by
  induction len : members.length using Nat.strongRecOn generalizing session pos members scanner with
  | ind len ih =>
    have gzip : (session.packing == .gzip) = true := by
      rw [h.isPacked]
      rfl
    have next := nextOfMembers_holds steady .none h
    rw [← h.nextHeader_eq] at next
    split at next
    · next last frames =>
      rw [frames]
      exact next
    · next f more last frames =>
      obtain ⟨memberStart, source, pos', members', feeds, read, rest, within, there⟩ := next
      obtain ⟨sameOptions, samePacking, sameBase, -⟩ := session.kept_pass f
      obtain ⟨ends, located'⟩ := within.located endOf located
      rw [frames]
      apply next_opens there.steady h.buffered read there.held there.room there.size
      intro source' past spent
      obtain ⟨taken, -, -, further⟩ := past
      have stands := there.onward memberStart (samePacking.trans h.isPacked)
        (by rw [sameOptions]; exact h.buffered) further (spent gzip)
      constructor
      · change Scanner.position _ = _
        rw [stands.position, sameBase, ends]
      · have later := ih _ (len ▸ within.fewer) (by rwa [sameBase]) stands rfl
        rwa [sameBase, rest, within.size] at later

/-- Where the stream ends between two members, there is no next one. -/
theorem BehindMembers.next_ended {last : Findings} {total : Nat}
    (h : BehindMembers holds last total [] session scanner) :
    ∃ scanner', scanner.next = .ended scanner' ∧ AtMembers holds (session.finish last) total [] [] scanner' := by
  obtain ⟨scanner', onward, h⟩ := h
  obtain ⟨memberStart, same⟩ := h.same
  have stream : scanner'.source.supply.stream.Holds holds [] := h.stream
  obtain ⟨start, peeked, held, moved⟩ := Cursor.peek_holds steady h.look stream
  rw [List.take_nil] at peeked
  have entered : scanner'.enterMember = .ok false (scanner'.restart (.plain start)) := by
    simp only [enterMember, peeked]
    rfl
  have ended : scanner.nextHeader = .ok (none, last) (scanner'.restart (.plain start)) := by
    rw [onward]
    unfold nextOfMembers
    split <;> simp_all
  refine ⟨{ scanner'.restart (.plain start) with session := { scanner'.session with
    findings := scanner'.session.findings ++ last } }, ?_, h.isPacked, h.buffered, ⟨memberStart, ?_⟩, h.decodes,
    held, ?_, ?_, h.capacity, h.room⟩
  · simp only [next, ended]
    rfl
  · simp only [same]
    rfl
  · exact moved.consumed.trans h.consumed
  · simp only [restart, Cursor.create, Feed.stream, moved.size]
    exact h.look

/-- Where something else stands between two members, there is no next one either. -/
theorem BehindMembers.next_notMember {last : Findings} {total : Nat}
    (h : BehindMembers holds last total tail session scanner) (some : tail ≠ []) (other : ¬ Gzip.magic <+: tail) :
    ∃ scanner', scanner.next = .failed (.notMember (session.base + total)) scanner' ∧
      AtMembers holds session total [] tail scanner' := by
  obtain ⟨scanner', onward, h⟩ := h
  obtain ⟨memberStart, same⟩ := h.same
  have stream : scanner'.source.supply.stream.Holds holds tail := h.stream
  obtain ⟨start, peeked, held, moved⟩ := Cursor.peek_holds steady h.look stream
  have nonempty : (tail.take Gzip.magic.length).isEmpty = false := by
    simpa [List.isEmpty_eq_false_iff, Gzip.magic] using some
  have notMagic : tail.take Gzip.magic.length ≠ Gzip.magic := by
    intro isMagic
    exact other (isMagic ▸ List.take_prefix _ _)
  have consumed : start.consumed = total := moved.consumed.trans h.consumed
  have base : scanner'.session.base = session.base := by
    rw [same]
    rfl
  have entered : scanner'.enterMember =
      .error (.notMember (session.base + total)) (scanner'.restart (.plain start)) := by
    simp [enterMember, peeked, nonempty, notMagic, h.consumed, base]
  have failed : scanner.nextHeader =
      .error (.notMember (session.base + total)) (scanner'.restart (.plain start)) := by
    rw [onward]
    unfold nextOfMembers
    split <;> simp_all
  refine ⟨scanner'.restart (.plain start), by simp only [next, failed], h.isPacked, h.buffered,
    ⟨memberStart, same⟩, h.decodes, held, consumed, ?_, h.capacity, h.room⟩
  simp only [restart, Cursor.create, Feed.stream, moved.size]
  exact h.look

theorem packed_gives (h : AtMembers holds session pos members tail scanner) :
    Gives (fun _ _ => True)
      (fun final scanner => tail = [] →
        Ends (Frame.packed session.base pos .none members).2 final scanner)
      session (Frame.packed session.base pos .none members).1 scanner := by
  have nonempty : ∀ m ∈ members, m.1 ≠ [] := by
    intro m some
    exact (h.decodes m some).ne_nil
  obtain ⟨endOf, located⟩ := Frame.exists_located (session.base + pos) nonempty
  refine (packed_gives_at steady located h).mono (fun _ _ _ => trivial) ?_
  rintro final scanner behind rfl
  obtain ⟨scanner', next, stands⟩ := behind.next_ended steady
  obtain ⟨memberStart, same⟩ := stands.same
  exact ⟨scanner', memberStart, next, same⟩

end Packed

omit [Supply σ] in
theorem ofStream_atMembers {holds : σ → Bytes → Prop} {tail : Bytes} {members : List (Bytes × Bytes)}
    {options : Options} {stream : Cursor σ} {input : σ} (base : Nat) (buffered : 0 < options.bufferSize)
    (decodes : ∀ m ∈ members, Gzip.Decodes m.1 m.2) (held : stream.Holds holds (bytesOf members tail))
    (still : Cursor.Moved 0 (streamOf input) stream) :
    AtMembers holds (ofStream .gzip base options stream).session 0 members tail
      (ofStream .gzip base options stream) := by
  have look : Gzip.magic.length ≤ Packing.lookAhead := by decide
  refine ⟨rfl, buffered, ⟨base, rfl⟩, decodes, held, still.consumed, ?_, buffered, options.pushbackSize_pos⟩
  change _ ≤ stream.pushbackSize
  rw [still.size]
  exact look

end Scanner
end ArcFile
