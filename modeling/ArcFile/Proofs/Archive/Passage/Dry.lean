import ArcFile.Proofs.Archive.Passage.Packed
/-!
Reading a file without a buffer. A cursor that may not read ahead finds nothing, not even a line, so that no record is
ever found: plain data ends at once. Of packed data, members are entered one after the other, each where the header of
the one before ends, until what follows is not a member or there is nothing more.
-/
namespace ArcFile

namespace Cursor

variable {σ : Type}

/-- The cursor gives nothing: nothing is at hand, and it may not read ahead. -/
structure Dry (c : Cursor σ) : Prop where
  capacity : c.capacity = 0
  buffer : c.buffer = []
  pushback : c.pushback.bytes = []

theorem dry_create (supply : σ) (size : Nat) : (create supply 0 size).Dry := ⟨rfl, rfl, rfl⟩

variable [Supply σ]

theorem fill_dry {c : Cursor σ} (h : c.Dry) : fill c = .ok [] c := by
  simp [fill, h.capacity, h.buffer, h.pushback]

theorem readLine_dry {c : Cursor σ} (h : c.Dry) : readLine c = .ok none c := by
  have taken : takeLine none c = .ok none c := by
    unfold takeLine
    split
    · next other => simp [fill_dry h] at other
    · next other =>
      rw [fill_dry h] at other
      cases other
      rfl
    · next other => simp [fill_dry h] at other
  simp only [readLine, taken, Option.map_none]

variable {holds : σ → Bytes → Prop}

omit [Supply σ] in
/-- `c'` is what `c` has become. If `c` gives something, so does `c'`, and as much of it can be pushed back. -/
def Stays (holds : σ → Bytes → Prop) (c c' : Cursor σ) : Prop :=
  ∀ data, c.Holds holds data → ∃ rest, c'.Holds holds rest ∧ c'.pushbackSize = c.pushbackSize

theorem tracks_stays (steady : Supply.Steady holds) : Tracks (Stays holds) where
  refl _ data held := ⟨data, held, rfl⟩
  trans first second := by
    intro data held
    obtain ⟨between, held, size⟩ := first data held
    obtain ⟨rest, held, size'⟩ := second between held
    exact ⟨rest, held, size'.trans size⟩
  read n := by
    intro c data held
    obtain ⟨c', found, held', moved⟩ := readUpTo_holds steady n [] held
    rw [found]
    exact ⟨_, held', moved.size⟩

end Cursor

namespace Gzip.Unpacker

variable {σ : Type} [Supply σ] {holds : σ → Bytes → Prop}

theorem create_stays (steady : Supply.Steady holds) {c : Cursor σ} {data : Bytes} (held : c.Holds holds data) :
    ∃ rest, (create c).stream.Holds holds rest ∧ (create c).stream.pushbackSize = c.pushbackSize := by
  have after := Member.along_takeHeader (Cursor.tracks_stays steady) c data held
  unfold create
  split
  · next found =>
    rw [found] at after
    exact after
  · next found =>
    rw [found] at after
    exact after

end Gzip.Unpacker

theorem RecordHeader.next_dry {σ : Type} [Supply σ] {c : Cursor σ} (h : c.Dry) : next c = .ok (none, .none) c := by
  have searched : search .nothing c = .ok (.nothing, none) c := by
    unfold search
    split
    · next other => simp [Cursor.readLine_dry h] at other
    · next other =>
      rw [Cursor.readLine_dry h] at other
      cases other
      rfl
    · next other => simp [Cursor.readLine_dry h] at other
  simp only [next, searched]
  rfl

namespace Scanner

variable {σ : Type} [Supply σ]

omit [Supply σ] in
/-- A scanner between two records that reads nothing ahead. -/
structure AtDry (holds : σ → Bytes → Prop) (packing : Packing) (data : Bytes) (scanner : Scanner σ) : Prop where
  packing : scanner.session.packing = packing
  dry : scanner.source.Dry
  stream : scanner.source.supply.stream.Holds holds data
  look : Gzip.magic.length ≤ scanner.source.supply.stream.pushbackSize

variable {holds : σ → Bytes → Prop} {packing : Packing} {data : Bytes} {scanner : Scanner σ}

omit [Supply σ] in
theorem ofStream_atDry {options : Options} {stream : Cursor σ} {input : σ} (packing : Packing) (base : Nat)
    (unbuffered : options.bufferSize = 0) (held : stream.Holds holds data)
    (still : Cursor.Moved 0 (streamOf input) stream) :
    AtDry holds packing data (ofStream packing base options stream) := by
  have look : Gzip.magic.length ≤ Packing.lookAhead := by decide
  refine ⟨rfl, ?_, held, ?_⟩
  · simp only [ofStream, unbuffered]
    exact Cursor.dry_create _ _
  · change _ ≤ stream.pushbackSize
    rw [still.size]
    exact look

omit [Supply σ] in
/-- Without reading ahead, the scanner starts again over any feed. -/
theorem AtDry.restart {feed : Feed σ} {rest : Bytes} (h : AtDry holds packing data scanner)
    (held : feed.stream.Holds holds rest)
    (size : feed.stream.pushbackSize = scanner.source.supply.stream.pushbackSize) :
    AtDry holds packing rest (scanner.restart feed) := by
  refine ⟨h.packing, ?_, held, ?_⟩
  · simp only [Scanner.restart, h.dry.capacity]
    exact Cursor.dry_create _ _
  · exact size ▸ h.look

/-- Plain data ends at once. -/
theorem AtDry.next_plain (h : AtDry holds .plain data scanner) : scanner.next = .ended scanner := by
  have ended : scanner.nextHeader = .ok (none, .none) scanner := by
    simp only [nextHeader, h.packing, RecordHeader.next_dry h.dry]
  simp only [next, ended, Findings.append_none]

omit [Supply σ] in
/-- What can come of entering the next member. -/
inductive AtDry.Enters (holds : σ → Bytes → Prop) (packing : Packing) (data : Bytes) :
    EStateM.Result Failure (Scanner σ) Bool → Prop where
  | ended {scanner : Scanner σ} (none : data = []) (after : AtDry holds packing [] scanner) :
    Enters holds packing data (.ok false scanner)
  | failed {failure : Failure} {scanner : Scanner σ} (some : data ≠ []) (after : AtDry holds packing data scanner) :
    Enters holds packing data (.error failure scanner)
  | inside {rest : Bytes} {scanner : Scanner σ} (some : data ≠ []) (after : AtDry holds packing rest scanner) :
    Enters holds packing data (.ok true scanner)

omit [Supply σ] in
/-- What can come of looking for a header line: none is found, be it at the end or before something else. -/
inductive AtDry.Finds (holds : σ → Bytes → Prop) (packing : Packing) (data : Bytes) (found : Findings) :
    EStateM.Result Failure (Scanner σ) (Option RecordHeader × Findings) → Prop where
  | ended {scanner : Scanner σ} (after : AtDry holds packing [] scanner) :
    Finds holds packing data found (.ok (none, found) scanner)
  | failed {failure : Failure} {rest : Bytes} {scanner : Scanner σ} (some : data ≠ [])
    (after : AtDry holds packing rest scanner) : Finds holds packing data found (.error failure scanner)

omit [Supply σ] in
theorem AtDry.Finds.behind {rest : Bytes} {found : Findings}
    {result : EStateM.Result Failure (Scanner σ) (Option RecordHeader × Findings)}
    (h : Finds holds packing rest found result) (some : data ≠ []) : Finds holds packing data found result := by
  cases h with
  | ended after => exact .ended after
  | failed _ after => exact .failed some after

variable (steady : Supply.Steady holds)

include steady

theorem AtDry.enterMember_dry (h : AtDry holds packing data scanner) :
    Enters holds packing data scanner.enterMember := by
  obtain ⟨start, peeked, held, moved⟩ := Cursor.peek_holds steady h.look h.stream
  have outside : AtDry holds packing data (scanner.restart (.plain start)) := h.restart held moved.size
  obtain ⟨rest, held', size⟩ := Gzip.Unpacker.create_stays steady held
  have inside : AtDry holds packing rest (scanner.restart (.member (.create start))) :=
    h.restart held' (size.trans moved.size)
  unfold enterMember
  simp only [peeked]
  by_cases none : data = []
  · subst none
    exact .ended rfl outside
  · have nonempty : ¬ (data.take Gzip.magic.length).isEmpty = true := by simpa [Gzip.magic] using none
    rw [if_neg nonempty]
    split
    · exact .failed none outside
    · exact .inside none ⟨inside.packing, inside.dry, inside.stream, inside.look⟩

/-- No record is found. At the end of the data there is an end, and nothing else. -/
theorem AtDry.nextOfMembers_dry (found : Findings) (h : AtDry holds packing data scanner) :
    Finds holds packing data found (nextOfMembers found scanner) := by
  fun_induction nextOfMembers found scanner generalizing data with
  | case1 _ scanner failure scanner' entered =>
    have enters := h.enterMember_dry steady
    rw [entered] at enters
    cases enters with
    | failed some after => exact .failed some after
  | case2 _ scanner scanner' entered =>
    have enters := h.enterMember_dry steady
    rw [entered] at enters
    cases enters with
    | ended none after => exact .ended after
  | case3 _ scanner inside entered _ _ read =>
    have enters := h.enterMember_dry steady
    rw [entered] at enters
    cases enters with
    | inside some after =>
      rw [RecordHeader.next_dry after.dry] at read
      cases read
  | case4 _ scanner inside entered _ _ _ read =>
    have enters := h.enterMember_dry steady
    rw [entered] at enters
    cases enters with
    | inside some after =>
      rw [RecordHeader.next_dry after.dry] at read
      cases read
  | case5 found scanner inside entered _ source read _ ih =>
    have enters := h.enterMember_dry steady
    rw [entered] at enters
    cases enters with
    | @inside rest _ some after =>
      rw [RecordHeader.next_dry after.dry] at read
      cases read
      rw [Findings.append_none] at ih ⊢
      exact (ih after).behind some

/-- Where something else than a member begins, there is a failure. -/
theorem AtDry.enterMember_other (h : AtDry holds packing data scanner) (some : data ≠ [])
    (other : ¬ Gzip.magic <+: data) : ∃ failure scanner', scanner.enterMember = .error failure scanner' := by
  obtain ⟨start, peeked, -, -⟩ := Cursor.peek_holds steady h.look h.stream
  have nonempty : ¬ (data.take Gzip.magic.length).isEmpty = true := by simpa [Gzip.magic] using some
  have notMagic : data.take Gzip.magic.length ≠ Gzip.magic := by
    intro isMagic
    exact other (isMagic ▸ List.take_prefix _ _)
  unfold enterMember
  simp only [peeked, if_neg nonempty, if_pos notMagic]
  exact ⟨_, _, rfl⟩

/-- Of a member only the header is read, and no other member begins behind it. -/
theorem AtDry.enterMember_member {member content after : Bytes} (h : AtDry holds packing (member ++ after) scanner)
    (decodes : Gzip.Decodes member content) : ∃ inside rest, scanner.enterMember = .ok true inside ∧
      AtDry holds packing rest inside ∧ rest ≠ [] ∧ ¬ Gzip.magic <+: rest := by
  obtain ⟨start, peeked, held, moved⟩ := Cursor.peek_holds steady h.look h.stream
  rw [decodes.take_magic] at peeked
  obtain ⟨header, data, isHeader, inflates, rfl⟩ := decodes
  rw [List.append_assoc, List.append_assoc] at held
  obtain ⟨stream, took, held, further⟩ := Gzip.Member.takes_header steady isHeader start _ held
  have unpacker : (Feed.member (.create start)).stream = stream := by
    simp only [Feed.stream, Gzip.Unpacker.create, took]
  have inside : AtDry holds packing (data ++ (Gzip.Member.trailer content ++ after))
      (scanner.restart (.member (.create start))) := by
    apply h.restart
    · rwa [unpacker]
    · rw [unpacker, further.size, moved.size]
  obtain ⟨some, other⟩ := inflates.not_magic (Gzip.Member.trailer content ++ after)
  refine ⟨⟨scanner.session.at (scanner.session.base + scanner.source.supply.stream.consumed),
    (scanner.restart (.member (.create start))).source⟩, _, ?_,
    ⟨inside.packing, inside.dry, inside.stream, inside.look⟩, List.append_ne_nil_of_left_ne_nil some _, other⟩
  simp only [enterMember, peeked]
  rfl

theorem AtDry.nextOfMembers_member {member content after : Bytes} (h : AtDry holds packing (member ++ after) scanner)
    (decodes : Gzip.Decodes member content) (found : Findings) :
    ∃ failure scanner', nextOfMembers found scanner = .error failure scanner' := by
  obtain ⟨inside, rest, entered, stands, some, other⟩ := h.enterMember_member steady decodes
  obtain ⟨failure, scanner', failed⟩ := stands.enterMember_other steady some other
  refine ⟨failure, scanner', ?_⟩
  rw [Scanner.nextOfMembers_member entered (RecordHeader.next_dry stands.dry), Option.elim, nextOfMembers]
  split <;> simp_all

theorem AtDry.next_packed (h : AtDry holds .gzip data scanner) :
    (∃ scanner', scanner.next = .ended scanner' ∧ AtDry holds .gzip [] scanner' ∧
        scanner'.session.findings = scanner.session.findings) ∨
      ∃ failure rest scanner', scanner.next = .failed failure scanner' ∧ data ≠ [] ∧
        AtDry holds .gzip rest scanner' := by
  have finds := h.nextOfMembers_dry steady .none
  have whole : scanner.nextHeader = nextOfMembers .none scanner := by simp only [nextHeader, h.packing]
  have same : (reached scanner.nextHeader).session.findings = scanner.session.findings := by
    obtain ⟨memberStart, same⟩ := session_nextHeader scanner
    rw [same]
    rfl
  rw [← whole] at finds
  unfold next
  split
  · next found =>
    rw [found] at finds
    cases finds with
    | failed some after => exact .inr ⟨_, _, _, rfl, some, after⟩
  · next found =>
    rw [found] at finds same
    cases finds with
    | ended after =>
      rw [Findings.append_none]
      exact .inl ⟨_, rfl, after, same⟩
  · next found =>
    rw [found] at finds
    cases finds

end Scanner
end ArcFile
