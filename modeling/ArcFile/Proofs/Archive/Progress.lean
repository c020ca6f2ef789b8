import ArcFile.Proofs.Archive.Buffering
import ArcFile.Proofs.Archive.Onward
/-!
Reading goes forward and comes to an end. Whatever the bytes of a file are, and whether its input faults or not, every
record that is found lies behind the last position, and the position behind it is further on. No position is
behind the end of the input, so there are at most as many records as bytes.
-/
namespace ArcFile

variable {σ : Type}

/-- The feed is the plain data of a file, of which at most `k` more bytes come. -/
def Feed.PlainMost (most : σ → Nat → Prop) (feed : Feed σ) (k : Nat) : Prop :=
  ∃ stream, feed = .plain stream ∧ stream.Sums most (stream.consumed + k)

namespace Packing

/-- How far the data of a file has been read, by the count of its source. -/
def reached : Packing → Cursor (Feed σ) → Nat
  | .plain, source => source.consumed
  | .gzip, source => source.supply.stream.consumed

/-- The second source is what some reading of the file has left of the first one. -/
def After (most : σ → Nat → Prop) : Packing → Cursor (Feed σ) → Cursor (Feed σ) → Prop
  | .plain, source, source' => source.Gone (Feed.PlainMost most) source'
  | .gzip, source, source' => source.supply.stream.Gone most source'.supply.stream

/-- What has been read and what can still come are at most `total` bytes of the file. -/
def Sums (most : σ → Nat → Prop) (total : Nat) : Packing → Cursor (Feed σ) → Prop
  | .plain, source => source.Sums (Feed.PlainMost most) total
  | .gzip, source => source.supply.stream.Sums most total

variable {most : σ → Nat → Prop} {packing : Packing} {source source' : Cursor (Feed σ)} {total : Nat}

theorem After.reached_le (h : packing.After most source source') : packing.reached source ≤ packing.reached source' := by
  cases packing with
  | plain => exact h.consumed
  | gzip => exact h.consumed

theorem After.sums (h : packing.After most source source') (sums : packing.Sums most total source) :
    packing.Sums most total source' := by
  cases packing with
  | plain => exact Cursor.Gone.sums h sums
  | gzip => exact Cursor.Gone.sums h sums

theorem Sums.reached_le (h : packing.Sums most total source) : packing.reached source ≤ total := by
  cases packing with
  | plain => exact Cursor.Sums.consumed_le h
  | gzip => exact Cursor.Sums.consumed_le h

variable [Supply σ]

theorem atMost_plainMost (atMost : Supply.AtMost most) : Supply.AtMost (Feed.PlainMost most) where
  read := by
    rintro n k _ feed data ⟨stream, rfl, sums⟩ found
    have found : Feed.read n (.plain stream) = .ok data feed := found
    unfold Feed.read at found
    dsimp only at found
    split at found
    · next stream' read =>
      cases found
      obtain ⟨k', sums', less⟩ := (Cursor.atMost_cursor atMost).read sums read
      exact ⟨k', ⟨stream', rfl, sums'⟩, less⟩
    · cases found
  fault := by
    rintro n k _ feed fault ⟨stream, rfl, sums⟩ found
    have found : Feed.read n (.plain stream) = .error fault feed := found
    unfold Feed.read at found
    dsimp only at found
    split at found
    · cases found
    · next stream' read =>
      cases found
      obtain ⟨k', sums', less⟩ := (Cursor.atMost_cursor atMost).fault sums read
      exact ⟨k', ⟨stream', rfl, sums'⟩, less⟩

theorem follows_after (atMost : Supply.AtMost most) (packing : Packing) :
    Cursor.Follows (packing.After (σ := σ) most) := by
  cases packing with
  | plain => exact Cursor.follows_gone (atMost_plainMost atMost)
  | gzip => exact Cursor.follows_supply (Feed.tracks_stream (Cursor.follows_gone atMost))

end Packing
section Parts

variable [Supply σ] {most : σ → Nat → Prop} (atMost : Supply.AtMost most)

include atMost

/-- A header line begins where it was looked for or behind that, and takes something. -/
theorem RecordHeader.start_of_next {c c' : Cursor σ} {header : RecordHeader} {findings : Findings}
    (found : next c = .ok (some header, findings) c') : c.consumed ≤ header.start ∧ header.start < c'.consumed := by
  have sought (skipped skipped' : Skipped) (c c' : Cursor σ) (findings : Findings)
      (found : search skipped c = .ok (skipped', some (header, findings)) c') :
      c.consumed ≤ header.start ∧ header.start < c'.consumed := by
    fun_induction search skipped c with
    | case1 => cases found
    | case2 => cases found
    | case3 _ c _ _ line _ _ ih =>
      have := Cursor.consumed_lt_of_readLine atMost line
      obtain ⟨start, more⟩ := ih found
      exact ⟨by omega, more⟩
    | case4 _ c _ c' line _ _ header' read =>
      cases found
      have := Cursor.consumed_lt_of_readLine atMost line
      obtain ⟨start, -⟩ := start_of_ofLine? read
      omega
    | case5 _ c _ _ line _ _ _ ih =>
      have := Cursor.consumed_lt_of_readLine atMost line
      obtain ⟨start, more⟩ := ih found
      exact ⟨by omega, more⟩
  unfold next at found
  split at found
  · cases found
  · cases found
  · next is =>
    cases found
    exact sought _ _ _ _ _ is

/-- If something was pushed back, a member's header takes at least that. -/
theorem Gzip.Unpacker.consumed_lt_create {c : Cursor σ} (held : c.pushback.bytes ≠ []) :
    c.consumed < (create c).stream.consumed := by
  have along := (Cursor.follows_gone atMost).along
  have tracks : Cursor.Tracks fun c' c'' : Cursor σ => c.consumed < c'.consumed → c.consumed < c''.consumed :=
    ⟨fun _ more => more, fun first second more => second (first more),
      fun n c' more => Nat.lt_of_lt_of_le more (along.read n c').consumed⟩
  have taken := Member.takeHeader_of_start tracks (Cursor.consumed_lt_of_pushback atMost (by decide) held)
  unfold create
  split
  all_goals
    next found =>
      rw [found] at taken
      exact taken

end Parts

namespace Scanner

theorem position_eq (scanner : Scanner σ) :
    scanner.position = scanner.session.base + scanner.session.packing.reached scanner.source := by
  unfold position Packing.reached
  cases scanner.session.packing <;> rfl

/-- How far a file has been read while a record is open. -/
def Visit.position (visit : Visit σ) : Nat :=
  visit.session.base + visit.session.packing.reached visit.entry.source

variable [Supply σ] {most : σ → Nat → Prop} {scanner scanner' inside : Scanner σ}

/-- Entering a member takes at least its first bytes. -/
theorem enterMember_onward (atMost : Supply.AtMost most) (entered : scanner.enterMember = .ok true inside) :
    inside.session = scanner.session.at (scanner.session.base + scanner.source.supply.stream.consumed) ∧
      scanner.source.supply.stream.Gone most inside.source.supply.stream ∧
      scanner.source.supply.stream.consumed < inside.source.supply.stream.consumed := by
  obtain ⟨gone, still⟩ := Cursor.gone_peek atMost Gzip.magic.length scanner.source.supply.stream
  unfold enterMember at entered
  dsimp only at entered
  split at entered
  · cases entered
  · next start stream peeked =>
    rw [peeked] at gone
    split at entered
    · cases entered
    · split at entered
      · cases entered
      · next isMagic =>
        obtain ⟨-, rfl⟩ := EStateM.Result.ok.inj entered
        have held := Cursor.pushback_of_peek peeked (by simp_all)
        have more : stream.consumed < (Gzip.Unpacker.create stream).stream.consumed :=
          Gzip.Unpacker.consumed_lt_create atMost fun none => by
            rw [none] at held
            exact absurd held (by decide)
        refine ⟨rfl, gone.trans (Gzip.Unpacker.onward_create (Cursor.follows_gone atMost) stream), ?_⟩
        rw [← still _ _ peeked]
        exact more

/-- A header line in a packed file belongs to a member that begins behind what has been read. -/
theorem nextOfMembers_onward (atMost : Supply.AtMost most) {found findings : Findings} {header : RecordHeader}
    (next : nextOfMembers found scanner = .ok (some header, findings) scanner') :
    scanner.source.supply.stream.Gone most scanner'.source.supply.stream ∧
      scanner.session.base + scanner.source.supply.stream.consumed ≤ header.start ∧
      header.start < scanner.session.base + scanner'.source.supply.stream.consumed := by
  have searched (c : Cursor (Feed σ)) : c.supply.stream.Gone most (RecordHeader.next c).state.supply.stream :=
    RecordHeader.onward_next (Cursor.follows_supply (Feed.tracks_stream (Cursor.follows_gone atMost))) c
  fun_induction nextOfMembers found scanner with
  | case1 => cases next
  | case2 => cases next
  | case3 => cases next
  | case4 _ scanner inside entered _ _ source read =>
    cases next
    obtain ⟨session, gone, more⟩ := enterMember_onward atMost entered
    have last := searched inside.source
    rw [read] at last
    have := last.consumed
    refine ⟨gone.trans last, ?_, ?_⟩
    · rw [session]
      exact Nat.le_refl _
    · rw [session]
      simp only [Session.at, Outcome.state] at this ⊢
      omega
  | case5 _ scanner inside entered _ source read _ ih =>
    obtain ⟨session, gone, more⟩ := enterMember_onward atMost entered
    have last := searched inside.source
    rw [read] at last
    have := last.consumed
    obtain ⟨gone', start, behind⟩ := ih next
    have base : inside.session.base = scanner.session.base := by rw [session]; rfl
    simp only [base, Outcome.state] at this start behind
    exact ⟨(gone.trans last).trans gone', by omega, behind⟩

/-- Where a scanner stands when it has come to a record. -/
structure Arrives (most : σ → Nat → Prop) (scanner : Scanner σ) (visit : Visit σ) : Prop where
  packing : visit.session.packing = scanner.session.packing
  base : visit.session.base = scanner.session.base
  after : scanner.session.packing.After most scanner.source visit.entry.source
  start_ge : scanner.position ≤ visit.entry.header.start
  start_lt : visit.entry.header.start < visit.position

theorem nextHeader_onward (atMost : Supply.AtMost most) {header : RecordHeader} {findings : Findings}
    (next : scanner.nextHeader = .ok (some header, findings) scanner') :
    scanner.session.packing.After most scanner.source scanner'.source ∧ scanner.position ≤ header.start ∧
      header.start < scanner.session.base + scanner.session.packing.reached scanner'.source := by
  rw [position_eq]
  unfold nextHeader at next
  split at next
  · next packing =>
    rw [packing]
    exact nextOfMembers_onward atMost next
  · next packing =>
    rw [packing]
    have after := RecordHeader.onward_next (Packing.follows_after atMost .plain) scanner.source
    split at next
    · cases next
    · cases next
    · next found =>
      cases next
      rw [found] at after
      obtain ⟨start, more⟩ := RecordHeader.start_of_next (Packing.atMost_plainMost atMost) found
      exact ⟨after, Nat.add_le_add_left start _, Nat.add_lt_add_left more _⟩

omit [Supply σ] in
theorem Session.declare_same (kind : Entry.Kind) (session : Session) :
    (session.declare kind).packing = session.packing ∧ (session.declare kind).base = session.base := by
  cases kind <;> exact ⟨rfl, rfl⟩

theorem next_arrives (atMost : Supply.AtMost most) {visit : Visit σ} (found : scanner.next = .record visit) :
    Arrives most scanner visit := by
  obtain ⟨header, findings, between, sought, opened, sameSession⟩ := opened_of_next found
  obtain ⟨after, start, more⟩ := nextHeader_onward atMost sought
  obtain ⟨memberStart, same⟩ := scanner.session_nextHeader
  rw [sought] at same
  have same : between.session = scanner.session.at memberStart := same
  obtain ⟨-, enterPacking, enterBase, -⟩ := between.session.kept_enter header
  obtain ⟨declarePacking, declareBase⟩ := (between.session.enter header).1.declare_same visit.entry.kind
  have packing : visit.session.packing = scanner.session.packing := by
    rw [sameSession, declarePacking, enterPacking, same]
    rfl
  have base : visit.session.base = scanner.session.base := by
    rw [sameSession, declareBase, enterBase, same]
    rfl
  have opens := Entry.onward_ofHeader (Packing.follows_after atMost scanner.session.packing) _ _ opened
  have isHeader : visit.entry.header = header := by
    obtain ⟨_, _, _, is⟩ := Entry.exists_ofBody opened
    rw [is]
    rfl
  refine ⟨packing, base, (Packing.follows_after atMost _).trans after opens, isHeader ▸ start, ?_⟩
  unfold Visit.position
  rw [packing, base, isHeader]
  exact Nat.lt_of_lt_of_le more (Nat.add_le_add_left opens.reached_le _)

/-- A scanner behind a record that another one has come to. -/
structure Passes (most : σ → Nat → Prop) (scanner : Scanner σ) (visit : Visit σ) (behind : Scanner σ) : Prop where
  packing : behind.session.packing = scanner.session.packing
  base : behind.session.base = scanner.session.base
  after : scanner.session.packing.After most scanner.source behind.source
  position : visit.position ≤ behind.position

/-- Whatever is done with the record, leaving it leaves the scanner where the source then stands. -/
theorem leave_passes (atMost : Supply.AtMost most) {visit : Visit σ} (arrives : Arrives most scanner visit)
    {entry : Entry (Feed σ)} (used : visit.session.packing.After most visit.entry.source entry.source) :
    Passes most scanner visit (Visit.leave { visit with entry }) := by
  have closed := Entry.onward_close (Packing.follows_after atMost visit.session.packing) entry
  have after := (Packing.follows_after atMost _).trans used closed
  have counted (entry : Entry (Feed σ)) : (visit.session.count entry).packing = visit.session.packing ∧
      (visit.session.count entry).base = visit.session.base := by
    unfold Session.count
    split <;> exact ⟨rfl, rfl⟩
  obtain ⟨packing, base⟩ := counted entry.close.state
  constructor
  case packing => exact packing.trans arrives.packing
  case base => exact base.trans arrives.base
  case after =>
    rw [arrives.packing] at after
    exact (Packing.follows_after atMost _).trans arrives.after after
  case position =>
    rw [position_eq, Visit.position]
    simp only [Visit.leave, packing, base]
    exact Nat.add_le_add_left after.reached_le _

theorem stop_passes (atMost : Supply.AtMost most) {visit : Visit σ} (found : scanner.next = .record visit)
    (calls : List Entry.Call) : Passes most scanner visit (visit.stop calls).behind :=
  leave_passes atMost (next_arrives atMost found)
    (Entry.onward_calls (Packing.follows_after atMost visit.session.packing) calls (.start visit.entry))

/-- A record that is read to its end and closed is passed, and keeps its header. -/
theorem readOut_passes (atMost : Supply.AtMost most) {stride : Nat} {visit : Visit σ} {account : Account}
    {behind : Scanner σ} (arrives : Arrives most scanner visit) (read : visit.readOut stride = .ok (account, behind)) :
    Passes most scanner visit behind ∧ account.header = visit.entry.header := by
  have follows := Packing.follows_after atMost visit.session.packing
  have reads := Entry.onward_readAll follows visit.entry stride []
  unfold Visit.readOut at read
  split at read
  · cases read
  · next content atEnd all =>
    split at read
    · cases read
    · next closed isClosed =>
      obtain ⟨rfl, rfl⟩ := Prod.mk.inj (Except.ok.inj read)
      rw [all] at reads
      have closes := Entry.onward_close follows atEnd
      rw [isClosed] at closes
      have header : atEnd.header = visit.entry.header :=
        (Entry.keeps_header visit.entry.header).readAll rfl all
      exact ⟨leave_passes atMost arrives (follows.trans reads closes), (Entry.header_close isClosed).trans header⟩

/-- Records are found in the order in which they begin, none of them in front of where the scanner stood. -/
theorem starts_survey (atMost : Supply.AtMost most) (stride : Nat) (scanner : Scanner σ) :
    (∀ account ∈ (survey stride scanner).records, scanner.position ≤ account.header.start) ∧
      ((survey stride scanner).records.map fun account => account.header.start).Pairwise (· < ·) := by
  fun_induction survey stride scanner with
  | case1 => simp [stopped]
  | case2 => simp [stopped]
  | case3 => simp [stopped]
  | case4 scanner visit found account behind read _ more ih =>
    have arrives := next_arrives atMost found
    obtain ⟨passes, header⟩ := readOut_passes atMost arrives read
    obtain ⟨later, grow⟩ := ih
    have start : account.header.start < behind.position := by
      rw [header]
      exact Nat.lt_of_lt_of_le arrives.start_lt passes.position
    have first : scanner.position ≤ account.header.start := by
      rw [header]
      exact arrives.start_ge
    constructor
    · refine List.forall_mem_cons.2 ⟨first, fun other among => ?_⟩
      have := later other among
      omega
    · refine List.pairwise_cons.2 ⟨fun n among => ?_, grow⟩
      obtain ⟨other, isOther, rfl⟩ := List.mem_map.1 among
      exact Nat.lt_of_lt_of_le start (later other isOther)

/-- The positions of a tour grow, and none is behind the end of the input. -/
theorem positions_tour (atMost : Supply.AtMost most) {size : Nat} (plans : List (List Entry.Call))
    (sums : scanner.session.packing.Sums most size scanner.source) :
    (scanner.position :: (tour plans scanner).1.map fun stop => stop.behind.position).Pairwise (· < ·) ∧
      ∀ stop ∈ (tour plans scanner).1, stop.behind.position ≤ scanner.session.base + size := by
  induction plans generalizing scanner with
  | nil => simp [tour]
  | cons calls plans ih =>
    unfold tour
    split
    · simp
    · simp
    · next visit found =>
      have arrives := next_arrives atMost found
      have passes := stop_passes atMost found calls
      have further : scanner.position < (visit.stop calls).behind.position :=
        Nat.lt_of_le_of_lt arrives.start_ge (Nat.lt_of_lt_of_le arrives.start_lt passes.position)
      have sums' : (visit.stop calls).behind.session.packing.Sums most size (visit.stop calls).behind.source := by
        rw [passes.packing]
        exact passes.after.sums sums
      obtain ⟨grow, most'⟩ := ih sums'
      rw [passes.base] at most'
      dsimp only
      refine ⟨List.pairwise_cons.2 ⟨?_, grow⟩, List.forall_mem_cons.2 ⟨?_, most'⟩⟩
      · intro position among
        rcases List.mem_cons.1 among with is | later
        · exact is ▸ further
        · exact Nat.lt_trans further (List.rel_of_pairwise_cons grow later)
      · rw [position_eq, passes.base]
        exact Nat.add_le_add_left sums'.reached_le _

/-- A tour that came to an end of the plans has used all of them. -/
theorem length_of_halted {plans : List (List Entry.Call)} {last : Scanner σ}
    (halted : (tour plans scanner).2 = .halted last) : (tour plans scanner).1.length = plans.length := by
  induction plans generalizing scanner with
  | nil => rfl
  | cons calls plans ih =>
    unfold tour at halted ⊢
    split
    · next found =>
      rw [found] at halted
      cases halted
    · next found =>
      rw [found] at halted
      cases halted
    · next visit found =>
      rw [found] at halted
      exact congrArg (· + 1) (ih halted)

omit [Supply σ] in
/-- As many numbers that grow from `lo` to `hi` at most as lie between the two. -/
theorem length_le_of_pairwise {lo hi : Nat} {more : List Nat} (grow : (lo :: more).Pairwise (· < ·))
    (most : ∀ n ∈ lo :: more, n ≤ hi) : lo + more.length ≤ hi := by
  induction more generalizing lo with
  | nil => exact most lo (List.mem_singleton.2 rfl)
  | cons n more ih =>
    have := ih (List.pairwise_cons.1 grow).2 (List.forall_mem_cons.1 most).2
    have := List.rel_of_pairwise_cons grow (List.mem_cons_self ..)
    simp only [List.length_cons]
    omega

/-- At its start a scanner has read nothing yet, and all that can come is the input. -/
theorem Begins.sums (atMost : Supply.AtMost most) {packing : Packing} {options : Options} {input : σ} {base size : Nat}
    (begins : Begins packing options input base scanner) (given : most input size) :
    scanner.session.packing = packing ∧ scanner.session.base = base ∧ scanner.position = base ∧
      packing.Sums most size scanner.source := by
  have start (stream : Cursor σ) (sums : stream.Sums most size) (zero : stream.consumed = 0) :
      (ofStream packing base options stream).position = base ∧
        packing.Sums most size (ofStream packing base options stream).source := by
    have plain : Feed.PlainMost most (.plain stream) size := ⟨stream, rfl, by rwa [zero, Nat.zero_add]⟩
    cases packing with
    | plain => exact ⟨rfl, Cursor.sums_create plain _ _⟩
    | gzip => exact ⟨by rw [position_eq]; exact congrArg (base + ·) zero, sums⟩
  have initial : (streamOf input).Sums most size := Cursor.sums_create given _ _
  cases begins with
  | given => exact ⟨rfl, rfl, start _ initial rfl⟩
  | found sniffed is =>
    obtain ⟨gone, still⟩ := Cursor.gone_peek atMost Packing.lookAhead (streamOf input)
    unfold Scanner.sniffed Packing.sniff at sniffed
    cases peeked : Cursor.peek Packing.lookAhead (streamOf input) with
    | error fault stream =>
      rw [peeked] at sniffed
      cases sniffed
    | ok data stream =>
      rw [peeked] at sniffed gone
      cases sniffed
      obtain rfl := is
      exact ⟨rfl, rfl, start stream (gone.sums initial) (still _ _ peeked)⟩

/-- Reading makes progress and ends, on any input that gives at most `size` bytes, whether it ends or faults then.
However the records are read, each leaves the position further on than it was, and no position is behind the end of the
input; so there are at most `size` records, and then the file ends or there is a failure. On the way to a
header line, each member of a packed file takes something. -/
theorem tour_progress {packing : Packing} {options : Options} {input : σ} {base size : Nat}
    (begins : Begins packing options input base scanner) (finite : Supply.GivesAtMost input size)
    (plans : List (List Entry.Call)) :
    let stops := (tour plans scanner).1
    (scanner.position :: stops.map fun stop => stop.behind.position).Pairwise (· < ·) ∧
      (∀ stop ∈ stops, stop.behind.position ≤ base + size) ∧ stops.length ≤ size ∧
      (size < plans.length → ∃ last, (tour plans scanner).2 = .ended last ∨
        ∃ failure, (tour plans scanner).2 = .failed failure last) ∧
      ∀ between inside : Scanner σ, between.session.packing = .gzip → between.enterMember = .ok true inside →
        between.position < Scanner.position { inside with source := (RecordHeader.next inside.source).state } := by
  intro stops
  obtain ⟨most, atMost, given⟩ := finite
  obtain ⟨rfl, rfl, zero, sums⟩ := begins.sums atMost given
  obtain ⟨grow, behind⟩ := positions_tour atMost plans sums
  have few : stops.length ≤ size := by
    have most : ∀ position ∈ scanner.position :: stops.map (·.behind.position),
        position ≤ scanner.session.base + size := by
      intro position among
      rcases List.mem_cons.1 among with rfl | later
      · rw [zero]
        exact Nat.le_add_right _ _
      · obtain ⟨stop, isStop, rfl⟩ := List.mem_map.1 later
        exact behind stop isStop
    have fits := length_le_of_pairwise grow most
    rw [zero, List.length_map] at fits
    exact Nat.le_of_add_le_add_left fits
  refine ⟨grow, behind, few, ?_, ?_⟩
  · intro more
    cases ending : (tour plans scanner).2 with
    | halted last =>
      have all : stops.length = plans.length := length_of_halted ending
      omega
    | ended last => exact ⟨last, .inl rfl⟩
    | failed failure last => exact ⟨last, .inr ⟨failure, rfl⟩⟩
  · intro between inside packing entered
    obtain ⟨session, -, more⟩ := enterMember_onward atMost entered
    have follows := Cursor.follows_supply (Feed.tracks_stream (Cursor.follows_gone atMost))
    have searched := (RecordHeader.onward_next follows inside.source).consumed
    rw [position_eq, position_eq, session, packing]
    simp only [Session.at, packing, Packing.reached]
    omega

/-- Two records, three bytes at a time, from an input that faults within the second one; and the same records packed. -/
theorem tour_progress_twoRecords :
    let input : Input := ⟨twoRecords, some 3, some 70, .inputFailed⟩
    let plans := List.replicate (twoRecords.length + 1) [Entry.Call.read 1]
    let packed := Input.ofBytes (bytesOf [(Gzip.pack twoRecords, twoRecords)] [])
    let start := create .gzip 0 .default packed
    Begins .plain .default input 0 (create .plain 0 .default input) ∧ Supply.GivesAtMost input twoRecords.length ∧
      (∃ last, (tour plans (create .plain 0 .default input)).2 = .ended last ∨
        ∃ failure, (tour plans (create .plain 0 .default input)).2 = .failed failure last) ∧
      ∃ inside, start.enterMember = .ok true inside ∧
        start.position < Scanner.position { inside with source := (RecordHeader.next inside.source).state } := by
  intro input plans packed start
  have finite : Supply.GivesAtMost input twoRecords.length := Supply.givesAtMost_bound input
  have more : twoRecords.length < plans.length := by
    rw [List.length_replicate]
    exact Nat.lt_succ_self _
  refine ⟨.given 0, finite, (tour_progress (.given 0) finite plans).2.2.2.1 more, ?_⟩
  have yields : Supply.Yields packed _ := Input.yields_ofBytes _
  have decodes : ∀ m ∈ [(Gzip.pack twoRecords, twoRecords)], Gzip.Decodes m.1 m.2 := by
    simpa using Gzip.decodes_pack twoRecords
  have finite := yields.givesAtMost
  obtain ⟨holds, steady, held⟩ := yields
  obtain ⟨-, inside, entered, -⟩ := enterMember_inside steady
    (create_atMembers 0 (by decide : 0 < Options.default.bufferSize) decodes held)
  have begins : Begins .gzip .default packed 0 start := .given 0
  exact ⟨inside, entered, (tour_progress begins finite []).2.2.2.2 start inside rfl entered⟩

end Scanner
end ArcFile
