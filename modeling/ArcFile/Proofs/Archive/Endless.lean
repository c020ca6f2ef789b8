import ArcFile.Proofs.Gzip.Ending
import ArcFile.Proofs.Archive.Survey
/-!
Records in data that never comes to an end. What opens a record and what reads its content may succeed there, but a
record that has to see the end of its gzip member cannot be closed.
-/
namespace ArcFile

section Parts

variable {σ : Type} [Supply σ] {P : σ → Prop} {c c' : Cursor σ}

namespace RecordHeader

variable {skipped skipped' : Skipped}

theorem over_search (keeps : Supply.Keeps P) (h : c.Over P) {result : Skipped × Option (RecordHeader × Findings)}
    (found : search skipped c = .ok result c') : c'.Over P := by
  fun_induction search skipped c with
  | case1 => cases found
  | case2 _ _ _ read =>
    cases found
    exact Cursor.over_readLine keeps h read
  | case3 _ _ _ _ read _ _ ih => exact ih (Cursor.over_readLine keeps h read) found
  | case4 _ _ _ _ read =>
    cases found
    exact Cursor.over_readLine keeps h read
  | case5 _ _ _ _ read _ _ _ ih => exact ih (Cursor.over_readLine keeps h read) found

/-- A search goes on until there is a header line. -/
theorem search_ne_none (endless : Supply.Endless P) (h : c.Over P) : search skipped c ≠ .ok (skipped', none) c' := by
  intro found
  fun_induction search skipped c with
  | case1 => cases found
  | case2 _ _ _ read => exact Cursor.readLine_ne_none endless h read
  | case3 _ _ _ _ read _ _ ih => exact ih (Cursor.over_readLine endless.toKeeps h read) found
  | case4 => cases found
  | case5 _ _ _ _ read _ _ _ ih => exact ih (Cursor.over_readLine endless.toKeeps h read) found

theorem over_next (endless : Supply.Endless P) (h : c.Over P) {header : Option RecordHeader} {findings : Findings}
    (found : next c = .ok (header, findings) c') : header.isSome ∧ c'.Over P := by
  unfold next at found
  split at found
  · cases found
  · next sought => exact absurd sought (search_ne_none endless h)
  · next sought =>
    cases found
    exact ⟨rfl, over_search endless.toKeeps h sought⟩

end RecordHeader

namespace VersionLines

theorem over_takeLine (keeps : Supply.Keeps P) (h : c.Over P) {line : Option String}
    (found : takeLine c = .ok line c') : c'.Over P := by
  unfold takeLine at found
  split at found
  · next read =>
    cases found
    exact Cursor.over_readLine keeps h read
  · cases found

theorem over_take (keeps : Supply.Keeps P) (h : c.Over P) {lines : VersionLines}
    (found : (take c).2 = .ok lines c') : c'.Over P := by
  have h : (c.setCounter 0).Over P := ⟨h.capacity, h.supply⟩
  unfold take at found
  split at found
  · cases found
  · next first =>
    cases found
    exact over_takeLine keeps h first
  · next first =>
    dsimp only at found
    split at found
    · cases found
    · next second =>
      cases found
      exact over_takeLine keeps (over_takeLine keeps h first) second
    · next second =>
      cases found
      exact over_takeLine keeps (over_takeLine keeps h first) second

end VersionLines

namespace Http.Head

theorem over_readDraft (keeps : Supply.Keeps P) {limit declared : Nat} {draft : Draft} (h : c.Over P)
    {verdict : Draft.Verdict} (found : readDraft limit declared draft c = .ok verdict c') : c'.Over P := by
  fun_induction readDraft limit declared draft c with
  | case1 => cases found
  | case2 _ _ _ _ filled =>
    cases found
    exact Cursor.over_fill keeps h filled
  | case3 _ _ _ _ _ _ filled =>
    cases found
    exact Cursor.over_fill keeps h filled
  | case4 => cases found
  | case5 _ _ _ _ read =>
    cases found
    exact Cursor.over_readByte keeps h read
  | case6 _ _ _ _ _ read _ _ _ ih => exact ih (Cursor.over_readByte keeps h read) found
  | case7 _ _ _ _ _ read =>
    cases found
    exact Cursor.over_readByte keeps h read

theorem over_read (keeps : Supply.Keeps P) {declared : Nat} (h : c.Over P) {head : Option Head}
    (found : read declared c = .ok head c') : c'.Over P := by
  unfold read at found
  split at found
  · cases found
  · next drafted =>
    cases found
    exact over_readDraft keeps h drafted
  all_goals
    next drafted =>
      split at found
      · next back =>
        cases found
        exact Cursor.over_unread (over_readDraft keeps h drafted) back
      · cases found

end Http.Head

namespace Span

theorem keeps_inner (keeps : Supply.Keeps P) : Supply.Keeps fun span : Span σ => P span.inner := by
  constructor
  intro n span span' data h found
  have found : read n span = .ok data span' := found
  unfold read at found
  split at found
  · cases found
    exact h
  · split at found
    · cases found
    · next read =>
      cases found
      exact keeps.read h read
    · next read =>
      cases found
      exact keeps.read h read

theorem inner_passOver (keeps : Supply.Keeps P) {span span' : Span σ} (h : P span.inner)
    (found : span.passOver = .ok () span') : P span'.inner := by
  fun_induction passOver span with
  | case1 =>
    cases found
    exact h
  | case2 => cases found
  | case3 _ _ _ read =>
    cases found
    exact (keeps_inner keeps).read h read
  | case4 _ _ _ _ _ read _ ih => exact ih ((keeps_inner keeps).read h read) found

theorem inner_close (keeps : Supply.Keeps P) {span span' : Span σ} (h : P span.inner)
    (found : span.close = .ok () span') : P span'.inner := by
  unfold close at found
  split at found
  · cases found
    exact h
  · split at found
    · next passed =>
      have isOver := inner_passOver keeps h passed
      cases found
      exact isOver
    · cases found

theorem inner_takeDigest (keeps : Supply.Keeps P) {span span' : Span σ} {digest : Option Digest} (h : P span.inner)
    (found : span.takeDigest = .ok digest span') : P span'.inner := by
  unfold takeDigest at found
  split at found
  · next closed =>
    have isOver := inner_close keeps h closed
    cases found
    exact isOver
  · cases found

end Span

namespace Body

/-- The body is part of a supply that is as `P` says. -/
def Over (P : σ → Prop) (body : Body σ) : Prop := body.cursor.Over fun span => P span.inner

variable {body body' : Body σ} (keeps : Supply.Keeps P)

include keeps

theorem over_read {n : Nat} {data : Bytes} (h : body.Over P) (found : body.read n = .ok data body') :
    body'.Over P := by
  unfold read at found
  split at found
  · next read =>
    cases found
    exact Cursor.over_read (Span.keeps_inner keeps) h read
  · cases found

theorem over_drain (h : body.Over P) (found : body.drain = .ok () body') : body'.Over P := by
  fun_induction drain body with
  | case1 => cases found
  | case2 _ _ filled =>
    cases found
    exact Cursor.over_fill (Span.keeps_inner keeps) h filled
  | case3 _ _ _ _ filled _ ih =>
    exact ih (Cursor.over_advance _ (Cursor.over_fill (Span.keeps_inner keeps) h filled)) found

/-- A body that has been closed leaves its supply like that. -/
theorem supply_close {source : σ} {result : Sealed} (h : body.Over P) (found : body.close = .ok result source) :
    P source := by
  unfold close at found
  split at found
  · cases found
  · next drained =>
    split at found
    · cases found
    · next taken =>
      cases found
      exact Span.inner_takeDigest keeps (over_drain keeps h drained).supply taken

end Body

end Parts

namespace Entry

variable {τ : Type} [Supply τ] {P : τ → Prop} {c c' : Cursor τ} {entry entry' : Entry τ}

theorem Trailer.over_take (keeps : Supply.Keeps P) {seen trailer : Trailer} (h : c.Over P)
    (found : Trailer.take seen c = .ok trailer c') : c'.Over P := by
  fun_induction Trailer.take seen c with
  | case1 => cases found
  | case2 _ _ _ read =>
    cases found
    exact Cursor.over_readByte keeps h read
  | case3 _ _ _ read _ ih => exact ih (Cursor.over_readByte keeps h read) found
  | case4 _ _ _ read _ _ ih => exact ih (Cursor.over_readByte keeps h read) found
  | case5 _ _ _ _ read _ _ _ _ back =>
    cases found
    exact Cursor.over_unread (Cursor.over_readByte keeps h read) back
  | case6 => cases found

/-- The record is read, and it is all that its gzip member should hold, but the content of the member is as `P`
says. -/
def Within (P : τ → Prop) (entry : Entry τ) : Prop :=
  entry.isMember = true ∧ ∃ body, entry.content = .reading body ∧ body.Over (Cursor.Over P)

theorem keeps_within (keeps : Supply.Keeps P) : Supply.Keeps (Within P) := by
  constructor
  rintro n entry entry' data ⟨isMember, body, reading, isOver⟩ found
  have found : read n entry = .ok data entry' := found
  simp only [read, reading] at found
  split at found
  · next taken =>
    cases found
    exact ⟨isMember, _, rfl, Body.over_read (Cursor.keeps_over keeps) isOver taken⟩
  · cases found

theorem within_ofHeader (keeps : Supply.Keeps P) {options : Options} (buffered : 0 < options.bufferSize)
    {header : RecordHeader} {findings : Findings} (h : c.Over P)
    (opened : ofHeader options true header findings c = .ok entry) : entry.Within P := by
  have created : (Body.create c header.declared (options.blockDigest.map .start) options.bufferSize
      (contentPushback options header)).Over (Cursor.Over P) := ⟨buffered, h⟩
  have keeps : Supply.Keeps fun span : Span (Cursor τ) => span.inner.Over P :=
    Span.keeps_inner (Cursor.keeps_over keeps)
  unfold ofHeader at opened
  dsimp only at opened
  split at opened
  · split at opened
    · cases opened
    · next read =>
      cases opened
      exact ⟨rfl, _, rfl, VersionLines.over_take keeps created read⟩
  · split at opened
    · cases opened
    · next body taken =>
      cases opened
      refine ⟨rfl, body, rfl, ?_⟩
      unfold takeHead at taken
      split at taken
      · cases taken
        exact created
      · split at taken
        · cases taken
          exact created
        · unfold Body.parse at taken
          split at taken
          · cases taken
          · next parsed =>
            split at parsed
            · next read =>
              cases parsed
              cases taken
              exact Http.Head.over_read keeps created read
            · cases parsed
          · next parsed =>
            split at parsed
            · next read =>
              cases parsed
              have isOver := Http.Head.over_read keeps created read
              cases taken
              split <;> exact isOver
            · cases parsed

/-- Closing such a record does not succeed, as it does not come to the end of the member. -/
theorem close_ne_ok (endless : Supply.Endless P) (h : entry.Within P) : entry.close ≠ .ok () entry' := by
  obtain ⟨isMember, body, reading, isOver⟩ := h
  intro closed
  simp only [close, reading] at closed
  split at closed
  · cases closed
  · next source found =>
    have isOver := Body.supply_close (Cursor.keeps_over endless.toKeeps) isOver found
    unfold passRest at closed
    split at closed
    · cases closed
    · next findings c trailed =>
      have isOver : c.Over P := by
        unfold passTrailer at trailed
        split at trailed
        · cases trailed
          exact isOver
        · split at trailed
          · next taken =>
            cases trailed
            exact Trailer.over_take endless.toKeeps isOver taken
          · cases trailed
      dsimp only at closed
      split at closed
      · cases closed
      · next passed =>
        unfold passMember at passed
        split at passed
        · next single => simp [withSealed, isMember] at single
        · split at passed
          · next skipped => exact Cursor.skipAll_ne_ok endless isOver skipped
          · next skipped => exact Cursor.skipAll_ne_ok endless isOver skipped
          · cases passed

end Entry

theorem Feed.endless_member {σ : Type} [Supply σ] {P : Gzip.Unpacker σ → Prop} (endless : Supply.Endless P) :
    Supply.Endless fun feed : Feed σ => ∃ unpacker, feed = .member unpacker ∧ P unpacker := by
  have read {n : Nat} {unpacker : Gzip.Unpacker σ} {feed : Feed σ} {data : Bytes}
      (found : Supply.read n (Feed.member unpacker) = .ok data feed) :
      ∃ unpacker', feed = .member unpacker' ∧ Supply.read n unpacker = .ok data unpacker' := by
    simp only [Supply.read, Feed.read] at found ⊢
    split at found
    · next found' =>
      cases found
      exact ⟨_, rfl, found'⟩
    · cases found
  refine ⟨⟨?_⟩, ?_⟩
  · rintro n _ feed data ⟨unpacker, rfl, h⟩ found
    obtain ⟨unpacker', rfl, found'⟩ := read found
    exact ⟨unpacker', rfl, endless.read h found'⟩
  · rintro n _ feed ⟨unpacker, rfl, h⟩ found
    obtain ⟨unpacker', rfl, found'⟩ := read found
    exact endless.goes h found'

namespace Scanner

variable {σ : Type} [Supply σ] {holds : σ → Bytes → Prop} (steady : Supply.Steady holds) {session : Session}
  {scanner inside : Scanner σ} {pos total : Nat} {tail : Bytes} {last : Findings}

theorem readOut_ne_ok {P : Feed σ → Prop} (endless : Supply.Endless P) {visit : Visit σ} {stride : Nat}
    {result : Account × Scanner σ} (within : visit.entry.Within P) : visit.readOut stride ≠ .ok result := by
  intro read
  unfold Visit.readOut at read
  split at read
  · cases read
  · next content entry all =>
    have within := (Entry.keeps_within endless.toKeeps).readAll within all
    split at read
    · cases read
    · next closed => exact absurd closed (Entry.close_ne_ok endless within)

include steady

/-- What is entered as a member has no end, if no member begins there. -/
theorem AtMembers.enterMember_endless (h : AtMembers holds session pos [] tail scanner)
    (other : ∀ member content after, tail = member ++ after → ¬ Gzip.Decodes member content)
    (entered : scanner.enterMember = .ok true inside) :
    inside.session.packing = .gzip ∧ 0 < inside.session.options.bufferSize ∧
      ∃ P, Supply.Endless P ∧ inside.source.Over P := by
  have stream : scanner.source.supply.stream.Holds holds tail := h.stream
  obtain ⟨start, peeked, held, -⟩ := Cursor.peek_holds steady h.look stream
  obtain ⟨P, endless, created⟩ := Gzip.Unpacker.create_endless steady other held
  simp only [enterMember, peeked] at entered
  split at entered
  · cases entered
  · split at entered
    · cases entered
    · cases entered
      refine ⟨h.packing, ?_, _, Feed.endless_member endless, h.capacity, _, rfl, created⟩
      obtain ⟨memberStart, same⟩ := h.same
      change 0 < scanner.session.options.bufferSize
      rw [same]
      exact h.buffered

/-- A record that is opened behind the last member has no end. -/
theorem BehindMembers.next_within (h : BehindMembers holds last total tail session scanner)
    (other : ∀ member content after, tail = member ++ after → ¬ Gzip.Decodes member content) {visit : Visit σ}
    (next : scanner.next = .record visit) : ∃ P, Supply.Endless P ∧ visit.entry.Within P := by
  obtain ⟨scanner', onward, h⟩ := h
  unfold Scanner.next at next
  rw [onward, nextOfMembers] at next
  split at next
  · cases next
  · cases next
  · next header findings found sought =>
    split at sought
    · cases sought
    · cases sought
    · next inside entered =>
      obtain ⟨isPacked, buffered, P, endless, isOver⟩ := h.enterMember_endless steady other entered
      split at sought
      · cases sought
      · next header' more source looked =>
        obtain ⟨-, isOver⟩ := RecordHeader.over_next endless isOver looked
        cases sought
        obtain ⟨options, packing, -⟩ := Session.kept_enter { header' with start := inside.session.memberStart }
          inside.session
        dsimp only at next
        rw [options, packing, isPacked] at next
        split at next
        · cases next
        · next entry opened =>
          cases next
          exact ⟨P, endless, Entry.within_ofHeader endless.toKeeps buffered isOver opened⟩
      · next looked => cases (RecordHeader.over_next endless isOver looked).1

/-- Behind the last member there is no record that can be read and closed. -/
theorem BehindMembers.records_survey (h : BehindMembers holds last total tail session scanner)
    (other : ∀ member content after, tail = member ++ after → ¬ Gzip.Decodes member content) (stride : Nat) :
    (survey stride scanner).records = [] := by
  cases next : scanner.next with
  | ended scanner => rw [survey_ended next, stopped]
  | failed failure scanner => rw [survey_failed next, stopped]
  | record visit =>
    cases read : visit.readOut stride with
    | error fault => rw [survey_faulted next read, stopped]
    | ok result =>
      obtain ⟨P, endless, within⟩ := h.next_within steady other next
      exact absurd read (readOut_ne_ok endless within)

end Scanner
end ArcFile
