import ArcFile.Archive.Feed
import ArcFile.Proofs.Archive.Handling
import ArcFile.Proofs.Supply.Endless
import ArcFile.Proofs.Supply.Onward
/-!
What reading leaves of the data of a file. Unpacking a member, searching for a header line, opening a record, using it
and closing it are all put together from uses of one cursor, so a relation that those keep holds between the cursor
before and behind each of them, faults included.
-/
namespace ArcFile

section Parts

variable {σ : Type} [Supply σ] {after : Cursor σ → Cursor σ → Prop} (follows : Cursor.Follows after)

include follows

namespace Gzip.Unpacker

theorem onward_create (c : Cursor σ) : after c (create c).stream := by
  have taken := Member.along_takeHeader follows.along c
  unfold create
  split
  all_goals
    next found =>
      rw [found] at taken
      exact taken

theorem onward_pump (n pending : Nat) (s : Inflater) (c : Cursor σ) : after c (pump n pending s c).state := by
  fun_induction pump n pending s c with
  | case1 _ _ _ _ _ found => exact follows.fault found
  | case2 _ _ _ _ _ found => exact follows.filled found
  | case3 _ _ _ _ _ found _ _ _ _ ih => exact follows.trans (follows.taken found (Nat.sub_le _ _)) ih
  | case4 _ _ _ _ _ found => exact follows.taken found (Nat.sub_le _ _)

/-- What a read leaves of the stream that a member is unpacked from. -/
theorem tracks_stream : Supply.Tracks fun u u' : Unpacker σ => after u.stream u'.stream := by
  refine ⟨fun u => follows.refl _, follows.trans, fun n u => ?_⟩
  change after u.stream (read n u).state.stream
  unfold read
  split
  · exact follows.refl _
  · exact follows.refl _
  · next s pending _ =>
    have pumped := onward_pump follows n pending s u.stream
    split
    · exact follows.refl _
    · split
      · next found =>
        rw [found] at pumped
        exact pumped
      · next s' _ stream found =>
        rw [found] at pumped
        have trailer := Member.along_takeTrailer follows.along s'.window.toList stream
        split
        all_goals
          next taken =>
            rw [taken] at trailer
            exact follows.trans pumped trailer
      · next found =>
        rw [found] at pumped
        exact pumped

end Gzip.Unpacker

/-- What a read of the feed leaves of its stream. -/
theorem Feed.tracks_stream : Supply.Tracks fun feed feed' : Feed σ => after feed.stream feed'.stream := by
  refine ⟨fun feed => follows.refl _, follows.trans, fun n feed => ?_⟩
  change after feed.stream (read n feed).state.stream
  unfold read
  split
  · next stream =>
    have reads := follows.read n stream
    split
    all_goals
      next found =>
        rw [found] at reads
        exact reads
  · next unpacker =>
    have reads := (Gzip.Unpacker.tracks_stream follows).read n unpacker
    split
    all_goals
      next found =>
        rw [show Supply.read n unpacker = _ from found] at reads
        exact reads

namespace RecordHeader

theorem onward_search (skipped : Skipped) (c : Cursor σ) : after c (search skipped c).state := by
  have line {c c' : Cursor σ} {line : Option Bytes} (found : c.readLine = .ok line c') : after c c' := by
    have := follows.readLine c
    rw [found] at this
    exact this
  fun_induction search skipped c with
  | case1 _ c _ _ found =>
    have := follows.readLine c
    rw [found] at this
    exact this
  | case2 _ _ _ found => exact line found
  | case3 _ _ _ _ found _ _ ih => exact follows.trans (line found) ih
  | case4 _ _ _ _ found => exact line found
  | case5 _ _ _ _ found _ _ _ ih => exact follows.trans (line found) ih

theorem onward_next (c : Cursor σ) : after c (next c).state := by
  have sought := onward_search follows .nothing c
  unfold next
  split
  all_goals
    next found =>
      rw [found] at sought
      exact sought

end RecordHeader

/-- What taking the line ends behind a record leaves. -/
theorem Entry.Trailer.onward_take (seen : Trailer) (c : Cursor σ) : after c (take seen c).state := by
  have byte {c c' : Cursor σ} {b : Option UInt8} (found : c.readByte = .ok b c') : after c c' := by
    have := follows.readByte c
    rw [found] at this
    exact this
  fun_induction take seen c with
  | case1 _ c _ _ found =>
    have := follows.readByte c
    rw [found] at this
    exact this
  | case2 _ _ _ found => exact byte found
  | case3 _ _ _ found _ ih => exact follows.trans (byte found) ih
  | case4 _ _ _ found _ _ ih => exact follows.trans (byte found) ih
  | case5 _ _ _ _ found _ _ _ _ back =>
    have := follows.unread found
    rw [back] at this
    exact this
  | case6 _ _ _ _ found _ _ _ _ _ back =>
    have := follows.unread found
    rw [back] at this
    exact this

end Parts

section Content

variable {σ : Type} [Supply σ] {rest : σ → σ → Prop} (tracks : Supply.Tracks rest)

include tracks

/-- What taking the version lines leaves of the supply of a cursor. -/
theorem VersionLines.supply_onward_take (c : Cursor σ) : rest c.supply (take c).2.state.supply := by
  have line (c : Cursor σ) : rest c.supply (takeLine c).state.supply := by
    have := (Cursor.follows_supply tracks).readLine c
    unfold takeLine
    split
    all_goals
      next found =>
        rw [found] at this
        exact this
  have first := line (c.setCounter 0)
  unfold take
  split
  · next found =>
    rw [found] at first
    exact first
  · next found =>
    rw [found] at first
    exact first
  · next c' found =>
    rw [found] at first
    have second := line c'
    dsimp only
    split
    all_goals
      next found' =>
        rw [found'] at second
        exact tracks.trans first second

namespace Http.Head

theorem supply_onward_readDraft (limit declared : Nat) (draft : Draft) (c : Cursor σ) :
    rest c.supply (readDraft limit declared draft c).state.supply := by
  have follows := Cursor.follows_supply tracks
  have byte {c c' : Cursor σ} {b : Option UInt8} (found : c.readByte = .ok b c') : rest c.supply c'.supply := by
    have := follows.readByte c
    rw [found] at this
    exact this
  fun_induction readDraft limit declared draft c with
  | case1 _ _ _ _ _ found => exact follows.fault found
  | case2 _ _ _ _ found => exact follows.filled found
  | case3 _ _ _ _ _ _ found => exact follows.filled found
  | case4 _ c _ _ _ found =>
    have := follows.readByte c
    rw [found] at this
    exact this
  | case5 _ _ _ _ found => exact byte found
  | case6 _ _ _ _ _ found _ _ _ ih => exact tracks.trans (byte found) ih
  | case7 _ _ _ _ _ found => exact byte found

/-- What looking for an HTTP header leaves of the supply of a cursor. -/
theorem supply_onward_read (declared : Nat) (c : Cursor σ) : rest c.supply (read declared c).state.supply := by
  have drafted := supply_onward_readDraft tracks c.pushbackSize declared .empty c
  unfold read
  split
  · next found =>
    rw [found] at drafted
    exact drafted
  · next found =>
    rw [found] at drafted
    exact drafted
  all_goals
    next draft c' found =>
      rw [found] at drafted
      have back := Cursor.supply_unread draft.recorded.reverse c'
      split
      all_goals
        next pushed =>
          rw [pushed] at back
          simp only [Outcome.state] at back ⊢
          rw [back]
          exact drafted

end Http.Head

end Content

namespace Entry

variable {τ : Type} [Supply τ] {after : Cursor τ → Cursor τ → Prop} (follows : Cursor.Follows after)
  (options : Options) {isMember : Bool} (header : RecordHeader) {findings : Findings} {c : Cursor τ} (entry : Entry τ)

include follows

theorem onward_takeHead (body : Body (Cursor τ)) : after body.source (takeHead options header body).state.source := by
  unfold takeHead
  split
  · exact follows.refl _
  · split
    · exact follows.refl _
    · have read := Http.Head.supply_onward_read (Span.tracks_inner follows.tracks) header.declared body.cursor
      have parsed : after body.source (body.parse (Http.Head.read header.declared)).state.source := by
        unfold Body.parse
        split
        all_goals
          next found =>
            rw [found] at read
            exact read
      split
      · next found =>
        rw [found] at parsed
        exact parsed
      · next found =>
        rw [found] at parsed
        exact parsed
      · next found =>
        rw [found] at parsed
        simp only [Outcome.state]
        split <;> exact parsed

/-- What opening a record leaves of its source. -/
theorem onward_ofHeader {entry : Entry τ} (opened : ofHeader options isMember header findings c = .ok entry) :
    after c entry.source := by
  unfold ofHeader at opened
  dsimp only at opened
  split at opened
  · have lines := VersionLines.supply_onward_take (Span.tracks_inner follows.tracks) (Body.create c header.declared
      (options.blockDigest.map .start) options.bufferSize (contentPushback options header)).cursor
    split at opened
    · cases opened
    · next found =>
      cases opened
      rw [found] at lines
      exact lines
  · have head := onward_takeHead follows options header (Body.create c header.declared
      (options.blockDigest.map .start) options.bufferSize (contentPushback options header))
    split at opened
    · cases opened
    · next found =>
      cases opened
      rw [found] at head
      exact head

theorem onward_read (n : Nat) : after entry.source (read n entry).state.source := by
  unfold read
  split
  · exact follows.refl _
  · next body stands =>
    have reads := Body.source_onward_read follows.tracks n body
    rw [show entry.source = body.source by simp [source, stands]]
    split
    all_goals
      next found =>
        rw [found] at reads
        exact reads

theorem onward_fill : after entry.source (fill entry).state.source := by
  unfold fill
  split
  · exact follows.refl _
  · next body stands =>
    have fills := Body.source_onward_fill follows.tracks body
    rw [show entry.source = body.source by simp [source, stands]]
    split
    all_goals
      next found =>
        rw [found] at fills
        exact fills

omit [Supply τ] follows in
theorem source_advance (n : Nat) : (entry.advance n).source = entry.source := by
  unfold advance
  split
  · rfl
  · next body stands =>
    rw [show entry.source = body.source by simp [source, stands]]
    simp only [source, Body.source, Body.advance, Cursor.supply_advance]

theorem onward_passRest (c : Cursor τ) : after c (passRest entry c).state.source := by
  have trailer : after c (passTrailer entry c).state := by
    have taken := Trailer.onward_take follows .nothing c
    unfold passTrailer
    split
    · exact follows.refl _
    · split
      all_goals
        next found =>
          rw [found] at taken
          exact taken
  have member (entry : Entry τ) (c : Cursor τ) : after c (passMember entry c).state := by
    have skipped := follows.skipFrom 0 (c.left + 1) c
    unfold passMember Cursor.skipAll
    split
    · exact follows.refl _
    · split
      all_goals
        next found =>
          rw [found] at skipped
          exact skipped
  unfold passRest
  split
  · next found =>
    rw [found] at trailer
    exact trailer
  · next more c' found =>
    rw [found] at trailer
    have extra := member { entry with findings := entry.findings ++ more } c'
    dsimp only
    split
    all_goals
      next passed =>
        rw [passed] at extra
        exact follows.trans trailer extra

theorem onward_close : after entry.source entry.close.state.source := by
  unfold close
  split
  · exact follows.refl _
  · next body stands =>
    have closed := Body.source_onward_close follows.tracks body
    rw [show entry.source = body.source by simp [source, stands]]
    split
    · next found =>
      rw [found] at closed
      exact closed
    · next result c' found =>
      rw [found] at closed
      exact follows.trans closed (onward_passRest follows (entry.withSealed result) c')

theorem onward_call (hand : Hand τ) (call : Call) :
    after hand.entry.source (hand.call call).state.entry.source := by
  cases call with
  | read n =>
    have reads := onward_read follows hand.entry n
    unfold Hand.call
    dsimp only
    split
    all_goals
      next found =>
        rw [found] at reads
        exact reads
  | fill =>
    have fills := onward_fill follows hand.entry
    unfold Hand.call
    dsimp only
    split
    all_goals
      next found =>
        rw [found] at fills
        exact fills
  | consume n =>
    change after hand.entry.source (hand.entry.advance _).source
    rw [source_advance]
    exact follows.refl _
  | close =>
    have closed := onward_close follows hand.entry
    unfold Hand.call
    dsimp only
    split
    all_goals
      next found =>
        rw [found] at closed
        exact closed

/-- What any calls on a record leave of its source. -/
theorem onward_calls (calls : List Call) (hand : Hand τ) :
    after hand.entry.source (Hand.calls calls hand).state.entry.source := by
  induction calls generalizing hand with
  | nil => exact follows.refl _
  | cons call more ih =>
    have first := onward_call follows hand call
    unfold Hand.calls
    split
    · next hand' found =>
      rw [found] at first
      exact follows.trans first (ih hand')
    · next found =>
      rw [found] at first
      exact first

/-- What reading a record to its end leaves of its source. -/
theorem onward_readAll (stride : Nat) (taken : Bytes) :
    after entry.source (Supply.readAll stride taken entry).2.state.source := by
  have read (entry : Entry τ) := onward_read follows entry stride
  fun_induction Supply.readAll stride taken entry with
  | case1 _ entry _ _ found =>
    have := read entry
    rw [show Entry.read stride entry = _ from found] at this
    exact this
  | case2 _ entry _ found =>
    have := read entry
    rw [show Entry.read stride entry = _ from found] at this
    exact this
  | case3 _ entry _ _ _ found _ ih =>
    have := read entry
    rw [show Entry.read stride entry = _ from found] at this
    exact follows.trans this ih

omit follows in
theorem keeps_header (header : RecordHeader) : Supply.Keeps fun entry : Entry τ => entry.header = header := by
  constructor
  intro n entry entry' data same found
  have found : read n entry = .ok data entry' := found
  unfold read at found
  split at found
  · cases found
    exact same
  · split at found
    · cases found
      exact same
    · cases found

omit follows in
theorem header_close {entry entry' : Entry τ} (closed : entry.close = .ok () entry') :
    entry'.header = entry.header := by
  have passed {entry : Entry τ} {c : Cursor τ} (rest : passRest entry c = .ok () entry') :
      entry'.header = entry.header := by
    unfold passRest at rest
    split at rest
    · cases rest
    · dsimp only at rest
      split at rest
      · cases rest
      · cases rest
        rfl
  unfold close at closed
  split at closed
  · cases closed
    rfl
  · split at closed
    · cases closed
    · have same := passed closed
      exact same

end Entry

end ArcFile
