import ArcFile.Proofs.Supply.Steady
import ArcFile.Supply.Action
import ArcFile.Supply.Span
/-!
What reading leaves of a supply. A relation that every read of a supply keeps is kept by whatever is read through a
cursor, a span or a body over it, however much that is and whether it faults or not. The relation `Gone` is one of these:
the count of a cursor only grows, and what has been handed out and what can still come are never more than they were.
-/
namespace ArcFile

namespace Supply

variable {σ : Type} [Supply σ]

/-- Something that holds between a supply and what any read leaves of it. -/
structure Tracks (after : σ → σ → Prop) : Prop where
  refl : ∀ s : σ, after s s
  trans : ∀ {s s' s'' : σ}, after s s' → after s' s'' → after s s''
  read : ∀ (n : Nat) (s : σ), after s (Outcome.state (read n s))

/-- `most s k` says that `s` gives at most `k` more bytes. -/
structure AtMost (most : σ → Nat → Prop) : Prop where
  read : ∀ {n k : Nat} {s s' : σ} {data : Bytes}, most s k → Supply.read n s = .ok data s' →
    ∃ k', most s' k' ∧ data.length + k' ≤ k
  fault : ∀ {n k : Nat} {s s' : σ} {fault : Fault}, most s k → Supply.read n s = .error fault s' →
    ∃ k', most s' k' ∧ k' ≤ k

/-- The supply gives at most this many bytes, whether it ends or faults then. -/
def GivesAtMost (s : σ) (size : Nat) : Prop :=
  ∃ most : σ → Nat → Prop, AtMost most ∧ most s size

theorem givesAtMost_bound (s : σ) : GivesAtMost s (bound s) :=
  ⟨fun s k => bound s ≤ k,
    { read := fun most found => ⟨_, Nat.le_refl _, Nat.le_trans (read_ok found).2 most⟩
      fault := fun most found => ⟨_, Nat.le_refl _, Nat.le_trans (read_error found) most⟩ }, Nat.le_refl _⟩

/-- A supply that gives some data and then ends gives at most that. -/
theorem Yields.givesAtMost {s : σ} {data : Bytes} (yields : Yields s data) : GivesAtMost s data.length := by
  obtain ⟨holds, steady, held⟩ := yields
  refine ⟨fun s k => ∃ data, holds s data ∧ data.length ≤ k, ⟨?_, ?_⟩, data, held, Nat.le_refl _⟩
  · rintro n k s s' data ⟨all, held, most⟩ found
    obtain ⟨got, rest, left, read, rfl, -, after⟩ := steady.read n held
    obtain ⟨rfl, rfl⟩ := EStateM.Result.ok.inj (found.symm.trans read)
    rw [List.length_append] at most
    exact ⟨rest.length, ⟨rest, after, Nat.le_refl _⟩, most⟩
  · rintro n k s s' fault ⟨all, held, most⟩ found
    obtain ⟨got, rest, left, read, -⟩ := steady.read n held
    cases found.symm.trans read

end Supply

namespace Cursor

variable {σ : Type} {after : Cursor σ → Cursor σ → Prop} {most : σ → Nat → Prop}

theorem supply_advance (n : Nat) (c : Cursor σ) : (c.advance n).supply = c.supply := by
  unfold advance
  split <;> rfl

theorem supply_unread (data : Bytes) (c : Cursor σ) : (unread data c).state.supply = c.supply := by
  unfold unread
  split <;> rfl

theorem consumed_advance (n : Nat) (c : Cursor σ) : (c.advance n).consumed = c.consumed + n := by
  unfold advance
  split <;> rfl

/-- What has been handed out and what can still come are at most `total` bytes. -/
def Sums (most : σ → Nat → Prop) (total : Nat) (c : Cursor σ) : Prop :=
  ∃ k, most c.supply k ∧ c.consumed + c.pushback.bytes.length + c.buffer.length + k ≤ total

/-- The second cursor is what some use has left of the first one. -/
structure Gone (most : σ → Nat → Prop) (c c' : Cursor σ) : Prop where
  consumed : c.consumed ≤ c'.consumed
  sums : ∀ {total : Nat}, Sums most total c → Sums most total c'

theorem Sums.consumed_le {total : Nat} {c : Cursor σ} (h : c.Sums most total) : c.consumed ≤ total := by
  obtain ⟨k, -, sum⟩ := h
  omega

theorem sums_create {size : Nat} {s : σ} (given : most s size) (capacity pushback : Nat) :
    (create s capacity pushback).Sums most size :=
  ⟨size, given, by simp [create, Pushback.empty]⟩

theorem Gone.refl (c : Cursor σ) : c.Gone most c := ⟨Nat.le_refl _, id⟩

theorem Gone.trans {c c' c'' : Cursor σ} (first : c.Gone most c') (second : c'.Gone most c'') : c.Gone most c'' :=
  ⟨Nat.le_trans first.consumed second.consumed, fun sums => second.sums (first.sums sums)⟩

/-- Pushing back what was handed out last. -/
theorem gone_unread {data : Bytes} {c c' : Cursor σ} (gone : c.Gone most c')
    (count : c'.consumed = c.consumed + data.length) :
    c.Gone most (unread data c').state ∧
      ∀ c'', unread data c' = .ok () c'' → c''.consumed = c.consumed := by
  unfold unread
  split
  · next pushback found =>
    have more : pushback.bytes.length = data.length + c'.pushback.bytes.length := by
      simp only [Pushback.push?] at found
      split at found
      · cases found
        exact List.length_append
      · cases found
    refine ⟨⟨?_, fun sums => ?_⟩, fun c'' is => ?_⟩
    · simp only [Outcome.state]
      omega
    · obtain ⟨k, left, sum⟩ := gone.sums sums
      refine ⟨k, left, ?_⟩
      simp only [Outcome.state]
      omega
    · cases is
      simp only
      omega
  · exact ⟨gone, fun c'' is => by cases is⟩

variable [Supply σ]

/-- Something that holds between a cursor and what any use leaves of it. Only bytes that have been shown are handed
out, and only the last byte is pushed back. -/
structure Follows (after : Cursor σ → Cursor σ → Prop) : Prop where
  refl : ∀ c : Cursor σ, after c c
  trans : ∀ {c c' c'' : Cursor σ}, after c c' → after c' c'' → after c c''
  fill : ∀ c : Cursor σ, after c (fill c).state
  advance : ∀ {c c' : Cursor σ} {data : Bytes} {n : Nat}, Cursor.fill c = .ok data c' → n ≤ data.length →
    after c' (c'.advance n)
  read : ∀ (n : Nat) (c : Cursor σ), after c (read n c).state
  unread : ∀ {c c' : Cursor σ} {b : UInt8}, readByte c = .ok (some b) c' → after c (unread [b] c').state

/-- What a use leaves of the supply of a cursor. -/
theorem follows_supply {rest : σ → σ → Prop} (tracks : Supply.Tracks rest) :
    Follows fun c c' : Cursor σ => rest c.supply c'.supply := by
  have filled (c : Cursor σ) : rest c.supply (fill c).state.supply := by
    have read := tracks.read c.capacity c.supply
    unfold fill
    split
    · exact tracks.refl _
    · split
      · exact tracks.refl _
      · split
        · exact tracks.refl _
        · split
          all_goals
            next found =>
              rw [found] at read
              exact read
  constructor
  case refl => exact fun c => tracks.refl _
  case trans => exact tracks.trans
  case fill => exact filled
  case advance =>
    intro c c' data n _ _
    rw [supply_advance]
    exact tracks.refl _
  case read =>
    intro n c
    have direct := tracks.read n c.supply
    have shown := filled c
    unfold read
    split
    · split
      all_goals
        next found =>
          rw [found] at direct
          exact direct
    · split
      · next found =>
        rw [found] at shown
        simp only [Outcome.state, supply_advance]
        exact shown
      · next found =>
        rw [found] at shown
        exact shown
  case unread =>
    intro c c' b found
    have shown := filled c
    rw [supply_unread]
    unfold readByte at found
    split at found
    · cases found
    · next found' =>
      cases found
      rw [found'] at shown
      simp only [supply_advance]
      exact shown
    · cases found

namespace Follows

variable (follows : Follows after)

include follows

theorem filled {c c' : Cursor σ} {data : Bytes} (found : Cursor.fill c = .ok data c') : after c c' := by
  have := follows.fill c
  rw [found] at this
  exact this

/-- What was shown and handed out. -/
theorem taken {c c' : Cursor σ} {data : Bytes} {n : Nat} (found : Cursor.fill c = .ok data c')
    (most : n ≤ data.length) : after c (c'.advance n) :=
  follows.trans (follows.filled found) (follows.advance found most)

theorem fault {c c' : Cursor σ} {fault : Fault} (found : Cursor.fill c = .error fault c') : after c c' := by
  have := follows.fill c
  rw [found] at this
  exact this

/-- What holds between a cursor and what a read leaves of it holds for whatever reads the cursor. -/
theorem tracks : Supply.Tracks after := ⟨follows.refl, follows.trans, follows.read⟩

theorem readByte (c : Cursor σ) : after c (readByte c).state := by
  unfold Cursor.readByte
  split
  · next found => exact follows.filled found
  · next found => exact follows.taken found (Nat.le_add_left _ _)
  · next found => exact follows.fault found

theorem takeLine (line : Option Bytes) (c : Cursor σ) : after c (takeLine line c).state := by
  fun_induction Cursor.takeLine line c with
  | case1 _ _ _ _ found => exact follows.fault found
  | case2 _ _ _ found => exact follows.filled found
  | case3 _ _ _ _ _ found _ _ shorter => exact follows.taken found shorter
  | case4 _ _ _ _ _ found _ _ _ _ ih => exact follows.trans (follows.taken found (Nat.le_refl _)) ih

theorem readLine (c : Cursor σ) : after c (readLine c).state := by
  have taken := follows.takeLine none c
  unfold Cursor.readLine
  split
  all_goals
    next found =>
      rw [found] at taken
      exact taken

theorem readUpTo (n : Nat) (data : Bytes) (c : Cursor σ) : after c (readUpTo n data c).state := by
  fun_induction Cursor.readUpTo n data c with
  | case1 => exact follows.refl _
  | case2 n _ c _ _ _ found =>
    have := follows.read n c
    rw [found] at this
    exact this
  | case3 n _ c _ _ found =>
    have := follows.read n c
    rw [found] at this
    exact this
  | case4 n _ c _ _ _ _ found _ ih =>
    have := follows.read n c
    rw [found] at this
    exact follows.trans this ih

theorem skipFrom (skipped n : Nat) (c : Cursor σ) : after c (skipFrom skipped n c).state := by
  fun_induction Cursor.skipFrom skipped n c with
  | case1 => exact follows.refl _
  | case2 _ _ _ _ _ _ found => exact follows.fault found
  | case3 _ _ _ _ _ found => exact follows.filled found
  | case4 _ _ _ _ _ _ _ found _ ih => exact follows.trans (follows.taken found (Nat.min_le_right _ _)) ih

/-- What is left by the parts of a cursor's contents that are put together from reads. -/
theorem along : Tracks after := ⟨follows.refl, follows.trans, fun n c => follows.readUpTo n [] c⟩

end Follows

section Gone

theorem consumed_fill (c : Cursor σ) : (fill c).state.consumed = c.consumed := by
  unfold fill
  repeat' split
  all_goals rfl

theorem consumed_of_fill {c c' : Cursor σ} {data : Bytes} (found : fill c = .ok data c') :
    c'.consumed = c.consumed := by
  have := consumed_fill c
  rwa [found] at this

theorem consumed_of_read {n : Nat} {c c' : Cursor σ} {data : Bytes} (found : read n c = .ok data c') :
    c'.consumed = c.consumed + data.length := by
  unfold read at found
  split at found
  · split at found
    · cases found
      rfl
    · cases found
  · split at found
    · next filled =>
      cases found
      rw [consumed_advance, consumed_of_fill filled]
    · cases found

theorem consumed_of_readUpTo {n : Nat} {taken data : Bytes} {c c' : Cursor σ}
    (found : readUpTo n taken c = .ok data c') : c'.consumed + taken.length = c.consumed + data.length := by
  fun_induction readUpTo n taken c with
  | case1 =>
    cases found
    simp
  | case2 => cases found
  | case3 _ _ _ _ _ read =>
    cases found
    have := consumed_of_read read
    simp at *
    omega
  | case4 _ _ _ _ _ _ _ read _ ih =>
    have := consumed_of_read read
    have := ih found
    simp at *
    omega

/-- What comes next is read and, whether it is all that was asked for or not, pushed back once. -/
theorem peek_eq {n : Nat} {c c' : Cursor σ} {data : Bytes} (found : readUpTo n [] c = .ok data c') :
    peek n c = match unread data c' with
      | .ok () last => .ok data last
      | .error fault last => .error fault last := by
  have size := (readUpTo_ok found).1
  rw [List.length_nil, Nat.add_zero] at size
  unfold peek readFully
  rw [found]
  rcases Nat.lt_or_eq_of_le size with fewer | all
  · cases back : unread data c' with
    | error fault last => simp only [fewer, back, ↓reduceIte]
    | ok _ last => simp only [fewer, back, Nat.ne_of_lt fewer, ↓reduceIte]
  · cases back : unread data c' with
    | error fault last => simp only [all, back, Nat.lt_irrefl, ↓reduceIte]
    | ok _ last => simp only [all, back, Nat.lt_irrefl, ↓reduceIte]

/-- The count only grows, and what comes is taken from what can come. -/
theorem follows_gone (atMost : Supply.AtMost most) : Follows (σ := σ) (Gone most) := by
  have filled (c : Cursor σ) : c.Gone most (fill c).state := by
    refine ⟨Nat.le_of_eq (consumed_fill c).symm, fun {total} sums => ?_⟩
    obtain ⟨k, left, sum⟩ := sums
    unfold fill
    split
    · exact ⟨k, left, sum⟩
    · split
      · exact ⟨k, left, sum⟩
      · next dry =>
        simp only [Bool.not_eq_true', Bool.not_eq_false, List.isEmpty_iff] at dry
        rw [dry, List.length_nil] at sum
        split
        · exact ⟨k, left, by simpa [Outcome.state, dry] using sum⟩
        · split
          · next found =>
            obtain ⟨k', left', less⟩ := atMost.read left found
            exact ⟨k', left', by simp only [Outcome.state]; omega⟩
          · next found =>
            obtain ⟨k', left', less⟩ := atMost.fault left found
            exact ⟨k', left', by simp only [Outcome.state, dry, List.length_nil]; omega⟩
  have advanced {c c' : Cursor σ} {data : Bytes} {n : Nat} (found : fill c = .ok data c') (most' : n ≤ data.length) :
      c'.Gone most (c'.advance n) := by
    refine ⟨by rw [consumed_advance]; omega, fun {total} sums => ?_⟩
    obtain ⟨k, left, sum⟩ := sums
    have less := (fill_ok found).2.2 n most'
    refine ⟨k, by rwa [supply_advance], ?_⟩
    rw [consumed_advance]
    simp only [Cursor.left, supply_advance] at less
    omega
  constructor
  case refl => exact Gone.refl
  case trans => exact Gone.trans
  case fill => exact filled
  case advance => exact advanced
  case read =>
    intro n c
    unfold read
    split
    · next dry =>
      refine ⟨by split <;> simp [Outcome.state], fun {total} sums => ?_⟩
      obtain ⟨k, left, sum⟩ := sums
      split
      · next found =>
        obtain ⟨k', left', less⟩ := atMost.read left found
        exact ⟨k', left', by simp only [Outcome.state]; omega⟩
      · next found =>
        obtain ⟨k', left', less⟩ := atMost.fault left found
        exact ⟨k', left', by simp only [Outcome.state]; omega⟩
    · have shown := filled c
      split
      · next found =>
        rw [found] at shown
        exact shown.trans (advanced found (List.length_take_le' _ _))
      · next found =>
        rw [found] at shown
        exact shown
  case unread =>
    intro c c' b found
    have shown := filled c
    unfold readByte at found
    split at found
    · cases found
    · next found' =>
      cases found
      rw [found'] at shown
      have more := advanced found' (Nat.le_add_left 1 _)
      refine (gone_unread (shown.trans more) ?_).1
      rw [consumed_advance, consumed_of_fill found', List.length_singleton]
    · cases found

variable (atMost : Supply.AtMost most)

include atMost

/-- A cursor gives what it holds back and what its supply gives. -/
theorem atMost_cursor : Supply.AtMost fun (c : Cursor σ) k => c.Sums most (c.consumed + k) where
  read {n k c c' data} sums found := by
    have gone := (follows_gone atMost).read n c
    have count := consumed_of_read (c := c) found
    rw [show Cursor.read n c = .ok data c' from found] at gone
    obtain ⟨j, left, sum⟩ := gone.sums sums
    simp only [Outcome.state] at left sum
    exact ⟨c'.pushback.bytes.length + c'.buffer.length + j, ⟨j, left, by omega⟩, by omega⟩
  fault {n k c c' fault} sums found := by
    have gone := (follows_gone atMost).read n c
    rw [show Cursor.read n c = .error fault c' from found] at gone
    have less := gone.consumed
    obtain ⟨j, left, sum⟩ := gone.sums sums
    simp only [Outcome.state] at left sum less
    exact ⟨c'.pushback.bytes.length + c'.buffer.length + j, ⟨j, left, by omega⟩, by omega⟩

/-- Looking at what comes next takes nothing. -/
theorem gone_peek (n : Nat) (c : Cursor σ) :
    c.Gone most (peek n c).state ∧ ∀ data c', peek n c = .ok data c' → c'.consumed = c.consumed := by
  have upTo := (follows_gone atMost).readUpTo n [] c
  cases found : readUpTo n [] c with
  | error fault c' =>
    rw [found] at upTo
    unfold peek readFully
    rw [found]
    exact ⟨upTo, fun data last is => by cases is⟩
  | ok data c' =>
    have upTo : c.Gone most c' := by rwa [found] at upTo
    have count := consumed_of_readUpTo found
    rw [List.length_nil, Nat.add_zero] at count
    obtain ⟨gone, back⟩ := gone_unread upTo count
    rw [peek_eq found]
    cases pushed : unread data c' with
    | error fault last =>
      rw [pushed] at gone
      exact ⟨gone, fun data last is => by cases is⟩
    | ok _ last =>
      rw [pushed] at gone
      refine ⟨gone, fun data last' is => ?_⟩
      obtain ⟨-, rfl⟩ := EStateM.Result.ok.inj is
      exact back _ pushed

/-- A line takes something. -/
theorem consumed_lt_of_readLine {c c' : Cursor σ} {line : Bytes} (h : readLine c = .ok (some line) c') :
    c.consumed < c'.consumed := by
  unfold readLine at h
  split at h
  · next taken c'' found =>
    obtain ⟨there, rfl⟩ := EStateM.Result.ok.inj h
    obtain ⟨line', rfl, -⟩ := Option.map_eq_some_iff.1 there
    unfold takeLine at found
    split at found
    · cases found
    · cases found
    · next b more c1 filled =>
      have same := consumed_of_fill filled
      dsimp only at found
      split at found
      · obtain ⟨-, rfl⟩ := EStateM.Result.ok.inj found
        rw [consumed_advance]
        omega
      · have rest := ((follows_gone atMost).takeLine (some (((b :: more).takeWhile (· ≠ Bytes.lineFeed)).reverse ++
          (none : Option Bytes).getD [])) (c1.advance (b :: more).length)).consumed
        rw [found] at rest
        simp only [Outcome.state, consumed_advance, List.length_cons] at rest
        omega
  · cases h

/-- If something was pushed back, reading takes at least that. -/
theorem consumed_lt_of_pushback {n : Nat} {c : Cursor σ} (some : 0 < n) (held : c.pushback.bytes ≠ []) :
    c.consumed < (readUpTo n [] c).state.consumed := by
  obtain ⟨data, there, -, more⟩ := readUpTo_of_pushback [] some held
  have rest := ((follows_gone atMost).readUpTo (n - data.length) (data.reverse ++ []) (c.advance data.length)).consumed
  rw [consumed_advance] at rest
  rw [more]
  omega

end Gone

end Cursor

namespace Span

variable {σ : Type} [Supply σ] {rest : σ → σ → Prop} (tracks : Supply.Tracks rest)

include tracks

theorem tracks_inner : Supply.Tracks fun span span' : Span σ => rest span.inner span'.inner := by
  refine ⟨fun span => tracks.refl _, tracks.trans, fun n span => ?_⟩
  have reads := tracks.read (min n span.remaining) span.inner
  change rest span.inner (read n span).state.inner
  unfold read
  split
  · exact tracks.refl _
  · split
    all_goals
      next found =>
        rw [found] at reads
        exact reads

theorem inner_onward_passOver (span : Span σ) : rest span.inner (passOver span).state.inner := by
  have read (span : Span σ) : rest span.inner (read stride span).state.inner := (tracks_inner tracks).read stride span
  fun_induction passOver span with
  | case1 => exact tracks.refl _
  | case2 span _ _ _ found =>
    have := read span
    rw [found] at this
    exact this
  | case3 span _ _ found =>
    have := read span
    rw [found] at this
    exact this
  | case4 span _ _ _ _ found _ ih =>
    have := read span
    rw [found] at this
    exact tracks.trans this ih

theorem inner_onward_takeDigest (span : Span σ) : rest span.inner (takeDigest span).state.inner := by
  have closed : rest span.inner (close span).state.inner := by
    have passed := inner_onward_passOver tracks span
    unfold close
    split
    · exact tracks.refl _
    · split
      all_goals
        next found =>
          rw [found] at passed
          exact passed
  unfold takeDigest
  split
  all_goals
    next found =>
      rw [found] at closed
      exact closed

end Span

namespace Body

variable {σ : Type} [Supply σ] {rest : σ → σ → Prop} (tracks : Supply.Tracks rest)

include tracks

/-- What any use of its cursor leaves of the source of a body. -/
theorem follows_source : Cursor.Follows fun c c' : Cursor (Span σ) => rest c.supply.inner c'.supply.inner :=
  Cursor.follows_supply (Span.tracks_inner tracks)

theorem source_onward_read (n : Nat) (body : Body σ) : rest body.source (read n body).state.source := by
  have reads := (follows_source tracks).read n body.cursor
  unfold read
  split
  all_goals
    next found =>
      rw [found] at reads
      exact reads

theorem source_onward_fill (body : Body σ) : rest body.source (fill body).state.source := by
  have fills := (follows_source tracks).fill body.cursor
  unfold fill
  split
  all_goals
    next found =>
      rw [found] at fills
      exact fills

theorem source_onward_drain (body : Body σ) : rest body.source (drain body).state.source := by
  fun_induction drain body with
  | case1 _ _ _ found => exact (follows_source tracks).fault found
  | case2 _ _ found => exact (follows_source tracks).filled found
  | case3 _ _ _ _ found _ ih => exact tracks.trans ((follows_source tracks).taken found (Nat.le_refl _)) ih

theorem source_onward_close (body : Body σ) : rest body.source (close body).state := by
  have drained := source_onward_drain tracks body
  unfold close
  split
  · next found =>
    rw [found] at drained
    exact drained
  · next body' found =>
    rw [found] at drained
    have digest := Span.inner_onward_takeDigest tracks body'.cursor.supply
    split
    all_goals
      next closed =>
        rw [closed] at digest
        exact tracks.trans drained digest

end Body
end ArcFile
