import ArcFile.Gzip.Inflater
import ArcFile.Gzip.Member
/-!
Reading the content of gzip members. An `Unpacker` is a supply of the content of one member, which it reads from
a cursor; at the end of the content it has checked the trailer and left the cursor behind it. A fault
in the header shows at the first read.

Content is decoded in blocks of the decoder's window, so a fault in the data loses what was decoded along
with it and not yet delivered. Where the stream ends within the data, what a read has no room for is lost.
-/
namespace ArcFile.Gzip

/-- How far the reading of a member has come. -/
inductive Unpacker.Stage where
  | failed (fault : Fault)
  /-- The last `pending` bytes of the decoder's output have not been delivered. -/
  | content (inflater : Inflater) (pending : Nat)
  | ended

structure Unpacker (σ : Type) where
  stream : Cursor σ
  stage : Unpacker.Stage

namespace Inflater

/-- Up to `n` of the last `pending` bytes of the output, the first of them. -/
def deliver (n pending : Nat) (s : Inflater) : Bytes :=
  let start := s.window.size - pending
  (s.window.extract start (start + min n pending)).toList

theorem length_deliver_le (n pending : Nat) (s : Inflater) :
    (s.deliver n pending).length ≤ n ∧ (s.deliver n pending).length + (pending - min n pending) ≤ pending := by
  simp [deliver]
  omega

/-- Decodes block by block until there are `n` more bytes or the decoder must stop. A block is only
begun if there is at least a byte to decode it from. -/
def decodeBlocks (n : Nat) (s : Inflater) : Inflater × Stop :=
  let after := s.decode s.room
  let fresh := after.1.window.size - s.window.size
  if h : after.2 = .full ∧ 0 < fresh ∧ fresh < n ∧ 8 ≤ after.1.bits.length then
    have : n - fresh < n := by omega
    decodeBlocks (n - fresh) after.1
  else after
termination_by n
decreasing_by exact this

theorem owed_decodeBlocks (n : Nat) (s : Inflater) :
    s.window.size ≤ (s.decodeBlocks n).1.window.size ∧
      (s.decodeBlocks n).1.window.size + (s.decodeBlocks n).1.owed ≤ s.window.size + s.owed := by
  induction n using Nat.strongRecOn generalizing s with
  | ind n ih =>
    have first := owed_decode s.room s
    unfold decodeBlocks
    dsimp only
    split
    · have := ih (n - ((s.decode s.room).1.window.size - s.window.size)) (by omega) (s.decode s.room).1
      omega
    · exact first

/-- Takes in more data. -/
def feed (data : Bytes) (s : Inflater) : Inflater := { s with bits := s.bits ++ Bits.ofBytes data }

theorem owed_feed (data : Bytes) (s : Inflater) : (s.feed data).owed = s.owed + 2064 * data.length := by
  simp [feed, owed, Bits.length_ofBytes]
  omega

/-- Gives up the last `n` bytes that were taken in. -/
def giveBack (n : Nat) (s : Inflater) : Inflater :=
  { s with bits := s.bits.take (s.bits.length - 8 * n) }

theorem owed_giveBack {n : Nat} {s : Inflater} (le : 8 * n ≤ s.bits.length) :
    (s.giveBack n).owed + 2064 * n = s.owed := by
  simp [giveBack, owed]
  omega

/-- What came of a chunk of data. -/
structure Portion where
  /-- The bytes that are delivered. -/
  data : Bytes
  inflater : Inflater
  pending : Nat
  /-- The number of bytes at the end of the chunk that are not needed now. -/
  unused : Nat

/-- Delivers up to `n` bytes: first those that are pending, and only if there are none, more that are
decoded with this chunk. An empty chunk means that no more data comes; what the data so far gives is
then delivered once. -/
def process (n pending : Nat) (chunk : Bytes) (s : Inflater) : Except Fault Portion :=
  if pending ≠ 0 then .ok ⟨s.deliver n pending, s, pending - min n pending, chunk.length⟩
  else
    let after := (s.feed chunk).decodeBlocks n
    let fresh := after.1.window.size - s.window.size
    if after.2 = .corrupt then .error .deflateCorrupt
    else if chunk.isEmpty ∧ after.2 = .short then
      if fresh = 0 then .error .deflateIncomplete else .ok ⟨after.1.deliver n fresh, after.1, 0, 0⟩
    else
      let unused := if after.2 = .short then 0 else min chunk.length (after.1.bits.length / 8)
      .ok ⟨after.1.deliver n fresh, after.1.giveBack unused, fresh - min n fresh, unused⟩

/-- What is delivered and what is still to come are paid for by the chunk. -/
theorem owed_process {n pending : Nat} {chunk : Bytes} {s : Inflater} {p : Portion}
    (h : s.process n pending chunk = .ok p) :
    p.unused ≤ chunk.length ∧ p.data.length ≤ n ∧
      p.data.length + p.pending + p.inflater.owed + 2064 * p.unused ≤
        pending + s.owed + 2064 * chunk.length := by
  unfold process at h
  split at h
  · cases h
    have := length_deliver_le n pending s
    dsimp only
    omega
  · have grows := owed_decodeBlocks n (s.feed chunk)
    have same : (s.feed chunk).window.size = s.window.size := rfl
    rw [owed_feed, same] at grows
    dsimp only at h
    split at h
    · cases h
    · split at h
      · split at h
        · cases h
        · cases h
          have given := length_deliver_le n
            (((s.feed chunk).decodeBlocks n).1.window.size - s.window.size)
            ((s.feed chunk).decodeBlocks n).1
          dsimp only
          omega
      · cases h
        generalize (s.feed chunk).decodeBlocks n = after at *
        have given := length_deliver_le n (after.1.window.size - s.window.size) after.1
        dsimp only
        split
        · have := @owed_giveBack 0 after.1 (by omega)
          omega
        · have := @owed_giveBack (min chunk.length (after.1.bits.length / 8)) after.1 (by omega)
          omega

end Inflater

namespace Unpacker

variable {σ : Type} [Supply σ]

/-- Begins with a member at the cursor. -/
def create (stream : Cursor σ) : Unpacker σ :=
  match Member.takeHeader stream with
  | .ok _ stream => ⟨stream, .content .start 0⟩
  | .error fault stream => ⟨stream, .failed fault⟩

/-- Delivers up to `n` bytes of content, none only at its end. -/
def pump (n pending : Nat) (s : Inflater) (stream : Cursor σ) :
    Outcome (Cursor σ) (Bytes × Inflater × Nat) :=
  match found : Cursor.fill stream with
  | .error fault stream => .error fault stream
  | .ok chunk stream' =>
    match s.process n pending chunk with
    | .error fault => .error fault stream'
    | .ok p =>
      if h : p.data.isEmpty ∧ ¬ p.inflater.phase.isFinished ∧ p.unused < chunk.length then
        have : (stream'.advance (chunk.length - p.unused)).left < stream.left := by
          obtain ⟨_, less, gone⟩ := Cursor.fill_ok found
          have := gone (chunk.length - p.unused) (Nat.sub_le _ _)
          omega
        pump n p.pending p.inflater (stream'.advance (chunk.length - p.unused))
      else .ok (p.data, p.inflater, p.pending) (stream'.advance (chunk.length - p.unused))
termination_by stream.left

def read (n : Nat) (u : Unpacker σ) : Outcome (Unpacker σ) Bytes :=
  match u.stage with
  | .failed fault => .error fault u
  | .ended => .ok [] u
  | .content s pending =>
    if n = 0 then .ok [] u
    else
      match pump n pending s u.stream with
      | .error fault stream => .error fault ⟨stream, .failed fault⟩
      | .ok ([], s, _) stream =>
        match Member.takeTrailer s.window.toList stream with
        | .ok _ stream => .ok [] ⟨stream, .ended⟩
        | .error fault stream => .error fault ⟨stream, .failed fault⟩
      | .ok (b :: more, s, pending) stream => .ok (b :: more) ⟨stream, .content s pending⟩

/-- What a decoder with this much pending may still deliver from a stream: a byte of the stream has
eight bits, and each of them gives at most 258 bytes. -/
def promised (pending : Nat) (s : Inflater) (stream : Cursor σ) : Nat :=
  pending + s.owed + 2064 * stream.left

theorem promised_of_pump {n pending pending' : Nat} {s s' : Inflater} {c c' : Cursor σ} {data : Bytes}
    (h : pump n pending s c = .ok (data, s', pending') c') :
    data.length ≤ n ∧ data.length + promised pending' s' c' ≤ promised pending s c := by
  fun_induction pump n pending s c with
  | case1 => cases h
  | case2 => cases h
  | case3 pending s c chunk c'' found p processed _ _ ih =>
    obtain ⟨_, less, gone⟩ := Cursor.fill_ok found
    have := gone (chunk.length - p.unused) (Nat.sub_le _ _)
    have := Inflater.owed_process processed
    have := ih h
    simp only [promised] at *
    omega
  | case4 pending s c chunk c'' found p processed =>
    cases h
    obtain ⟨_, less, gone⟩ := Cursor.fill_ok found
    have := gone (chunk.length - p.unused) (Nat.sub_le _ _)
    have := Inflater.owed_process processed
    simp only [promised]
    omega

theorem left_pump (n pending : Nat) (s : Inflater) (c : Cursor σ) :
    (pump n pending s c).state.left ≤ c.left := by
  fun_induction pump n pending s c with
  | case1 _ _ _ _ _ found => exact Cursor.fill_error found
  | case2 _ _ _ _ _ found => exact (Cursor.fill_ok found).2.1
  | case3 pending s c chunk c'' found p _ _ smaller ih => omega
  | case4 pending s c chunk c'' found p =>
    obtain ⟨_, less, gone⟩ := Cursor.fill_ok found
    have := gone (chunk.length - p.unused) (Nat.sub_le _ _)
    simp only [Outcome.state]
    omega

/-- A bound on what can still be read from the unpacker, and from its stream after it. -/
def bound (u : Unpacker σ) : Nat :=
  match u.stage with
  | .content s pending => promised pending s u.stream
  | _ => 2064 * u.stream.left

theorem left_stream_le_bound (u : Unpacker σ) : 2064 * u.stream.left ≤ bound u := by
  unfold bound
  split
  · exact Nat.le_add_left _ _
  · exact Nat.le_refl _

theorem read_ok {n : Nat} {u u' : Unpacker σ} {data : Bytes} (h : read n u = .ok data u') :
    data.length ≤ n ∧ data.length + bound u' ≤ bound u := by
  unfold read at h
  split at h
  · cases h
  · cases h
    simp
  · next s pending stands =>
    split at h
    · cases h
      simp
    · have less := left_pump n pending s u.stream
      split at h
      · cases h
      · next s' _ stream found =>
        have after := Member.shrinks_takeTrailer s'.window.toList stream
        split at h
        · next trailed =>
          cases h
          rw [found] at less
          rw [trailed] at after
          simp only [Outcome.state, bound, stands, promised, List.length_nil] at *
          omega
        · cases h
      · next found =>
        cases h
        have := promised_of_pump found
        simpa [bound, stands] using this

theorem read_error {n : Nat} {u u' : Unpacker σ} {fault : Fault} (h : read n u = .error fault u') :
    bound u' ≤ bound u := by
  unfold read at h
  split at h
  · cases h
    exact Nat.le_refl _
  · cases h
  · next s pending stands =>
    split at h
    · cases h
    · have less := left_pump n pending s u.stream
      split at h
      · next found =>
        cases h
        rw [found] at less
        simp only [Outcome.state, bound, stands, promised] at *
        omega
      · next s' _ stream found =>
        have after := Member.shrinks_takeTrailer s'.window.toList stream
        split at h
        · cases h
        · next trailed =>
          cases h
          rw [found] at less
          rw [trailed] at after
          simp only [Outcome.state, bound, stands, promised] at *
          omega
      · cases h

instance : Supply (Unpacker σ) where
  read := read
  bound := bound
  read_ok := read_ok
  read_error := read_error

/-- If the start of a member was looked at, less can still be read after its header. -/
theorem bound_create_lt {c : Cursor σ} (held : c.pushback.bytes ≠ []) :
    bound (create c) < 2064 * c.left := by
  have less := Member.left_takeHeader held
  unfold create
  split
  · next found =>
    rw [found] at less
    simp only [Outcome.state, bound, promised] at *
    simp [Inflater.owed, Inflater.start, Phase.owed]
    omega
  · next found =>
    rw [found] at less
    simp only [Outcome.state, bound] at *
    omega

end Unpacker
end ArcFile.Gzip
