import ArcFile.Archive.Packing
import ArcFile.Gzip.Unpacker
/-!
What records are read from: the data of a file as it is, or the content of one gzip member of it. Either way
the data itself is read through a cursor, whose count says how far the file has been read.
-/
namespace ArcFile

inductive Feed (σ : Type) where
  | plain (stream : Cursor σ)
  | member (unpacker : Gzip.Unpacker σ)

namespace Feed

variable {σ : Type}

def stream : Feed σ → Cursor σ
  | plain stream => stream
  | member unpacker => unpacker.stream

variable [Supply σ]

def read (n : Nat) : Feed σ → Outcome (Feed σ) Bytes
  | plain stream =>
    match Cursor.read n stream with
    | .ok data stream => .ok data (.plain stream)
    | .error fault stream => .error fault (.plain stream)
  | member unpacker =>
    match Gzip.Unpacker.read n unpacker with
    | .ok data unpacker => .ok data (.member unpacker)
    | .error fault unpacker => .error fault (.member unpacker)

/-- A bound on what can still be read from the feed, and from its stream after it. -/
def bound : Feed σ → Nat
  | plain stream => 2064 * stream.left
  | member unpacker => unpacker.bound

theorem left_stream_le_bound (feed : Feed σ) : 2064 * feed.stream.left ≤ feed.bound := by
  cases feed with
  | plain stream => exact Nat.le_refl _
  | member unpacker => exact unpacker.left_stream_le_bound

theorem read_ok {n : Nat} {s s' : Feed σ} {data : Bytes} (h : read n s = .ok data s') :
    data.length ≤ n ∧ data.length + bound s' ≤ bound s := by
  unfold read at h
  split at h <;> split at h <;> cases h
  · next found =>
    have := Cursor.read_ok found
    simp only [bound]
    omega
  · next found => exact Gzip.Unpacker.read_ok found

theorem read_error {n : Nat} {s s' : Feed σ} {fault : Fault} (h : read n s = .error fault s') :
    bound s' ≤ bound s := by
  unfold read at h
  split at h <;> split at h <;> cases h
  · next found =>
    have := Cursor.read_error found
    simp only [bound]
    omega
  · next found => exact Gzip.Unpacker.read_error found

instance : Supply (Feed σ) where
  read := read
  bound := bound
  read_ok := read_ok
  read_error := read_error

end Feed
end ArcFile
