import ArcFile.Bytes
import ArcFile.Fault
/-!
Supplies of bytes. A supply is read piece by piece and may fault. It knows a bound on what it still
holds, and every read gives no more than was asked for and takes it from that bound: so every loop that
reads until nothing comes ends.
-/
namespace ArcFile

/-- The outcome of an action on `σ`: a value or a fault, and in both cases the state it left. -/
abbrev Outcome (σ α : Type) := EStateM.Result Fault σ α

/-- The state that an action left. -/
def Outcome.state {σ α : Type} : Outcome σ α → σ
  | .ok _ s => s
  | .error _ s => s

class Supply (σ : Type) where
  /-- Reads up to `n` bytes. No bytes mean that the supply has ended, if any were asked for. -/
  read : Nat → σ → Outcome σ Bytes
  /-- No more bytes than this can still come. -/
  bound : σ → Nat
  read_ok : ∀ {n : Nat} {s s' : σ} {data : Bytes}, read n s = .ok data s' →
    data.length ≤ n ∧ data.length + bound s' ≤ bound s
  read_error : ∀ {n : Nat} {s s' : σ} {fault : Fault}, read n s = .error fault s' →
    bound s' ≤ bound s

/-- Reads `stride` bytes at a time until none come or the supply faults. Gives all that came, with the bytes
in `taken` in front, which are backwards, and how it ended. -/
def Supply.readAll {σ : Type} [Supply σ] (stride : Nat) (taken : Bytes) (s : σ) :
    Bytes × Outcome σ Unit :=
  match found : read stride s with
  | .error fault s' => (taken.reverse, .error fault s')
  | .ok [] s' => (taken.reverse, .ok () s')
  | .ok (b :: more) s' =>
    have : bound s' < bound s := by
      have := (read_ok found).2
      simp only [List.length_cons] at this
      omega
    readAll stride ((b :: more).reverse ++ taken) s'
termination_by Supply.bound s

theorem Supply.bound_readAll {σ : Type} [Supply σ] (stride : Nat) (taken : Bytes) (s : σ) :
    bound (readAll stride taken s).2.state ≤ bound s := by
  fun_induction readAll stride taken s with
  | case1 _ _ _ _ found => exact read_error found
  | case2 _ _ _ found =>
    have := read_ok found
    simp only [Outcome.state]
    omega
  | case3 _ _ _ _ _ found smaller ih => omega

/-- An input given as a whole. It may yield no more than `chunk` bytes at a time, and may fault once
`untilFault` more bytes have been read. -/
structure Input where
  data : Bytes
  chunk : Option Nat
  untilFault : Option Nat
  fault : Fault
  deriving Repr

namespace Input

/-- An input that yields as much as is asked for and never faults. -/
def ofBytes (data : Bytes) : Input := ⟨data, none, none, .inputFailed⟩

/-- The number of bytes that a read of `n` takes from the front. -/
def quota (n : Nat) (input : Input) : Nat :=
  let n := match input.chunk with
    | some most => min n most
    | none => n
  match input.untilFault with
  | some left => min n left
  | none => n

def read (n : Nat) (input : Input) : Outcome Input Bytes :=
  if input.untilFault = some 0 then .error input.fault input
  else
    let data := input.data.take (input.quota n)
    .ok data { input with
      data := input.data.drop (input.quota n)
      untilFault := input.untilFault.map (· - data.length) }

theorem quota_le (n : Nat) (input : Input) : input.quota n ≤ n := by
  unfold quota
  dsimp only
  split <;> split <;> omega

instance : Supply Input where
  read := read
  bound input := input.data.length
  read_ok := by
    intro n s s' data h
    unfold read at h
    split at h
    · cases h
    · cases h
      have := quota_le n s
      simp
      omega
  read_error := by
    intro n s s' fault h
    unfold read at h
    split at h <;> cases h
    exact Nat.le_refl _

end Input
end ArcFile
