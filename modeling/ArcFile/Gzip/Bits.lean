import ArcFile.Bytes
/-!
Reading bits. Deflate data is a row of bits, the lowest bit of each byte first. A bit reader takes a value
from the front of it, finds that the bits are too few yet, or finds that no more bits could make them
a value.
-/
namespace ArcFile.Gzip

abbrev Bits := List Bool

namespace Bits

/-- The bits of a byte, the lowest first. -/
def ofByte (b : UInt8) : Bits := (List.range 8).map b.toNat.testBit

def ofBytes (data : Bytes) : Bits := data.flatMap ofByte

theorem length_ofBytes (data : Bytes) : (ofBytes data).length = 8 * data.length := by
  induction data with
  | nil => rfl
  | cons b rest ih =>
    have : ofBytes (b :: rest) = ofByte b ++ ofBytes rest := rfl
    simp [this, ih, ofByte]
    omega

end Bits

/-- What reading from some bits gives. -/
inductive BitRead (bits : Bits) (α : Type) where
  | done (value : α) (rest : Bits) (le : rest.length ≤ bits.length)
  | short
  | corrupt

/-- Reads a value from the front of bits. -/
def BitReader (α : Type) : Type := (bits : Bits) → BitRead bits α

namespace BitReader

variable {α β : Type}

instance : Monad BitReader where
  pure value := fun bits => .done value bits (Nat.le_refl _)
  bind first next := fun bits =>
    match first bits with
    | .done value rest le =>
      match next value rest with
      | .done result after less => .done result after (Nat.le_trans less le)
      | .short => .short
      | .corrupt => .corrupt
    | .short => .short
    | .corrupt => .corrupt

/-- No bits make a value here. -/
def fail : BitReader α := fun _ => .corrupt

def bit : BitReader Bool
  | [] => .short
  | b :: rest => .done b rest (Nat.le_succ _)

/-- A number of `width` bits, the lowest first. -/
def number : (width : Nat) → BitReader (Fin (1 <<< width))
  | 0 => pure ⟨0, Nat.one_pos⟩
  | width + 1 => do
    let b ← bit
    let n ← number width
    return ⟨2 * n + b.toNat, by
      have := n.isLt
      have : b.toNat ≤ 1 := by cases b <;> decide
      rw [Nat.shiftLeft_succ]
      omega⟩

/-- `count` values one after the other. -/
def times (count : Nat) (reader : BitReader α) : BitReader (List α) :=
  match count with
  | 0 => pure []
  | count + 1 => do
    let value ← reader
    let more ← times count reader
    return value :: more

/-- Every value takes at least one bit. -/
def Strict (reader : BitReader α) : Prop :=
  ∀ {bits : Bits} {value : α} {rest : Bits} {le : rest.length ≤ bits.length},
    reader bits = .done value rest le → rest.length < bits.length

theorem strict_bit : bit.Strict := by
  intro bits value rest le h
  cases bits with
  | nil => cases h
  | cons b rest =>
    cases h
    exact Nat.lt_succ_self _

theorem strict_bind {first : BitReader α} (strict : first.Strict) (next : α → BitReader β) :
    (first >>= next).Strict := by
  intro bits value rest le h
  simp only [bind] at h
  split at h
  · next found =>
    split at h
    · next less _ =>
      cases h
      exact Nat.lt_of_le_of_lt less (strict found)
    · cases h
    · cases h
  · cases h
  · cases h

end BitReader
end ArcFile.Gzip
