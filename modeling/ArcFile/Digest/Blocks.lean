import ArcFile.Bytes
/-!
What the digest algorithms share: they pad their data to whole blocks, cut it into blocks, and
work on each in turn.
-/
namespace ArcFile.Digest

/-- The pieces of `data` of `n` bytes each. -/
def blocks (n : Nat) (data : Bytes) : List Bytes :=
  if n = 0 ∨ data.length < n then [] else data.take n :: blocks n (data.drop n)
termination_by data.length
decreasing_by
  rw [List.length_drop]
  omega

/-- The highest bit, and then zeros up to the place of the length at the end of a block. -/
def padding (block lengthSize count : Nat) : Bytes :=
  0x80 :: List.replicate ((2 * block - 1 - lengthSize - count % block) % block) 0

/-- The number with these digits in base 256, the greatest one first. -/
def bigEndian (data : Bytes) : Nat := data.foldl (fun n b => 256 * n + b.toNat) 0

/-- The lowest `width` digits of `n` in base 256, the greatest one first. -/
def toBigEndian (width n : Nat) : Bytes := (Bytes.toLittleEndian width n).reverse

def rotateLeft32 (x : UInt32) (n : UInt32) : UInt32 := (x <<< n) ||| (x >>> (32 - n))

def rotateRight32 (x : UInt32) (n : UInt32) : UInt32 := (x >>> n) ||| (x <<< (32 - n))

def rotateRight64 (x : UInt64) (n : UInt64) : UInt64 := (x >>> n) ||| (x <<< (64 - n))

end ArcFile.Digest
