import ArcFile.Digest.Blocks
/-!
SHA-1 (FIPS 180-4).
-/
namespace ArcFile.Digest.Sha1

structure State where
  a : UInt32
  b : UInt32
  c : UInt32
  d : UInt32
  e : UInt32

def start : State := ⟨0x67452301, 0xEFCDAB89, 0x98BADCFE, 0x10325476, 0xC3D2E1F0⟩

/-- The eighty words made of the sixteen of a block. -/
def schedule (block : Bytes) : Array UInt32 :=
  let words := ((blocks 4 block).map fun w => UInt32.ofNat (bigEndian w)).toArray
  (List.range 64).foldl (fun w i =>
    w.push (rotateLeft32 (w.getD (i + 13) 0 ^^^ w.getD (i + 8) 0 ^^^ w.getD (i + 2) 0 ^^^ w.getD i 0) 1))
    words

def choose (s : State) (i : Nat) : UInt32 × UInt32 :=
  if i < 20 then ((s.b &&& s.c) ||| (~~~s.b &&& s.d), 0x5A827999)
  else if i < 40 then (s.b ^^^ s.c ^^^ s.d, 0x6ED9EBA1)
  else if i < 60 then ((s.b &&& s.c) ||| (s.b &&& s.d) ||| (s.c &&& s.d), 0x8F1BBCDC)
  else (s.b ^^^ s.c ^^^ s.d, 0xCA62C1D6)

def step (words : Array UInt32) (s : State) (i : Nat) : State :=
  let (f, k) := choose s i
  ⟨rotateLeft32 s.a 5 + f + s.e + k + words.getD i 0, s.a, rotateLeft32 s.b 30, s.c, s.d⟩

def compress (s : State) (block : Bytes) : State :=
  let t := (List.range 80).foldl (step (schedule block)) s
  ⟨s.a + t.a, s.b + t.b, s.c + t.c, s.d + t.d, s.e + t.e⟩

def hash (data : Bytes) : Bytes :=
  let padded := data ++ padding 64 8 data.length ++ toBigEndian 8 (8 * data.length)
  let s := (blocks 64 padded).foldl compress start
  [s.a, s.b, s.c, s.d, s.e].flatMap fun w => toBigEndian 4 w.toNat

end ArcFile.Digest.Sha1
