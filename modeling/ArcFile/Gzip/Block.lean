import ArcFile.Gzip.Code
/-!
Blocks of deflate data (RFC 1951). A block begins with a header. The data of a stored block is the bytes
themselves; that of any other block is a row of tokens: bytes, and copies of bytes that came before.
-/
namespace ArcFile.Gzip

/-- The codes of a block: for bytes and lengths, and for distances. -/
structure Codes where
  literal : Code
  distance : Code
  deriving Repr

inductive BlockKind where
  | stored (size : Nat)
  | coded (codes : Codes)

structure BlockHeader where
  /-- This block is the last one. -/
  last : Bool
  kind : BlockKind

inductive Token where
  | byte (value : UInt8)
  | copy (length distance : Nat) (le : length ≤ 258)
  | endOfBlock

namespace Token

/-- The least length of each length symbol, and the number of bits that are added to it. -/
def lengths : List (Nat × Nat) :=
  [(3, 0), (4, 0), (5, 0), (6, 0), (7, 0), (8, 0), (9, 0), (10, 0), (11, 1), (13, 1), (15, 1), (17, 1),
    (19, 2), (23, 2), (27, 2), (31, 2), (35, 3), (43, 3), (51, 3), (59, 3), (67, 4), (83, 4), (99, 4),
    (115, 4), (131, 5), (163, 5), (195, 5), (227, 5), (258, 0)]

/-- The least distance of each distance symbol, and the number of bits that are added to it. -/
def distances : List (Nat × Nat) :=
  [(1, 0), (2, 0), (3, 0), (4, 0), (5, 1), (7, 1), (9, 2), (13, 2), (17, 3), (25, 3), (33, 4), (49, 4),
    (65, 5), (97, 5), (129, 6), (193, 6), (257, 7), (385, 7), (513, 8), (769, 8), (1025, 9), (1537, 9),
    (2049, 10), (3073, 10), (4097, 11), (6145, 11), (8193, 12), (12289, 12), (16385, 13), (24577, 13)]

theorem lengths_le : ∀ entry ∈ lengths, entry.1 + (1 <<< entry.2) ≤ 259 := by decide

/-- Reads the rest of a copy after its length symbol. -/
def readCopy (codes : Codes) (least extra : Nat) (le : least + (1 <<< extra) ≤ 259) : BitReader Token := do
  let more ← BitReader.number extra
  let symbol ← codes.distance.read
  match distances[symbol]? with
  | none => .fail
  | some (nearest, extra) =>
    let further ← BitReader.number extra
    return .copy (least + more) (nearest + further) (by have := more.isLt; omega)

def read (codes : Codes) : BitReader Token := do
  let symbol ← codes.literal.read
  if symbol < 256 then return .byte (UInt8.ofNat symbol)
  else if symbol = 256 then return .endOfBlock
  else
    match found : lengths[symbol - 257]? with
    | none => .fail
    | some (least, extra) => readCopy codes least extra (lengths_le _ (List.mem_of_getElem? found))

theorem strict_read (codes : Codes) : (read codes).Strict :=
  BitReader.strict_bind codes.literal.strict_read _

end Token

namespace BlockHeader

/-- The codes of blocks that do not bring their own. -/
def fixed : Codes where
  literal := ((Code.ofLengths? false (List.replicate 144 8 ++ List.replicate 112 9 ++
    List.replicate 24 7 ++ List.replicate 8 8)).getD .nothing)
  distance := ((Code.ofLengths? false (List.replicate 32 5)).getD .nothing)

/-- The order in which the word lengths of the code for word lengths are given. -/
def lengthOrder : List Nat := [16, 17, 18, 0, 8, 7, 9, 6, 10, 5, 11, 4, 12, 3, 13, 2, 14, 1, 15]

/-- Puts the given word lengths in the order of their symbols; the others are zero. -/
def arrange (given : List Nat) : List Nat :=
  (List.range 19).map fun symbol => ((lengthOrder.zip given).lookup symbol).getD 0

/-- Reads `need` word lengths. Those read so far are in `known`, backwards. Some symbols stand for a
run of lengths, which must not go beyond the last. -/
def readLengths (code : Code) (need : Nat) (known : List Nat) : BitReader (List Nat) :=
  if need = 0 then pure known.reverse
  else do
    let symbol ← code.read
    if symbol < 16 then readLengths code (need - 1) (symbol :: known)
    else if symbol = 16 then
      match known with
      | [] => .fail
      | last :: _ => do
        let n ← BitReader.number 2
        if need < 3 + n then .fail
        else readLengths code (need - (3 + n)) (List.replicate (3 + n) last ++ known)
    else if symbol = 17 then do
      let n ← BitReader.number 3
      if need < 3 + n then .fail
      else readLengths code (need - (3 + n)) (List.replicate (3 + n) 0 ++ known)
    else do
      let n ← BitReader.number 7
      if need < 11 + n then .fail
      else readLengths code (need - (11 + n)) (List.replicate (11 + n) 0 ++ known)
termination_by need
decreasing_by all_goals omega

/-- A code, which must be sound. -/
def requireCode (lenient : Bool) (lengths : List Nat) : BitReader Code :=
  match Code.ofLengths? lenient lengths with
  | some code => pure code
  | none => .fail

/-- Reads the codes that a block brings. -/
def readCodes : BitReader Codes := do
  let literals ← BitReader.number 5
  let distances ← BitReader.number 5
  let given ← BitReader.number 4
  if 286 < 257 + literals.val ∨ 30 < 1 + distances.val then .fail
  else
    let lengths ← BitReader.times (4 + given) (BitReader.number 3)
    let code ← requireCode false (arrange (lengths.map (·.val)))
    let all ← readLengths code (257 + literals + 1 + distances) []
    let distance ← requireCode true (all.drop (257 + literals))
    let literal ← requireCode true (all.take (257 + literals))
    return ⟨literal, distance⟩

/-- Skips to the next whole byte. -/
def align : BitReader Unit := fun bits => .done () (bits.drop (bits.length % 8)) (by simp)

/-- Reads the size of a stored block, which is given twice, the second time with all bits flipped. -/
def readSize : BitReader Nat := do
  align
  let size ← BitReader.number 16
  let flipped ← BitReader.number 16
  if size.val + flipped.val = 65535 then return size else .fail

def read : BitReader BlockHeader := do
  let last ← BitReader.bit
  let low ← BitReader.bit
  let high ← BitReader.bit
  match low, high with
  | false, false => return ⟨last, .stored (← readSize)⟩
  | true, false => return ⟨last, .coded fixed⟩
  | false, true => return ⟨last, .coded (← readCodes)⟩
  | true, true => .fail

theorem strict_read : read.Strict := BitReader.strict_bind BitReader.strict_bit _

end BlockHeader
end ArcFile.Gzip
