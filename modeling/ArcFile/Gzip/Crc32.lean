import ArcFile.Bytes
/-!
The checksum of gzip members: CRC-32 with the reversed polynomial 0xEDB88320. It is computed in pieces, and
`value` is the checksum of all pieces put together.
-/
namespace ArcFile.Gzip

/-- A checksum under way: the register, with all bits flipped. -/
structure Crc32 where
  register : UInt32
  deriving DecidableEq, Repr

namespace Crc32

def start : Crc32 := ⟨0xFFFFFFFF⟩

/-- Shifts one bit out of the register. -/
def shift (r : UInt32) : UInt32 := if r &&& 1 = 1 then (r >>> 1) ^^^ 0xEDB88320 else r >>> 1

def addByte (crc : Crc32) (b : UInt8) : Crc32 :=
  ⟨(List.range 8).foldl (fun r _ => shift r) (crc.register ^^^ b.toUInt32)⟩

def update (crc : Crc32) (data : Bytes) : Crc32 := data.foldl addByte crc

def value (crc : Crc32) : Nat := (~~~crc.register).toNat

end Crc32
end ArcFile.Gzip
