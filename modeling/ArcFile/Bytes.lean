/-!
Byte strings. Data is a list of bytes; text is a `String`. This module holds the byte values that
the format gives a meaning, ISO-8859-1 text, and little-endian numbers.
-/
namespace ArcFile

abbrev Bytes := List UInt8

namespace Bytes

def lineFeed : UInt8 := 10

def carriageReturn : UInt8 := 13

/-- Text in ISO-8859-1: every byte is the character of the same number. -/
def latin1 (data : Bytes) : String := String.ofList (data.map fun b => Char.ofNat b.toNat)

/-- The bytes of a text in UTF-8. -/
def ofString (text : String) : Bytes := text.toList.flatMap String.utf8EncodeChar

/-- The number with these digits in base 256, the least one first. -/
def littleEndian (data : Bytes) : Nat := data.foldr (fun b n => b.toNat + 256 * n) 0

/-- The lowest `width` digits of `n` in base 256, the least one first. -/
def toLittleEndian : Nat → Nat → Bytes
  | 0, _ => []
  | width + 1, n => UInt8.ofNat (n % 256) :: toLittleEndian width (n / 256)

theorem length_toLittleEndian (width n : Nat) : (toLittleEndian width n).length = width := by
  induction width generalizing n with
  | zero => rfl
  | succ width ih => simp [toLittleEndian, ih]

/-- A line without the carriage return that may end it. -/
def dropReturn (line : Bytes) : Bytes :=
  if line.getLast? = some carriageReturn then line.dropLast else line

/-- `data` begins with `start`. -/
def startsWith (data start : Bytes) : Bool := start.isPrefixOf data

end Bytes
end ArcFile
