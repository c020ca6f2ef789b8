import ArcFile.Bytes
/-!
Text encodings of bytes: base 16 in lower case, and base 32 and base 64 of RFC 4648 with padding.
-/
namespace ArcFile

inductive Radix where
  | base16
  | base32
  | base64
  deriving DecidableEq, Repr

namespace Radix

def ofName? (name : String) : Option Radix :=
  if name = "base16" then some .base16
  else if name = "base32" then some .base32
  else if name = "base64" then some .base64
  else none

def alphabet : Radix → List Char
  | .base16 => "0123456789abcdef".toList
  | .base32 => "ABCDEFGHIJKLMNOPQRSTUVWXYZ234567".toList
  | .base64 => "ABCDEFGHIJKLMNOPQRSTUVWXYZabcdefghijklmnopqrstuvwxyz0123456789+/".toList

/-- The number of bits of a digit. -/
def digitBits : Radix → Nat
  | .base16 => 4
  | .base32 => 5
  | .base64 => 6

/-- The number of digits of a full group; the last group is padded to it. -/
def groupSize : Radix → Nat
  | .base16 => 1
  | .base32 => 8
  | .base64 => 4

/-- The bits of a byte, the highest first. -/
def bitsOf (b : UInt8) : List Bool := (List.range 8).map fun i => b.toNat.testBit (7 - i)

/-- The number with these bits, the highest first. -/
def ofBits (bits : List Bool) : Nat := bits.foldl (fun n b => 2 * n + b.toNat) 0

/-- Cuts bits into digits, with zeros at the end of the last. -/
def digits (width : Nat) (bits : List Bool) : List Nat :=
  if h : width = 0 ∨ bits = [] then []
  else
    have : (bits.drop width).length < bits.length := by
      have := List.length_pos_iff.2 (not_or.1 h).2
      simp
      omega
    let digit := bits.take width
    ofBits (digit ++ List.replicate (width - digit.length) false) :: digits width (bits.drop width)
termination_by bits.length

def encode (radix : Radix) (data : Bytes) : String :=
  let symbols := radix.alphabet.toArray
  let text := (digits radix.digitBits (data.flatMap bitsOf)).map fun d => symbols.getD d '='
  let short := text.length % radix.groupSize
  let pad := if short = 0 then 0 else radix.groupSize - short
  String.ofList (text ++ List.replicate pad '=')

end Radix
end ArcFile
