import ArcFile.Text.Decimal
import ArcFile.Bytes
/-!
Percent-encoding of URL text, and the sets of characters that each part of a URL encodes. Every set
holds the control characters and all characters outside ASCII.
-/
namespace ArcFile.Url

open Text

/-- Control characters, and everything outside ASCII. -/
def controlSet (c : Char) : Bool := c.toNat < 32 || 126 < c.toNat

def fragmentSet (c : Char) : Bool :=
  controlSet c || [' ', '"', '<', '>', '\x60'].contains c

def pathSet (c : Char) : Bool := fragmentSet c || ['#', '?', '{', '}'].contains c

def userSet (c : Char) : Bool :=
  pathSet c || ['/', ':', ';', '=', '@', '[', '\\', ']', '^', '|'].contains c

def querySet (c : Char) : Bool := controlSet c || [' ', '"', '#', '<', '>'].contains c

/-- The set of queries of `http` and its like. -/
def specialQuerySet (c : Char) : Bool := querySet c || c == '\''

def hexDigit (n : Nat) : Char := (Nat.digitChar n).toUpper

def escapeByte (b : UInt8) : List Char := ['%', hexDigit (b.toNat / 16), hexDigit (b.toNat % 16)]

/-- The text with every character of the set replaced by the escaped bytes of its UTF-8. -/
def encode (set : Char → Bool) (text : List Char) : List Char :=
  text.flatMap fun c => if set c then (String.utf8EncodeChar c).flatMap escapeByte else [c]

/-- The bytes of a text, with every escape replaced by its byte. -/
def decode : List Char → Bytes
  | [] => []
  | '%' :: a :: b :: rest =>
    match Decimal.digitIn? 16 a, Decimal.digitIn? 16 b with
    | some high, some low => UInt8.ofNat (high * 16 + low) :: decode rest
    | _, _ => 0x25 :: decode (a :: b :: rest)
  | c :: rest => String.utf8EncodeChar c ++ decode rest

end ArcFile.Url
