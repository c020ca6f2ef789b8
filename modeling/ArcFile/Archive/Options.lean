import ArcFile.Digest
/-!
Options for reading archives.
-/
namespace ArcFile

structure Options where
  /-- The digest of the whole content of every record. -/
  blockDigest : Option Digest.Algorithm
  /-- The digest of the content behind the HTTP header. -/
  payloadDigest : Option Digest.Algorithm
  /-- The name of the text form of digests. -/
  digestEncoding : String
  /-- Look for HTTP headers at the start of the content of HTTP records. -/
  parseHttp : Bool
  /-- The longest HTTP header that is looked for. -/
  httpLimit : Nat
  /-- The number of bytes that can be pushed back; one is needed to find the end of a record. -/
  pushbackSize : Nat
  bufferSize : Nat
  pushbackSize_pos : 0 < pushbackSize := by decide

namespace Options

def default : Options where
  blockDigest := none
  payloadDigest := none
  digestEncoding := "base32"
  parseHttp := true
  httpLimit := 8192
  pushbackSize := 32
  bufferSize := 8192

/-- The options with this pushback size, or the smallest that is permitted. -/
def withPushbackSize (size : Nat) (options : Options) : Options :=
  { options with
    pushbackSize := max size 1
    pushbackSize_pos := Nat.lt_of_lt_of_le Nat.zero_lt_one (Nat.le_max_right size 1) }

end Options
end ArcFile
