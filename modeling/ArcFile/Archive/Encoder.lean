import ArcFile.Gzip.Member
/-!
Encoders. A record is written in pieces, and an encoder says which bytes are handed to the output for each of them. It
need not hand on a piece at once: what comes of a piece may depend on all pieces before it, and what has been held back
is handed on in the end.
-/
namespace ArcFile

/-- What is handed to the output. The pieces of a record so far are given with the last one first. -/
structure Encoder where
  onWrite : List Bytes → Bytes → Bytes
  onEnd : List Bytes → Bytes

namespace Encoder

/-- All pieces put together. -/
def content (pieces : List Bytes) : Bytes := pieces.reverse.flatten

/-- Every piece as it is. -/
def plain : Encoder where
  onWrite _ data := data
  onEnd _ := []

/-- The header of a gzip member, if nothing has come before. -/
def opening (before : List Bytes) : Bytes := if before.isEmpty then Gzip.plainHeader else []

/-- A gzip member of stored blocks. Its header comes with the first piece, and all else in the end. -/
def stored : Encoder where
  onWrite before _ := opening before
  onEnd pieces := opening pieces ++ Gzip.body (content pieces)

end Encoder
end ArcFile
