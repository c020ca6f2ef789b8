/-!
What can go wrong with the input or the output itself. Faults are the only errors: anything odd
in the data that was read is a finding and stops nothing.
-/
namespace ArcFile

inductive Fault where
  /-- The input could not be read any further. -/
  | inputFailed
  /-- The output takes no more bytes. -/
  | outputFull
  /-- More bytes were pushed back than there is room for. -/
  | pushbackFull (wanted used size : Nat)
  /-- The input ended inside the header or trailer of a gzip member. -/
  | unexpectedEnd
  /-- A gzip member uses another method than deflate, or reserved flags. -/
  | gzipHeader
  /-- A text in the header of a gzip member is longer than 65535 bytes. -/
  | gzipHeaderField
  /-- A checksum or the length of a gzip member does not match its data. -/
  | gzipChecksum
  /-- Deflate data breaks the rules of its format. -/
  | deflateCorrupt
  /-- The input ended inside deflate data. -/
  | deflateIncomplete
  /-- There is no file of this name. -/
  | fileMissing
  /-- The name belongs to a directory. -/
  | fileIsDirectory
  deriving DecidableEq, Repr

def Fault.message : Fault → String
  | .inputFailed => "input failed"
  | .outputFull => "output is full"
  | .pushbackFull wanted used size =>
      "pushback buffer is full: cannot unread " ++ toString wanted ++ " bytes with " ++
        toString used ++ " of " ++ toString size ++ " in use"
  | .unexpectedEnd => "unexpected end of file"
  | .gzipHeader => "invalid gzip header"
  | .gzipHeaderField => "gzip header field too long"
  | .gzipChecksum => "corrupt gzip stream does not have a matching checksum"
  | .deflateCorrupt => "corrupt deflate stream"
  | .deflateIncomplete => "incomplete deflate stream"
  | .fileMissing => "No such file or directory (os error 2)"
  | .fileIsDirectory => "Is a directory (os error 21)"

end ArcFile
