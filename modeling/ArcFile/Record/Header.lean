import ArcFile.Record.Layout
import ArcFile.Text.Pieces
import ArcFile.Text.Utf8
import ArcFile.Value.Address
import ArcFile.Value.MediaType
import ArcFile.Value.Timestamp
import ArcFile.Value.Url
/-!
Header lines of records: five or ten fields with single spaces between them. `RecordHeader.parse?` reads
a line, and `RecordHeader.render` writes it from the texts of its fields. A field that is missing or
wrong is a finding; only a line with another number of fields is no header line.
-/
namespace ArcFile

open Text

structure RecordHeader where
  url : Slot Url
  /-- The lower-case scheme of the URL, even if the URL is otherwise wrong. -/
  scheme : Option String
  address : Slot Address
  date : Slot Timestamp
  mediaType : Slot MediaType
  resultCode : Slot Int
  checksum : Slot String
  location : Slot String
  offset : Slot Int
  filename : Slot String
  /-- The number of content bytes that follow the line. -/
  length : Slot Int
  layout : Layout
  /-- Where the record begins. -/
  start : Nat
  /-- The size of the line in bytes, with its terminator. -/
  size : Nat
  deriving DecidableEq, Repr

namespace RecordHeader

/-- The scheme of version blocks. -/
def versionScheme : String := "filedesc"

/-- What the URL of a version block begins with. -/
def versionPrefix : String := "filedesc://"

/-- The content type of records whose type is not known. -/
def noType : String := "no-type"

def integerKind (lo hi : Int) : ValueKind Int :=
  ⟨"Numeric format", fun text => Decimal.readInt? lo hi text.toList⟩

/-- Integers of 32 bits. -/
def integer : ValueKind Int := integerKind (-0x80000000) 0x7fffffff

/-- Integers of 64 bits. -/
def long : ValueKind Int := integerKind (-0x8000000000000000) 0x7fffffffffffffff

/-- A content type; `no-type` is permitted but has no value. -/
def readMediaType (text : String) : Slot MediaType × Option Finding :=
  if text = noType then (⟨some text, none⟩, none)
  else MediaType.kind.readSlot "Content-type" false text

/-- A result code of three digits. -/
def restrictCode (slot : Slot Int) : Slot Int × Option Finding :=
  slot.restrict "Result-code" "A number between 100 and 999" fun n => 100 ≤ n && n ≤ 999

def restrictNatural (name : String) (slot : Slot Int) : Slot Int × Option Finding :=
  slot.restrict name "A non-negative number" fun n => 0 ≤ n

/-- The fields of the second layout that the first does not have. -/
structure Extra where
  resultCode : String
  checksum : String
  location : String
  offset : String
  filename : String

/-- Reads a field that only the second layout has. -/
def readExtra {α : Type} (kind : ValueKind α) (name : String) (text : Option String) :
    Slot α × Option Finding :=
  match text with
  | some text => kind.readSlot name true text
  | none => (.absent, none)

/-- Reads the fields of a line: first their values, in the order of the line, then the ranges of the
numbers. -/
def ofFields [Url.Reader] (size : Nat) (url address date mediaType : String) (extra : Option Extra)
    (length : String) : RecordHeader × List Finding :=
  let (urlSlot, f1) := Url.kind.readSlot "URL" false url
  let (addressSlot, f2) := Address.kind.readSlot "IP-address" false address
  let (dateSlot, f3) := Timestamp.kind.readSlot "Archive-date" false date
  let (mediaSlot, f4) := readMediaType mediaType
  let (codeRead, f5) := readExtra integer "Result-code" (extra.map (·.resultCode))
  let (checksum, f6) := readExtra .text "Checksum" (extra.map (·.checksum))
  let (location, f7) := readExtra .text "Location" (extra.map (·.location))
  let (offsetRead, f8) := readExtra long "Offset" (extra.map (·.offset))
  let (filename, f9) := readExtra .text "Filename" (extra.map (·.filename))
  let (lengthRead, f10) := long.readSlot "Archive-length" false length
  let (code, f11) := restrictCode codeRead
  let (offset, f12) := restrictNatural "Offset" offsetRead
  let (lengthSlot, f13) := restrictNatural "Archive-length" lengthRead
  ({ url := urlSlot
     scheme := Url.schemeOf? url
     address := addressSlot
     date := dateSlot
     mediaType := mediaSlot
     resultCode := code
     checksum, location, offset, filename
     length := lengthSlot
     layout := if extra.isSome then .v2 else .v1
     start := 0
     size },
    [f1, f2, f3, f4, f5, f6, f7, f8, f9, f10, f11, f12, f13].filterMap id)

/-- The parts of a line between single spaces. -/
def parts (line : String) : List String := (pieces ' ' line.toList).map String.ofList

/-- Reads a line without its terminator. -/
def parse? [Url.Reader] (line : String) : Option (RecordHeader × List Finding) :=
  let size := (Bytes.ofString line).length + 1
  match parts line with
  | [url, address, date, mediaType, length] => some (ofFields size url address date mediaType none length)
  | [url, address, date, mediaType, code, checksum, location, offset, filename, length] =>
    some (ofFields size url address date mediaType
      (some ⟨code, checksum, location, offset, filename⟩) length)
  | _ => none

/-- The number of content bytes that the line declares; none if it does not say. -/
def declared (header : RecordHeader) : Nat := (header.length.value.getD 0).toNat

/-- This is the header of a version block. -/
def isVersionBlock (header : RecordHeader) : Bool := header.scheme == some versionScheme

/-- The texts of the fields in order, as they are written. -/
def texts (header : RecordHeader) : List String :=
  [header.url.written, header.address.written, header.date.written, header.mediaType.written] ++
    (match header.layout with
      | .v1 => []
      | .v2 => [header.resultCode.written, header.checksum.written, header.location.written,
          header.offset.written, header.filename.written]) ++
    [header.length.written]

/-- The line with its terminator. -/
def render (header : RecordHeader) : String := " ".intercalate header.texts ++ "\n"

end RecordHeader
end ArcFile
