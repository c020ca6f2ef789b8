import ArcFile.Record.Header
import ArcFile.Supply.Cursor
/-!
The two lines that open the content of a version block: the version of the format with the name of
the file's maker, and the names of the fields of the header lines in the file.
-/
namespace ArcFile

open Text

structure VersionLines where
  number : Slot Int
  reserved : Slot Int
  origin : Slot String
  /-- The version, if the two numbers name one. -/
  version : Option FormatVersion
  /-- The second line as it was read. -/
  description : Option String
  /-- The layout that the second line describes; the first one if it describes none. -/
  layout : Layout
  /-- The size of the lines in bytes, with their terminators. -/
  size : Nat
  deriving DecidableEq, Repr

namespace VersionLines

/-- What is known before any line has been read. -/
def blank : VersionLines := ⟨.absent, .absent, .absent, none, none, .v1, 0⟩

/-- Both lines with their terminators. -/
def render (lines : VersionLines) : String :=
  lines.number.text.getD "-" ++ " " ++ lines.reserved.text.getD "-" ++ " " ++
    lines.origin.text.getD "-" ++ "\n" ++ lines.description.getD lines.layout.description ++ "\n"

/-- The lines of a file of this version that `origin` made. -/
def ofVersion (version : FormatVersion) (origin : String) : VersionLines :=
  let lines : VersionLines :=
    { number := ⟨some (toString version.major), some version.major⟩
      reserved := ⟨some (toString version.minor), some version.minor⟩
      origin := ⟨some origin, some origin⟩
      version := some version
      description := some version.layout.description
      layout := version.layout
      size := 0 }
  { lines with size := (Bytes.ofString lines.render).length }

/-- The parts of the first line: two words, and all the rest. -/
def parts (line : String) : List String :=
  match cut? ' ' line.toList with
  | none => [line]
  | some (first, rest) =>
    match cut? ' ' rest with
    | none => [String.ofList first, String.ofList rest]
    | some (second, third) => [String.ofList first, String.ofList second, String.ofList third]

/-- Reads the first line. -/
def readFirst (line : String) : VersionLines × List Finding :=
  let texts := parts line
  let shape := if texts.length = 3 then none else some (Finding.wrongVersionLine line)
  let (number, f1) := RecordHeader.integer.readSlot "version-number" false (texts.getD 0 "")
  let (reserved, f2) := RecordHeader.integer.readSlot "reserved" false (texts.getD 1 "")
  let (origin, f3) := ValueKind.text.readSlot "origin-code" false (texts.getD 2 "")
  let (version, f4) := match number.value, reserved.value with
    | some major, some minor =>
      match FormatVersion.ofNumbers? major minor with
      | some version => (some version, none)
      | none => (none, some (Finding.unknownVersion major minor))
    | _, _ => (none, none)
  ({ blank with number, reserved, origin, version }, [shape, f1, f2, f3, f4].filterMap id)

/-- Reads the second line. -/
def readSecond (lines : VersionLines) (line : String) : VersionLines × List Finding :=
  match Layout.ofDescription? line with
  | none => ({ lines with description := some line }, [.unknownDescription line])
  | some layout =>
    ({ lines with description := some line, layout },
      match lines.version with
      | some version =>
        if version.layout = layout then [] else [.wrongDescription line version.layout.description]
      | none => [])

variable {σ : Type} [Supply σ]

/-- One line as text. -/
def takeLine (c : Cursor σ) : Outcome (Cursor σ) (Option String) :=
  match Cursor.readLine c with
  | .ok line c => .ok (line.map Utf8.decodeLossy) c
  | .error fault c => .error fault c

/-- Reads both lines from the content of a version block, and gives what is wrong with them. That is
known of the first line even if the second cannot be read. -/
def take (c : Cursor σ) : List Finding × Outcome (Cursor σ) VersionLines :=
  match takeLine (c.setCounter 0) with
  | .error fault c => ([], .error fault c)
  | .ok none c => ([.noVersionLine], .ok blank c)
  | .ok (some line) c =>
    let (lines, findings) := readFirst line
    match takeLine c with
    | .error fault c => (findings, .error fault c)
    | .ok none c => (findings ++ [.noDescription], .ok { lines with size := c.counter } c)
    | .ok (some line) c =>
      let (lines, more) := readSecond lines line
      (findings ++ more, .ok { lines with size := c.counter } c)

theorem left_takeLine (c : Cursor σ) : (takeLine c).state.left ≤ c.left := by
  have := Cursor.left_readLine c
  unfold takeLine
  split <;> simp_all [Outcome.state]

theorem left_take (c : Cursor σ) : (take c).2.state.left ≤ c.left := by
  have first : (takeLine (c.setCounter 0)).state.left ≤ c.left := left_takeLine (c.setCounter 0)
  unfold take
  split
  · simp_all [Outcome.state]
  · simp_all [Outcome.state]
  · next line c' found =>
    have second := left_takeLine c'
    rw [found] at first
    dsimp only
    split <;> simp_all only [Outcome.state] <;> omega

/-- What is wrong with the header line of a version block: its URL must name a file, and its
content is plain text. -/
def headerFindings (header : RecordHeader) : List Finding :=
  let ofUrl := header.url.given.bind fun url =>
    if RecordHeader.versionPrefix.toList.isPrefixOf url.toList then none
    else some (Finding.wrongValue "URL" url "filedesc://<filename>")
  let ofType := header.mediaType.given.bind fun text =>
    header.mediaType.value.bind fun media =>
      if media.is "text" "plain" then none
      else some (Finding.wrongValue "Content-type" text "text/plain")
  [ofUrl, ofType].filterMap id

end VersionLines
end ArcFile
