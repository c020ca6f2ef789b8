import ArcFile.CommandLine
/-!
The program: it reads the files that the arguments name, prints the report, and exits with its status.
-/
namespace ArcFile.Main

/-- The content of a file, or why it cannot be read. -/
def readFile (name : String) : IO (Except Fault Bytes) := do
  try
    let data ← IO.FS.readBinFile name
    return .ok data.toList
  catch
    | .noFileOrDirectory .. => return .error .fileMissing
    | .inappropriateType .. => return .error .fileIsDirectory
    | _ => return .error .inputFailed

/-- Reads all files that the arguments name. -/
def readFiles (names : List String) : IO (List (String × Except Fault Bytes)) :=
  names.mapM fun name => return (name, ← readFile name)

def usage : String := "usage: arcfile [options] FILE..."

end ArcFile.Main

open ArcFile

def main (texts : List String) : IO UInt32 := do
  let names := ((CommandLine.Arguments.parse? texts).map (·.files)).getD []
  let files ← Main.readFiles names
  match CommandLine.run texts fun name => (files.lookup name).getD (.error .fileMissing) with
  | none =>
    IO.eprintln Main.usage
    return 2
  | some report =>
    let stdout ← IO.getStdout
    stdout.write ⟨report.output.bytes.toArray⟩
    stdout.flush
    report.errors.forM IO.eprintln
    return UInt32.ofNat report.status
