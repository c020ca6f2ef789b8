import ArcFile.Gzip.Member
import ArcFile.Record.Header
/-!
How a file is packed: as it is, or with every record in a gzip member of its own. The packing can be
guessed from a file name, or found from the first bytes of the data.
-/
namespace ArcFile

open Text

inductive Packing where
  | plain
  | gzip
  deriving DecidableEq, Repr

namespace Packing

/-- The last component of a path that names something; a single point does not. -/
def lastComponent? (path : String) : Option (List Char) :=
  (pieces '/' path.toList).reverse.find? fun part => part ≠ [] ∧ part ≠ ['.']

/-- What follows the last point of a file name, unless nothing precedes the point. -/
def extension? (path : String) : Option (List Char) := do
  let name ← (lastComponent? path).filter (· ≠ ['.', '.'])
  let (stem, extension) ← cutLast? '.' name
  if stem.isEmpty then none else some extension

/-- The likely packing of a file with this name. -/
def ofFileName (path : String) : Packing := if extension? path = some ['g', 'z'] then gzip else plain

/-- The data begins with a gzip member. -/
def isGzip (data : Bytes) : Bool := data.startsWith Gzip.magic

/-- The data begins like a version block. -/
def isArc (data : Bytes) : Bool := data.startsWith (Bytes.ofString RecordHeader.versionPrefix)

/-- The most bytes that are looked at to find the packing. -/
def lookAhead : Nat := (Bytes.ofString RecordHeader.versionPrefix).length

/-- The packing of the data at a cursor, which stays where it is. -/
def sniff {σ : Type} [Supply σ] (c : Cursor σ) : Outcome (Cursor σ) Packing :=
  match Cursor.peek lookAhead c with
  | .ok start c => .ok (if isGzip start then gzip else plain) c
  | .error fault c => .error fault c

end Packing
end ArcFile
