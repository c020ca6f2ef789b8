/-!
The two layouts of a record's header line, and the format versions that declare them.
-/
namespace ArcFile

/-- Which fields the header line of a record has: five, or ten. -/
inductive Layout where
  | v1
  | v2
  deriving DecidableEq, Repr

namespace Layout

def number : Layout → Nat
  | .v1 => 1
  | .v2 => 2

/-- The names of the fields, as the version block of a file gives them. -/
def description : Layout → String
  | .v1 => "URL IP-address Archive-date Content-type Archive-length"
  | .v2 => "URL IP-address Archive-date Content-type Result-code Checksum Location Offset Filename Archive-length"

/-- The layout with these field names. -/
def ofDescription? (line : String) : Option Layout :=
  if line = v1.description then some .v1
  else if line = v2.description then some .v2
  else none

end Layout

/-- A version of the file format. -/
inductive FormatVersion where
  | v1_0
  | v1_1
  | v2_0
  deriving DecidableEq, Repr

namespace FormatVersion

def ofNumbers? (major minor : Int) : Option FormatVersion :=
  match major, minor with
  | 1, 0 => some .v1_0
  | 1, 1 => some .v1_1
  | 2, 0 => some .v2_0
  | _, _ => none

def major : FormatVersion → Int
  | .v1_0 | .v1_1 => 1
  | .v2_0 => 2

def minor : FormatVersion → Int
  | .v1_1 => 1
  | .v1_0 | .v2_0 => 0

def layout : FormatVersion → Layout
  | .v1_0 | .v1_1 => .v1
  | .v2_0 => .v2

def render (version : FormatVersion) : String :=
  toString version.major ++ "." ++ toString version.minor

theorem ofNumbers?_major_minor (version : FormatVersion) :
    ofNumbers? version.major version.minor = some version := by
  cases version <;> rfl

end FormatVersion
end ArcFile
