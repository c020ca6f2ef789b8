import ArcFile.Finding
/-!
Field values. A `Slot` keeps the text of a field beside the value that was read from it. A
`ValueKind` says which texts are values; `ValueKind.read` gives the value of a text, or the one finding
that says why there is none.
-/
namespace ArcFile

/-- A field: its text as it stood in the data, if it was there at all, and the value read from it. -/
structure Slot (α : Type) where
  text : Option String
  value : Option α
  deriving DecidableEq, Repr

/-- The text of a field, unless it is empty or the placeholder `-`. -/
def given? (text : String) : Option String :=
  if text = "" ∨ text = "-" then none else some text

namespace Slot

variable {α : Type}

/-- A field that is not there. -/
def absent : Slot α := ⟨none, none⟩

/-- The text, unless it is absent, empty or a placeholder. -/
def given (slot : Slot α) : Option String := slot.text.bind given?

/-- The text as a field is written: `-` stands for an absent or empty one. -/
def written (slot : Slot α) : String :=
  match slot.text with
  | none => "-"
  | some text => if text = "" then "-" else text

end Slot

/-- A kind of value: what a text of this kind looks like, and how it is read. -/
structure ValueKind (α : Type) where
  expected : String
  parse? : String → Option α

namespace ValueKind

variable {α : Type}

/-- Reads the text of the named field. An absent or empty text has no value, which is a finding
unless it is `optional`; so is any other text that is not of this kind. -/
def read (kind : ValueKind α) (name : String) (optional : Bool) (text : Option String) :
    Option α × Option Finding :=
  match text.filter (· ≠ "") with
  | none => (none, if optional then none else some (.missingValue name))
  | some text =>
    match kind.parse? text with
    | some value => (some value, none)
    | none => (none, some (.wrongValue name text kind.expected))

/-- Reads a field whose text may be a placeholder. -/
def readSlot (kind : ValueKind α) (name : String) (optional : Bool) (text : String) :
    Slot α × Option Finding :=
  let (value, finding) := kind.read name optional (given? text)
  (⟨some text, value⟩, finding)

/-- Any text at all. -/
def text : ValueKind String := ⟨"", some⟩

end ValueKind

namespace Slot

variable {α : Type}

/-- Takes away a value that is not permitted, with a finding that says what is expected. -/
def restrict (slot : Slot α) (name expected : String) (permitted : α → Bool) :
    Slot α × Option Finding :=
  match slot.value with
  | some value =>
    if permitted value then (slot, none)
    else ({ slot with value := none }, some (.wrongValue name (slot.text.getD "") expected))
  | none => (slot, none)

end Slot
end ArcFile
