import ArcFile.Finding
import ArcFile.Text.Blank
import ArcFile.Text.Pieces
import ArcFile.Text.Token
/-!
The field lines of an HTTP header. Lines are kept in their order, and an index gives for every name, whatever
its case, the places of its lines. A line that begins with a space or a tab goes on with the value
of the line before it. A line without a colon is kept without a name, with a warning.
-/
namespace ArcFile.Http

open Text

structure Line where
  /-- The name before the colon; none if there is no colon. -/
  name : Option String
  /-- The value without blanks at its ends; the whole line if there is no colon. -/
  value : String
  deriving DecidableEq, Repr

structure Fields where
  lines : List Line
  /-- The places of the lines of each name, by the name in lower case. -/
  index : List (String × List Nat)
  warnings : List Finding
  deriving DecidableEq, Repr

namespace Fields

def empty : Fields := ⟨[], [], []⟩

/-- Adds a place to those of a name. -/
def enter (name : String) (place : Nat) : List (String × List Nat) → List (String × List Nat)
  | [] => [(name, [place])]
  | (n, places) :: rest =>
    if n = name then (n, places ++ [place]) :: rest else (n, places) :: enter name place rest

def isFolded (line : List Char) : Bool :=
  match line with
  | c :: _ => c == ' ' || c == '\t'
  | [] => false

/-- The line with the text of a folded line at its end. -/
def Line.continued (line : Line) (text : List Char) : Line :=
  if text.isEmpty then line
  else if line.value = "" then { line with value := String.ofList text }
  else { line with value := line.value ++ " " ++ String.ofList text }

/-- Takes up a line that is not empty. -/
def add (fields : Fields) (text : String) : Fields :=
  let line := text.toList
  match fields.lines.getLast? with
  | some last =>
    if isFolded line then
      { fields with lines := fields.lines.dropLast ++ [Line.continued last (trim line)] }
    else addLine line
  | none => addLine line
where
  /-- Takes up a line of its own. -/
  addLine (line : List Char) : Fields :=
    match cut? ':' line with
    | some (name, value) =>
      let name := String.ofList (trim name)
      { fields with
        lines := fields.lines ++ [⟨some name, String.ofList (trim value)⟩]
        index := enter (lowerString name) fields.lines.length fields.index }
    | none =>
      let whole := String.ofList line
      { fields with
        lines := fields.lines ++ [⟨none, whole⟩]
        warnings := fields.warnings ++ [.httpLineWithoutColon whole] }

/-- The values of all lines with this name, whatever its case. -/
def getAll (fields : Fields) (name : String) : List String :=
  ((fields.index.lookup (lowerString name)).getD []).filterMap fun place =>
    fields.lines[place]?.map (·.value)

/-- The value of the first line with this name. -/
def get? (fields : Fields) (name : String) : Option String := (fields.getAll name).head?

end Fields
end ArcFile.Http
