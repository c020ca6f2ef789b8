/-!
Findings: what is wrong with some data. A finding has a kind, a subject and details; `Findings`
keeps errors and warnings in the order in which they were added, and a `Tally` counts them over many
records. Every finding of this library is made by one of the functions at the end of this module.
-/
namespace ArcFile

inductive Finding.Kind where
  /-- A general error, described by the details. -/
  | error
  /-- Something expected is not there. -/
  | expected
  /-- A value is there but empty. -/
  | empty
  /-- A value that must be there is absent. -/
  | missing
  /-- A value is there but wrong. -/
  | invalid
  /-- Some structure holds wrong data. -/
  | invalidData
  /-- Bytes are not in the expected character encoding. -/
  | invalidEncoding
  /-- A value is wrong; the details are the value and what was expected. -/
  | mismatch
  /-- Something that may appear once appeared again. -/
  | duplicate
  /-- Data stands where none should. -/
  | undesired
  deriving DecidableEq, Repr

def Finding.Kind.words : Finding.Kind → String
  | .error => "error"
  | .expected => "expected"
  | .empty => "empty"
  | .missing => "missing"
  | .invalid => "invalid"
  | .invalidData => "invalid data"
  | .invalidEncoding => "invalid encoding"
  | .mismatch => "invalid"
  | .duplicate => "duplicate"
  | .undesired => "undesired data"

structure Finding where
  kind : Finding.Kind
  subject : String
  details : List String
  deriving DecidableEq, Repr

/-- A finding in one line: its kind, its subject and, in brackets, its details. -/
def Finding.render (finding : Finding) : String :=
  finding.kind.words ++ ": " ++ finding.subject ++
    if finding.details.isEmpty then "" else " (" ++ ", ".intercalate finding.details ++ ")"

/-- Errors and warnings, each in the order in which they were added. -/
structure Findings where
  errors : List Finding
  warnings : List Finding
  deriving DecidableEq, Repr

namespace Findings

def none : Findings := ⟨[], []⟩

def addError (all : Findings) (finding : Finding) : Findings :=
  { all with errors := all.errors ++ [finding] }

def addWarning (all : Findings) (finding : Finding) : Findings :=
  { all with warnings := all.warnings ++ [finding] }

def addErrors (all : Findings) (more : List Finding) : Findings :=
  { all with errors := all.errors ++ more }

def addWarnings (all : Findings) (more : List Finding) : Findings :=
  { all with warnings := all.warnings ++ more }

def append (all more : Findings) : Findings :=
  ⟨all.errors ++ more.errors, all.warnings ++ more.warnings⟩

instance : Append Findings := ⟨append⟩

/-- There is neither an error nor a warning. -/
def isEmpty (all : Findings) : Bool := all.errors.isEmpty && all.warnings.isEmpty

/-- All errors, then all warnings. -/
def toList (all : Findings) : List Finding := all.errors ++ all.warnings

theorem isEmpty_iff {all : Findings} : all.isEmpty = true ↔ all = none := by
  cases all
  simp [isEmpty, none]

end Findings

/-- Counts of records, of those with any finding, and of findings. -/
structure Tally where
  records : Nat
  noncompliant : Nat
  errors : Nat
  warnings : Nat
  deriving DecidableEq, Repr

namespace Tally

def zero : Tally := ⟨0, 0, 0, 0⟩

/-- Counts one more record, which has these findings. -/
def add (tally : Tally) (findings : Findings) : Tally where
  records := tally.records + 1
  noncompliant := tally.noncompliant + if findings.isEmpty then 0 else 1
  errors := tally.errors + findings.errors.length
  warnings := tally.warnings + findings.warnings.length

end Tally

namespace Finding

/-- The subject of a finding about the value of a field. -/
def valueOf (field : String) : String := "'" ++ field ++ "' value"

def missingValue (field : String) : Finding := ⟨.missing, valueOf field, []⟩

def wrongValue (field text expected : String) : Finding :=
  ⟨.mismatch, valueOf field, [text, expected]⟩

def dataBeforeRecord : Finding := ⟨.error, "ARC record", ["Data before ARC record"]⟩

def emptyLinesBeforeRecord : Finding := ⟨.error, "ARC record", ["Empty lines before ARC record"]⟩

def headerNotUtf8 (line : String) : Finding := ⟨.invalidEncoding, "header line", [line, "UTF-8"]⟩

def headerWithoutLength (line : String) : Finding := ⟨.invalid, "header line", [line]⟩

def noVersionLine : Finding := ⟨.expected, "version line", []⟩

def wrongVersionLine (line : String) : Finding :=
  ⟨.mismatch, "version line", [line, "<version-number> <reserved> <origin-code>"]⟩

def unknownVersion (major minor : Int) : Finding :=
  ⟨.invalid, "ARC version", [toString major ++ "." ++ toString minor]⟩

def noDescription : Finding := ⟨.expected, "block description", []⟩

def unknownDescription (line : String) : Finding := ⟨.invalid, "block description", [line]⟩

def wrongDescription (line expected : String) : Finding :=
  ⟨.mismatch, "block description", [line, expected]⟩

def repeatedVersionBlock : Finding := ⟨.duplicate, "version block", []⟩

def noVersionBlock : Finding := ⟨.expected, "version block", []⟩

def wrongLayout (layout expected : Nat) : Finding :=
  ⟨.mismatch, "record field version", [toString layout, toString expected]⟩

def noPayload : Finding := ⟨.invalid, "payload", ["expected payload not found"]⟩

def truncated (missing : Nat) : Finding :=
  ⟨.invalid, "payload", ["Payload truncated", toString missing]⟩

def noHttpHead : Finding := ⟨.error, "HTTP header", ["unable to parse HTTP header"]⟩

def httpLineWithoutColon (line : String) : Finding := ⟨.invalid, "HTTP header line", [line]⟩

def unknownEncoding (name : String) : Finding := ⟨.invalid, "digest encoding", [name]⟩

def wrongNewlines (count : Nat) : Finding :=
  ⟨.mismatch, "trailing newlines", [toString count, "1"]⟩

def carriageReturn : Finding := ⟨.invalidData, "trailing newlines", ["carriage return"]⟩

def dataAfterRecord (count : Nat) : Finding := ⟨.undesired, "gzip member", [toString count]⟩

def wrongPayloadLength (written declared : Nat) : Finding :=
  ⟨.mismatch, "payload length", [toString written, toString declared]⟩

end Finding
end ArcFile
