import ArcFile.Archive.Scanner
import ArcFile.Supply.Sink
/-!
Checking whole files. `Audit.run` reads every record of a file and writes a line for each one that has something
wrong with it; what is wrong with data outside of records makes a last line. The `Summary`
counts everything.
-/
namespace ArcFile.Audit

inductive Failure where
  | reading (failure : Scanner.Failure)
  | reporting (fault : Fault)
  deriving DecidableEq, Repr

def Failure.message : Failure → String
  | .reading failure => "failed to read records: " ++ failure.message
  | .reporting fault => "failed to write report: " ++ fault.message

structure Summary where
  packing : Packing
  tally : Tally
  /-- What is wrong with data outside of records. -/
  findings : Findings
  deriving DecidableEq, Repr

namespace Summary

/-- Nothing is wrong with the file. -/
def isCompliant (summary : Summary) : Bool :=
  summary.tally.noncompliant == 0 && summary.findings.isEmpty

def render (summary : Summary) : String :=
  toString summary.tally.records ++ " records, " ++
    toString summary.tally.noncompliant ++ " non-compliant, " ++
    toString (summary.tally.errors + summary.findings.errors.length) ++ " errors, " ++
    toString (summary.tally.warnings + summary.findings.warnings.length) ++ " warnings"

end Summary

/-- All findings in one line, the errors first. -/
def renderFindings (findings : Findings) : String :=
  "; ".intercalate
    (findings.errors.map (fun finding => "error: " ++ finding.render) ++
      findings.warnings.map fun finding => "warning: " ++ finding.render)

/-- A line of the report: where something stands, what it is, and what is wrong with it. -/
def reportLine (start : Nat) (name : String) (findings : Findings) : Bytes :=
  Bytes.ofString (toString start ++ "\t" ++ name ++ "\t" ++ renderFindings findings ++ "\n")

def writeLine (line : Bytes) (report : Sink) : EStateM.Result Failure Sink Unit :=
  match report.write line with
  | .ok () report => .ok () report
  | .error fault report => .error (.reporting fault) report

variable {σ : Type} [Supply σ]

/-- The most bytes of content that are read at a time. -/
def stride : Nat := 8192

/-- Reads a record to its end and closes it. -/
def readThrough (visit : Scanner.Visit σ) : Except Fault (Scanner.Visit σ) :=
  match Supply.readAll stride [] visit.entry with
  | (_, .error fault _) => .error fault
  | (_, .ok () entry) =>
    match entry.close with
    | .error fault _ => .error fault
    | .ok () entry => .ok { visit with entry }

/-- Writes the line for a record, if something is wrong with it. -/
def reportRecord (visit : Scanner.Visit σ) (report : Sink) : EStateM.Result Failure Sink Unit :=
  let entry := visit.entry
  if entry.compliant = some false then
    writeLine (reportLine entry.header.start (entry.header.url.text.getD "-") entry.findings) report
  else .ok () report

theorem bound_readThrough {visit visit' : Scanner.Visit σ} (h : readThrough visit = .ok visit') :
    visit'.entry.bound ≤ visit.entry.bound := by
  unfold readThrough at h
  split at h
  · cases h
  · next all =>
    split at h
    · cases h
    · next isClosed =>
      cases h
      exact Entry.bound_of_readAll all isClosed

/-- Checks all records that follow. -/
def checkRecords (scanner : Scanner σ) (report : Sink) : EStateM.Result Failure Sink (Scanner σ) :=
  match found : scanner.next with
  | .failed failure _ => .error (.reading failure) report
  | .ended scanner => .ok scanner report
  | .record visit =>
    match through : readThrough visit with
    | .error fault => .error (.reading (.fault fault)) report
    | .ok visit' =>
      match reportRecord visit' report with
      | .error failure report => .error failure report
      | .ok () report =>
        have : visit'.leave.source.left < scanner.source.left := by
          have := Scanner.bound_of_next found
          have := bound_readThrough through
          have := Scanner.left_leave visit'
          omega
        checkRecords visit'.leave report
termination_by scanner.source.left

/-- Checks a file and writes the report. -/
def run (options : Options) (input : σ) (report : Sink) : EStateM.Result Failure Sink Summary :=
  match Scanner.sniffed options input with
  | .error fault => .error (.reading (.fault fault)) report
  | .ok scanner =>
    match checkRecords scanner report with
    | .error failure report => .error failure report
    | .ok scanner report =>
      let findings := scanner.session.findings
      let summary := ⟨scanner.session.packing, scanner.session.tally, findings⟩
      if findings.isEmpty then .ok summary report
      else
        match writeLine (reportLine scanner.position "-" findings) report with
        | .ok () report => .ok summary report
        | .error failure report => .error failure report

end ArcFile.Audit
