import ArcFile.Archive.Audit
/-!
The command line: what the arguments mean, and what a run prints. Files are checked one after the
other; the status is that of the worst of them.
-/
namespace ArcFile.CommandLine

open Text

structure Arguments where
  blockDigest : Option String
  payloadDigest : Option String
  digestEncoding : Option String
  noHttp : Bool
  progress : Bool
  verbose : Bool
  files : List String
  deriving DecidableEq, Repr

namespace Arguments

def empty : Arguments := ⟨none, none, none, false, false, false, []⟩

/-- Sets an option that takes a value, once. -/
def setValue (name value : String) (arguments : Arguments) : Option Arguments :=
  match name with
  | "block-digest" =>
    if arguments.blockDigest.isSome then none else some { arguments with blockDigest := some value }
  | "payload-digest" =>
    if arguments.payloadDigest.isSome then none else some { arguments with payloadDigest := some value }
  | "digest-encoding" =>
    if arguments.digestEncoding.isSome then none else some { arguments with digestEncoding := some value }
  | _ => none

/-- Sets an option that takes no value, once. -/
def setFlag (name : String) (arguments : Arguments) : Option Arguments :=
  match name with
  | "no-http" => if arguments.noHttp then none else some { arguments with noHttp := true }
  | "progress" => if arguments.progress then none else some { arguments with progress := true }
  | "verbose" => if arguments.verbose then none else some { arguments with verbose := true }
  | _ => none

def takesValue (name : String) : Bool :=
  name == "block-digest" || name == "payload-digest" || name == "digest-encoding"

def addFiles (names : List String) (arguments : Arguments) : Arguments :=
  { arguments with files := arguments.files ++ names }

/-- What an argument is. -/
inductive Word where
  | file (name : String)
  /-- All arguments behind this one are files. -/
  | separator
  | option (name : String)
  | optionWithValue (name value : String)

/-- Tells what an argument is; nothing, if it only looks like an option. A single hyphen is a file name. -/
def word? (text : String) : Option Word :=
  match text.toList with
  | ['-'] => some (.file text)
  | ['-', '-'] => some .separator
  | ['-', 'v'] => some (.option "verbose")
  | '-' :: '-' :: body =>
    match cut? '=' body with
    | none => some (.option (String.ofList body))
    | some (name, value) => some (.optionWithValue (String.ofList name) (String.ofList value))
  | '-' :: _ => none
  | _ => some (.file text)

/-- Reads arguments from left to right. A value may follow its option in an argument of its own. -/
def parseFrom (arguments : Arguments) : List String → Option Arguments
  | [] => some arguments
  | text :: rest =>
    match word? text with
    | none => none
    | some .separator => some (arguments.addFiles rest)
    | some (.file name) => parseFrom (arguments.addFiles [name]) rest
    | some (.optionWithValue name value) =>
      (arguments.setValue name value).bind fun arguments => parseFrom arguments rest
    | some (.option name) =>
      if takesValue name then
        match rest with
        | [] => none
        | value :: rest =>
          match word? value with
          | some (.file value) =>
            (arguments.setValue name value).bind fun arguments => parseFrom arguments rest
          | _ => none
      else (arguments.setFlag name).bind fun arguments => parseFrom arguments rest

/-- The arguments of a run, of which at least one must be a file. -/
def parse? (texts : List String) : Option Arguments :=
  (parseFrom empty texts).filter fun arguments => !arguments.files.isEmpty

/-- The digest algorithm in the value of an option. -/
def digest? (option : String) (value : Option String) : Except String (Option Digest.Algorithm) :=
  match value with
  | none => .ok none
  | some name =>
    match Digest.Algorithm.ofName? name with
    | some algorithm => .ok (some algorithm)
    | none => .error ("error: --" ++ option ++ ": " ++ Digest.Algorithm.unknownMessage name)

/-- The reading options that the arguments ask for, or what is wrong with them. -/
def options? (arguments : Arguments) : Except String Options := do
  let encoding := arguments.digestEncoding.getD Options.default.digestEncoding
  if (Radix.ofName? encoding).isNone then
    throw ("error: unknown digest encoding \"" ++ encoding ++ "\"")
  let blockDigest ← digest? "block-digest" arguments.blockDigest
  let payloadDigest ← digest? "payload-digest" arguments.payloadDigest
  return { Options.default with
    blockDigest, payloadDigest
    digestEncoding := encoding
    parseHttp := !arguments.noHttp }

end Arguments

/-- The status of a run, and what it prints. -/
structure Report where
  status : Nat
  output : Sink
  errors : List String
  deriving DecidableEq, Repr

namespace Report

def start : Report := ⟨0, .empty none, []⟩

/-- Something is wrong with a file. -/
def nonCompliant : Nat := 1

/-- Something could not be read, or the arguments make no sense. -/
def failure : Nat := 2

end Report

/-- Checks one more file. -/
def checkFile (arguments : Arguments) (options : Options) (load : String → Except Fault Bytes)
    (report : Report) (name : String) : Report :=
  let result : EStateM.Result Audit.Failure Sink Audit.Summary := match load name with
    | .error fault => .error (.reading (.fault fault)) report.output
    | .ok data => Audit.run options (Input.ofBytes data) report.output
  match result with
  | .ok summary output =>
    let line := if arguments.verbose ∨ !summary.isCompliant then
        Bytes.ofString (name ++ ": " ++ summary.render ++ "\n")
      else []
    { report with
      status := if summary.isCompliant then report.status else max report.status Report.nonCompliant
      output := { output with bytes := output.bytes ++ line } }
  | .error cause output =>
    { report with
      status := Report.failure
      output
      errors := report.errors ++ [name ++ ": " ++ cause.message] }

/-- Runs with some arguments on files that `load` gives. Arguments that make no sense give no report. -/
def run (texts : List String) (load : String → Except Fault Bytes) : Option Report :=
  (Arguments.parse? texts).map fun arguments =>
    match arguments.options? with
    | .error message => { Report.start with status := Report.failure, errors := [message] }
    | .ok options => arguments.files.foldl (checkFile arguments options load) .start

end ArcFile.CommandLine
