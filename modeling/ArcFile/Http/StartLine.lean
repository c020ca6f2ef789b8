import ArcFile.Text.Decimal
import ArcFile.Text.Pieces
/-!
The first line of an HTTP message: the status line of a response or the request line of a request.
-/
namespace ArcFile.Http

open Text

inductive StartLine where
  | status (version : String) (code : Nat) (reason : String)
  | request (method uri version : String)
  deriving DecidableEq, Repr

namespace StartLine

def versionStart : List Char := ['H', 'T', 'T', 'P', '/']

def isNumber (text : List Char) : Bool := !text.isEmpty && text.all Char.isDigit

/-- `HTTP/` and two numbers with a point between them. -/
def isVersion (text : List Char) : Bool :=
  versionStart.isPrefixOf text &&
    match cut? '.' (text.drop versionStart.length) with
    | some (major, minor) => isNumber major && isNumber minor
    | none => false

/-- A version, a code of three digits and, after one more space, a reason. -/
def status? (line : List Char) : Option StartLine := do
  let (version, rest) ← cut? ' ' line
  let (code, reason) := (cut? ' ' rest).getD (rest, [])
  if !isVersion version ∨ code.length ≠ 3 ∨ !code.all Char.isDigit then none
  let code ← Decimal.readNat? 10 code
  return .status (String.ofList version) code (String.ofList reason)

/-- A method, a target, which may hold spaces, and a version. -/
def request? (line : List Char) : Option StartLine := do
  let (rest, version) ← cutLast? ' ' line
  let (method, uri) ← cut? ' ' rest
  if !isVersion version ∨ method.isEmpty ∨ uri.isEmpty then none
  return .request (String.ofList method) (String.ofList uri) (String.ofList version)

def parse? (line : String) : Option StartLine :=
  if versionStart.isPrefixOf line.toList then status? line.toList else request? line.toList

end StartLine
end ArcFile.Http
