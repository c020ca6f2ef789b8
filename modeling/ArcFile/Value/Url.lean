import ArcFile.Value.Url.Host
import ArcFile.Value.Url.Path
/-!
Absolute URLs, read as browsers do and written in their normal form. `Url.parse?` gives the parts of a
URL, and `Url.render` puts them together. `schemeOf?` finds the scheme of any text, be the rest a URL
or not.

Whoever reads URLs need not read them with `Url.parse?`: any `Url.Reader` will do.
-/
namespace ArcFile

open Text

/-- What stands between `//` and the path of a URL. -/
structure Url.Authority where
  username : String
  password : String
  host : Url.Host
  /-- The number after the colon, unless it is the scheme's own. -/
  portNumber : Option Nat
  deriving DecidableEq, Repr

structure Url where
  scheme : String
  authority : Option Url.Authority
  path : String
  query : Option String
  fragment : Option String
  deriving DecidableEq, Repr

namespace Url

/-- The name and password of a user, before the host. -/
def Authority.user (a : Authority) : String :=
  if a.username = "" ∧ a.password = "" then ""
  else a.username ++ (if a.password = "" then "" else ":" ++ a.password) ++ "@"

def Authority.render (a : Authority) : String :=
  a.user ++ a.host.render ++
    match a.portNumber with
    | some number => ":" ++ toString number
    | none => ""

/-- The parts of a URL as one text. A path that begins with two slashes is kept apart from an
authority by `/.`. -/
def render (url : Url) : String :=
  url.scheme ++ ":" ++
    (match url.authority with
      | some a => "//" ++ a.render
      | none => if "//".toList.isPrefixOf url.path.toList then "/." else "") ++
    url.path ++
    (match url.query with
      | some query => "?" ++ query
      | none => "") ++
    match url.fragment with
      | some fragment => "#" ++ fragment
      | none => ""

/-- The number that hosts listen at for a scheme. -/
def defaultNumber (scheme : String) : Option Nat :=
  match scheme with
  | "http" | "ws" => some 80
  | "https" | "wss" => some 443
  | "ftp" => some 21
  | _ => none

/-- The schemes whose URLs always have a host, `file` apart. -/
def isSpecial (scheme : String) : Bool := (defaultNumber scheme).isSome

/-- A character that may follow the first letter of a scheme. -/
def isSchemeChar (c : Char) : Bool := c.isAlphanum || c == '+' || c == '-' || c == '.'

/-- The lower-case scheme before the first colon, and what follows the colon. -/
def scheme? (text : List Char) : Option (String × List Char) :=
  match cut? ':' text with
  | some (c :: more, rest) =>
    if c.isAlpha && more.all isSchemeChar then some (String.ofList (lower (c :: more)), rest) else none
  | _ => none

/-- The text without blank ends, which are no part of a URL. -/
def trim (text : List Char) : List Char :=
  let outside (c : Char) : Bool := c.toNat ≤ 32
  ((text.dropWhile outside).reverse.dropWhile outside).reverse

/-- The query and the fragment, which the rest of a URL begins with. -/
def tail (special : Bool) (text : List Char) : Option String × Option String :=
  let fragment (text : List Char) : Option String :=
    match text with
    | '#' :: rest => some (String.ofList (encode fragmentSet rest))
    | _ => none
  match text with
  | '?' :: rest =>
    let query := encode (if special then specialQuerySet else querySet) (rest.takeWhile (· ≠ '#'))
    (some (String.ofList query), fragment (rest.dropWhile (· ≠ '#')))
  | _ => (none, fragment text)

def isTail (c : Char) : Bool := c == '?' || c == '#'

/-- Puts a URL together from its parts, `text` being what follows the path. -/
def assemble (scheme : String) (special : Bool) (authority : Option Authority) (path : List Char)
    (text : List Char) : Url :=
  let (query, fragment) := tail special text
  ⟨scheme, authority, String.ofList path, query, fragment⟩

/-- Cuts off the text of a host. A colon ends it, but not inside brackets. -/
def hostText (special : Bool) (inside : Bool) : List Char → List Char × List Char
  | [] => ([], [])
  | c :: rest =>
    if (c == ':' && !inside) || (c == '\\' && special) || c == '/' || isTail c then ([], c :: rest)
    else
      let (host, after) := hostText special (c == '[' || (inside && c != ']')) rest
      (c :: host, after)

/-- The number after the colon of a host, and what follows it. The scheme's own number is left out, as is
an empty one. -/
def portNumber? (default : Option Nat) (text : List Char) : Option (Option Nat × List Char) :=
  let digits := text.takeWhile Char.isDigit
  let rest := text.dropWhile Char.isDigit
  let value := (Decimal.continue? 10 0 digits).getD 0
  if 65535 < value ∨ rest.head?.any fun c => !isAnySlash c && !isTail c then none
  else some (if digits.isEmpty ∨ some value = default then none else some value, rest)

/-- The user's name and password, and what follows them. -/
def user? (special : Bool) (text : List Char) : Option ((String × String) × List Char) :=
  let ends (c : Char) : Bool := c == '/' || isTail c || (special && c == '\\')
  match cutLast? '@' (text.takeWhile fun c => !ends c) with
  | none => some (("", ""), text)
  | some (user, after) =>
    let rest := after ++ text.dropWhile fun c => !ends c
    if user.isEmpty ∧ rest.head?.any ends then none
    else
      let (name, password) := (cut? ':' user).getD (user, [])
      some ((String.ofList (encode userSet name), String.ofList (encode userSet password)), rest)

section Reading

-- gives the name of a domain in ASCII
variable (toAscii? : List Char → Option (List Char))

/-- An authority and what follows it. -/
def authority? (scheme : String) (text : List Char) : Option (Authority × List Char) := do
  let special := isSpecial scheme
  let ((username, password), rest) ← user? special text
  let (name, rest) := hostText special false rest
  if special ∧ name.isEmpty then none
  let host ← if special then Host.domain? toAscii? name else Host.verbatim? name
  if name.isEmpty ∧ (rest.head? = some ':' ∨ username ≠ "" ∨ password ≠ "") then none
  let (number, rest) ← match rest with
    | ':' :: rest => portNumber? (defaultNumber scheme) rest
    | _ => some (none, rest)
  return (⟨username, password, host, number⟩, rest)

/-- A URL of `http` and its like, after the colon and the slashes. -/
def special? (scheme : String) (text : List Char) : Option Url := do
  let (authority, rest) ← authority? toAscii? scheme text
  let start := match rest with
    | c :: more => if isAnySlash c then more else rest
    | [] => []
  let hierarchy := start.takeWhile fun c => !isTail c
  return assemble scheme true (some authority) (normalPath isAnySlash hierarchy) (start.dropWhile fun c => !isTail c)

/-- A URL of a scheme that is not special, after the colon. -/
def other? (scheme : String) (text : List Char) : Option Url :=
  let isSlash (c : Char) : Bool := c == '/'
  let inPath (c : Char) : Bool := !isTail c
  match text with
  | '/' :: '/' :: rest => do
    let (authority, rest) ← authority? toAscii? scheme rest
    let hierarchy := match rest.takeWhile inPath with
      | [] => []
      | '/' :: more => normalPath isSlash more
      | more => normalPath isSlash more
    return assemble scheme false (some authority) hierarchy (rest.dropWhile inPath)
  | '/' :: rest =>
    some (assemble scheme false none (normalPath isSlash (rest.takeWhile inPath)) (rest.dropWhile inPath))
  | _ =>
    let plain := encode controlSet (text.takeWhile inPath)
    some (assemble scheme false none plain (text.dropWhile inPath))

/-- What follows the slash that the text begins with. Breaks in front of it do not count. -/
def afterSlash? (text : List Char) : Option (List Char) :=
  match text.dropWhile isBreak with
  | c :: rest => if isAnySlash c then some rest else none
  | [] => none

/-- A `file` URL with this host, of what follows the host. A drive letter at the start of the path takes
the host away. -/
def fileAt (host : Host) (text : List Char) : Url :=
  let (path, drive) := filePath (text.takeWhile fun c => !isTail c)
  assemble "file" true (some ⟨"", "", if drive then .name "" else host, none⟩) path
    (withoutBreaks (text.dropWhile fun c => !isTail c))

/-- A `file` URL, after the colon, its breaks still in it. `localhost` is no host, and no drive letter
is one. The slash behind a host belongs to the host. -/
def file? (text : List Char) : Option Url :=
  match afterSlash? text with
  | none => some (fileAt (.name "") text)
  | some rest =>
    match afterSlash? rest with
    | none => some (fileAt (.name "") rest)
    | some rest =>
      let ends (c : Char) : Bool := isAnySlash c || isTail c
      let name := withoutBreaks (rest.takeWhile fun c => !ends c)
      let after := rest.dropWhile fun c => !ends c
      if isDrive name then some (fileAt (.name "") rest)
      else if name.isEmpty then some (fileAt (.name "") after)
      else (Host.domain? toAscii? name).map fun host =>
        if host = .name "localhost" then fileAt (.name "") after
        else fileAt host ((afterSlash? after).getD after)

/-- Reads a URL as browsers do. Breaks are taken out of it, wherever they stand. -/
def parse? (text : String) : Option Url := do
  let all := trim text.toList
  let (scheme, rest) ← scheme? (withoutBreaks all)
  if scheme = "file" then file? toAscii? ((all.dropWhile (· ≠ ':')).drop 1)
  else if isSpecial scheme then special? toAscii? scheme (rest.dropWhile isAnySlash)
  else other? toAscii? scheme rest

end Reading

/-- The lower-case scheme that a text begins with. -/
def schemeOf? (text : String) : Option String := (scheme? text.toList).map (·.1)

/-- What reads URLs. -/
class Reader where
  read? : String → Option Url

/-- The reader with these names in ASCII. -/
@[reducible]
def Reader.ofNames (toAscii? : List Char → Option (List Char)) : Reader := ⟨parse? toAscii?⟩

/-- Without tables, names in ASCII are read and no others. -/
instance : Reader := .ofNames Host.plainName?

/-- A reader finds the scheme of a URL in its text without breaks and blank ends. -/
class LawfulReader [Reader] : Prop where
  scheme_of_read? : ∀ {text : String} {url : Url}, Reader.read? text = some url →
    ∃ rest, scheme? (withoutBreaks (trim text.toList)) = some (url.scheme, rest)

/-- Absolute URLs. A reader gives no other, but that is not left to it. -/
def kind [Reader] : ValueKind Url :=
  ⟨"Absolute URI", fun text => (Reader.read? text).filter fun url => url.scheme ≠ ""⟩

end Url
end ArcFile
