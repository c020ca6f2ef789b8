import ArcFile.Text.Pieces
import ArcFile.Text.Token
import ArcFile.Text.Utf8
import ArcFile.Value.Address
import ArcFile.Value.Url.Percent
/-!
Hosts of URLs. The host of a special URL is a domain name in ASCII or an IPv4 address, which may
be written with fewer than four parts and in octal or hexadecimal; that of any other URL is
opaque text. Either may be an IPv6 address in brackets.

What the name of a domain is in ASCII is a matter of tables, which a reader of URLs brings with it.
-/
namespace ArcFile.Url

open Text

inductive Host where
  /-- A domain name or an opaque host; the empty text is the empty host. -/
  | name (text : String)
  | v4 (address : Address.V4)
  | v6 (address : Address.V6)
  deriving DecidableEq, Repr

namespace Host

def render : Host → String
  | .name text => text
  | .v4 a => a.render
  | .v6 a => "[" ++ Address.renderCompressed a.groups.toList ++ "]"

/-- Characters that no host holds. -/
def isForbidden (c : Char) : Bool :=
  ['\x00', '\t', '\n', '\r', ' ', '#', '/', ':', '<', '>', '?', '@', '[', '\\', ']', '^', '|'].contains c

/-- Characters that no domain name holds. -/
def isForbiddenInDomain (c : Char) : Bool := isForbidden c || isControl c || c == '%'

/-- An IPv6 address in brackets, of which the first has been read. -/
def bracketed? (text : List Char) : Option Host :=
  match text.getLast? with
  | some ']' =>
    match Address.v6? text.dropLast with
    | some (a, []) => some (.v6 a)
    | _ => none
  | _ => none

/-- A part of an IPv4 address: decimal, octal after `0` or hexadecimal after `0x`. -/
def part? : List Char → Option Nat
  | [] => none
  | '0' :: 'x' :: digits => Decimal.continue? 16 0 digits
  | '0' :: 'X' :: digits => Decimal.continue? 16 0 digits
  | '0' :: d :: digits => Decimal.continue? 8 0 (d :: digits)
  | digits => Decimal.continue? 10 0 digits

/-- The last part of a domain name is a number, so that the name must be an IPv4 address. -/
def endsInNumber (domain : List Char) : Bool :=
  let last := match (pieces '.' domain).reverse with
    | [] :: before :: _ => before
    | last :: _ => last
    | [] => []
  !last.isEmpty && (last.all Char.isDigit || (part? last).isSome)

/-- All parts but the last are octets; the last fills the octets that are left. -/
def ofParts? (parts : List Nat) : Option Address.V4 :=
  match parts.reverse with
  | [] => none
  | last :: rest =>
    let octets := rest.reverse
    if 3 < octets.length ∨ octets.any (255 < ·) ∨ 1 <<< (8 * (4 - octets.length)) ≤ last then none
    else
      let value := octets.zipIdx.foldl (fun sum (n, i) => sum + (n <<< (8 * (3 - i)))) last
      some ⟨#v[UInt8.ofNat (value >>> 24), UInt8.ofNat (value >>> 16),
        UInt8.ofNat (value >>> 8), UInt8.ofNat value]⟩

def v4? (domain : List Char) : Option Host := do
  let parts := pieces '.' domain
  let parts := if parts.getLast? = some [] then parts.dropLast else parts
  let address ← ofParts? (← parts.mapM part?)
  return .v4 address

/-- Names that are the same in ASCII but for their case, and need no tables: those of ASCII characters, with no label
that stands for others. -/
def plainName? (name : List Char) : Option (List Char) :=
  let plain (label : List Char) : Bool := !List.isPrefixOf ['x', 'n', '-', '-'] label
  if name.all isAscii && (pieces '.' (lower name)).all plain then some (lower name) else none

/-- The host of a special URL, if `toAscii?` gives names in ASCII. -/
def domain? (toAscii? : List Char → Option (List Char)) (text : List Char) : Option Host :=
  match text with
  | '[' :: rest => bracketed? rest
  | _ => do
    let domain ← toAscii? (Utf8.decodeLossy (decode text)).toList
    if domain.isEmpty ∨ domain.any isForbiddenInDomain then none
    if endsInNumber domain then v4? domain
    else some (.name (String.ofList domain))

/-- The host of any other URL. -/
def verbatim? (text : List Char) : Option Host :=
  match text with
  | '[' :: rest => bracketed? rest
  | _ => if text.any isForbidden then none else some (.name (String.ofList (encode controlSet text)))

end Host
end ArcFile.Url
