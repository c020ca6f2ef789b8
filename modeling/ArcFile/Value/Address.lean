import ArcFile.Text.Decimal
import ArcFile.Text.Pieces
import ArcFile.Value.Slot
/-!
IP addresses. `Address.parse?` reads the dotted form of IPv4, without leading zeros, and the forms of
IPv6 with `::` for a run of zero groups and an IPv4 address for the last two groups.
`Address.render` writes the shortest form: lower case, with `::` for the first longest run of two
or more zero groups.
-/
namespace ArcFile

open Text

/-- An IPv4 address: its four octets. -/
structure Address.V4 where
  octets : Vector UInt8 4
  deriving DecidableEq, Repr

/-- An IPv6 address: its eight groups. -/
structure Address.V6 where
  groups : Vector UInt16 8
  deriving DecidableEq, Repr

inductive Address where
  | v4 (address : Address.V4)
  | v6 (address : Address.V6)
  deriving DecidableEq, Repr

namespace Address

/-- One to `most` digits of this base, as long a run as there is, and what follows it. -/
def digits? (base most : Nat) (text : List Char) : Option (List Char × List Char) :=
  let run := text.takeWhile fun c => (Decimal.digitIn? base c).isSome
  if run.isEmpty || most < run.length then none
  else some (run, text.dropWhile fun c => (Decimal.digitIn? base c).isSome)

/-- A number below 256 without leading zeros. -/
def octet? (text : List Char) : Option (UInt8 × List Char) := do
  let (run, rest) ← digits? 10 3 text
  let n ← Decimal.readNat? 10 run
  if (run.head? = some '0' ∧ 1 < run.length) ∨ 255 < n then none
  return (UInt8.ofNat n, rest)

/-- Skips one character, which must be `c`. -/
def skip? (c : Char) : List Char → Option (List Char)
  | [] => none
  | first :: rest => if first = c then some rest else none

def v4? (text : List Char) : Option (V4 × List Char) := do
  let (a, rest) ← octet? text
  let (b, rest) ← octet? (← skip? '.' rest)
  let (c, rest) ← octet? (← skip? '.' rest)
  let (d, rest) ← octet? (← skip? '.' rest)
  return (⟨#v[a, b, c, d]⟩, rest)

/-- One to four hexadecimal digits. -/
def group? (text : List Char) : Option (UInt16 × List Char) := do
  let (run, rest) ← digits? 16 4 text
  let n ← Decimal.readNat? 16 run
  return (UInt16.ofNat n, rest)

/-- The group of these two octets. -/
def joinOctets (high low : UInt8) : UInt16 := high.toUInt16 * 256 + low.toUInt16

/-- An IPv4 address as two groups. -/
def V4.toGroups (a : V4) : List UInt16 :=
  [joinOctets a.octets[0] a.octets[1], joinOctets a.octets[2] a.octets[3]]

/-- Up to `most` groups with colons between them; the last two may be an IPv4 address. Gives the
groups, whether they end in an IPv4 address, and what follows them. -/
def groups (first : Bool) : Nat → List Char → List UInt16 × Bool × List Char
  | 0, text => ([], false, text)
  | most + 1, text =>
    match if first then some text else skip? ':' text with
    | none => ([], false, text)
    | some start =>
      match if most = 0 then none else v4? start with
      | some (a, rest) => (a.toGroups, true, rest)
      | none =>
        match group? start with
        | none => ([], false, text)
        | some (g, rest) =>
          let (more, dotted, after) := groups false most rest
          (g :: more, dotted, after)

def V6.ofGroups (gs : List UInt16) : V6 := ⟨Vector.ofFn fun i => gs.getD i.val 0⟩

def v6? (text : List Char) : Option (V6 × List Char) :=
  let (front, dotted, rest) := groups true 8 text
  if front.length = 8 then some (V6.ofGroups front, rest)
  else if dotted then none
  else do
    let rest ← skip? ':' (← skip? ':' rest)
    let (back, _, rest) := groups true (7 - front.length) rest
    let zeros := List.replicate (8 - front.length - back.length) 0
    return (V6.ofGroups (front ++ zeros ++ back), rest)

/-- The address that all of `text` spells. A text that begins with an IPv4 address is never
read as IPv6. -/
def spelled? (text : List Char) : Option Address :=
  match v4? text with
  | some (a, rest) => if rest.isEmpty then some (.v4 a) else none
  | none =>
    match v6? text with
    | some (a, rest) => if rest.isEmpty then some (.v6 a) else none
    | none => none

def isHexDigit (c : Char) : Bool := (Decimal.digitIn? 16 c).isSome

/-- Four runs of one to three digits with points between them. -/
def looksDotted (text : List Char) : Bool :=
  (pieces '.' text).length == 4 &&
    (pieces '.' text).all fun run => 1 ≤ run.length && run.length ≤ 3 && run.all Char.isDigit

/-- Up to four hexadecimal digits, a colon, and then only hexadecimal digits, colons and points. -/
def looksGrouped (text : List Char) : Bool :=
  (text.takeWhile isHexDigit).length ≤ 4 &&
    match text.dropWhile isHexDigit with
    | ':' :: rest => rest.all fun c => isHexDigit c || c == ':' || c == '.'
    | _ => false

/-- A cheap look at the shape of an address, which every address passes. -/
def looksRight (text : List Char) : Bool := looksDotted text || looksGrouped text

def parse? (text : String) : Option Address :=
  if looksRight text.toList then spelled? text.toList else none

def V4.render (a : V4) : String :=
  ".".intercalate (a.octets.toList.map fun b => toString b.toNat)

/-- A group in lower-case hexadecimal digits. -/
def renderGroup (g : UInt16) : String := String.ofList (Nat.toDigits 16 g.toNat)

def renderGroups (gs : List UInt16) : String := ":".intercalate (gs.map renderGroup)

/-- How many groups are zero from the front on. -/
def zerosAt (gs : List UInt16) : Nat := (gs.takeWhile (· == 0)).length

/-- Where the first longest run of zero groups begins, and its length. -/
def longestZeros (gs : List UInt16) : Nat × Nat :=
  (List.range gs.length).foldl (fun (start, size) i =>
    let here := zerosAt (gs.drop i)
    if size < here then (i, here) else (start, size)) (0, 0)

/-- Groups with `::` in the place of the first longest run of two or more zeros. -/
def renderCompressed (gs : List UInt16) : String :=
  let (start, size) := longestZeros gs
  if 1 < size then
    renderGroups (gs.take start) ++ "::" ++ renderGroups (gs.drop (start + size))
  else renderGroups gs

/-- The IPv4 address that an IPv6 address of the form `::ffff:a.b.c.d` stands for. -/
def V6.mapped? (a : V6) : Option V4 :=
  match a.groups.toList with
  | [0, 0, 0, 0, 0, 0xFFFF, high, low] =>
    some ⟨#v[(high / 256).toUInt8, high.toUInt8, (low / 256).toUInt8, low.toUInt8]⟩
  | _ => none

def V6.render (a : V6) : String :=
  match a.mapped? with
  | some inner => "::ffff:" ++ inner.render
  | none => renderCompressed a.groups.toList

def render : Address → String
  | .v4 a => a.render
  | .v6 a => a.render

def kind : ValueKind Address := ⟨"IPv4 or IPv6 address", parse?⟩

end Address
end ArcFile
