/-!
Decimal numerals. A signed numeral is an optional sign and one or more ASCII digits; `readInt?` accepts
it if its value lies in a given range.
-/
namespace ArcFile.Text.Decimal

/-- The value of a digit in bases up to 16. -/
def digit? (c : Char) : Option Nat :=
  if '0' ≤ c ∧ c ≤ '9' then some (c.toNat - 48)
  else if 'a' ≤ c ∧ c ≤ 'f' then some (c.toNat - 87)
  else if 'A' ≤ c ∧ c ≤ 'F' then some (c.toNat - 55)
  else none

/-- The value of a digit of this base. -/
def digitIn? (base : Nat) (c : Char) : Option Nat := (digit? c).filter (· < base)

/-- Continues a number, whose digits so far have the value `value`, with all of `text`. -/
def continue? (base value : Nat) : List Char → Option Nat
  | [] => some value
  | c :: rest => (digitIn? base c).bind fun d => continue? base (value * base + d) rest

/-- The number with these digits, of which there is at least one. -/
def readNat? (base : Nat) (text : List Char) : Option Nat :=
  if text.isEmpty then none else continue? base 0 text

def signed? : List Char → Option Int
  | '-' :: digits => (readNat? 10 digits).map fun n => -(n : Int)
  | '+' :: digits => (readNat? 10 digits).map fun n => (n : Int)
  | digits => (readNat? 10 digits).map fun n => (n : Int)

/-- A signed decimal numeral with a value from `lo` to `hi`. -/
def readInt? (lo hi : Int) (text : List Char) : Option Int :=
  (signed? text).filter fun n => lo ≤ n && n ≤ hi

/-- `n` in decimal, with zeros in front up to `width` digits. -/
def padded (width n : Nat) : String :=
  let digits := (Nat.toDigits 10 n)
  String.ofList (List.replicate (width - digits.length) '0' ++ digits)

end ArcFile.Text.Decimal
