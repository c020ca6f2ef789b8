import ArcFile.Text.Decimal
import ArcFile.Value.Slot
/-!
Archive dates: fourteen digits `yyyyMMddHHmmss`, in UTC and the proleptic Gregorian calendar. A
second of 60 is allowed in any minute, and is the same instant as second 59. Dates that are
not after 1970-01-01 are no archive dates.
-/
namespace ArcFile

open Text

structure Timestamp where
  year : Nat
  month : Nat
  day : Nat
  hour : Nat
  minute : Nat
  second : Nat
  deriving DecidableEq, Repr

namespace Timestamp

def isLeap (year : Nat) : Bool := year % 4 == 0 && (year % 100 != 0 || year % 400 == 0)

def daysInMonth (year month : Nat) : Nat :=
  match month with
  | 2 => if isLeap year then 29 else 28
  | 4 | 6 | 9 | 11 => 30
  | _ => 31

/-- The date and the time of day exist. -/
def valid (t : Timestamp) : Bool :=
  1 ≤ t.month && t.month ≤ 12 && 1 ≤ t.day && t.day ≤ daysInMonth t.year t.month &&
    t.hour ≤ 23 && t.minute ≤ 59 && t.second ≤ 60

/-- Leap years from year 0 up to but not including `year`. -/
def leapsBefore (year : Nat) : Nat := (year + 3) / 4 - (year + 99) / 100 + (year + 399) / 400

/-- Days from 1 January of year 0 to 1 January of `year`. -/
def daysBeforeYear (year : Nat) : Nat := 365 * year + leapsBefore year

/-- Days of the months of `year` before `month`. -/
def daysBeforeMonth (year : Nat) : Nat → Nat
  | 0 => 0
  | month + 1 => if month = 0 then 0 else daysBeforeMonth year month + daysInMonth year month

/-- Days from 1 January of year 0. -/
def dayNumber (t : Timestamp) : Nat :=
  daysBeforeYear t.year + daysBeforeMonth t.year t.month + (t.day - 1)

/-- Seconds from the start of 1970 (before it, negative). -/
def instant (t : Timestamp) : Int :=
  (t.dayNumber * 86400 + t.hour * 3600 + t.minute * 60 + min t.second 59 : Nat) -
    (daysBeforeYear 1970 * 86400 : Nat)

/-- The number that the digits of one part of a date spell. -/
def part (digits : List Char) : Nat := (Decimal.readNat? 10 digits).getD 0

def ofDigits (text : List Char) : Timestamp where
  year := part (text.take 4)
  month := part ((text.drop 4).take 2)
  day := part ((text.drop 6).take 2)
  hour := part ((text.drop 8).take 2)
  minute := part ((text.drop 10).take 2)
  second := part ((text.drop 12).take 2)

def parse? (text : String) : Option Timestamp :=
  let digits := text.toList
  let t := ofDigits digits
  if digits.length = 14 ∧ digits.all Char.isDigit ∧ t.valid ∧ 0 < t.instant then some t else none

/-- The date in the form `YYYY-MM-DDTHH:MM:SS`. -/
def render (t : Timestamp) : String :=
  Decimal.padded 4 t.year ++ "-" ++ Decimal.padded 2 t.month ++ "-" ++ Decimal.padded 2 t.day ++ "T" ++
    Decimal.padded 2 t.hour ++ ":" ++ Decimal.padded 2 t.minute ++ ":" ++ Decimal.padded 2 t.second

def kind : ValueKind Timestamp := ⟨"yyyyMMddHHmmss", parse?⟩

end Timestamp
end ArcFile
