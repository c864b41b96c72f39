import KpiReport.Calendar.DateTime
import KpiReport.Decimal.Fixed
import KpiReport.Decimal.Numeral
import KpiReport.Text.Blank

/-!
# Dates as text

A date is written `2024-03-14`, a year outside 0 to 9999 with its sign; a point in time is written
`2024-03-14T23:30:00`, with three, six or nine decimal places of the second when they are needed.
Reading allows blank characters before each number and hyphen and at the end, and numbers without
their leading zeros.
-/

namespace KpiReport.Calendar

open KpiReport.Decimal
open KpiReport.Text (trimStart)

/-- A year with at least four digits, with its sign outside 0 to 9999. -/
def yearText (year : Int) : List Char :=
  if 0 ≤ year ∧ year ≤ 9999 then padded 4 year.toNat
  else (if year < 0 then '-' else '+') :: padded 4 year.natAbs

namespace Date

/-- The text of a date. -/
def chars (date : Date) : List Char :=
  yearText date.year ++ '-' :: padded 2 date.month ++ '-' :: padded 2 date.dayOfMonth

/-- The text of a date. -/
def toText (date : Date) : String :=
  String.ofList date.chars

end Date

namespace DateTime

/-- The hour, minute and second of a point in time. -/
def clockChars (time : DateTime) : List Char :=
  padded 2 time.hour ++ ':' :: padded 2 time.minute ++ ':' :: padded 2 time.second

/-- The decimal places of the second, in the least of three, six and nine places that hold them. -/
def fractionChars (time : DateTime) : List Char :=
  let nano := time.nanosecond
  if nano = 0 then []
  else if nano % 1000000 = 0 then '.' :: padded 3 (nano / 1000000)
  else if nano % 1000 = 0 then '.' :: padded 6 (nano / 1000)
  else '.' :: padded 9 nano

/-- The text of a point in time. -/
def toText (time : DateTime) : String :=
  String.ofList (time.date.chars ++ 'T' :: time.clockChars ++ time.fractionChars)

/-- The text of a point in time for readers: a space before the time and no part of a second. -/
def toPlainText (time : DateTime) : String :=
  String.ofList (time.date.chars ++ ' ' :: time.clockChars)

end DateTime

/-- Takes a number of at most `width` digits at the start of a text. -/
def takeNumber? (width : Nat) (cs : List Char) : Option (Nat × List Char) :=
  let ds := (cs.take width).takeWhile Char.isDigit
  if ds.isEmpty then none else some (ofDigits ds, cs.drop ds.length)

/-- Takes a year: digits without a limit after a sign, else at most four digits. -/
def takeYear? (cs : List Char) : Option (Int × List Char) :=
  match trimStart cs with
  | '-' :: cs => (takeNumber? cs.length cs).map fun (n, cs) => (-(n : Int), cs)
  | '+' :: cs => (takeNumber? cs.length cs).map fun (n, cs) => ((n : Int), cs)
  | cs => (takeNumber? 4 cs).map fun (n, cs) => ((n : Int), cs)

/-- Takes a number of one or two digits after blank characters. -/
def takeTwo? (cs : List Char) : Option (Nat × List Char) :=
  takeNumber? 2 (trimStart cs)

/-- Takes a character after blank characters. -/
def takeMark? (mark : Char) (cs : List Char) : Option (List Char) :=
  match trimStart cs with
  | c :: cs => if c = mark then some cs else none
  | [] => none

/-- Takes a date at the start of a text. -/
def takeDate? (cs : List Char) : Option (Date × List Char) := do
  let (year, cs) ← takeYear? cs
  let cs ← takeMark? '-' cs
  let (month, cs) ← takeTwo? cs
  let cs ← takeMark? '-' cs
  let (day, cs) ← takeTwo? cs
  let date ← Date.ofYearMonthDay? year month day
  return (date, trimStart cs)

/-- Takes the decimal places of a second; those beyond nanoseconds are dropped. -/
def takeFraction? : List Char → Option (Nat × List Char)
  | '.' :: cs => do
    let (n, rest) ← takeNumber? 9 cs
    let places := cs.length - rest.length
    return (n * Nat.pow 10 (9 - places), rest.dropWhile Char.isDigit)
  | cs => some (0, cs)

/-- Reads a whole text as a date. -/
def Date.read? (text : String) : Option Date :=
  match takeDate? text.toList with
  | some (date, []) => some date
  | _ => none

/-- Reads a whole text as a point in time. -/
def DateTime.read? (text : String) : Option DateTime := do
  let (date, cs) ← takeDate? text.toList
  let cs ← takeMark? 'T' cs
  let (hour, cs) ← takeTwo? cs
  let cs ← takeMark? ':' cs
  let (minute, cs) ← takeTwo? cs
  let cs ← takeMark? ':' cs
  let (second, cs) ← takeTwo? cs
  let (nano, cs) ← takeFraction? cs
  if (trimStart cs).isEmpty then DateTime.ofClock? date hour minute second nano else none

end KpiReport.Calendar
