import KpiReport.Calendar.Text

/-!
# Date patterns

A pattern such as `%d/%m/%Y` says how dates are written. `Pattern.read?` reads its directives, or
finds that one is unknown; `Pattern.write?` writes a date, unless a directive asks for a time of
day. The marks `-`, `_` and `0` after the percent sign change the padding of a single number.
-/

namespace KpiReport.Calendar

open KpiReport.Decimal (digits)

/-- What fills a number up to its width. -/
inductive Padding where
  | none
  | zero
  | space
  deriving DecidableEq, Repr

/-- A number that a pattern writes. -/
inductive NumberField where
  | year
  | century
  | yearOfCentury
  | isoYear
  | isoYearOfCentury
  | quarter
  | month
  | day
  | weekFromSunday
  | weekFromMonday
  | isoWeek
  | weekdayFromSunday
  | weekdayFromMonday
  | dayOfYear
  /-- A number of the time of day, which a date does not have. -/
  | timeOfDay
  deriving DecidableEq, Repr

/-- A part of a pattern. -/
inductive PatternItem where
  | literal (cs : List Char)
  | number (field : NumberField) (padding : Padding)
  | monthName (short : Bool)
  | weekdayName (short : Bool)
  /-- A text of the time of day or the time zone, which a date does not have. -/
  | timeText
  deriving DecidableEq, Repr

/-- The parts of a pattern in order. -/
abbrev Pattern := List PatternItem

namespace Pattern

/-- A number filled up with zeros. -/
def zeros (field : NumberField) : PatternItem :=
  .number field .zero

/-- A number filled up with spaces. -/
def spaces (field : NumberField) : PatternItem :=
  .number field .space

/-- The directives of one character. -/
def letterItems? : Char → Option Pattern
  | 'A' => some [.weekdayName false]
  | 'a' => some [.weekdayName true]
  | 'B' => some [.monthName false]
  | 'b' | 'h' => some [.monthName true]
  | 'C' => some [zeros .century]
  | 'D' | 'x' =>
    some [zeros .month, .literal ['/'], zeros .day, .literal ['/'], zeros .yearOfCentury]
  | 'F' => some [zeros .year, .literal ['-'], zeros .month, .literal ['-'], zeros .day]
  | 'v' => some [spaces .day, .literal ['-'], .monthName true, .literal ['-'], zeros .year]
  | 'G' => some [zeros .isoYear]
  | 'g' => some [zeros .isoYearOfCentury]
  | 'U' => some [zeros .weekFromSunday]
  | 'V' => some [zeros .isoWeek]
  | 'W' => some [zeros .weekFromMonday]
  | 'Y' => some [zeros .year]
  | 'y' => some [zeros .yearOfCentury]
  | 'd' => some [zeros .day]
  | 'e' => some [spaces .day]
  | 'j' => some [zeros .dayOfYear]
  | 'm' => some [zeros .month]
  | 'q' => some [.number .quarter .none]
  | 'u' => some [.number .weekdayFromMonday .none]
  | 'w' => some [.number .weekdayFromSunday .none]
  | 'n' => some [.literal ['\n']]
  | 't' => some [.literal ['\t']]
  | '%' => some [.literal ['%']]
  | 'H' | 'I' | 'M' | 'S' | 'f' | 'k' | 'l' | 's' => some [zeros .timeOfDay]
  | 'P' | 'p' | 'Z' | 'z' | '+' => some [.timeText]
  | 'R' | 'T' | 'X' | 'c' | 'r' => some [.timeText, .timeText]
  | _ => none

/-- The directive at the start of a text, its percent sign and padding mark taken off, and what
follows it. -/
def directive? : List Char → Option (Pattern × List Char)
  | ':' :: ':' :: ':' :: 'z' :: rest => some ([.timeText], rest)
  | ':' :: ':' :: 'z' :: rest => some ([.timeText], rest)
  | ':' :: 'z' :: rest => some ([.timeText], rest)
  | '.' :: 'f' :: rest => some ([.timeText], rest)
  | '.' :: places :: 'f' :: rest =>
    if ['3', '6', '9'].contains places then some ([.timeText], rest) else none
  | '3' :: 'f' :: rest => some ([.timeText], rest)
  | '6' :: 'f' :: rest => some ([.timeText], rest)
  | '9' :: 'f' :: rest => some ([.timeText], rest)
  | c :: rest => (letterItems? c).map fun items => (items, rest)
  | [] => none

/-- The padding that a mark asks for. -/
def paddingOf? : Char → Option Padding
  | '-' => some .none
  | '0' => some .zero
  | '_' => some .space
  | _ => none

/-- The directive after a percent sign, with its padding mark, and what follows it. -/
def markedDirective? : List Char → Option (Pattern × List Char)
  | [] => none
  | '#' :: rest =>
    match rest with
    | 'z' :: rest => some ([.timeText], rest)
    | _ => none
  | mark :: rest =>
    match paddingOf? mark with
    | none => directive? (mark :: rest)
    | some padding =>
      match directive? rest with
      | some ([.number field _], rest) => some ([.number field padding], rest)
      | _ => none

/-- Reads a pattern; `fuel` bounds the number of its items. -/
def readWith? (fuel : Nat) (cs : List Char) : Option Pattern :=
  match fuel, cs with
  | _, [] => some []
  | 0, _ :: _ => none
  | fuel + 1, '%' :: rest => do
    let (items, rest) ← markedDirective? rest
    return items ++ (← readWith? fuel rest)
  | fuel + 1, c :: rest => do
    return .literal [c] :: (← readWith? fuel rest)

/-- Reads a pattern, unless it has an unknown directive. -/
def read? (text : String) : Option Pattern :=
  readWith? text.length text.toList

end Pattern

/-- The English names of the months. -/
def monthNames : List String :=
  ["January", "February", "March", "April", "May", "June", "July", "August", "September",
    "October", "November", "December"]

/-- The English names of the weekdays, from Monday. -/
def weekdayNames : List String :=
  ["Monday", "Tuesday", "Wednesday", "Thursday", "Friday", "Saturday", "Sunday"]

namespace Date

/-- The number of the week of the year, weeks starting on the weekday `sinceStart` days ago and the
days before the first such weekday being in week 0. -/
def weekOfYear (date : Date) (sinceStart : Nat) : Nat :=
  (date.dayOfYear + 6 - sinceStart) / 7

/-- The number of the Thursday of the week of a date, which decides the week's year. -/
def thursday (date : Date) : Int :=
  date.number - date.daysSinceMonday + 3

/-- The year that the week of a date belongs to. -/
def isoYear (date : Date) : Int :=
  yearOfDay date.thursday

/-- The number of the week of a date among the weeks of its year, from 1. -/
def isoWeek (date : Date) : Nat :=
  ((date.thursday - daysBeforeYear date.isoYear - 1) / 7).toNat + 1

end Date

namespace Pattern

/-- Fills a text up to a width with a character. -/
def fill (c : Char) (width : Nat) (cs : List Char) : List Char :=
  List.replicate (width - cs.length) c ++ cs

/-- A number below 256 in two places: its last digit, and before it one character that stands for
the tens, those beyond nine continuing after the digit nine. -/
def twoPlaces (padding : Padding) (n : Nat) : List Char :=
  let ones := Char.ofNat ('0'.toNat + n % 10)
  match n / 10, padding with
  | 0, .none => [ones]
  | 0, .space => [' ', ones]
  | tens, _ => [Char.ofNat ('0'.toNat + tens), ones]

/-- A number in three places. -/
def threePlaces (padding : Padding) (n : Nat) : List Char :=
  match padding with
  | .none => digits n
  | .zero => fill '0' 3 (digits n)
  | .space => fill ' ' 3 (digits n)

/-- A year in four places, with its sign before them outside 0 to 9999. -/
def yearPlaces (padding : Padding) (year : Int) : List Char :=
  let ds := digits year.natAbs
  if 0 ≤ year ∧ year ≤ 9999 then
    match padding with
    | .none => ds
    | .zero => fill '0' 4 ds
    | .space => fill ' ' 4 ds
  else
    let mark := if year < 0 then '-' else '+'
    match padding with
    | .none => mark :: ds
    | .zero => mark :: fill '0' 4 ds
    | .space => fill ' ' 5 (mark :: ds)

/-- Writes a number of a date. -/
def writeNumber? (date : Date) (padding : Padding) : NumberField → Option (List Char)
  | .year => some (yearPlaces padding date.year)
  | .century => some (twoPlaces padding (date.year / 100 % 256).toNat)
  | .yearOfCentury => some (twoPlaces padding (date.year % 100).toNat)
  | .isoYear => some (yearPlaces padding date.isoYear)
  | .isoYearOfCentury => some (twoPlaces padding (date.isoYear % 100).toNat)
  | .quarter => some (digits ((date.month + 2) / 3))
  | .month => some (twoPlaces padding date.month)
  | .day => some (twoPlaces padding date.dayOfMonth)
  | .weekFromSunday => some (twoPlaces padding (date.weekOfYear date.daysSinceSunday))
  | .weekFromMonday => some (twoPlaces padding (date.weekOfYear date.daysSinceMonday))
  | .isoWeek => some (twoPlaces padding date.isoWeek)
  | .weekdayFromSunday => some (digits date.daysSinceSunday)
  | .weekdayFromMonday => some (digits (date.daysSinceMonday + 1))
  | .dayOfYear => some (threePlaces padding date.dayOfYear)
  | .timeOfDay => none

/-- Writes one item of a pattern for a date. -/
def writeItem? (date : Date) : PatternItem → Option (List Char)
  | .literal cs => some cs
  | .number field padding => writeNumber? date padding field
  | .monthName short =>
    let name := (monthNames.getD (date.month - 1) "").toList
    some (if short then name.take 3 else name)
  | .weekdayName short =>
    let name := (weekdayNames.getD date.daysSinceMonday "").toList
    some (if short then name.take 3 else name)
  | .timeText => none

/-- Writes a date, unless an item of the pattern asks for a time of day. -/
def write? (pattern : Pattern) (date : Date) : Option String :=
  (pattern.mapM (writeItem? date)).map fun pieces => String.ofList pieces.flatten

end Pattern

end KpiReport.Calendar
