import KpiReport.Decimal.Shortest

/-!
# Reading numbers

`ofText?` reads a decimal text as the nearest double: an optional sign, digits with an optional
point, an optional exponent. The words `inf`, `infinity` and `nan` are read in any case.
-/

namespace KpiReport.Decimal

/-- The number that a list of decimal digits writes. -/
def ofDigits (ds : List Char) : Nat :=
  ds.foldl (fun n d => 10 * n + (d.toNat - '0'.toNat)) 0

/-- The double nearest to `n · 10 ^ power`; too great a number is infinite. -/
def ofScaled (n : Nat) (power : Int) : Float :=
  let magnitude := (digits n).length + power
  if n = 0 ∨ magnitude < -330 then 0
  else if 310 < magnitude then infinity
  else Float.ofScientific n (power < 0) power.natAbs

/-- Takes the digits at the start of a text. -/
def takeDigits (cs : List Char) : List Char × List Char :=
  (cs.takeWhile Char.isDigit, cs.dropWhile Char.isDigit)

/-- Takes a sign at the start of a text: whether it is negative, and what follows. -/
def takeSign : List Char → Bool × List Char
  | '-' :: cs => (true, cs)
  | '+' :: cs => (false, cs)
  | cs => (false, cs)

/-- Reads the exponent of a decimal text, which must fill the rest of the text. -/
def exponent? : List Char → Option Int
  | [] => some 0
  | e :: cs =>
    if e = 'e' ∨ e = 'E' then
      let (negative, cs) := takeSign cs
      match takeDigits cs with
      | ([], _) => none
      | (ds, []) => some (if negative then -(ofDigits ds : Int) else ofDigits ds)
      | (_, _ :: _) => none
    else none

/-- The double nearest to the decimal with the given digits before and after the point. -/
def ofPlaces (whole places : List Char) (exponent : Int) : Float :=
  ofScaled (ofDigits (whole ++ places)) (exponent - places.length)

/-- Reads the magnitude of a decimal text. -/
def magnitude? (cs : List Char) : Option Float :=
  let (whole, cs) := takeDigits cs
  let (places, cs) :=
    match cs with
    | '.' :: cs => takeDigits cs
    | cs => ([], cs)
  if whole.isEmpty && places.isEmpty then none
  else (exponent? cs).map (ofPlaces whole places)

/-- Reads a decimal text as the nearest double. -/
def ofText? (text : List Char) : Option Float :=
  let (negative, cs) := takeSign text
  let word := String.ofList (cs.map Char.toLower)
  let magnitude? :=
    if word = "inf" ∨ word = "infinity" then some infinity
    else if word = "nan" then some notANumber
    else magnitude? cs
  magnitude?.map fun x => if negative then -x else x

/-- The greatest number of an account code that is compared as a number. -/
def greatestCode : Nat := UInt64.size - 1

/-- Reads a whole number of at most 64 bits, with an optional plus sign. -/
def wholeNumber? (text : List Char) : Option Nat :=
  let cs :=
    match text with
    | '+' :: cs => cs
    | cs => cs
  if !cs.isEmpty && cs.all Char.isDigit && ofDigits cs ≤ greatestCode then some (ofDigits cs)
  else none

end KpiReport.Decimal
