import KpiReport.Decimal.Shortest
import KpiReport.Json.Basic

/-!
# Writing JSON

`Json.print` writes a value without space between its parts. Doubles are written with the digits of
their shortest decimal text, with a point or an exponent always; what has no such text is written as
`null`.
-/

namespace KpiReport.Json

open KpiReport.Decimal

/-! ## Texts -/

/-- The characters that have an escape of their own, with the letter of the escape. -/
def escapes : List (Char × Char) :=
  [('"', '"'), ('\\', '\\'), ('\x08', 'b'), ('\x0c', 'f'), ('\n', 'n'), ('\r', 'r'), ('\t', 't')]

/-- The hexadecimal digits of a control character. -/
def controlCode (c : Char) : List Char :=
  let ds := Nat.toDigits 16 c.toNat
  List.replicate (4 - ds.length) '0' ++ ds

/-- How a character is written inside a text. -/
def printChar (c : Char) : List Char :=
  match List.lookup c escapes with
  | some letter => ['\\', letter]
  | none => if c.toNat < 0x20 then '\\' :: 'u' :: controlCode c else [c]

/-- Writes a text with its quotes. -/
def printText (s : String) : String :=
  String.ofList ('"' :: s.toList.flatMap printChar ++ ['"'])

/-! ## Numbers -/

/-- A decimal as it is written: the digits before and after its point, and the power of ten. -/
structure Numeral where
  whole : List Char
  places : List Char
  exponent : Option Int

namespace Numeral

/-- How `n · 10 ^ power` is written: with an exponent if the point stands far from the digits, else
with at least one digit before the point and one after it. -/
def ofDecimal (n : Nat) (power : Int) : Numeral :=
  let ds := digits n
  let point := ds.length + power
  if 16 < point ∨ point ≤ -5 then ⟨ds.take 1, ds.drop 1, some (point - 1)⟩
  else if 0 ≤ power then ⟨ds ++ List.replicate power.toNat '0', ['0'], none⟩
  else if 0 < point then ⟨ds.take point.toNat, ds.drop point.toNat, none⟩
  else ⟨['0'], List.replicate (-point).toNat '0' ++ ds, none⟩

/-- The decimal places with their point. -/
def pointed (places : List Char) : List Char :=
  if places.isEmpty then [] else '.' :: places

/-- The exponent with its letter. -/
def scaled : Option Int → List Char
  | none => []
  | some power => 'e' :: (sign (power < 0) ++ digits power.natAbs)

/-- The characters of a decimal. -/
def chars (numeral : Numeral) : List Char :=
  numeral.whole ++ (pointed numeral.places ++ scaled numeral.exponent)

end Numeral

/-- Writes a number. -/
def printNumber (x : Float) : String :=
  match Parts.ofFloat x with
  | .finite negative mantissa exponent =>
    let decimal := if mantissa = 0 then (0, 0) else shortestDecimal mantissa exponent
    String.ofList (sign negative ++ (Numeral.ofDecimal decimal.1 decimal.2).chars)
  | _ => "null"

/-! ## Values -/

mutual

/-- Writes a value. -/
def print : Json → String
  | .null => "null"
  | .bool true => "true"
  | .bool false => "false"
  | .integer n => toString n
  | .number x => printNumber x
  | .text s => printText s
  | .list items => "[" ++ String.intercalate "," (printItems items) ++ "]"
  | .object fields => "\x7b" ++ String.intercalate "," (printFields fields) ++ "\x7d"
  | .outOfRange => "null"

/-- Writes the items of a list. -/
def printItems : List Json → List String
  | [] => []
  | item :: items => print item :: printItems items

/-- Writes the fields of an object. -/
def printFields : List (String × Json) → List String
  | [] => []
  | (name, value) :: fields => (printText name ++ ":" ++ print value) :: printFields fields

end

end KpiReport.Json
