import KpiReport.Decimal.Double

/-!
# Shortest decimal texts

`shortest` writes a double with the fewest digits that read back as that double. The reals that
round to a double form an interval around it, with its ends iff the mantissa is even. For one,
two, ... seventeen digits the two neighbours of the value on the grid of decimals with that many
digits are tried; the first grid with a neighbour in the interval wins, of two the nearer one, and
the greater one when both are equally near.
-/

namespace KpiReport.Decimal

/-- The decimal digits of a number. -/
def digits (n : Nat) : List Char :=
  Nat.toDigits 10 n

/-- The interval of the reals that round to `mantissa · 2 ^ exponent`, in units of
`numerator / denominator`; its ends belong to it iff `closed`. -/
structure Rounding where
  low : Nat
  value : Nat
  high : Nat
  closed : Bool
  numerator : Nat
  denominator : Nat

/-- The rounding interval of a positive double: half the distance to each neighbour, which below a
power of two is half as far as above. -/
def Rounding.ofParts (mantissa : Nat) (exponent : Int) : Rounding where
  low :=
    if mantissa = Parts.leastNormal ∧ Parts.leastExponent < exponent then 4 * mantissa - 1
    else 4 * mantissa - 2
  value := 4 * mantissa
  high := 4 * mantissa + 2
  closed := mantissa % 2 == 0
  numerator := Nat.pow 2 (exponent - 2).toNat
  denominator := Nat.pow 2 (2 - exponent).toNat

/-- The `k` with `10 ^ (k - 1) ≤ a / b < 10 ^ k`, for positive `a` and `b`. -/
def decimalExponent (a b : Nat) : Int :=
  if b ≤ a then (digits (a / b)).length
  else
    let places := (digits (b / a)).length
    if b ≤ a * Nat.pow 10 (places - 1) then 2 - places else 1 - places

/-- The decimal with `count` digits that stands for the value of the interval, as a whole number
and a power of ten, if one of the value's neighbours on that grid lies in the interval. -/
def Rounding.decimal? (r : Rounding) (count : Nat) : Option (Nat × Int) :=
  let power := decimalExponent (r.value * r.numerator) r.denominator - count
  let scale := r.numerator * Nat.pow 10 (-power).toNat
  let step := r.denominator * Nat.pow 10 power.toNat
  let below := r.value * scale / step
  let lowHit : Bool :=
    if r.closed then r.low * scale ≤ below * step else r.low * scale < below * step
  let highHit : Bool :=
    if r.closed then (below + 1) * step ≤ r.high * scale else (below + 1) * step < r.high * scale
  let nearBelow : Bool := r.value * scale - below * step < (below + 1) * step - r.value * scale
  let chosen? :=
    match lowHit, highHit with
    | true, true => some (if nearBelow then below else below + 1)
    | true, false => some below
    | false, true => some (below + 1)
    | false, false => none
  chosen?.map fun chosen =>
    if chosen = Nat.pow 10 count then (Nat.pow 10 (count - 1), power + 1) else (chosen, power)

/-- The shortest decimal that reads back as the positive double with the given parts, as a whole
number and a power of ten. -/
def shortestDecimal (mantissa : Nat) (exponent : Int) : Nat × Int :=
  let r := Rounding.ofParts mantissa exponent
  ((List.range 17).findSome? fun i => r.decimal? (i + 1)).getD (0, 0)

/-- Writes `n · 10 ^ power` without an exponent. -/
def positional (n : Nat) (power : Int) : List Char :=
  let ds := digits n
  if 0 ≤ power then ds ++ List.replicate power.toNat '0'
  else
    let places := power.natAbs
    if places < ds.length then ds.take (ds.length - places) ++ '.' :: ds.drop (ds.length - places)
    else '0' :: '.' :: List.replicate (places - ds.length) '0' ++ ds

/-- A minus sign for negative numbers. -/
def sign (negative : Bool) : List Char :=
  if negative then ['-'] else []

/-- The shortest decimal text of a double, never with an exponent; zero keeps its sign. -/
def shortest (x : Float) : String :=
  match Parts.ofFloat x with
  | .nan => "NaN"
  | .infinite negative => String.ofList (sign negative ++ ['i', 'n', 'f'])
  | .finite negative mantissa exponent =>
    if mantissa = 0 then String.ofList (sign negative ++ ['0'])
    else
      let decimal := shortestDecimal mantissa exponent
      String.ofList (sign negative ++ positional decimal.1 decimal.2)

end KpiReport.Decimal
