/-!
# Doubles taken apart

A finite double is `± mantissa · 2 ^ exponent` with a mantissa below `2 ^ 53`. Decimal texts and
remainders are computed exactly from these parts.
-/

namespace KpiReport.Decimal

/-- A double taken apart. -/
inductive Parts where
  | nan
  | infinite (negative : Bool)
  | finite (negative : Bool) (mantissa : Nat) (exponent : Int)
  deriving DecidableEq, Repr

namespace Parts

/-- The exponent of the least positive double, and of all the subnormal ones. -/
def leastExponent : Int := -1074

/-- The least mantissa of a double that is not subnormal, `2 ^ 52`. -/
def leastNormal : Nat := 0x10000000000000

/-- The parts of a double, read off its bits. -/
def ofFloat (x : Float) : Parts :=
  let bits := x.toBits.toNat
  let negative := decide (UInt64.size / 2 ≤ bits)
  let biased : Nat := bits / leastNormal % 0x800
  let fraction := bits % leastNormal
  if biased = 2047 then
    if fraction = 0 then .infinite negative else .nan
  else if biased = 0 then .finite negative fraction leastExponent
  else .finite negative (fraction + leastNormal) ((biased : Int) - 1075)

/-- The bits of `mantissa · 2 ^ exponent`, for a mantissa below `2 ^ 53` and an exponent between
the least and the greatest one: the mantissa is first doubled while that keeps it below `2 ^ 53`. -/
def magnitudeBits (mantissa : Nat) (exponent : Int) : Nat :=
  if mantissa = 0 then 0
  else
    let shift := min (52 - mantissa.log2) (exponent - leastExponent).toNat
    let mantissa := mantissa * Nat.pow 2 shift
    let exponent := exponent - shift
    if mantissa < leastNormal then mantissa
    else (exponent + 1075).toNat * leastNormal + (mantissa - leastNormal)

/-- The double with the given parts. -/
def toFloat : Parts → Float
  | .nan => Float.ofBits 0x7FF8000000000000
  | .infinite negative => Float.ofBits (if negative then 0xFFF0000000000000 else 0x7FF0000000000000)
  | .finite negative mantissa exponent =>
    let bits := magnitudeBits mantissa exponent
    Float.ofBits (UInt64.ofNat (if negative then UInt64.size / 2 + bits else bits))

end Parts

/-- Positive infinity. -/
def infinity : Float := Parts.toFloat (.infinite false)

/-- The double that is no number. -/
def notANumber : Float := Parts.toFloat .nan

/-- Whether a double is neither infinite nor without a value. -/
def isFinite (x : Float) : Bool :=
  match Parts.ofFloat x with
  | .finite .. => true
  | _ => false

end KpiReport.Decimal
