import KpiReport.Decimal.Shortest

/-!
# Decimal texts with fixed places

`fixed` writes the magnitude of a double with a given number of decimal places. The exact binary
value is rounded, a tie going to the even neighbour.
-/

namespace KpiReport.Decimal

/-- The quotient `a / b` rounded to the nearest whole number, a tie going to the even one. -/
def roundDiv (a b : Nat) : Nat :=
  let quotient := a / b
  let twice := 2 * (a % b)
  if b < twice ∨ (b = twice ∧ quotient % 2 = 1) then quotient + 1 else quotient

/-- The digits of `n`, with zeros in front where they are fewer than `width`. -/
def padded (width n : Nat) : List Char :=
  let ds := digits n
  List.replicate (width - ds.length) '0' ++ ds

/-- The integer part and the decimal places of the magnitude of a double; texts for what is no
finite number have no places. -/
def fixed (places : Nat) (x : Float) : List Char × Option (List Char) :=
  match Parts.ofFloat x with
  | .nan => (['N', 'a', 'N'], none)
  | .infinite _ => (['i', 'n', 'f'], none)
  | .finite _ mantissa exponent =>
    let n := roundDiv (mantissa * Nat.pow 2 exponent.toNat * Nat.pow 10 places)
      (Nat.pow 2 (-exponent).toNat)
    let ds := padded (places + 1) n
    let whole := ds.take (ds.length - places)
    if places = 0 then (whole, none) else (whole, some (ds.drop (ds.length - places)))

end KpiReport.Decimal
