import KpiReport.Decimal.Double

/-!
# Rounding and remainders of doubles

`roundTo` rounds to decimal places by scaling; from `2 ^ 31` on, a number of places counts from
below zero, as a word of 32 bits with a sign. `floorRemainder` is the remainder that takes the
divisor's sign.
-/

namespace KpiReport.Decimal

/-- `acc * base ^ n` by repeated squaring. -/
def powerBySquaring (acc base : Float) (n : Nat) : Float :=
  let acc := if n % 2 = 1 then acc * base else acc
  if n / 2 = 0 then acc else powerBySquaring acc (base * base) (n / 2)
termination_by n
decreasing_by omega

/-- The double used as the `n`-th power of ten; below zero, the reciprocal of the opposite power. -/
def powerOfTen (n : Int) : Float :=
  let power := powerBySquaring 1 10 n.natAbs
  if n < 0 then 1 / power else power

/-- The power of ten that scales to a number of decimal places: the number as a word of 32 bits with
a sign, so that from `2 ^ 31` on the rounding is to tens, hundreds and so forth. -/
def scaleOf (places : Nat) : Int :=
  (places : Int).bmod UInt32.size

/-- Rounds to decimal places, a half going away from zero; a zero result has no sign. -/
def roundTo (places : Nat) (x : Float) : Float :=
  let factor := powerOfTen (scaleOf places)
  let rounded := (x * factor).round / factor
  if rounded == 0 then 0 else rounded

/-- The exact remainder of the division of `a` by `b` truncated toward zero; it has the sign of
`a`, and is no number where `a` is infinite or `b` is zero. -/
def truncatedRemainder (a b : Float) : Float :=
  match Parts.ofFloat a, Parts.ofFloat b with
  | .finite negative m p, .finite _ n q =>
    if n = 0 then notANumber
    else
      let least := min p q
      let dividend := m * Nat.pow 2 (p - least).toNat
      let divisor := n * Nat.pow 2 (q - least).toNat
      Parts.toFloat (.finite negative (dividend % divisor) least)
  | .finite .., .infinite _ => a
  | _, _ => notANumber

/-- The remainder of the division of `a` by `b` that is zero or has the sign of `b`. -/
def floorRemainder (a b : Float) : Float :=
  let r := truncatedRemainder a b
  if r != 0 && (decide (r < 0) != decide (b < 0)) then r + b else r

end KpiReport.Decimal
