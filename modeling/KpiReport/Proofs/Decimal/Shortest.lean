import KpiReport.Proofs.Decimal.Nearest
import Mathlib.Data.Nat.Cast.Order.Field

/-!
# Shortest decimals are read as their doubles

The numbers that round to a double form an interval, and of each number of digits the two decimals
around the double are tried. A decimal that is chosen lies in the interval (`rounds_of_decimal?`),
and with seventeen digits one of the two does (`exists_decimal?`). So the shortest decimal of a
double is read as that double (`ofFloat_shortestDecimal`).
-/

namespace KpiReport.Decimal

/-! ## Units -/

theorem natCast_pow_toNat (b : ℕ) (positive : 0 < b) (k : ℤ) :
    ((b ^ k.toNat : ℕ) : ℚ) = b ^ k * (b ^ (-k).toNat : ℕ) := by
  have base : (b : ℚ) ≠ 0 := by exact_mod_cast positive.ne'
  have exponent : (k.toNat : ℤ) = k + (-k).toNat := by omega
  rw [Nat.cast_pow, Nat.cast_pow, ← zpow_natCast, ← zpow_natCast, ← zpow_add₀ base, exponent]

/-- Whole numbers of fourths of `2 ^ e` and of `10 ^ power` are compared as whole numbers with the
two factors. -/
structure Units (e power : ℤ) (scale step : ℕ) : Prop where
  positive : 0 < step
  ratio : (scale : ℚ) * 10 ^ power = step * 2 ^ (e - 2)

namespace Units

variable {e power : ℤ} {scale step : ℕ} (u : Units e power scale step) (l k : ℕ)

include u

theorem exists_factor : ∃ c : ℚ, 0 < c ∧
    ∀ l k : ℕ, ((l * scale : ℕ) : ℚ) = c * (l / 4) ∧
      ((k * step : ℕ) : ℚ) = c * (k * 10 ^ power / 2 ^ e) := by
  have two := two_zpow_pos e
  have ten : (0 : ℚ) < 10 ^ power := zpow_pos (by norm_num) power
  have positive : (0 : ℚ) < step := by exact_mod_cast u.positive
  have ratio := u.ratio
  rw [zpow_sub₀ (by norm_num)] at ratio
  refine ⟨step * 2 ^ e / 10 ^ power, by positivity, fun l k => ⟨?_, ?_⟩⟩
  · have scale : (scale : ℚ) = step * (2 ^ e / 2 ^ (2 : ℤ)) / 10 ^ power := by
      rw [eq_div_iff ten.ne', ratio]
    rw [Nat.cast_mul, scale]
    norm_num
    ring
  · rw [Nat.cast_mul]
    field_simp

theorem le_iff : l * scale ≤ k * step ↔ (l / 4 : ℚ) ≤ k * 10 ^ power / 2 ^ e := by
  obtain ⟨c, positive, units⟩ := u.exists_factor
  rw [← Nat.cast_le (α := ℚ), (units l k).1, (units l k).2, mul_le_mul_iff_right₀ positive]

theorem ge_iff : k * step ≤ l * scale ↔ (k * 10 ^ power / 2 ^ e : ℚ) ≤ l / 4 := by
  obtain ⟨c, positive, units⟩ := u.exists_factor
  rw [← Nat.cast_le (α := ℚ), (units l k).1, (units l k).2, mul_le_mul_iff_right₀ positive]

end Units

/-! ## Numbers of digits -/

theorem ten_zpow_neg_le {a b : ℕ} (positive : 0 < b) {k : ℕ} (le : b ≤ a * 10 ^ k) :
    (10 : ℚ) ^ (-k : ℤ) ≤ a / b := by
  have divisor : (0 : ℚ) < b := by exact_mod_cast positive
  rw [zpow_neg, zpow_natCast, inv_eq_one_div, div_le_div_iff₀ (by positivity) divisor, one_mul]
  exact_mod_cast le

/-- A number is not below the least one of as many digits. -/
theorem ten_zpow_decimalExponent_le {a b : ℕ} (first : 0 < a) (second : 0 < b) :
    (10 : ℚ) ^ (decimalExponent a b - 1) ≤ a / b := by
  unfold decimalExponent
  dsimp only
  split
  · rename_i whole
    have quotient := digits_bounds (Nat.div_pos whole second)
    have some : 0 < (digits (a / b)).length := Nat.length_toDigits_pos
    have length : ((digits (a / b)).length : ℤ) - 1 = ((digits (a / b)).length - 1 : ℕ) := by omega
    rw [length, zpow_natCast]
    calc (10 : ℚ) ^ ((digits (a / b)).length - 1) ≤ (a / b : ℕ) := by exact_mod_cast quotient.1
      _ ≤ a / b := Nat.cast_div_le
  · rename_i fraction
    have quotient := digits_bounds (Nat.div_pos (Nat.lt_of_not_le fraction).le first)
    have some : 0 < (digits (b / a)).length := Nat.length_toDigits_pos
    split
    · rename_i fewer
      have exponent : 2 - ((digits (b / a)).length : ℤ) - 1 =
          -((digits (b / a)).length - 1 : ℕ) := by omega
      rw [exponent]
      exact ten_zpow_neg_le second fewer
    · have exponent : 1 - ((digits (b / a)).length : ℤ) - 1 = -((digits (b / a)).length : ℕ) := by
        omega
      rw [exponent]
      refine ten_zpow_neg_le second ?_
      rw [Nat.mul_comm]
      exact ((Nat.div_lt_iff_lt_mul first).1 quotient.2).le

/-! ## The interval of a double -/

namespace Rounding

variable (m : ℕ) (e : ℤ)

theorem units_ofParts (power : ℤ) : Units e power
    ((ofParts m e).numerator * Nat.pow 10 (-power).toNat)
    ((ofParts m e).denominator * Nat.pow 10 power.toNat) := by
  have two := natCast_pow_toNat 2 (by decide) (e - 2)
  have ten := natCast_pow_toNat 10 (by decide) power
  rw [neg_sub] at two
  refine ⟨Nat.mul_pos (Nat.pow_pos (by decide)) (Nat.pow_pos (by decide)), ?_⟩
  change ((2 ^ (e - 2).toNat * 10 ^ (-power).toNat : ℕ) : ℚ) * 10 ^ power =
    ((2 ^ (2 - e).toNat * 10 ^ power.toNat : ℕ) : ℚ) * 2 ^ (e - 2)
  rw [Nat.cast_mul, Nat.cast_mul, two, ten]
  push_cast
  ring

/-- The value of the interval is the double. -/
theorem value_mul_numerator_div :
    (((ofParts m e).value * (ofParts m e).numerator : ℕ) : ℚ) / (ofParts m e).denominator =
      magnitude m e := by
  have two := natCast_pow_toNat 2 (by decide) (e - 2)
  rw [neg_sub, zpow_sub₀ (by norm_num)] at two
  have numerator : ((ofParts m e).numerator : ℚ) =
      2 ^ e / 2 ^ (2 : ℤ) * (ofParts m e).denominator := two
  have denominator : ((ofParts m e).denominator : ℚ) ≠ 0 :=
    Nat.cast_ne_zero.2 (Nat.pow_pos (by decide)).ne'
  have value : ((ofParts m e).value : ℚ) = 4 * m := Nat.cast_mul 4 m
  rw [Nat.cast_mul, numerator, value, ← mul_assoc, mul_div_cancel_right₀ _ denominator, magnitude]
  norm_num
  ring

theorem value_ofParts : ((ofParts m e).value / 4 : ℚ) = m := by
  change ((4 * m : ℕ) / 4 : ℚ) = m
  push_cast
  ring

theorem high_ofParts : ((ofParts m e).high / 4 : ℚ) = m + 1 / 2 := by
  change ((4 * m + 2 : ℕ) / 4 : ℚ) = m + 1 / 2
  push_cast
  ring

variable {m}

theorem low_ofParts (positive : 0 < m) :
    ((ofParts m e).low / 4 : ℚ) = m - gapBelow m e / 2 := by
  unfold gapBelow ofParts
  dsimp only
  split
  · rw [Nat.cast_sub (by omega)]
    push_cast
    ring
  · rw [Nat.cast_sub (by omega)]
    push_cast
    ring

theorem closed_ofParts : (ofParts m e).closed = true ↔ m % 2 = 0 :=
  beq_iff_eq

end Rounding

/-- A comparison that takes in equality if the interval is closed. -/
theorem hit_iff (closed : Bool) (a b : ℕ) :
    (if closed then decide (a ≤ b) else decide (a < b)) = true ↔
      a ≤ b ∧ (b ≤ a → closed = true) := by
  cases closed
  · simp only [Bool.false_eq_true, if_false, decide_eq_true_eq, imp_false, Nat.not_le]
    exact ⟨fun less => ⟨less.le, less⟩, fun less => less.2⟩
  · simp

/-! ## Decimals around a double -/

section Grid

variable (m : ℕ) (e : ℤ) (count : ℕ)

/-- The power of ten of the decimals with some digits around a double. -/
def gridPower : ℤ :=
  decimalExponent ((Rounding.ofParts m e).value * (Rounding.ofParts m e).numerator)
    (Rounding.ofParts m e).denominator - count

/-- The decimal below a double, as a whole number to be scaled by the power of ten. -/
def gridBelow : ℕ :=
  (Rounding.ofParts m e).value *
      ((Rounding.ofParts m e).numerator * Nat.pow 10 (-gridPower m e count).toNat) /
    ((Rounding.ofParts m e).denominator * Nat.pow 10 (gridPower m e count).toNat)

/-- A decimal in units of the double's last place. -/
def gridPlace (k : ℕ) : ℚ :=
  k * 10 ^ gridPower m e count / 2 ^ e

/-- The double lies between the decimals around it. -/
theorem gridPlace_bounds : gridPlace m e count (gridBelow m e count) ≤ m ∧
    (m : ℚ) < gridPlace m e count (gridBelow m e count + 1) := by
  have u := Rounding.units_ofParts m e (gridPower m e count)
  rw [← Rounding.value_ofParts m e]
  refine ⟨(u.ge_iff _ _).1 (Nat.div_mul_le_self _ _), ?_⟩
  rw [← not_le, gridPlace, ← u.ge_iff, Nat.not_le]
  exact (Nat.div_lt_iff_lt_mul u.positive).1 (Nat.lt_succ_self _)

/-- The decimal below the double rounds to it. -/
def HitsBelow : Prop :=
  m - gapBelow m e / 2 ≤ gridPlace m e count (gridBelow m e count) ∧
    (gridPlace m e count (gridBelow m e count) ≤ m - gapBelow m e / 2 → m % 2 = 0)

/-- The decimal above the double rounds to it. -/
def HitsAbove : Prop :=
  gridPlace m e count (gridBelow m e count + 1) ≤ m + 1 / 2 ∧
    (m + 1 / 2 ≤ gridPlace m e count (gridBelow m e count + 1) → m % 2 = 0)

variable {m e count}

theorem rounds_of_hitsBelow (h : HitsBelow m e count) :
    Rounds (gridBelow m e count * 10 ^ gridPower m e count) m e := by
  have bounds := gridPlace_bounds m e count
  refine ⟨h.1, ?_, ?_⟩
  · change gridPlace m e count _ ≤ _
    linarith
  · rintro (low | high)
    · exact h.2 low.le
    · exfalso
      change gridPlace m e count _ = _ at high
      linarith

theorem rounds_of_hitsAbove (h : HitsAbove m e count) :
    Rounds ((gridBelow m e count + 1 : ℕ) * 10 ^ gridPower m e count) m e := by
  have bounds := gridPlace_bounds m e count
  have gap := gapBelow_bounds m e
  refine ⟨?_, h.1, ?_⟩
  · change _ ≤ gridPlace m e count _
    linarith
  · rintro (low | high)
    · exfalso
      change gridPlace m e count _ = _ at low
      linarith
    · exact h.2 high.ge

variable (positive : 0 < m)

include positive

/-- The decimals are tried by two comparisons; where both round to the double, one is chosen. -/
theorem exists_hits : ∃ below above near : Bool, (below = true ↔ HitsBelow m e count) ∧
    (above = true ↔ HitsAbove m e count) ∧ (Rounding.ofParts m e).decimal? count =
      (match below, above with
        | true, true => some (if near then gridBelow m e count else gridBelow m e count + 1)
        | true, false => some (gridBelow m e count)
        | false, true => some (gridBelow m e count + 1)
        | false, false => none).map fun chosen =>
          if chosen = Nat.pow 10 count then (Nat.pow 10 (count - 1), gridPower m e count + 1)
          else (chosen, gridPower m e count) := by
  have u := Rounding.units_ofParts m e (gridPower m e count)
  refine ⟨_, _, _, (hit_iff _ _ _).trans ?_, (hit_iff _ _ _).trans ?_, rfl⟩
  · rw [HitsBelow, ← Rounding.low_ofParts e positive, ← Rounding.closed_ofParts e]
    exact and_congr (u.le_iff _ _) (imp_congr_left (u.ge_iff _ _))
  · rw [HitsAbove, ← Rounding.high_ofParts m e, ← Rounding.closed_ofParts e]
    exact and_congr (u.ge_iff _ _) (imp_congr_left (u.le_iff _ _))

/-- A decimal that is chosen rounds to the double. -/
theorem rounds_of_decimal? (some : 0 < count) {n : ℕ} {power : ℤ}
    (h : (Rounding.ofParts m e).decimal? count = .some (n, power)) :
    Rounds (n * 10 ^ power) m e := by
  obtain ⟨below, above, near, hitsBelow, hitsAbove, same⟩ := exists_hits positive
  rw [same, Option.map_eq_some_iff] at h
  obtain ⟨chosen, found, carried⟩ := h
  have rounds : Rounds (chosen * 10 ^ gridPower m e count) m e := by
    cases below <;> cases above <;> cases found
    · exact rounds_of_hitsAbove (hitsAbove.1 rfl)
    · exact rounds_of_hitsBelow (hitsBelow.1 rfl)
    · cases near
      · exact rounds_of_hitsAbove (hitsAbove.1 rfl)
      · exact rounds_of_hitsBelow (hitsBelow.1 rfl)
  split at carried
  · rename_i power
    cases carried
    have value : ((Nat.pow 10 (count - 1) : ℕ) : ℚ) * 10 ^ (gridPower m e count + 1) =
        chosen * 10 ^ gridPower m e count := by
      have carry : chosen = 10 ^ (count - 1) * 10 := power.trans (Nat.pow_pred_mul some).symm
      rw [carry, zpow_add_one₀ (by norm_num)]
      change ((10 ^ (count - 1) : ℕ) : ℚ) * _ = _
      push_cast
      ring
    rw [value]
    exact rounds
  · cases carried
    exact rounds

/-- A double is not below the least number of as many digits. -/
theorem ten_zpow_gridPower_le : (10 : ℚ) ^ (gridPower m e count + count - 1) ≤ magnitude m e := by
  have scale : 0 < (Rounding.ofParts m e).numerator := Nat.pow_pos (by decide)
  have step : 0 < (Rounding.ofParts m e).denominator := Nat.pow_pos (by decide)
  have value : 0 < (Rounding.ofParts m e).value := Nat.mul_pos (by decide) positive
  have least := ten_zpow_decimalExponent_le (Nat.mul_pos value scale) step
  have exponent : gridPower m e count + count - 1 =
      decimalExponent ((Rounding.ofParts m e).value * (Rounding.ofParts m e).numerator)
        (Rounding.ofParts m e).denominator - 1 := by
    unfold gridPower
    omega
  rw [exponent, ← Rounding.value_mul_numerator_div]
  exact least

omit positive in
/-- Seventeen digits tell more numbers apart than the interval of a double is wide. -/
theorem lt_interval (short : m < 2 * Parts.leastNormal) (e : ℤ) :
    (m : ℚ) / 10 ^ 16 < 1 / 2 + gapBelow m e / 2 := by
  unfold gapBelow
  split
  · rename_i power
    rw [power.1]
    norm_num [Parts.leastNormal]
  · have bound : (m : ℚ) < (2 * Parts.leastNormal : ℕ) := by exact_mod_cast short
    have digits : ((2 * Parts.leastNormal : ℕ) : ℚ) < 10 ^ 16 := by norm_num [Parts.leastNormal]
    rw [div_lt_iff₀ (by norm_num)]
    linarith

/-- Of the decimals with seventeen digits around a double, one rounds to it. -/
theorem hitsBelow_or_hitsAbove (short : m < 2 * Parts.leastNormal) :
    HitsBelow m e 17 ∨ HitsAbove m e 17 := by
  by_contra neither
  rw [not_or, HitsBelow, HitsAbove] at neither
  obtain ⟨missBelow, missAbove⟩ := neither
  -- then the interval fits between the two decimals, which are too close for that
  have low : gridPlace m e 17 (gridBelow m e 17) ≤ m - gapBelow m e / 2 := by
    by_contra above
    exact missBelow ⟨(not_le.1 above).le, fun le => absurd le above⟩
  have high : m + 1 / 2 ≤ gridPlace m e 17 (gridBelow m e 17 + 1) := by
    by_contra below
    exact missAbove ⟨(not_le.1 below).le, fun le => absurd le below⟩
  have wide : gridPlace m e 17 (gridBelow m e 17 + 1) =
      gridPlace m e 17 (gridBelow m e 17) + gridPlace m e 17 1 := by
    unfold gridPlace
    push_cast
    ring
  have narrow : gridPlace m e 17 1 ≤ m / 10 ^ 16 := by
    have digits : (10 : ℚ) ^ (gridPower m e 17 + (17 : ℕ) - 1) ≤ magnitude m e :=
      ten_zpow_gridPower_le positive
    have exponent : gridPower m e 17 + (17 : ℕ) - 1 = gridPower m e 17 + (16 : ℕ) := by omega
    rw [exponent, zpow_add₀ (by norm_num), zpow_natCast, magnitude] at digits
    rw [gridPlace, Nat.cast_one, one_mul, div_le_div_iff₀ (two_zpow_pos e) (by norm_num)]
    exact digits
  have interval := lt_interval short e
  linarith

/-- With seventeen digits a decimal is chosen. -/
theorem exists_decimal? (short : m < 2 * Parts.leastNormal) :
    ∃ decimal, (Rounding.ofParts m e).decimal? 17 = some decimal := by
  obtain ⟨below, above, near, hitsBelow, hitsAbove, same⟩ := exists_hits (e := e) positive
  have hit : below = true ∨ above = true := by
    rw [hitsBelow, hitsAbove]
    exact hitsBelow_or_hitsAbove positive short
  rw [same]
  cases below
  · cases above
    · exact absurd hit (by decide)
    · exact ⟨_, rfl⟩
  · cases above <;> exact ⟨_, rfl⟩

/-- The shortest decimal of a double rounds to it. -/
theorem rounds_shortestDecimal (short : m < 2 * Parts.leastNormal) :
    Rounds ((shortestDecimal m e).1 * 10 ^ (shortestDecimal m e).2) m e := by
  obtain ⟨decimal, found⟩ := exists_decimal? (e := e) positive short
  obtain ⟨⟨n, power⟩, first⟩ : ∃ decimal, (List.range 17).findSome?
      (fun i => (Rounding.ofParts m e).decimal? (i + 1)) = some decimal := by
    rw [← Option.isSome_iff_exists, List.isSome_findSome?, List.any_eq_true]
    exact ⟨16, by decide, by rw [found]; rfl⟩
  obtain ⟨i, -, chosen⟩ := List.exists_of_findSome?_eq_some first
  have same : shortestDecimal m e = (n, power) := by
    unfold shortestDecimal
    dsimp only
    rw [first]
    rfl
  rw [same]
  exact rounds_of_decimal? positive (Nat.succ_pos i) chosen

theorem shortestDecimal_pos (short : m < 2 * Parts.leastNormal) : 0 < (shortestDecimal m e).1 := by
  refine Nat.pos_of_ne_zero fun zero => ?_
  have low := (rounds_shortestDecimal (e := e) positive short).low
  have gap := gapBelow_bounds m e
  have one : (1 : ℚ) ≤ m := by exact_mod_cast positive
  rw [zero, Nat.cast_zero, zero_mul, zero_div] at low
  linarith

/-- **The shortest decimal of a double is read as that double.** -/
theorem ofFloat_shortestDecimal (c : Parts.Canonical m e) (great : e ≤ 971) :
    Parts.ofFloat (ofScaled (shortestDecimal m e).1 (shortestDecimal m e).2) =
      .finite false m e :=
  (roundsTo_ofScaled _ _).ofFloat_eq c (rounds_shortestDecimal positive c.mantissa_lt) great

end Grid

end KpiReport.Decimal
