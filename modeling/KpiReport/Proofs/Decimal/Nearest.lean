import KpiReport.Proofs.Decimal.Digits
import KpiReport.Proofs.Decimal.Products

/-!
# Decimals are read as the nearest doubles

A decimal is a product or a quotient of a whole number with a power of ten. If both are doubles,
they are multiplied or divided as such, else with all their digits; either way the decimal rounds to
the result (`roundsTo_ofScaled`), also where it is so small or so great that nothing is computed. So
`ofScaled n power` is the double nearest to `n · 10 ^ power` (`nearest_ofScaled`).
-/

namespace KpiReport.Decimal

open Float.Model Float.Model.UnpackedFloat

/-! ## Whole numbers -/

theorem rounds_magnitude (m : ℕ) (e : ℤ) : Rounds (magnitude m e) m e := by
  have own : magnitude m e / 2 ^ e = m := by rw [magnitude_div, sub_self, zpow_zero, mul_one]
  have bounds := gapBelow_bounds m e
  refine ⟨by rw [own]; linarith, by rw [own]; linarith, ?_⟩
  rw [own]
  rintro (tie | tie) <;> exfalso <;> linarith

/-- A number that rounds to the parts of a double rounds to no other double. -/
theorem RoundsTo.ofFloat_eq {q : ℚ} {m : ℕ} {e : ℤ} {x : Float} (h : RoundsTo q x)
    (c : Parts.Canonical m e) (r : Rounds q m e) (le : e ≤ 971) :
    Parts.ofFloat x = .finite false m e := by
  obtain ⟨n, d, c', r', parts⟩ := h
  obtain ⟨rfl, rfl⟩ := r.unique c c' r'
  rwa [if_pos le] at parts

/-- A mantissa with its first bit in front, and the exponent that keeps the value. -/
theorem canonical_shift {n : ℕ} (positive : 0 < n) (short : n < 2 * Parts.leastNormal) (d : ℤ)
    (least : Parts.leastExponent ≤ d - 52) :
    Parts.Canonical (n * 2 ^ (52 - n.log2)) (d - (52 - n.log2 : ℕ)) ∧
      Parts.leastNormal ≤ n * 2 ^ (52 - n.log2) ∧
      magnitude (n * 2 ^ (52 - n.log2)) (d - (52 - n.log2 : ℕ)) = magnitude n d := by
  have length : n.log2 < 53 := (Nat.log2_lt positive.ne').2 short
  have split : n.log2 + (52 - n.log2) = 52 := by omega
  have low : Parts.leastNormal ≤ n * 2 ^ (52 - n.log2) := by
    calc Parts.leastNormal = 2 ^ n.log2 * 2 ^ (52 - n.log2) := by
          rw [← pow_add, split]
          decide
      _ ≤ n * 2 ^ (52 - n.log2) := Nat.mul_le_mul_right _ (Nat.log2_self_le positive.ne')
  have high : n * 2 ^ (52 - n.log2) < 2 * Parts.leastNormal := by
    calc n * 2 ^ (52 - n.log2) < 2 ^ (n.log2 + 1) * 2 ^ (52 - n.log2) :=
          Nat.mul_lt_mul_of_pos_right Nat.lt_log2_self (Nat.two_pow_pos _)
      _ = 2 * Parts.leastNormal := by
          rw [pow_succ, mul_right_comm, ← pow_add, split]
          decide
  refine ⟨⟨high, by omega, fun _ => low⟩, low, ?_⟩
  rw [magnitude_eq_magnitude_add (by omega : d - (52 - n.log2 : ℕ) ≤ d) n]
  congr 3
  omega

/-- The exponent of a mantissa is lowered until the mantissa has enough bits. -/
theorem roundsTo_round {n : ℕ} (positive : 0 < n) (d : ℤ) :
    RoundsTo (magnitude n d)
      (.ofModel (.pack (UnpackedFloat.round Format.binary64 .positive n d))) := by
  unfold UnpackedFloat.round decreaseExponent
  dsimp only
  rw [targetExponent_eq, Nat.shiftLeft_eq]
  generalize shifted : (d - max ((n.log2 : ℤ) + d - 52) Parts.leastExponent).toNat = k
  have fine : Fine (n * 2 ^ k) (d - k) := by
    by_cases low : d - k ≤ Parts.leastExponent
    · exact .inr low
    · left
      have room : 52 ≤ n.log2 + k := by omega
      have enough : 2 ^ 52 ≤ n * 2 ^ k := by
        calc 2 ^ 52 ≤ 2 ^ n.log2 * 2 ^ k := by
              rw [← pow_add]
              exact Nat.pow_le_pow_right (by decide) room
          _ ≤ n * 2 ^ k := Nat.mul_le_mul_right _ (Nat.log2_self_le positive.ne')
      exact (Nat.le_log2 (lt_of_lt_of_le (by decide) enough).ne').2 enough
  have value : magnitude n d = (n * 2 ^ k : ℕ) * 2 ^ (d - k) := by
    have amount : (d - (d - k)).toNat = k := by omega
    rw [magnitude_eq_magnitude_add (by omega : d - k ≤ d) n, amount]
    rfl
  rw [value]
  exact RoundsTo.of_roundWithAccuracy fine (represents_exact _)

/-- Whole numbers of at most 53 bits are doubles. -/
theorem ofFloat_toFloat {n : ℕ} (positive : 0 < n) (short : n < 2 * Parts.leastNormal) :
    ∃ m e, Parts.ofFloat n.toUInt64.toFloat = .finite false m e ∧ Parts.leastNormal ≤ m ∧
      magnitude m e = n := by
  obtain ⟨c, full, value⟩ := canonical_shift positive short 0 (by decide)
  have own : magnitude n 0 = n := by rw [magnitude, zpow_zero, mul_one]
  refine ⟨_, _, RoundsTo.ofFloat_eq ?_ c (rounds_magnitude _ _) (by omega), full,
    value.trans own⟩
  rw [value]
  have word : n.toUInt64.toNat = n := by
    unfold Parts.leastNormal at short
    exact UInt64.toNat_ofNat_of_lt' (by unfold UInt64.size; omega)
  have read : n.toUInt64.toFloat =
      .ofModel (.pack (UnpackedFloat.round Format.binary64 .positive n 0)) := by
    have order : compare (n : ℤ) 0 = .gt := Int.compare_eq_gt.2 (by omega)
    have whole : UnpackedFloat.ofUInt64 Format.binary64 n.toUInt64 =
        UnpackedFloat.round Format.binary64 .positive n 0 := by
      rw [UnpackedFloat.ofUInt64, UnpackedFloat.ofNat, UnpackedFloat.ofInt, word,
        UnpackedFloat.normalize, order, Int.toNat_natCast]
    rw [← whole]
    rfl
  rw [read]
  exact roundsTo_round positive 0

theorem ofFloat_exactlyRepresentablePowersOfTen :
    ∀ i : Fin Float.exactlyRepresentablePowersOfTen.size, 5 ^ i.val < 2 * Parts.leastNormal ∧
      Parts.ofFloat Float.exactlyRepresentablePowersOfTen[i] =
        .finite false (5 ^ i.val * 2 ^ (52 - (5 ^ i.val).log2))
          (i.val - (52 - (5 ^ i.val).log2 : ℕ)) := by
  decide +kernel

/-- The powers of ten up to the twenty-second are doubles. -/
theorem ofFloat_powerOfTen (i : ℕ) (less : i < Float.exactlyRepresentablePowersOfTen.size) :
    ∃ m e, Parts.ofFloat Float.exactlyRepresentablePowersOfTen[i] = .finite false m e ∧ 0 < m ∧
      magnitude m e = 10 ^ i := by
  obtain ⟨short, parts⟩ := ofFloat_exactlyRepresentablePowersOfTen ⟨i, less⟩
  have positive : 0 < 5 ^ i := Nat.pow_pos (by decide)
  obtain ⟨c, full, value⟩ := canonical_shift positive short i (by unfold Parts.leastExponent; omega)
  refine ⟨_, _, parts, lt_of_lt_of_le (by decide) full, value.trans ?_⟩
  rw [magnitude, zpow_natCast]
  push_cast
  rw [← mul_pow]
  norm_num

/-! ## Decimals -/

/-- The product or the quotient of a whole number with a power of ten. -/
def unpackedDecimal (n : ℕ) (positive : 0 < n) (power : ℤ) : UnpackedFloat :=
  if 0 ≤ power then
    UnpackedFloat.mul Format.binary64
      (.finite .positive (n <<< 53) (-53) (Nat.shiftLeft_pos_iff.2 positive))
      (.finite .positive (10 ^ power.toNat) 0 (Nat.pow_pos (by decide)))
  else
    UnpackedFloat.div Format.binary64 (.finite .positive n 0 positive)
      (.finite .positive (10 ^ (-power).toNat) 0 (Nat.pow_pos (by decide)))

theorem magnitude_zero_exponent (n : ℕ) : magnitude n 0 = n := by
  rw [magnitude, zpow_zero, mul_one]

section Decimals

variable {n : ℕ} (positive : 0 < n) (power : ℤ)

theorem roundsTo_unpackedDecimal :
    RoundsTo (n * 10 ^ power) (.ofModel (.pack (unpackedDecimal n positive power))) := by
  by_cases up : 0 ≤ power
  · rw [unpackedDecimal, if_pos up]
    have fine : Fine (n <<< 53 * 10 ^ power.toNat) (-53 + 0) := by
      left
      have enough : 2 ^ 52 ≤ n <<< 53 * 10 ^ power.toNat := by
        have one : 1 ≤ 10 ^ power.toNat := Nat.pow_pos (by decide)
        rw [Nat.shiftLeft_eq]
        calc 2 ^ 52 ≤ 1 * 2 ^ 53 * 1 := by decide
          _ ≤ n * 2 ^ 53 * 10 ^ power.toNat := Nat.mul_le_mul (Nat.mul_le_mul_right _ positive) one
      exact (Nat.le_log2 (lt_of_lt_of_le (by decide) enough).ne').2 enough
    have value : magnitude (n <<< 53) (-53) * magnitude (10 ^ power.toNat) 0 = n * 10 ^ power := by
      have whole : power = power.toNat := by omega
      conv_rhs => rw [whole, zpow_natCast]
      rw [magnitude_zero_exponent, magnitude, Nat.shiftLeft_eq]
      push_cast
      norm_num
      ring
    rw [← value]
    exact roundsTo_mul _ _ fine
  · rw [unpackedDecimal, if_neg up]
    have value : magnitude n 0 / magnitude (10 ^ (-power).toNat) 0 = n * 10 ^ power := by
      have whole : power = -((-power).toNat : ℤ) := by omega
      conv_rhs => rw [whole, zpow_neg, zpow_natCast]
      rw [magnitude_zero_exponent, magnitude_zero_exponent, div_eq_mul_inv]
      push_cast
      rfl
    rw [← value]
    exact roundsTo_div _ _

/-- Within the cut-offs of the model, a decimal is such a product or quotient. -/
theorem ofScientific_eq_unpackedDecimal (high : power ≤ 2048) (low : -(2048 + n.log2 : ℤ) ≤ power) :
    UnpackedFloat.ofScientific Format.binary64 n power =
      unpackedDecimal n positive power := by
  have exponents : (2 : ℤ) ^ Format.binary64.exponentBits = 2048 := by decide
  unfold UnpackedFloat.ofScientific
  rw [dif_neg positive.ne', exponents, if_neg (by omega), if_neg (by omega)]
  rfl

include positive

/-- Digits of at most 53 bits and a power of ten up to the twenty-second are exact operands. -/
theorem roundsTo_exactOperands (short : n < 2 * Parts.leastNormal)
    (less : power.natAbs < Float.exactlyRepresentablePowersOfTen.size) :
    RoundsTo (n * 10 ^ power)
      (if power < 0 then
        n.toUInt64.toFloat / Float.exactlyRepresentablePowersOfTen[power.natAbs]
      else n.toUInt64.toFloat * Float.exactlyRepresentablePowersOfTen[power.natAbs]) := by
  obtain ⟨m, e, parts, full, value⟩ := ofFloat_toFloat positive short
  obtain ⟨m', e', parts', positive', value'⟩ := ofFloat_powerOfTen power.natAbs less
  generalize n.toUInt64.toFloat = x at *
  generalize Float.exactlyRepresentablePowersOfTen[power.natAbs] = y at *
  have first : 0 < m := lt_of_lt_of_le (by decide) full
  split
  · rename_i down
    have quotient : x / y = .ofModel (.pack (UnpackedFloat.div Format.binary64
        (.finite .positive m e first) (.finite .positive m' e' positive'))) := by
      rw [← unpack_of_ofFloat parts first, ← unpack_of_ofFloat parts' positive']
      rfl
    have whole : power = -(power.natAbs : ℤ) := by omega
    have same : (n : ℚ) * 10 ^ power = magnitude m e / magnitude m' e' := by
      rw [value, value', div_eq_mul_inv]
      conv_lhs => rw [whole, zpow_neg, zpow_natCast]
    rw [quotient, same]
    exact roundsTo_div first positive'
  · rename_i up
    have product : x * y = .ofModel (.pack (UnpackedFloat.mul Format.binary64
        (.finite .positive m e first) (.finite .positive m' e' positive'))) := by
      rw [← unpack_of_ofFloat parts first, ← unpack_of_ofFloat parts' positive']
      rfl
    have whole : power = power.natAbs := by omega
    have same : (n : ℚ) * 10 ^ power = magnitude m e * magnitude m' e' := by
      rw [value, value']
      conv_lhs => rw [whole, zpow_natCast]
    have fine : Fine (m * m') (e + e') := by
      have enough : 2 ^ 52 ≤ m * m' := le_trans full (Nat.le_mul_of_pos_right m positive')
      exact .inl ((Nat.le_log2 (Nat.mul_pos first positive').ne').2 enough)
    rw [product, same]
    exact roundsTo_mul first positive' fine

theorem roundsTo_ofScientific (high : power ≤ 2048) (low : -(2048 + n.log2 : ℤ) ≤ power) :
    RoundsTo (n * 10 ^ power) (Float.ofScientific n (power < 0) power.natAbs) := by
  unfold Float.ofScientific
  simp only [decide_eq_true_eq]
  split
  · rename_i fast
    exact roundsTo_exactOperands positive power fast.1 (Nat.lt_succ_of_le fast.2)
  · have signed : (if power < 0 then Int.negOfNat power.natAbs else Int.ofNat power.natAbs) =
        power := by
      split
      · rw [Int.negOfNat_eq]
        change -(power.natAbs : ℤ) = power
        omega
      · exact Int.natAbs_of_nonneg (by omega)
    have rounds := roundsTo_unpackedDecimal positive power
    rw [← ofScientific_eq_unpackedDecimal positive power high low] at rounds
    rw [signed]
    exact rounds

end Decimals

/-! ## Cut-offs -/

theorem ten_zpow_le : (10 : ℚ) ^ (-330 : ℤ) ≤ 2 ^ (Parts.leastExponent - 1) := by
  have powers : 2 ^ 1075 ≤ 10 ^ 330 := by decide +kernel
  have cast : (2 : ℚ) ^ 1075 ≤ 10 ^ 330 := by exact_mod_cast powers
  calc (10 : ℚ) ^ (-330 : ℤ) = (10 ^ 330)⁻¹ := zpow_neg_coe_of_pos 10 (by decide)
    _ ≤ (2 ^ 1075)⁻¹ := inv_anti₀ (by positivity) cast
    _ = 2 ^ (Parts.leastExponent - 1) := (zpow_neg_coe_of_pos 2 (by decide)).symm

theorem overflow_le : overflow ≤ (10 : ℚ) ^ (310 : ℤ) := by
  have powers : 2 ^ 53 * 2 ^ 971 ≤ 10 ^ 310 := by decide +kernel
  have cast : (2 : ℚ) ^ 53 * 2 ^ 971 ≤ 10 ^ 310 := by exact_mod_cast powers
  calc overflow ≤ 2 ^ 53 * 2 ^ (971 : ℤ) :=
        mul_le_mul_of_nonneg_right (by norm_num [Parts.leastNormal]) (two_zpow_pos _).le
    _ ≤ 10 ^ (310 : ℤ) := cast

/-- A number of less than half the least positive double rounds to zero. -/
theorem roundsTo_zero {q : ℚ} (nonneg : 0 ≤ q) (small : q ≤ 2 ^ (Parts.leastExponent - 1)) :
    RoundsTo q 0 := by
  have power := two_zpow_pos Parts.leastExponent
  have gap : gapBelow 0 Parts.leastExponent = 1 := if_neg fun full => absurd full.1 (by decide)
  have scaled : 0 ≤ q / 2 ^ Parts.leastExponent := div_nonneg nonneg power.le
  have c : Parts.Canonical 0 Parts.leastExponent :=
    ⟨by decide, le_rfl, fun less => absurd less (lt_irrefl _)⟩
  refine ⟨0, Parts.leastExponent, c, ?_, rfl⟩
  refine ⟨?_, ?_, fun _ => rfl⟩
  · rw [gap]
    push_cast
    linarith
  · rw [zpow_sub_one₀ (by norm_num)] at small
    rw [div_le_iff₀ power]
    push_cast
    linarith

/-- A number from `overflow` on rounds to infinity. -/
theorem RoundsTo.infinity {q : ℚ} {x : Float} (h : RoundsTo q x) (above : overflow ≤ q) :
    RoundsTo q infinity := by
  obtain ⟨m, e, c, r, parts⟩ := h
  have great : ¬ e ≤ 971 := fun le => absurd (lt_overflow_of_rounds c r le) (not_lt.2 above)
  rw [if_neg great] at parts
  refine ⟨m, e, c, r, ?_⟩
  rw [if_neg great, ← eq_infinity parts, parts]

/-- **A decimal is read as the double that it rounds to**, whatever its digits and its power are. -/
theorem roundsTo_ofScaled (n : ℕ) (power : ℤ) : RoundsTo (n * 10 ^ power) (ofScaled n power) := by
  have ten : (0 : ℚ) < 10 := by norm_num
  have base := zpow_pos ten power
  unfold ofScaled
  dsimp only
  rcases Nat.eq_zero_or_pos n with rfl | positive
  · rw [if_pos (.inl rfl), Nat.cast_zero, zero_mul]
    exact roundsTo_zero le_rfl (two_zpow_pos _).le
  obtain ⟨least, less⟩ := digits_bounds positive
  have some : 0 < (digits n).length := Nat.length_toDigits_pos
  generalize (digits n).length = count at *
  split
  · rename_i small
    have low : count + power ≤ -330 := by omega
    refine roundsTo_zero (by positivity) ?_
    calc (n : ℚ) * 10 ^ power ≤ 10 ^ count * 10 ^ power :=
          mul_le_mul_of_nonneg_right (by exact_mod_cast less.le) base.le
      _ = 10 ^ (count + power) := by rw [zpow_add₀ ten.ne', zpow_natCast]
      _ ≤ 10 ^ (-330 : ℤ) := zpow_le_zpow_right₀ (by norm_num) low
      _ ≤ 2 ^ (Parts.leastExponent - 1) := ten_zpow_le
  · rename_i unsmall
    split
    · rename_i great
      have high : 310 ≤ ((count - 1 : ℕ) : ℤ) + power := by omega
      refine (roundsTo_unpackedDecimal positive power).infinity ?_
      calc overflow ≤ 10 ^ (310 : ℤ) := overflow_le
        _ ≤ 10 ^ (((count - 1 : ℕ) : ℤ) + power) := zpow_le_zpow_right₀ (by norm_num) high
        _ = 10 ^ (count - 1) * 10 ^ power := by rw [zpow_add₀ ten.ne', zpow_natCast]
        _ ≤ n * 10 ^ power := mul_le_mul_of_nonneg_right (by exact_mod_cast least) base.le
    · rename_i ungreat
      have length : count - 1 ≤ n.log2 := by
        rw [Nat.le_log2 positive.ne']
        exact (Nat.pow_le_pow_left (by decide) _).trans least
      exact roundsTo_ofScientific positive power (by omega) (by omega)

/-- Decimals of one value are read as one double. -/
theorem ofScaled_congr {n k : ℕ} {power exponent : ℤ}
    (same : (n : ℚ) * 10 ^ power = k * 10 ^ exponent) : ofScaled n power = ofScaled k exponent := by
  have rounds := roundsTo_ofScaled n power
  rw [same] at rounds
  exact rounds.unique (roundsTo_ofScaled k exponent)

/-- The double nearest to a decimal. -/
theorem nearest_ofScaled (n : ℕ) (power : ℤ) : Nearest (n * 10 ^ power) (ofScaled n power) :=
  (roundsTo_ofScaled n power).nearest

end KpiReport.Decimal
