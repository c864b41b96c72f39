import KpiReport.Decimal.Double
import Mathlib.Algebra.Order.Field.Basic
import Mathlib.Tactic.Linarith
import Mathlib.Tactic.Ring

/-!
# Doubles and the numbers that round to them

A finite double has a value, and `Nearest` says which double is nearest to a number: no double is
nearer, a tie goes to an even mantissa, and from half way beyond the greatest double on a number is
infinite. The numbers that round to a double form an interval around its value (`Rounds`). The main
statements are that the double of the interval is the nearest one (`nearest_of_rounds`) and that no
number is in the intervals of two doubles (`Rounds.unique`).
-/

namespace KpiReport.Decimal

/-! ## Parts of doubles -/

namespace Parts

/-- A mantissa of at most 53 bits with an exponent from the least one on, where the mantissa has all
53 bits unless the exponent is the least one. -/
structure Canonical (mantissa : ℕ) (exponent : ℤ) : Prop where
  mantissa_lt : mantissa < 2 * leastNormal
  least_le : leastExponent ≤ exponent
  normal : leastExponent < exponent → leastNormal ≤ mantissa

/-- A mantissa of fewer bits has the least exponent. -/
theorem Canonical.eq_leastExponent {m : ℕ} {e : ℤ} (c : Canonical m e) (less : m < leastNormal) :
    e = leastExponent := by
  by_contra other
  exact absurd (c.normal (lt_of_le_of_ne c.least_le (Ne.symm other))) (Nat.not_le.2 less)

/-- The parts of a finite double are canonical, and its exponent is at most 971. -/
theorem canonical_of_ofFloat {x : Float} {negative : Bool} {m : ℕ} {e : ℤ}
    (h : ofFloat x = .finite negative m e) : Canonical m e ∧ e ≤ 971 := by
  unfold ofFloat at h
  dsimp only at h
  split at h
  · split at h <;> cases h
  · rename_i finite
    have biased : x.toBits.toNat / leastNormal % 2048 < 2048 := Nat.mod_lt _ (by decide)
    have fraction : x.toBits.toNat % leastNormal < leastNormal := Nat.mod_lt _ (by decide)
    split at h
    · cases h
      exact ⟨⟨by omega, Int.le_refl _, fun greater => absurd greater (Int.lt_irrefl _)⟩, by decide⟩
    · cases h
      refine ⟨⟨by omega, ?_, fun _ => Nat.le_add_left _ _⟩, by omega⟩
      unfold leastExponent
      omega

/-- The bits of a finite double are determined by its parts. -/
theorem toNat_toBits_of_finite {x : Float} {negative : Bool} {m : ℕ} {e : ℤ}
    (h : ofFloat x = .finite negative m e) : x.toBits.toNat =
      (if negative then UInt64.size / 2 else 0) +
        if m < leastNormal then m else (e + 1075).toNat * leastNormal + (m - leastNormal) := by
  have bound : x.toBits.toNat < UInt64.size := x.toBits.toNat_lt
  unfold ofFloat leastNormal at h
  unfold UInt64.size leastNormal at *
  dsimp only at h
  split at h
  · split at h <;> cases h
  · split at h
    all_goals
      cases h
      simp only [decide_eq_true_eq]
      split <;> split <;> omega

/-- The bits of an infinite double are determined by its sign. -/
theorem toNat_toBits_of_infinite {x : Float} {negative : Bool}
    (h : ofFloat x = .infinite negative) :
    x.toBits.toNat = (if negative then UInt64.size / 2 else 0) + 2047 * leastNormal := by
  have bound : x.toBits.toNat < UInt64.size := x.toBits.toNat_lt
  unfold ofFloat leastNormal at h
  unfold UInt64.size leastNormal at *
  dsimp only at h
  split at h
  · split at h
    · cases h
      simp only [decide_eq_true_eq]
      split <;> omega
    · cases h
  · split at h <;> cases h

theorem eq_of_toNat_toBits {x y : Float} (h : x.toBits.toNat = y.toBits.toNat) : x = y := by
  obtain ⟨⟨xBits, xValid⟩⟩ := x
  obtain ⟨⟨yBits, yValid⟩⟩ := y
  obtain rfl : xBits = yBits := UInt64.toNat_inj.1 h
  rfl

/-- Doubles with the same parts are the same, if they are finite. -/
theorem eq_of_ofFloat_finite {x y : Float} {negative : Bool} {m : ℕ} {e : ℤ}
    (left : ofFloat x = .finite negative m e) (right : ofFloat y = .finite negative m e) : x = y :=
  eq_of_toNat_toBits (by rw [toNat_toBits_of_finite left, toNat_toBits_of_finite right])

end Parts

theorem eq_infinity {x : Float} (h : Parts.ofFloat x = .infinite false) : x = infinity :=
  Parts.eq_of_toNat_toBits (Parts.toNat_toBits_of_infinite h)

/-! ## Values -/

/-- The number `m · 2 ^ e`. -/
def magnitude (m : ℕ) (e : ℤ) : ℚ :=
  m * 2 ^ e

/-- The value of a finite double. -/
def value? (x : Float) : Option ℚ :=
  match Parts.ofFloat x with
  | .finite negative m e => some (if negative then -magnitude m e else magnitude m e)
  | _ => none

/-- Half way between the greatest double and the power of two that comes next. -/
def overflow : ℚ :=
  (2 * Parts.leastNormal - 1 / 2) * 2 ^ (971 : ℤ)

/-- The double nearest to a number that is not negative: no finite double is nearer, and where
another one is as near, the mantissa is even. A number from `overflow` on is infinite. -/
inductive Nearest (q : ℚ) : Float → Prop where
  | finite {x : Float} {m : ℕ} {e : ℤ} (below : q < overflow)
      (parts : Parts.ofFloat x = .finite false m e)
      (least : ∀ y v, value? y = some v → |q - magnitude m e| ≤ |q - v|)
      (even : ∀ y v, value? y = some v → v ≠ magnitude m e →
        |q - v| = |q - magnitude m e| → m % 2 = 0) : Nearest q x
  | infinite (above : overflow ≤ q) : Nearest q infinity

theorem two_zpow_pos (e : ℤ) : (0 : ℚ) < 2 ^ e :=
  zpow_pos (by norm_num) e

theorem magnitude_nonneg (m : ℕ) (e : ℤ) : 0 ≤ magnitude m e :=
  mul_nonneg (Nat.cast_nonneg m) (two_zpow_pos e).le

theorem magnitude_zero (e : ℤ) : magnitude 0 e = 0 := by
  rw [magnitude, Nat.cast_zero, zero_mul]

theorem magnitude_div (m : ℕ) (e d : ℤ) : magnitude m e / 2 ^ d = m * 2 ^ (e - d) := by
  rw [magnitude, zpow_sub₀ (by norm_num), mul_div_assoc]

theorem magnitude_eq_magnitude_add {d e : ℤ} (le : d ≤ e) (m : ℕ) :
    magnitude m e = magnitude (m * 2 ^ (e - d).toNat) d := by
  have split : e = d + ((e - d).toNat : ℤ) := by omega
  rw [magnitude, magnitude]
  conv_lhs => rw [split, zpow_add₀ (by norm_num), zpow_natCast]
  push_cast
  ring

namespace Parts.Canonical

variable {m m' : ℕ} {e e' : ℤ} (c : Canonical m e) (c' : Canonical m' e')

include c

/-- The exponent above another one belongs to a mantissa of 53 bits. -/
theorem leastNormal_le (greater : e' < e) (le : leastExponent ≤ e') : leastNormal ≤ m :=
  c.normal (lt_of_le_of_lt le greater)

theorem succ_le : (m : ℚ) + 1 ≤ 2 * leastNormal := by
  exact_mod_cast c.mantissa_lt

include c'

/-- Canonical parts with the lesser exponent have the lesser value. -/
theorem magnitude_lt (greater : e' < e) : magnitude m' e' < magnitude m e := by
  have step : (2 : ℚ) ^ (e' + 1) ≤ 2 ^ e := zpow_le_zpow_right₀ (by norm_num) greater
  have normal : (leastNormal : ℚ) ≤ m := by exact_mod_cast c.leastNormal_le greater c'.least_le
  rw [zpow_add_one₀ (by norm_num)] at step
  have power := two_zpow_pos e'
  have power' := two_zpow_pos e
  have bound := c'.succ_le
  calc magnitude m' e' < (2 * leastNormal) * 2 ^ e' := by
        rw [magnitude]
        exact mul_lt_mul_of_pos_right (by linarith) power
    _ = leastNormal * (2 ^ e' * 2) := by ring
    _ ≤ m * 2 ^ e := mul_le_mul normal step (by positivity) (Nat.cast_nonneg m)

/-- Canonical parts are determined by their value. -/
theorem eq_of_magnitude (same : magnitude m e = magnitude m' e') : m = m' ∧ e = e' := by
  rcases lt_trichotomy e e' with less | rfl | greater
  · exact absurd same (c'.magnitude_lt c less).ne
  · have power := (two_zpow_pos e).ne'
    exact ⟨by exact_mod_cast mul_right_cancel₀ power same, rfl⟩
  · exact absurd same (c.magnitude_lt c' greater).ne'

end Parts.Canonical

/-! ## Intervals -/

/-- The distance from a double down to the next one, in units of its last place; below a power of
two it is half as great as above. -/
def gapBelow (m : ℕ) (e : ℤ) : ℚ :=
  if m = Parts.leastNormal ∧ Parts.leastExponent < e then 1 / 2 else 1

theorem gapBelow_bounds (m : ℕ) (e : ℤ) : 1 / 2 ≤ gapBelow m e ∧ gapBelow m e ≤ 1 := by
  unfold gapBelow
  split <;> norm_num

/-- The number is at most half way to the neighbours of a double, and half way only if the mantissa
is even. -/
structure Rounds (q : ℚ) (m : ℕ) (e : ℤ) : Prop where
  low : m - gapBelow m e / 2 ≤ q / 2 ^ e
  high : q / 2 ^ e ≤ m + 1 / 2
  even : q / 2 ^ e = m - gapBelow m e / 2 ∨ q / 2 ^ e = m + 1 / 2 → m % 2 = 0

section Gap

variable {m m' : ℕ} {e e' : ℤ} (c : Parts.Canonical m e) (c' : Parts.Canonical m' e')

include c c'

/-- There is no double between a double and its neighbours. -/
theorem gap (other : magnitude m' e' ≠ magnitude m e) :
    (m : ℚ) + 1 ≤ magnitude m' e' / 2 ^ e ∨ magnitude m' e' / 2 ^ e ≤ m - gapBelow m e := by
  have bounds := gapBelow_bounds m e
  rcases le_or_gt e e' with le | greater
  · rw [magnitude_eq_magnitude_add le m'] at other ⊢
    generalize m' * 2 ^ (e' - e).toNat = k at other ⊢
    have distinct : k ≠ m := by
      rintro rfl
      exact other rfl
    rw [magnitude_div, sub_self, zpow_zero, mul_one]
    rcases Nat.lt_or_gt_of_ne distinct with below | above
    · have below : (k : ℚ) + 1 ≤ m := by exact_mod_cast below
      exact .inr (by linarith)
    · exact .inl (by exact_mod_cast above)
  · have normal := c.leastNormal_le greater c'.least_le
    have half : (2 : ℚ) ^ (e' - e) ≤ 1 / 2 := by
      have least : (2 : ℚ) ^ (e' - e) ≤ 2 ^ (-1 : ℤ) :=
        zpow_le_zpow_right₀ (by norm_num) (by omega)
      exact least.trans_eq (by norm_num)
    have most : magnitude m' e' / 2 ^ e ≤ m' * (1 / 2) := by
      rw [magnitude_div]
      exact mul_le_mul_of_nonneg_left half (Nat.cast_nonneg m')
    have bound := c'.succ_le
    refine .inr (most.trans ?_)
    unfold gapBelow
    split
    · rename_i power
      rw [power.1]
      linarith
    · rename_i inside
      have above : Parts.leastNormal ≠ m := by
        rintro rfl
        exact inside ⟨rfl, lt_of_le_of_lt c'.least_le greater⟩
      have more : (Parts.leastNormal : ℚ) + 1 ≤ m := by
        exact_mod_cast lt_of_le_of_ne normal above
      linarith

omit c' in
/-- There is no double, of either sign, between a double and its neighbours. -/
theorem gap_of_value? {y : Float} {v : ℚ} (value : value? y = some v)
    (other : v ≠ magnitude m e) :
    (m : ℚ) + 1 ≤ v / 2 ^ e ∨ v / 2 ^ e ≤ m - gapBelow m e := by
  unfold value? at value
  split at value
  · rename_i negative n d parts
    have canonical := (Parts.canonical_of_ofFloat parts).1
    cases value
    cases negative with
    | false => exact gap c canonical other
    | true =>
      simp only [if_true] at other ⊢
      have bounds := gapBelow_bounds m e
      have power := two_zpow_pos e
      have negative : -magnitude n d / 2 ^ e ≤ 0 :=
        div_nonpos_of_nonpos_of_nonneg (neg_nonpos.2 (magnitude_nonneg n d)) power.le
      right
      rcases Nat.eq_zero_or_pos m with rfl | positive
      · have distinct : magnitude n d ≠ magnitude 0 e := by
          intro same
          rw [same, magnitude_zero, neg_zero] at other
          exact other rfl
        have sign : 0 ≤ magnitude n d / 2 ^ e := div_nonneg (magnitude_nonneg n d) power.le
        rw [neg_div]
        rcases gap c canonical distinct with above | below
        · linarith
        · rw [Nat.cast_zero] at below
          linarith
      · have one : (1 : ℚ) ≤ m := by exact_mod_cast positive
        linarith
  · cases value

/-- The numbers that round to different doubles are different. -/
theorem not_rounds_of_lt {q : ℚ} (less : magnitude m e < magnitude m' e') (r : Rounds q m e)
    (r' : Rounds q m' e') : False := by
  have power := two_zpow_pos e
  have power' := two_zpow_pos e'
  have bounds := gapBelow_bounds m e
  have bounds' := gapBelow_bounds m' e'
  have own : magnitude m e = m * 2 ^ e := rfl
  have own' : magnitude m' e' = m' * 2 ^ e' := rfl
  -- both gaps are at most the distance of the two values, and the number is within half of each
  have up : ((m : ℚ) + 1) * 2 ^ e ≤ magnitude m' e' := by
    rcases gap c c' less.ne' with above | below
    · exact (le_div_iff₀ power).1 above
    · have := (div_le_iff₀ power).1 below
      nlinarith
  have down : magnitude m e ≤ (m' - gapBelow m' e') * 2 ^ e' := by
    rcases gap c' c less.ne with above | below
    · have := (le_div_iff₀ power').1 above
      nlinarith
    · exact (div_le_iff₀ power').1 below
  have high := (div_le_iff₀ power).1 r.high
  have low := (le_div_iff₀ power').1 r'.low
  have next : magnitude m' e' = magnitude (m + 1) e := by
    have successor : magnitude (m + 1) e = (m + 1) * 2 ^ e := by
      rw [magnitude, Nat.cast_add_one]
    linarith
  have half : q / 2 ^ e = m + 1 / 2 := by
    rw [div_eq_iff power.ne']
    linarith
  have half' : q / 2 ^ e' = m' - gapBelow m' e' / 2 := by
    rw [div_eq_iff power'.ne']
    linarith
  have even := r.even (.inr half)
  have even' := r'.even (.inl half')
  have bound := c.mantissa_lt
  unfold Parts.leastNormal at bound
  have successor : Parts.Canonical (m + 1) e :=
    ⟨by unfold Parts.leastNormal; omega, c.least_le,
      fun greater => (c.normal greater).trans (Nat.le_succ m)⟩
  obtain ⟨rfl, -⟩ := c'.eq_of_magnitude successor next
  omega

theorem Rounds.unique {q : ℚ} (r : Rounds q m e) (r' : Rounds q m' e') : m = m' ∧ e = e' := by
  refine c.eq_of_magnitude c' ?_
  rcases lt_trichotomy (magnitude m e) (magnitude m' e') with less | same | greater
  · exact (not_rounds_of_lt c c' less r r').elim
  · exact same
  · exact (not_rounds_of_lt c' c greater r' r).elim

end Gap

/-! ## The nearest double -/

section Nearest

variable {q : ℚ} {m : ℕ} {e : ℤ} (c : Parts.Canonical m e) (r : Rounds q m e)

include c r

/-- Numbers that round to a double are below half way beyond the greatest one. -/
theorem lt_overflow_of_rounds (le : e ≤ 971) : q < overflow := by
  have power := two_zpow_pos e
  have step : (2 : ℚ) ^ e ≤ 2 ^ (971 : ℤ) := zpow_le_zpow_right₀ (by norm_num) le
  have bound := c.succ_le
  have odd : q / 2 ^ e ≠ 2 * Parts.leastNormal - 1 / 2 := by
    intro same
    have greatest : (m : ℚ) + 1 = 2 * Parts.leastNormal := by
      have high := r.high
      linarith
    have even := r.even (.inr (by linarith))
    have greatest : m + 1 = 2 * Parts.leastNormal := by exact_mod_cast greatest
    unfold Parts.leastNormal at greatest
    omega
  have less : q / 2 ^ e < 2 * Parts.leastNormal - 1 / 2 := by
    refine lt_of_le_of_ne ?_ odd
    have high := r.high
    linarith
  have positive : (0 : ℚ) < 2 * Parts.leastNormal - 1 / 2 := by norm_num [Parts.leastNormal]
  calc q < (2 * Parts.leastNormal - 1 / 2) * 2 ^ e := (div_lt_iff₀ power).1 less
    _ ≤ overflow := mul_le_mul_of_nonneg_left step positive.le

/-- Numbers that round to a mantissa beyond the greatest double are infinite. -/
theorem overflow_le_of_rounds (greater : 971 < e) : overflow ≤ q := by
  have power := two_zpow_pos e
  have step : (2 : ℚ) ^ (971 + 1 : ℤ) ≤ 2 ^ e := zpow_le_zpow_right₀ (by norm_num) greater
  rw [zpow_add_one₀ (by norm_num)] at step
  have normal := c.normal (lt_trans (by decide) greater)
  have low : Parts.leastNormal - 1 / 4 ≤ q / 2 ^ e := by
    refine le_trans ?_ r.low
    rcases eq_or_lt_of_le normal with rfl | more
    · have half : gapBelow Parts.leastNormal e = 1 / 2 :=
        if_pos ⟨rfl, lt_trans (by decide) greater⟩
      rw [half]
      norm_num
    · have more : (Parts.leastNormal : ℚ) + 1 ≤ m := by exact_mod_cast more
      have bounds := gapBelow_bounds m e
      linarith
  have positive : (0 : ℚ) ≤ Parts.leastNormal - 1 / 4 := by norm_num [Parts.leastNormal]
  calc overflow = (Parts.leastNormal - 1 / 4) * (2 ^ (971 : ℤ) * 2) := by
        rw [overflow]
        ring
    _ ≤ (Parts.leastNormal - 1 / 4) * 2 ^ e := mul_le_mul_of_nonneg_left step positive
    _ ≤ q := (le_div_iff₀ power).1 low

theorem nearest_of_rounds {x : Float} (parts : Parts.ofFloat x = .finite false m e) :
    Nearest q x := by
  have power := two_zpow_pos e
  have scaled (v : ℚ) : |q - v| = |q / 2 ^ e - v / 2 ^ e| * 2 ^ e := by
    rw [← sub_div, abs_div, abs_of_pos power, div_mul_cancel₀ _ power.ne']
  have own : magnitude m e / 2 ^ e = m := by rw [magnitude_div, sub_self, zpow_zero, mul_one]
  have bounds := gapBelow_bounds m e
  have low := r.low
  have high := r.high
  have near {y : Float} {v : ℚ} (value : value? y = some v) (other : v ≠ magnitude m e) :
      |q / 2 ^ e - m| ≤ |q / 2 ^ e - v / 2 ^ e| ∧
        (|q / 2 ^ e - v / 2 ^ e| = |q / 2 ^ e - m| → m % 2 = 0) := by
    have beside := gap_of_value? c value other
    have even := r.even
    generalize q / 2 ^ e = x at *
    generalize v / 2 ^ e = w at *
    rcases beside with above | below
    · have right : |x - w| = w - x := by
        rw [abs_sub_comm]
        exact abs_of_nonneg (by linarith)
      rw [right]
      refine ⟨abs_le.2 ⟨by linarith, by linarith⟩, fun tie => even (.inr ?_)⟩
      rcases abs_choice (x - m) with plus | minus <;> linarith
    · have left : |x - w| = x - w := abs_of_nonneg (by linarith)
      rw [left]
      refine ⟨abs_le.2 ⟨by linarith, by linarith⟩, fun tie => even (.inl ?_)⟩
      rcases abs_choice (x - m) with plus | minus <;> linarith
  refine .finite (lt_overflow_of_rounds c r (Parts.canonical_of_ofFloat parts).2) parts ?_ ?_
  · intro y v value
    by_cases same : v = magnitude m e
    · rw [same]
    · rw [scaled, scaled, own]
      exact mul_le_mul_of_nonneg_right (near value same).1 power.le
  · intro y v value other tie
    rw [scaled, scaled, own] at tie
    exact (near value other).2 (mul_right_cancel₀ power.ne' tie)

end Nearest

end KpiReport.Decimal
