import KpiReport.Proofs.Decimal.Doubles
import Mathlib.Tactic.FieldSimp

/-!
# Rounded mantissas

Products and quotients of doubles are computed from their mantissas, of which the bits beyond the
last place are dropped but for a round bit and a sticky bit. The two bits tell where the exact
number lies (`Represents`), and dropping further bits keeps that. So the mantissa and the exponent
that are left are those that the exact number rounds to (`roundWithAccuracy_spec`).
-/

namespace KpiReport.Decimal

open Float.Model Float.Model.UnpackedFloat

/-! ## Mantissas with bits beyond the last place -/

/-- A number lies where the mantissa and its two bits say, in units of the last place. -/
def Represents (em : ExtendedMantissa) (x : ℚ) : Prop :=
  match em.roundBit, em.stickyBit with
  | false, false => x = em.mantissa
  | false, true => (em.mantissa : ℚ) < x ∧ x < em.mantissa + 1 / 2
  | true, false => x = em.mantissa + 1 / 2
  | true, true => (em.mantissa : ℚ) + 1 / 2 < x ∧ x < em.mantissa + 1

namespace Represents

variable {em : ExtendedMantissa} {x : ℚ} (h : Represents em x)

include h

theorem bounds : (em.mantissa : ℚ) ≤ x ∧ x < em.mantissa + 1 := by
  obtain ⟨m, round, sticky⟩ := em
  cases round <;> cases sticky <;> simp only [Represents] at h <;> constructor <;> linarith

/-- The rounded mantissa is a nearest whole number, and the even one of two. -/
theorem rounded : (em.roundedMantissa : ℚ) - 1 / 2 ≤ x ∧ x ≤ em.roundedMantissa + 1 / 2 ∧
    (x = em.roundedMantissa - 1 / 2 ∨ x = em.roundedMantissa + 1 / 2 →
      em.roundedMantissa % 2 = 0) := by
  obtain ⟨m, round, sticky⟩ := em
  cases round <;> cases sticky <;>
    simp only [Represents, ExtendedMantissa.roundedMantissa, ExtendedMantissa.accuracy,
      Accuracy.roundToNearestEven] at h ⊢
  · refine ⟨by linarith, by linarith, ?_⟩
    rintro (tie | tie) <;> exfalso <;> linarith
  · refine ⟨by linarith, by linarith, ?_⟩
    rintro (tie | tie) <;> exfalso <;> linarith
  · -- the tie: an odd mantissa goes up to the even one
    have parity := Nat.mod_two_eq_zero_or_one m
    refine ⟨?_, ?_, fun _ => by omega⟩ <;> rcases parity with last | last <;>
      rw [last] <;> push_cast <;> linarith
  · push_cast
    refine ⟨by linarith, by linarith, ?_⟩
    rintro (tie | tie) <;> exfalso <;> linarith

theorem shiftRightOne : Represents em.shiftRightOne (x / 2) := by
  obtain ⟨m, round, sticky⟩ := em
  have whole : ((m % 2 : ℕ) : ℚ) + 2 * (m / 2 : ℕ) = m := by exact_mod_cast Nat.mod_add_div m 2
  rcases Nat.mod_two_eq_zero_or_one m with last | last <;> rw [last] at whole <;>
    cases round <;> cases sticky <;>
    simp [Represents, ExtendedMantissa.shiftRightOne, last] at h whole ⊢ <;>
    first | linarith | constructor <;> linarith

/-- Dropping bits divides the number by a power of two. -/
theorem shiftRight (n : ℕ) : Represents (em >>> n) (x / 2 ^ n) := by
  change Represents (n.repeat ExtendedMantissa.shiftRightOne em) (x / 2 ^ n)
  induction n with
  | zero => simpa [Nat.repeat] using h
  | succ n ih =>
    rw [Nat.repeat, pow_succ, ← div_div]
    exact ih.shiftRightOne

end Represents

theorem mantissa_shiftRight (em : ExtendedMantissa) (n : ℕ) :
    (em >>> n).mantissa = em.mantissa / 2 ^ n := by
  change (n.repeat ExtendedMantissa.shiftRightOne em).mantissa = _
  induction n with
  | zero => rw [Nat.repeat, pow_zero, Nat.div_one]
  | succ n ih =>
    rw [Nat.repeat, pow_succ, ← Nat.div_div_eq_div_mul, ← ih]
    rfl

theorem mantissa_ofMantissaAndAccuracy (m : ℕ) (a : Accuracy) :
    (ExtendedMantissa.ofMantissaAndAccuracy m a).mantissa = m := by
  cases a with
  | exact => rfl
  | inexact order => cases order <;> rfl

/-- A whole number has no bits beyond the last place. -/
theorem represents_exact (m : ℕ) :
    Represents (ExtendedMantissa.ofMantissaAndAccuracy m .exact) m :=
  rfl

/-- The remainder of a division tells the bits of the quotient beyond the last place. -/
theorem represents_div (m : ℕ) {n : ℕ} (positive : 0 < n) :
    Represents (ExtendedMantissa.ofMantissaAndAccuracy (m / n) (accuracyOfFraction (m % n) n))
      (m / n) := by
  have cast : (0 : ℚ) < n := by exact_mod_cast positive
  have parts : (n : ℚ) * (m / n : ℕ) + (m % n : ℕ) = m := by exact_mod_cast Nat.div_add_mod m n
  have split : (m : ℚ) / n = (m / n : ℕ) + (m % n : ℕ) / n := by
    rw [← parts]
    field_simp
  have less : ((m % n : ℕ) : ℚ) / n < 1 := by
    rw [div_lt_one cast]
    exact_mod_cast Nat.mod_lt m positive
  rw [split]
  unfold accuracyOfFraction
  split
  · rename_i none
    simp [Represents, ExtendedMantissa.ofMantissaAndAccuracy, none]
  · rename_i some
    have rest : (0 : ℚ) < (m % n : ℕ) := by exact_mod_cast Nat.pos_of_ne_zero some
    have more := div_pos rest cast
    rcases lt_trichotomy (2 * (m % n)) n with below | half | above
    · have order : (2 : ℚ) * (m % n : ℕ) < n := by exact_mod_cast below
      have less : ((m % n : ℕ) : ℚ) / n < 1 / 2 := by
        rw [div_lt_iff₀ cast]
        linarith
      rw [Nat.compare_eq_lt.2 below]
      change ((m / n : ℕ) : ℚ) < _ ∧ _ < ((m / n : ℕ) : ℚ) + 1 / 2
      constructor <;> linarith
    · have order : (2 : ℚ) * (m % n : ℕ) = n := by exact_mod_cast half
      have same : ((m % n : ℕ) : ℚ) / n = 1 / 2 := by
        rw [div_eq_iff cast.ne']
        linarith
      rw [Nat.compare_eq_eq.2 half, same]
      rfl
    · have order : (n : ℚ) < 2 * (m % n : ℕ) := by exact_mod_cast above
      have greater : 1 / 2 < ((m % n : ℕ) : ℚ) / n := by
        rw [lt_div_iff₀ cast]
        linarith
      rw [Nat.compare_eq_gt.2 above]
      change ((m / n : ℕ) : ℚ) + 1 / 2 < _ ∧ _ < ((m / n : ℕ) : ℚ) + 1
      constructor <;> linarith

/-! ## Rounding -/

theorem targetExponent_binary64 (t : ℤ) :
    Format.binary64.targetExponent t = max (t - 53) Parts.leastExponent := rfl

/-- The exponent to which a mantissa of enough bits is brought. -/
theorem targetExponent_eq (m : ℕ) (e : ℤ) :
    Format.binary64.targetExponent (totalExponent m e) =
      max ((m.log2 : ℤ) + e - 52) Parts.leastExponent := by
  rw [targetExponent_binary64, totalExponent]
  omega

/-- A number with a mantissa that may be zero. -/
def unpacked (m : ℕ) (e : ℤ) : UnpackedFloat :=
  if h : m = 0 then .zero .positive else .finite .positive m e (Nat.pos_of_ne_zero h)

/-- The mantissa has all bits that the format asks for, or the exponent is low enough. -/
def Fine (m : ℕ) (e : ℤ) : Prop :=
  52 ≤ m.log2 ∨ e ≤ Parts.leastExponent

section Rounding

variable {m : ℕ} {e : ℤ} (fine : Fine m e)

include fine

/-- Bringing a mantissa to its exponent drops bits only. -/
theorem exists_shift : ∃ k : ℕ, max ((m.log2 : ℤ) + e - 52) Parts.leastExponent = e + k ∧
    m / 2 ^ k < 2 * Parts.leastNormal ∧
    (Parts.leastExponent < e + k → Parts.leastNormal ≤ m / 2 ^ k) := by
  unfold Fine at fine
  obtain ⟨k, target⟩ : ∃ k : ℕ, max ((m.log2 : ℤ) + e - 52) Parts.leastExponent = e + k :=
    ⟨(max ((m.log2 : ℤ) + e - 52) Parts.leastExponent - e).toNat, by omega⟩
  have double : 2 * Parts.leastNormal = 2 ^ 53 := by decide
  have least : Parts.leastNormal = 2 ^ 52 := by decide
  refine ⟨k, target, ?_, fun greater => ?_⟩
  · have room : m.log2 + 1 ≤ 53 + k := by omega
    rw [double, Nat.div_lt_iff_lt_mul (Nat.two_pow_pos k), ← pow_add]
    exact lt_of_lt_of_le Nat.lt_log2_self (Nat.pow_le_pow_right (by decide) room)
  · have length : m.log2 = 52 + k := by omega
    have positive : m ≠ 0 := by
      rintro rfl
      rw [Nat.log2_zero] at length
      omega
    rw [least, Nat.le_div_iff_mul_le (Nat.two_pow_pos k), ← pow_add, ← length]
    exact Nat.log2_self_le positive

end Rounding

/-- A canonical mantissa stays as it is. -/
theorem shiftToTargetExponent_of_canonical {m : ℕ} {e : ℤ} (c : Parts.Canonical m e) :
    shiftToTargetExponent Format.binary64 m e .exact = (⟨m, false, false⟩, e) := by
  have length : m.log2 ≤ 52 := by
    rcases Nat.eq_zero_or_pos m with rfl | positive
    · decide
    · have short : m.log2 < 53 := (Nat.log2_lt positive.ne').2 c.mantissa_lt
      omega
  have least := c.least_le
  have target : (max ((m.log2 : ℤ) + e - 52) Parts.leastExponent - e).toNat = 0 := by omega
  rw [shiftToTargetExponent, targetExponent_eq, shiftToExponent, target]
  exact Prod.ext rfl (add_zero e)

/-- A mantissa that rounding has made one bit longer loses that bit, which is zero. -/
theorem shiftToTargetExponent_carry {e : ℤ} (le : Parts.leastExponent ≤ e) :
    shiftToTargetExponent Format.binary64 (2 * Parts.leastNormal) e .exact =
      (⟨Parts.leastNormal, false, false⟩, e + 1) := by
  have length : (2 * Parts.leastNormal).log2 = 53 := by decide +kernel
  have target : (max (((2 * Parts.leastNormal).log2 : ℤ) + e - 52) Parts.leastExponent - e).toNat =
      1 := by
    rw [length]
    omega
  rw [shiftToTargetExponent, targetExponent_eq, shiftToExponent, target]
  rfl

/-- **Rounding gives the canonical mantissa and exponent to which the exact number rounds.** -/
theorem roundWithAccuracy_spec {m : ℕ} {e : ℤ} {a : Accuracy} {x : ℚ} (fine : Fine m e)
    (h : Represents (ExtendedMantissa.ofMantissaAndAccuracy m a) x) :
    ∃ n d, roundWithAccuracy Format.binary64 .positive m e a = unpacked n d ∧
      Parts.Canonical n d ∧ Rounds (x * 2 ^ e) n d := by
  obtain ⟨k, target, bound, normal⟩ := exists_shift fine
  have first : shiftToTargetExponent Format.binary64 m e a =
      (ExtendedMantissa.ofMantissaAndAccuracy m a >>> k, e + k) := by
    have amount : (e + k - e).toNat = k := by omega
    rw [shiftToTargetExponent, targetExponent_eq, target, shiftToExponent, amount]
  have represents := h.shiftRight k
  have mantissa : (ExtendedMantissa.ofMantissaAndAccuracy m a >>> k).mantissa = m / 2 ^ k := by
    rw [mantissa_shiftRight, mantissa_ofMantissaAndAccuracy]
  unfold roundWithAccuracy
  rw [first]
  dsimp only
  generalize ExtendedMantissa.ofMantissaAndAccuracy m a >>> k = em at *
  obtain ⟨floor, ceiling⟩ := represents.bounds
  obtain ⟨low, high, even⟩ := represents.rounded
  rw [← mantissa] at bound normal
  have least : Parts.leastExponent ≤ e + k := by omega
  have up : em.mantissa ≤ em.roundedMantissa := by
    have less : (em.mantissa : ℚ) < em.roundedMantissa + 1 := by linarith
    exact_mod_cast Nat.lt_succ_iff.1 (by exact_mod_cast less)
  have down : em.roundedMantissa ≤ em.mantissa + 1 := by
    have less : (em.roundedMantissa : ℚ) < em.mantissa + 1 + 1 := by linarith
    exact_mod_cast Nat.lt_succ_iff.1 (by exact_mod_cast less)
  have scaled : x * 2 ^ e / 2 ^ (e + k) = x / 2 ^ k := by
    rw [zpow_add₀ (by norm_num), zpow_natCast]
    field_simp
  generalize em.roundedMantissa = n at *
  rcases Nat.lt_or_ge n (2 * Parts.leastNormal) with short | long
  · have c : Parts.Canonical n (e + k) :=
      ⟨short, least, fun greater => (normal greater).trans up⟩
    rw [shiftToTargetExponent_of_canonical c]
    refine ⟨n, e + k, rfl, c, ?_⟩
    by_cases power : n = Parts.leastNormal ∧ Parts.leastExponent < e + k
    · have gap : gapBelow n (e + k) = 1 / 2 := if_pos power
      have above : (n : ℚ) ≤ em.mantissa := by
        rw [power.1]
        exact_mod_cast normal power.2
      refine ⟨by rw [scaled, gap]; linarith, by rw [scaled]; exact high, ?_⟩
      rw [scaled, gap]
      rintro (tie | tie)
      · exfalso
        linarith
      · exact even (.inr tie)
    · have gap : gapBelow n (e + k) = 1 := if_neg power
      rw [← scaled] at low high even
      refine ⟨by rw [gap]; exact low, high, ?_⟩
      rw [gap]
      exact even
  · obtain rfl : n = 2 * Parts.leastNormal := by omega
    rw [shiftToTargetExponent_carry least]
    refine ⟨Parts.leastNormal, e + k + 1, rfl, ⟨by decide, by omega, fun _ => le_rfl⟩, ?_⟩
    have gap : gapBelow Parts.leastNormal (e + k + 1) = 1 / 2 := if_pos ⟨rfl, by omega⟩
    have halved : x * 2 ^ e / 2 ^ (e + k + 1) = x / 2 ^ k / 2 := by
      rw [zpow_add_one₀ (by norm_num), ← div_div, scaled]
    have most : (em.mantissa : ℚ) + 1 ≤ 2 * Parts.leastNormal := by exact_mod_cast bound
    push_cast at low
    refine ⟨by rw [halved, gap]; linarith, by rw [halved]; linarith, fun _ => by decide⟩

end KpiReport.Decimal
