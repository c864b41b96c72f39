import KpiReport.Proofs.Decimal.Mantissas

/-!
# Products and quotients of doubles

A double is packed into its bits and unpacked again. A number rounds to a double (`RoundsTo`) if it
rounds to its mantissa and exponent, or if they are beyond the greatest double and the double is
infinite; there is one such double only (`RoundsTo.unique`), and it is the nearest one
(`RoundsTo.nearest`). The main statements are that the exact product and the exact quotient round to
the computed ones (`roundsTo_mul`, `roundsTo_div`).
-/

namespace KpiReport.Decimal

open Float.Model Float.Model.UnpackedFloat

/-! ## Bits -/

/-- The bits of a double: its sign, its exponent and the fraction of its mantissa. -/
theorem toNat_packComponents (sign : Sign) (exponent : BitVec 11) (fraction : BitVec 52) :
    (packComponents Format.binary64 sign exponent fraction).toNat =
      sign.toBitVec.toNat * (UInt64.size / 2) +
        (exponent.toNat * Parts.leastNormal + fraction.toNat) := by
  have short : fraction.toNat < 2 ^ 52 := fraction.isLt
  have low : exponent.toNat < 2 ^ 11 := exponent.isLt
  unfold packComponents
  rw [BitVec.toNat_append, BitVec.toNat_append, ← Nat.shiftLeft_add_eq_or_of_lt short,
    ← Nat.shiftLeft_add_eq_or_of_lt low, Nat.shiftLeft_eq, Nat.shiftLeft_eq]
  have powers : 2 ^ 11 * 2 ^ 52 = UInt64.size / 2 := by decide
  have least : 2 ^ 52 = Parts.leastNormal := by decide
  change (sign.toBitVec.toNat * 2 ^ 11 + exponent.toNat) * 2 ^ 52 + fraction.toNat = _
  rw [Nat.add_mul, Nat.mul_assoc, powers, least, Nat.add_assoc]

/-- The parts of a positive double, from its biased exponent and its fraction. -/
theorem ofFloat_of_toNat_toBits {x : Float} {biased fraction : ℕ}
    (bits : x.toBits.toNat = biased * Parts.leastNormal + fraction) (short : biased < 2048)
    (less : fraction < Parts.leastNormal) : Parts.ofFloat x =
      if biased = 2047 then if fraction = 0 then .infinite false else .nan
      else if biased = 0 then .finite false fraction Parts.leastExponent
      else .finite false (fraction + Parts.leastNormal) ((biased : ℤ) - 1075) := by
  unfold Parts.leastNormal at bits less
  have sign : decide (UInt64.size / 2 ≤ x.toBits.toNat) = false := by
    unfold UInt64.size
    simp only [decide_eq_false_iff_not]
    omega
  have exponent : x.toBits.toNat / Parts.leastNormal % 2048 = biased := by
    unfold Parts.leastNormal
    omega
  have rest : x.toBits.toNat % Parts.leastNormal = fraction := by
    unfold Parts.leastNormal
    omega
  unfold Parts.ofFloat
  dsimp only
  rw [sign, exponent, rest]

theorem ofFloat_of_pack {u : UnpackedFloat} {exponent : BitVec 11} {fraction : BitVec 52}
    (packed : UnpackedFloat.pack Format.binary64 u =
      packComponents Format.binary64 .positive exponent fraction) :
    Parts.ofFloat (.ofModel (.pack u)) =
      if exponent.toNat = 2047 then if fraction.toNat = 0 then .infinite false else .nan
      else if exponent.toNat = 0 then .finite false fraction.toNat Parts.leastExponent
      else .finite false (fraction.toNat + Parts.leastNormal) ((exponent.toNat : ℤ) - 1075) := by
  have bits : (Float.ofModel (.pack u)).toBits.toNat =
      exponent.toNat * Parts.leastNormal + fraction.toNat := by
    change (UnpackedFloat.pack Format.binary64 u).toNat = _
    rw [packed, toNat_packComponents]
    exact Nat.zero_add _
  exact ofFloat_of_toNat_toBits bits exponent.isLt fraction.isLt

/-- A finite number is packed with the exponent of an infinite one if it is too great, without an
exponent if its mantissa is too small, and without its leading bit otherwise. -/
theorem pack_finite (sign : Sign) {m : ℕ} (e : ℤ) (positive : 0 < m) :
    UnpackedFloat.pack Format.binary64 (.finite sign m e positive) =
      if 2 ^ 11 ≤ (e + 1075).toNat + 1 then packComponents Format.binary64 sign (-1#11) 0#52
      else if m.log2 + 1 = 53 then packComponents Format.binary64 sign
        (BitVec.ofNat 11 (e + 1075).toNat) (BitVec.ofNat 52 m)
      else packComponents Format.binary64 sign 0#11 (BitVec.ofNat 52 m) := by
  have bias : (Format.binary64.exponentBias : ℤ) = 1023 := by decide
  have biased : (e + (Format.binary64.exponentBias : ℤ) + (52 : ℕ)).toNat = (e + 1075).toNat := by
    omega
  rw [← biased]
  rfl

/-- A canonical mantissa and exponent are the parts of the double that is packed from them, unless
the exponent is too great. -/
theorem ofFloat_pack {n : ℕ} {d : ℤ} (c : Parts.Canonical n d) :
    Parts.ofFloat (.ofModel (.pack (unpacked n d))) =
      if d ≤ 971 then .finite false n d else .infinite false := by
  have bound := c.mantissa_lt
  have least := c.least_le
  have normal := c.normal
  unfold Parts.leastExponent at least normal
  rcases Nat.eq_zero_or_pos n with rfl | positive
  · obtain rfl := c.eq_leastExponent (by decide)
    have packed : UnpackedFloat.pack Format.binary64 (.zero .positive) =
        packComponents Format.binary64 .positive 0#11 0#52 := rfl
    exact ofFloat_of_pack packed
  · rw [unpacked, dif_neg positive.ne']
    by_cases great : d ≤ 971
    · have room : ¬ 2 ^ 11 ≤ (d + 1075).toNat + 1 := by omega
      rw [if_pos great]
      by_cases full : Parts.leastNormal ≤ n
      · have length : n.log2 + 1 = 53 :=
          congrArg (· + 1) ((Nat.log2_eq_iff positive.ne').2 ⟨full, bound⟩)
        have packed : UnpackedFloat.pack Format.binary64 (.finite .positive n d positive) =
            packComponents Format.binary64 .positive (BitVec.ofNat 11 (d + 1075).toNat)
              (BitVec.ofNat 52 n) := by
          rw [pack_finite, if_neg room, if_pos length]
        have exponent : (BitVec.ofNat 11 (d + 1075).toNat).toNat = (d + 1075).toNat := by
          rw [BitVec.toNat_ofNat, Nat.mod_eq_of_lt (by omega)]
        have fraction : (BitVec.ofNat 52 n).toNat = n - Parts.leastNormal := by
          rw [BitVec.toNat_ofNat]
          unfold Parts.leastNormal at *
          omega
        rw [ofFloat_of_pack packed, exponent, fraction, if_neg (by omega), if_neg (by omega),
          Nat.sub_add_cancel full]
        congr 1
        omega
      · have low := c.eq_leastExponent (Nat.lt_of_not_le full)
        have length : n.log2 + 1 ≠ 53 := by
          have short : n.log2 < 52 := (Nat.log2_lt positive.ne').2 (Nat.lt_of_not_le full)
          exact (Nat.succ_lt_succ short).ne
        have packed : UnpackedFloat.pack Format.binary64 (.finite .positive n d positive) =
            packComponents Format.binary64 .positive 0#11 (BitVec.ofNat 52 n) := by
          rw [pack_finite, if_neg room, if_neg length]
        have fraction : (BitVec.ofNat 52 n).toNat = n := by
          rw [BitVec.toNat_ofNat]
          exact Nat.mod_eq_of_lt (Nat.lt_of_not_le full)
        rw [ofFloat_of_pack packed, fraction, low]
        rfl
    · have room : 2 ^ 11 ≤ (d + 1075).toNat + 1 := by omega
      have packed : UnpackedFloat.pack Format.binary64 (.finite .positive n d positive) =
          packComponents Format.binary64 .positive (-1#11) 0#52 := by
        rw [pack_finite, if_pos room]
      rw [if_neg great]
      exact ofFloat_of_pack packed

section Unpack

variable (b : BitVec Format.binary64.numBits)

theorem toNat_unpackMantissa : (unpackMantissa b).toNat = b.toNat % Parts.leastNormal := by
  simp [unpackMantissa, Parts.leastNormal]

theorem toNat_unpackExponent :
    (unpackExponent b).toNat = b.toNat / Parts.leastNormal % 2048 := by
  simp [unpackExponent, Parts.leastNormal, Nat.shiftRight_eq_div_pow]

theorem toNat_unpackSign : (unpackSign b).toNat = b.toNat / (UInt64.size / 2) % 2 := by
  change ((b.extractLsb 63 63).cast _).toNat = _
  simp [UInt64.size, Nat.shiftRight_eq_div_pow]

variable {b}

/-- The model takes apart the bits of canonical parts as those parts. -/
theorem unpack_of_toNat {m : ℕ} {e : ℤ} (c : Parts.Canonical m e) (great : e ≤ 971)
    (positive : 0 < m) (bits : b.toNat = if m < Parts.leastNormal then m
      else (e + 1075).toNat * Parts.leastNormal + (m - Parts.leastNormal)) :
    UnpackedFloat.unpack Format.binary64 b = .finite .positive m e positive := by
  have mantissa := toNat_unpackMantissa b
  have exponent := toNat_unpackExponent b
  have sign := toNat_unpackSign b
  have bound := c.mantissa_lt
  have least := c.least_le
  have normal := c.normal
  rw [bits] at mantissa exponent sign
  unfold Parts.leastExponent at least normal
  unfold UInt64.size at sign
  have plus : unpackSign b = 0#1 := by
    refine BitVec.eq_of_toNat_eq (sign.trans ?_)
    unfold Parts.leastNormal at *
    split <;> simp <;> omega
  have other {n : ℕ} (value : (unpackExponent b).toNat = n) (less : n < 2047) :
      unpackExponent b ≠ -1#_ := by
    intro all
    have full : (unpackExponent b).toNat = 2047 := by rw [all]; rfl
    omega
  unfold UnpackedFloat.unpack
  dsimp only
  rw [plus]
  by_cases subnormal : m < Parts.leastNormal
  · have low := c.eq_leastExponent subnormal
    rw [if_pos subnormal, Nat.mod_eq_of_lt subnormal] at mantissa
    rw [if_pos subnormal, Nat.div_eq_of_lt subnormal] at exponent
    have zero : unpackExponent b = 0#_ := BitVec.eq_of_toNat_eq exponent
    have some : unpackMantissa b ≠ 0#_ := by
      intro none
      rw [none, BitVec.toNat_zero] at mantissa
      exact positive.ne mantissa
    rw [if_neg (other exponent (by decide)), if_pos zero, dif_neg some]
    rw [finite.injEq]
    refine ⟨rfl, mantissa, ?_⟩
    rw [exponent, low]
    rfl
  · rw [if_neg subnormal] at mantissa exponent
    have biased : (unpackExponent b).toNat = (e + 1075).toNat := by
      unfold Parts.leastNormal at *
      omega
    have fraction : (unpackMantissa b).toNat = m - Parts.leastNormal := by
      unfold Parts.leastNormal at *
      omega
    have nonzero : unpackExponent b ≠ 0#_ := by
      intro zero
      rw [zero, BitVec.toNat_zero] at biased
      omega
    have implicit : (1#1 ++ unpackMantissa b).toNat = m := by
      rw [BitVec.toNat_append, ← Nat.shiftLeft_add_eq_or_of_lt (unpackMantissa b).isLt, fraction]
      exact Nat.add_sub_cancel' (Nat.not_lt.1 subnormal)
    rw [if_neg (other biased (by omega)), if_neg nonzero]
    rw [finite.injEq]
    refine ⟨rfl, implicit, ?_⟩
    rw [biased]
    have bias : (Format.binary64.exponentBias : ℤ) = 1023 := by decide
    omega

end Unpack

/-- The model takes a double apart as its parts say. -/
theorem unpack_of_ofFloat {x : Float} {m : ℕ} {e : ℤ} (parts : Parts.ofFloat x = .finite false m e)
    (positive : 0 < m) : x.toModel.unpack = .finite .positive m e positive := by
  obtain ⟨c, great⟩ := Parts.canonical_of_ofFloat parts
  have bits := Parts.toNat_toBits_of_finite parts
  rw [if_neg Bool.false_ne_true, zero_add] at bits
  exact unpack_of_toNat c great positive bits

/-! ## Signs -/

/-- The opposite of a positive double has the bits of the double and the bit of its sign. -/
theorem toNat_pack_negative (m : ℕ) (e : ℤ) (positive : 0 < m) :
    (UnpackedFloat.pack Format.binary64 (.finite .negative m e positive)).toNat =
      UInt64.size / 2 +
        (UnpackedFloat.pack Format.binary64 (.finite .positive m e positive)).toNat := by
  have sign (exponent : BitVec 11) (fraction : BitVec 52) :
      (packComponents Format.binary64 .negative exponent fraction).toNat = UInt64.size / 2 +
        (packComponents Format.binary64 .positive exponent fraction).toNat := by
    rw [toNat_packComponents, toNat_packComponents]
    change 1 * _ + _ = _ + (0 * _ + _)
    rw [Nat.one_mul, Nat.zero_mul, Nat.zero_add]
  rw [pack_finite, pack_finite]
  split
  · exact sign _ _
  · split
    · exact sign _ _
    · exact sign _ _

/-- A double with the bits of another one and the bit of its sign has the same parts otherwise. -/
theorem ofFloat_of_toNat_add {x y : Float} {m : ℕ} {e : ℤ}
    (parts : Parts.ofFloat x = .finite false m e)
    (bits : y.toBits.toNat = UInt64.size / 2 + x.toBits.toNat) :
    Parts.ofFloat y = .finite true m e := by
  have bound : y.toBits.toNat < UInt64.size := y.toBits.toNat_lt
  have exponent : y.toBits.toNat / Parts.leastNormal % 2048 =
      x.toBits.toNat / Parts.leastNormal % 2048 := by
    unfold Parts.leastNormal UInt64.size at *
    omega
  have fraction : y.toBits.toNat % Parts.leastNormal = x.toBits.toNat % Parts.leastNormal := by
    unfold Parts.leastNormal UInt64.size at *
    omega
  have sign : decide (UInt64.size / 2 ≤ y.toBits.toNat) = true := by
    rw [bits]
    exact decide_eq_true (Nat.le_add_right _ _)
  unfold Parts.ofFloat at *
  dsimp only at *
  rw [exponent, fraction, sign]
  split at parts
  · split at parts <;> cases parts
  · rename_i finite
    rw [if_neg finite]
    split at parts
    · rename_i zero
      obtain ⟨-, rfl, rfl⟩ := Parts.finite.inj parts
      rw [if_pos zero]
    · rename_i nonzero
      obtain ⟨-, rfl, rfl⟩ := Parts.finite.inj parts
      rw [if_neg nonzero]

/-- The opposite of a double has the opposite sign. -/
theorem ofFloat_neg {x : Float} {m : ℕ} {e : ℤ} (parts : Parts.ofFloat x = .finite false m e) :
    Parts.ofFloat (-x) = .finite true m e := by
  obtain ⟨c, great⟩ := Parts.canonical_of_ofFloat parts
  rcases Nat.eq_zero_or_pos m with rfl | positive
  · obtain rfl := c.eq_leastExponent (by decide)
    obtain rfl : x = 0 := Parts.eq_of_ofFloat_finite parts rfl
    rfl
  · have packed := ofFloat_pack c
    rw [if_pos great, unpacked, dif_neg positive.ne'] at packed
    have bits := toNat_pack_negative m e positive
    obtain rfl : x = .ofModel (.pack (.finite .positive m e positive)) :=
      Parts.eq_of_ofFloat_finite parts packed
    refine ofFloat_of_toNat_add parts ?_
    have opposite : -Float.ofModel (.pack (.finite .positive m e positive)) =
        .ofModel (.pack (.finite .negative m e positive)) := by
      change Float.ofModel (.pack (Float.Model.unpack _).neg) = _
      rw [unpack_of_ofFloat parts positive]
      rfl
    rw [opposite]
    exact bits

/-! ## Doubles that a number rounds to -/

/-- The number rounds to the double, which is infinite if the exponent gets too great. -/
def RoundsTo (q : ℚ) (x : Float) : Prop :=
  ∃ m e, Parts.Canonical m e ∧ Rounds q m e ∧
    Parts.ofFloat x = if e ≤ 971 then .finite false m e else .infinite false

namespace RoundsTo

variable {q : ℚ} {x : Float}

theorem nearest (h : RoundsTo q x) : Nearest q x := by
  obtain ⟨m, e, c, r, parts⟩ := h
  split at parts
  · exact nearest_of_rounds c r parts
  · rename_i great
    rw [eq_infinity parts]
    exact .infinite (overflow_le_of_rounds c r (Int.not_le.1 great))

/-- A number rounds to one double only. -/
theorem unique {y : Float} (h : RoundsTo q x) (h' : RoundsTo q y) : x = y := by
  obtain ⟨m, e, c, r, parts⟩ := h
  obtain ⟨m', e', c', r', parts'⟩ := h'
  obtain ⟨rfl, rfl⟩ := r.unique c c' r'
  split at parts
  · rename_i le
    rw [if_pos le] at parts'
    exact Parts.eq_of_ofFloat_finite parts parts'
  · rename_i great
    rw [if_neg great] at parts'
    rw [eq_infinity parts, eq_infinity parts']

theorem of_roundWithAccuracy {m : ℕ} {e : ℤ} {a : Accuracy} (fine : Fine m e)
    (h : Represents (ExtendedMantissa.ofMantissaAndAccuracy m a) q) :
    RoundsTo (q * 2 ^ e)
      (.ofModel (.pack (roundWithAccuracy Format.binary64 .positive m e a))) := by
  obtain ⟨n, d, same, c, r⟩ := roundWithAccuracy_spec fine h
  rw [same]
  exact ⟨n, d, c, r, ofFloat_pack c⟩

end RoundsTo

section Arithmetic

variable {m₁ m₂ : ℕ} {e₁ e₂ : ℤ} (p₁ : 0 < m₁) (p₂ : 0 < m₂)

theorem roundsTo_mul (fine : Fine (m₁ * m₂) (e₁ + e₂)) :
    RoundsTo (magnitude m₁ e₁ * magnitude m₂ e₂)
      (.ofModel (.pack (UnpackedFloat.mul Format.binary64 (.finite .positive m₁ e₁ p₁)
        (.finite .positive m₂ e₂ p₂)))) := by
  have rounds := RoundsTo.of_roundWithAccuracy fine (represents_exact (m₁ * m₂))
  have value : magnitude m₁ e₁ * magnitude m₂ e₂ = (m₁ * m₂ : ℕ) * 2 ^ (e₁ + e₂) := by
    rw [magnitude, magnitude, zpow_add₀ (by norm_num)]
    push_cast
    ring
  rw [value]
  exact rounds

include p₁ p₂ in
/-- The dividend is shifted until its quotient has enough bits. -/
theorem exists_divCore (e₁ e₂ : ℤ) : ∃ (k : ℕ) (t : ℤ), t + k = e₁ - e₂ ∧
    Fine (m₁ * 2 ^ k / m₂) t ∧ divCore Format.binary64 m₁ e₁ m₂ e₂ =
      (m₁ * 2 ^ k / m₂, t, accuracyOfFraction (m₁ * 2 ^ k % m₂) m₂) := by
  have target : Format.binary64.targetExponent (totalExponent m₁ e₁ - totalExponent m₂ e₂) =
      max ((m₁.log2 : ℤ) + e₁ - (m₂.log2 + e₂) - 53) Parts.leastExponent := by
    rw [targetExponent_binary64, totalExponent, totalExponent]
    omega
  unfold divCore
  rw [target]
  dsimp only
  generalize shifted : min (e₁ - e₂)
    (max ((m₁.log2 : ℤ) + e₁ - (m₂.log2 + e₂) - 53) Parts.leastExponent) = t
  refine ⟨(e₁ - e₂ - t).toNat, t, by omega, ?_, by rw [Nat.shiftLeft_eq]⟩
  by_cases low : t ≤ Parts.leastExponent
  · exact .inr low
  · left
    have room : 52 + (m₂.log2 + 1) ≤ m₁.log2 + (e₁ - e₂ - t).toNat := by omega
    have enough : 2 ^ 52 ≤ m₁ * 2 ^ (e₁ - e₂ - t).toNat / m₂ := by
      rw [Nat.le_div_iff_mul_le p₂]
      calc 2 ^ 52 * m₂ ≤ 2 ^ 52 * 2 ^ (m₂.log2 + 1) :=
            Nat.mul_le_mul_left _ Nat.lt_log2_self.le
        _ ≤ 2 ^ m₁.log2 * 2 ^ (e₁ - e₂ - t).toNat := by
            rw [← pow_add, ← pow_add]
            exact Nat.pow_le_pow_right (by decide) room
        _ ≤ m₁ * 2 ^ (e₁ - e₂ - t).toNat :=
            Nat.mul_le_mul_right _ (Nat.log2_self_le p₁.ne')
    exact (Nat.le_log2 (lt_of_lt_of_le (by decide) enough).ne').2 enough

theorem roundsTo_div : RoundsTo (magnitude m₁ e₁ / magnitude m₂ e₂)
    (.ofModel (.pack (UnpackedFloat.div Format.binary64 (.finite .positive m₁ e₁ p₁)
      (.finite .positive m₂ e₂ p₂)))) := by
  obtain ⟨k, t, exponent, fine, core⟩ := exists_divCore p₁ p₂ e₁ e₂
  have rounds := RoundsTo.of_roundWithAccuracy fine (represents_div (m₁ * 2 ^ k) p₂)
  have value : magnitude m₁ e₁ / magnitude m₂ e₂ = (m₁ * 2 ^ k : ℕ) / m₂ * 2 ^ t := by
    have exponent : e₁ = t + k + e₂ := by omega
    have divisor : (m₂ : ℚ) ≠ 0 := by exact_mod_cast p₂.ne'
    rw [magnitude, magnitude, exponent, zpow_add₀ (by norm_num), zpow_add₀ (by norm_num),
      zpow_natCast]
    push_cast
    field_simp
  have quotient := congrArg (fun found : ℕ × ℤ × Accuracy =>
    roundWithAccuracy Format.binary64 .positive found.1 found.2.1 found.2.2) core
  rw [value, show UnpackedFloat.div Format.binary64 (.finite .positive m₁ e₁ p₁)
    (.finite .positive m₂ e₂ p₂) = _ from quotient]
  exact rounds

end Arithmetic

end KpiReport.Decimal
