import KpiReport.Decimal.Numeral
import Mathlib.Data.Nat.Digits.Defs

/-!
# Digits of numbers

The digits of a number write that number (`ofDigits_digits`), they are as many as the powers of ten
below it (`digits_bounds`), and the first of them is a zero for zero only (`head_digits`).
-/

namespace KpiReport.Decimal

theorem ofDigits_eq (ds : List Char) : ofDigits ds = Nat.ofDigitChars 10 ds 0 :=
  Nat.ofDigitChars_eq_foldl.symm

theorem ofDigits_append (cs ds : List Char) :
    ofDigits (cs ++ ds) = 10 ^ ds.length * ofDigits cs + ofDigits ds := by
  rw [ofDigits_eq, ofDigits_eq, ofDigits_eq, Nat.ofDigitChars_append,
    Nat.ofDigitChars_eq_ofDigitChars_zero]

theorem ofDigits_zeros (count : ℕ) (ds : List Char) :
    ofDigits (List.replicate count '0' ++ ds) = ofDigits ds := by
  rw [ofDigits_eq, ofDigits_eq, Nat.ofDigitChars_append, Nat.ofDigitChars_replicate_zero,
    Nat.mul_zero]

theorem ofDigits_digits (n : ℕ) : ofDigits (digits n) = n := by
  rw [ofDigits_eq]
  exact Nat.ofDigitChars_ten_toDigits

theorem isDigit_of_mem_digits {n : ℕ} {c : Char} (h : c ∈ digits n) : c.isDigit = true :=
  Nat.isDigit_of_mem_toDigits (by decide) (by decide) h

theorem digits_ne_nil (n : ℕ) : digits n ≠ [] :=
  Nat.toDigits_ne_nil

/-- The digits of a number are as many as the powers of ten below it. -/
theorem digits_bounds {n : ℕ} (positive : 0 < n) :
    10 ^ ((digits n).length - 1) ≤ n ∧ n < 10 ^ (digits n).length := by
  have some : 0 < (digits n).length := Nat.length_toDigits_pos
  refine ⟨?_, (Nat.length_toDigits_le_iff (by decide) some).1 le_rfl⟩
  rcases Nat.eq_zero_or_pos ((digits n).length - 1) with one | more
  · rw [one]
    exact positive
  · by_contra less
    have short := (Nat.length_toDigits_le_iff (by decide) more).2 (Nat.lt_of_not_le less)
    change (digits n).length ≤ _ at short
    omega

/-- A number that is not zero does not start with a zero. -/
theorem head_digits {n : ℕ} (positive : 0 < n) : (digits n).head? ≠ some '0' := by
  induction n using Nat.strongRecOn with
  | _ n ih =>
    have last : ∀ d : Fin 10, 0 < d.val → d.val.digitChar ≠ '0' := by decide
    rw [digits, Nat.toDigits_eq_if (by decide)]
    split
    · rename_i less
      rw [List.head?_cons, ne_eq, Option.some_inj]
      exact last ⟨n, less⟩ positive
    · rename_i more
      have first := ih (n / 10) (Nat.div_lt_self positive (by decide)) (by omega)
      obtain ⟨c, cs, same⟩ := List.exists_cons_of_ne_nil (digits_ne_nil (n / 10))
      rw [same] at first
      rw [digits] at same
      rw [same]
      exact first

end KpiReport.Decimal
