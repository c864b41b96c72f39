import KpiReport.Proofs.Formula.Names
import KpiReport.Proofs.Results

/-!
# No data in arithmetic

No data is not a number: arithmetic with it gives no data or fails. The main statement,
`Expr.eval_eq_noData_iff`, says so for arithmetic of any depth: where a formula of numbers, texts,
names, signs and arithmetic operators has a value, that value is no data exactly if one of its names
is bound to no data.

Each operator has its own way to tell. A division and a remainder fail where the divisor is no data,
a text is joined to another text only, and every other operator passes no data on. What an operator
says about its operands is one lemma for all six (`Value.arithmetic_eq_noData_iff`).
-/

namespace KpiReport

namespace Value

/-! ## Operators -/

variable {op : BinaryOp} {a b c : Value}

theorem operand_eq_none_iff {x : Option Float} (h : operand op a = .ok x) :
    x = none ↔ a = noData := by
  cases a with
  | noData =>
    cases h
    exact iff_of_true rfl rfl
  | number _ | bool _ =>
    cases h
    exact iff_of_false nofun nofun
  | text _ | list _ | record _ => cases h

theorem ofFloat?_eq_noData_iff {x : Option Float} : ofFloat? x = noData ↔ x = none := by
  cases x with
  | none => exact iff_of_true rfl rfl
  | some _ => exact iff_of_false nofun nofun

/-- A division whose divisor is no data has no result, so only the dividend can be none. -/
theorem combine?_eq_noData_iff {x y : Option Float} (h : combine? op x y = .ok c) :
    c = noData ↔ x = none ∨ y = none := by
  cases y with
  | none =>
    cases op with
    | div | mod => cases h
    | add | sub | mul | pow =>
      cases x <;> cases h <;> exact iff_of_true rfl (.inr rfl)
  | some y =>
    rw [or_iff_left (Option.some_ne_none y)]
    cases op with
    | div | mod =>
      simp only [combine?] at h
      split at h
      · cases h
      · cases h
        rw [ofFloat?_eq_noData_iff, Option.map_eq_none_iff]
    | add | sub | mul | pow =>
      cases x with
      | none =>
        cases h
        exact iff_of_true rfl rfl
      | some x =>
        cases h
        exact iff_of_false nofun nofun

/-- An arithmetic operator gives no data exactly if one of its operands is no data. -/
theorem arithmetic_eq_noData_iff (h : arithmetic op a b = .ok c) :
    c = noData ↔ a = noData ∨ b = noData := by
  unfold arithmetic at h
  split at h
  · cases h
    exact iff_of_false nofun (by simp)
  · split at h
    · cases h
    · rename_i x left
      split at h
      · cases h
      · rename_i y right
        rw [combine?_eq_noData_iff h, operand_eq_none_iff left, operand_eq_none_iff right]

theorem negate_eq_noData_iff (h : a.negate = .ok c) : c = noData ↔ a = noData := by
  unfold negate at h
  split at h
  · cases h
    exact Iff.rfl
  · rename_i other
    refine iff_of_false ?_ other
    split at h <;> cases h
    nofun

end Value

namespace Expr

/-! ## Arithmetic of any depth -/

/-- The expression is built of numbers, texts and names by the sign and the arithmetic operators. -/
inductive IsArithmetic : Expr → Prop where
  | number (x : Float) : IsArithmetic (number x)
  | text (s : String) : IsArithmetic (text s)
  | name (s : String) : IsArithmetic (name s)
  | negate {operand : Expr} : IsArithmetic operand → IsArithmetic (negate operand)
  | binary (op : BinaryOp) {left right : Expr} :
    IsArithmetic left → IsArithmetic right → IsArithmetic (binary op left right)

/-- **No data is never taken for a number.** Where an arithmetic expression has a value, the value
is no data exactly if one of its names is bound to no data. -/
theorem eval_eq_noData_iff {e : Expr} (arithmetic : e.IsArithmetic) {scope : Scope} {value : Value}
    (evaluated : e.eval scope = .ok value) :
    value = .noData ↔ ∃ x ∈ e.names, scope.get? x = some .noData := by
  induction arithmetic generalizing value with
  | number x | text s =>
    cases evaluated
    exact iff_of_false nofun (by simp [names])
  | name s =>
    simp only [eval] at evaluated
    cases bound : scope.get? s with
    | none =>
      rw [bound] at evaluated
      cases evaluated
    | some found =>
      rw [bound] at evaluated
      cases evaluated
      simp [names, bound]
  | @negate operand _ ih =>
    rw [eval_negate] at evaluated
    obtain ⟨a, first, negated⟩ := bind_eq_ok.1 evaluated
    exact (Value.negate_eq_noData_iff negated).trans (ih first)
  | @binary op left right _ _ ihLeft ihRight =>
    rw [eval_binary] at evaluated
    obtain ⟨a, first, evaluated⟩ := bind_eq_ok.1 evaluated
    obtain ⟨b, second, combined⟩ := bind_eq_ok.1 evaluated
    rw [Value.arithmetic_eq_noData_iff combined, ihLeft first, ihRight second, names]
    simp only [List.mem_append, or_and_right, exists_or]

/-! ## Half of a loss -/

/-- The formula `-loss / 2`. -/
def halfLoss : Expr := .binary .div (.negate (.name "loss")) (.number 2)

theorem isArithmetic_halfLoss : halfLoss.IsArithmetic :=
  .binary .div (.negate (.name "loss")) (.number 2)

/-- Half of a loss of which nothing is known is not known, and half of a known one is. -/
theorem eval_eq_noData_halfLoss :
    (∃ value, halfLoss.eval ⟨[("loss", .noData)]⟩ = .ok value ∧ value = .noData) ∧
      ∃ value, halfLoss.eval ⟨[("loss", .number 0)]⟩ = .ok value ∧ value ≠ .noData := by
  have half (x : Option Float) : Value.combine? .div x (some 2) =
      .ok (Value.ofFloat? (x.map fun x => Value.combine .div x 2)) := by
    have divisor : ((2 : Float) == 0) = false := by decide +kernel
    simp only [Value.combine?, divisor, Bool.false_eq_true, if_false]
  have unknown : ∃ value, halfLoss.eval ⟨[("loss", .noData)]⟩ = .ok value := ⟨_, half none⟩
  have known : ∃ value, halfLoss.eval ⟨[("loss", .number 0)]⟩ = .ok value := ⟨_, half (some (-0))⟩
  obtain ⟨value, evaluated⟩ := unknown
  obtain ⟨value', evaluated'⟩ := known
  refine ⟨⟨value, evaluated, ?_⟩, value', evaluated', ?_⟩
  · exact (eval_eq_noData_iff isArithmetic_halfLoss evaluated).2
      ⟨"loss", List.mem_singleton.2 rfl, rfl⟩
  · rw [ne_eq, eval_eq_noData_iff isArithmetic_halfLoss evaluated']
    rintro ⟨x, read, bound⟩
    obtain rfl : x = "loss" := List.mem_singleton.1 read
    cases bound

end Expr

end KpiReport
