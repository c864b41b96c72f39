import KpiReport.Filter.Basic

/-!
# Filters that are the same

Conditions are compared with each other when tokens are put together. Numbers that compare as equal
need not be identical, since there are two zeros; but nothing that a condition asks tells them
apart. So filters that are the same match the same records (`Filter.matches_of_same`).
-/

namespace KpiReport

/-! ## Numbers -/

section Numbers

open Float.Model (UnpackedFloat)
open Float.Model.UnpackedFloat (Sign)

theorem eq_of_compare_then {e₁ e₂ : Int} {m₁ m₂ : Nat}
    (h : (compare e₁ e₂).then (compare m₁ m₂) = .eq) : e₁ = e₂ ∧ m₁ = m₂ := by
  obtain ⟨exponents, mantissas⟩ := Ordering.then_eq_eq.1 h
  exact ⟨Std.LawfulEqCmp.eq_of_compare exponents, Std.LawfulEqCmp.eq_of_compare mantissas⟩

theorem eq_or_zero_of_compare {x y : UnpackedFloat} (h : x.compare y = some .eq) :
    x = y ∨ ∃ s t, x = .zero s ∧ y = .zero t := by
  rcases x with ⟨_ | _⟩ | _ | s | ⟨⟨_ | _⟩, m₁, e₁, p₁⟩ <;>
    rcases y with ⟨_ | _⟩ | _ | t | ⟨⟨_ | _⟩, m₂, e₂, p₂⟩ <;>
    first
    | exact .inl rfl
    | exact .inr ⟨_, _, rfl, rfl⟩
    | cases h
    | obtain ⟨rfl, rfl⟩ := eq_of_compare_then (Option.some.inj h)
      exact .inl rfl
    | obtain ⟨rfl, rfl⟩ := eq_of_compare_then (Ordering.swap_eq_eq.1 (Option.some.inj h))
      exact .inl rfl

theorem compare_zero_left (s t : Sign) (z : UnpackedFloat) :
    (UnpackedFloat.zero s).compare z = (UnpackedFloat.zero t).compare z := by
  rcases z with ⟨_ | _⟩ | _ | _ | ⟨⟨_ | _⟩, _, _, _⟩ <;> rfl

theorem compare_zero_right (s t : Sign) (z : UnpackedFloat) :
    z.compare (.zero s) = z.compare (.zero t) := by
  rcases z with ⟨_ | _⟩ | _ | _ | ⟨⟨_ | _⟩, _, _, _⟩ <;> rfl

/-- No comparison tells numbers apart that compare as equal. -/
theorem compare_of_compare_eq {x y : UnpackedFloat} (h : x.compare y = some .eq)
    (z : UnpackedFloat) : z.compare x = z.compare y ∧ x.compare z = y.compare z := by
  obtain rfl | ⟨s, t, rfl, rfl⟩ := eq_or_zero_of_compare h
  · exact ⟨rfl, rfl⟩
  · exact ⟨compare_zero_right s t z, compare_zero_left s t z⟩

variable {x y : Float}

theorem lt_iff_compare : x < y ↔ x.toModel.unpack.compare y.toModel.unpack = some .lt := by
  have same : x < y ↔ (x.toModel.unpack.compare y.toModel.unpack == some .lt) = true :=
    decide_eq_true_iff
  rw [same, beq_iff_eq]

theorem compare_of_beq (h : (x == y) = true) :
    x.toModel.unpack.compare y.toModel.unpack = some .eq := by
  have same : (x.toModel.unpack.compare y.toModel.unpack == some .eq) = true := h
  simpa using same

theorem beq_of_beq (h : (x == y) = true) (z : Float) : (z == x) = (z == y) := by
  have same := (compare_of_compare_eq (compare_of_beq h) z.toModel.unpack).1
  change (z.toModel.unpack.compare x.toModel.unpack == some .eq) =
    (z.toModel.unpack.compare y.toModel.unpack == some .eq)
  rw [same]

theorem floatOrder?_of_beq (h : (x == y) = true) (z : Float) :
    Value.floatOrder? z x = Value.floatOrder? z y := by
  obtain ⟨left, right⟩ := compare_of_compare_eq (compare_of_beq h) z.toModel.unpack
  have lt : z < x ↔ z < y := by
    rw [lt_iff_compare, lt_iff_compare, left]
  have gt : x < z ↔ y < z := by
    rw [lt_iff_compare, lt_iff_compare, right]
  simp only [Value.floatOrder?, lt, gt, beq_of_beq h z]

end Numbers

/-! ## Values -/

namespace FieldValue

/-- Values that are the same are identical, or two numbers, or two lists. -/
theorem cases_of_same {a b : FieldValue} (h : a.same b = true) :
    a = b ∨ (∃ x y, a = number x ∧ b = number y ∧ (x == y) = true) ∨
      ∃ xs ys, a = list xs ∧ b = list ys ∧ sameItems xs ys = true := by
  cases a <;> cases b <;> simp_all [same]

mutual

theorem same_of_same {a b : FieldValue} (h : a.same b = true) (c : FieldValue) :
    c.same a = c.same b := by
  obtain rfl | ⟨x, y, rfl, rfl, equal⟩ | ⟨xs, ys, rfl, rfl, items⟩ := cases_of_same h
  · rfl
  · cases c <;> simp [same, beq_of_beq equal]
  · cases c with
    | list zs => exact sameItems_of_sameItems items zs
    | _ => rfl

theorem sameItems_of_sameItems {xs ys : List FieldValue} (h : sameItems xs ys = true)
    (zs : List FieldValue) : sameItems zs xs = sameItems zs ys := by
  cases xs with
  | nil =>
    cases ys with
    | nil => rfl
    | cons y ys => cases h
  | cons x xs =>
    cases ys with
    | nil => cases h
    | cons y ys =>
      rw [sameItems, Bool.and_eq_true] at h
      cases zs with
      | nil => rfl
      | cons z zs => rw [sameItems, sameItems, same_of_same h.1, sameItems_of_sameItems h.2]

end

/-- No order tells values apart that are the same. -/
theorem order?_of_same {a b : FieldValue} (h : a.same b = true) (c : FieldValue) :
    c.order? a = c.order? b := by
  obtain rfl | ⟨x, y, rfl, rfl, equal⟩ | ⟨xs, ys, rfl, rfl, items⟩ := cases_of_same h
  · rfl
  · cases c with
    | number z => exact floatOrder?_of_beq equal z
    | _ => rfl
  · cases c <;> rfl

theorem equals_of_same {a b : FieldValue} (h : a.same b = true) (c : FieldValue) :
    c.equals a = c.equals b := by
  have order := order?_of_same h c
  obtain rfl | ⟨x, y, rfl, rfl, equal⟩ | ⟨xs, ys, rfl, rfl, items⟩ := cases_of_same h
  · rfl
  · cases c <;> simp only [equals, order]
  · cases c with
    | list zs => exact sameItems_of_sameItems items zs
    | _ => rfl

theorem any_equals_of_sameItems {xs ys : List FieldValue} (h : sameItems xs ys = true)
    (c : FieldValue) : xs.any c.equals = ys.any c.equals := by
  induction xs generalizing ys with
  | nil =>
    cases ys with
    | nil => rfl
    | cons y ys => cases h
  | cons x xs ih =>
    cases ys with
    | nil => cases h
    | cons y ys =>
      rw [sameItems, Bool.and_eq_true] at h
      rw [List.any_cons, List.any_cons, equals_of_same h.1, ih h.2]

end FieldValue

/-! ## Conditions -/

theorem FilterOp.holds_of_same (op : FilterOp) (actual : FieldValue) {a b : FieldValue}
    (h : a.same b = true) : op.holds actual a = op.holds actual b := by
  have equals := FieldValue.equals_of_same h actual
  have order := FieldValue.order?_of_same h actual
  have member : isMember actual a = isMember actual b := by
    obtain rfl | ⟨x, y, rfl, rfl, -⟩ | ⟨xs, ys, rfl, rfl, items⟩ := FieldValue.cases_of_same h
    · rfl
    · exact equals
    · exact FieldValue.any_equals_of_sameItems items actual
  cases op <;> simp only [holds, equals, order, member]

mutual

theorem Condition.matches_of_same (record : String → FieldValue) {a b : Condition}
    (h : a.same b = true) : a.matches record = b.matches record := by
  cases a with
  | field m p v =>
    cases b with
    | field n q w =>
      simp only [Condition.same, Bool.and_eq_true, beq_iff_eq] at h
      obtain ⟨⟨rfl, rfl⟩, same⟩ := h
      exact p.holds_of_same (record m) same
    | any ys => cases h
  | any xs =>
    cases b with
    | field n q w => cases h
    | any ys => exact Filter.anyMatches_of_same record h

/-- **Filters that are the same match the same records.** -/
theorem Filter.matches_of_same (record : String → FieldValue) {xs ys : List Condition}
    (h : Filter.same xs ys = true) : Filter.matches record xs = Filter.matches record ys := by
  cases xs with
  | nil =>
    cases ys with
    | nil => rfl
    | cons y ys => cases h
  | cons x xs =>
    cases ys with
    | nil => cases h
    | cons y ys =>
      rw [Filter.same, Bool.and_eq_true] at h
      rw [Filter.matches, Filter.matches, Condition.matches_of_same record h.1,
        Filter.matches_of_same record h.2]

theorem Filter.anyMatches_of_same (record : String → FieldValue) {xs ys : List (List Condition)}
    (h : Filter.sameAlternatives xs ys = true) :
    Filter.anyMatches record xs = Filter.anyMatches record ys := by
  cases xs with
  | nil =>
    cases ys with
    | nil => rfl
    | cons y ys => cases h
  | cons x xs =>
    cases ys with
    | nil => cases h
    | cons y ys =>
      rw [Filter.sameAlternatives, Bool.and_eq_true] at h
      rw [Filter.anyMatches, Filter.anyMatches, Filter.matches_of_same record h.1,
        Filter.anyMatches_of_same record h.2]

end

end KpiReport
