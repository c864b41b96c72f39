import KpiReport.Proofs.Filter.Same
import Mathlib.Logic.ExistsUnique

/-!
# The order of field values

Conditions compare values of seven kinds, and a date with a point in time as well. Not all pairs
have an order, but where there is one it is the same from both sides, and it can be chained,
whatever the kinds are (`Consistent`). The main statement, `FieldValue.order?_consistent`, adds what
this means for conditions: the comparisons of a field with a value exclude and complete each other
(`Condition.Coherent`).
-/

namespace KpiReport

/-! ## Consistent comparisons -/

/-- A comparison that need not be defined for all pairs, but orders those for which it is. -/
structure Consistent {α : Type} (order? : α → α → Option Ordering) : Prop where
  /-- The comparison reads the same from both sides. -/
  swap : ∀ a b, order? b a = (order? a b).map Ordering.swap
  /-- Comparisons of which none is greater can be chained. -/
  chain : ∀ {a b c x y}, order? a b = some x → order? b c = some y → x ≠ .gt → y ≠ .gt →
    ∃ z, order? a c = some z ∧ z ≠ .gt ∧ (x = .lt ∨ y = .lt → z = .lt)

/-- A total comparison is consistent where it is defined for the pairs of some values. -/
theorem consistent_of_cmp {α : Type} (cmp : α → α → Ordering) [Std.TransCmp cmp]
    (known : α → Bool) :
    Consistent fun a b => if known a && known b then some (cmp a b) else none where
  swap := by
    intro a b
    have reversed : cmp b a = (cmp a b).swap := Std.OrientedCmp.eq_swap
    rw [Bool.and_comm, reversed]
    split <;> rfl
  chain := by
    intro a b c x y first second le le'
    obtain ⟨⟨left, middle⟩, rfl⟩ : (known a = true ∧ known b = true) ∧ cmp a b = x := by
      simpa using first
    obtain ⟨⟨-, right⟩, rfl⟩ : (known b = true ∧ known c = true) ∧ cmp b c = y := by
      simpa using second
    have low : (cmp a b).isLE = true := Ordering.isLE_iff_ne_gt.2 le
    have low' : (cmp b c).isLE = true := Ordering.isLE_iff_ne_gt.2 le'
    refine ⟨cmp a c, by simp [left, right], ?_, ?_⟩
    · exact Ordering.isLE_iff_ne_gt.1 (Std.TransCmp.isLE_trans low low')
    · rintro (less | less)
      · exact Std.TransCmp.lt_of_lt_of_isLE less low'
      · exact Std.TransCmp.lt_of_isLE_of_lt low less

theorem consistent_compare {α : Type} [Ord α] [Std.TransOrd α] :
    Consistent fun a b : α => some (compare a b) := by
  simpa using consistent_of_cmp (compare (α := α)) fun _ => true

/-! ## Numbers -/

section Numbers

open Float.Model (UnpackedFloat)
open Float.Model.UnpackedFloat (Sign)

/-- Where a number stands: below the finite numbers, among the negative ones, at zero, among the
positive ones, or above them. -/
def numberRank : UnpackedFloat → Int
  | .infinity .negative => -2
  | .finite .negative .. => -1
  | .finite .positive .. => 1
  | .infinity .positive => 2
  | _ => 0

/-- The exponent of a finite number, counted downwards where the number is negative. -/
def signedExponent : UnpackedFloat → Int
  | .finite .negative _ e _ => -e
  | .finite .positive _ e _ => e
  | _ => 0

/-- The mantissa of a finite number, counted downwards where the number is negative. -/
def signedMantissa : UnpackedFloat → Int
  | .finite .negative m _ _ => -m
  | .finite .positive m _ _ => m
  | _ => 0

/-- Numbers are compared by where they stand, then by exponent, then by mantissa. -/
def compareNumbers : UnpackedFloat → UnpackedFloat → Ordering :=
  compareLex (compareOn numberRank)
    (compareLex (compareOn signedExponent) (compareOn signedMantissa))

instance : Std.TransCmp compareNumbers := by
  unfold compareNumbers
  infer_instance

theorem compare_neg_neg (a b : Int) : compare (-a) (-b) = (compare a b).swap := by
  rw [← Std.OrientedCmp.eq_swap]
  simp only [compare, compareOfLessAndEq]
  grind

theorem compare_natCast (m n : Nat) : compare (m : Int) (n : Int) = compare m n := by
  simp only [compare, compareOfLessAndEq]
  grind

section Finite

variable {m n : Nat} {e f : Int} (p : 0 < m) (q : 0 < n)

theorem compareNumbers_positive :
    compareNumbers (.finite .positive m e p) (.finite .positive n f q) =
      (compare e f).then (compare m n) := by
  change (compare (1 : Int) 1).then ((compare e f).then (compare (m : Int) n)) = _
  rw [compare_natCast]
  rfl

theorem compareNumbers_negative :
    compareNumbers (.finite .negative m e p) (.finite .negative n f q) =
      ((compare e f).then (compare m n)).swap := by
  change (compare (-1 : Int) (-1)).then ((compare (-e) (-f)).then (compare (-(m : Int)) (-n))) = _
  rw [compare_neg_neg e f, compare_neg_neg m n, compare_natCast, Ordering.swap_then]
  rfl

end Finite

theorem unpacked_compare_eq (x y : UnpackedFloat) :
    x.compare y = if !x.isNaN && !y.isNaN then some (compareNumbers x y) else none := by
  rcases x with ⟨_ | _⟩ | _ | _ | ⟨⟨_ | _⟩, m, e, _⟩ <;>
    rcases y with ⟨_ | _⟩ | _ | _ | ⟨⟨_ | _⟩, n, f, _⟩ <;>
    first
    | rfl
    | exact congrArg some (compareNumbers_positive _ _).symm
    | exact congrArg some (compareNumbers_negative _ _).symm

theorem consistent_compare_unpacked : Consistent UnpackedFloat.compare := by
  have same : UnpackedFloat.compare = fun x y =>
      if !x.isNaN && !y.isNaN then some (compareNumbers x y) else none := by
    funext x y
    exact unpacked_compare_eq x y
  rw [same]
  exact consistent_of_cmp compareNumbers fun x => !x.isNaN

variable (x y : Float)

theorem beq_iff_compare :
    (x == y) = true ↔ x.toModel.unpack.compare y.toModel.unpack = some .eq := by
  refine ⟨compare_of_beq, fun same => ?_⟩
  change (x.toModel.unpack.compare y.toModel.unpack == some .eq) = true
  rw [same]
  rfl

theorem floatOrder?_eq :
    Value.floatOrder? x y = x.toModel.unpack.compare y.toModel.unpack := by
  have back := consistent_compare_unpacked.swap x.toModel.unpack y.toModel.unpack
  simp only [Value.floatOrder?, lt_iff_compare, beq_iff_compare, back]
  rcases x.toModel.unpack.compare y.toModel.unpack with _ | _ | _ | _ <;> rfl

theorem consistent_floatOrder? : Consistent Value.floatOrder? where
  swap := by
    intro x y
    rw [floatOrder?_eq, floatOrder?_eq]
    exact consistent_compare_unpacked.swap _ _
  chain := by
    intro x y z a b first second le le'
    rw [floatOrder?_eq] at first second ⊢
    exact consistent_compare_unpacked.chain first second le le'

theorem isSome_floatOrder?_iff :
    (Value.floatOrder? x y).isSome = true ↔ x.isNaN = false ∧ y.isNaN = false := by
  rw [floatOrder?_eq, unpacked_compare_eq]
  change _ ↔ x.toModel.unpack.isNaN = false ∧ y.toModel.unpack.isNaN = false
  split <;> simp_all

end Numbers

/-! ## Values -/

namespace FieldValue

/-- Two values have an order: they are of one kind, or a date and a point in time. -/
inductive Compared : FieldValue → FieldValue → Ordering → Prop where
  | null : Compared null null .eq
  | bool (p q : Bool) : Compared (bool p) (bool q) (boolOrder p q)
  | number {x y : Float} {order : Ordering} (known : Value.floatOrder? x y = some order) :
    Compared (number x) (number y) order
  | text (s t : String) : Compared (text s) (text t) (Value.textOrder s t)
  | instant {a b : FieldValue} {m n : Int} (left : a.instant? = some m)
    (right : b.instant? = some n) : Compared a b (intOrder m n)

theorem exists_of_instant? {a : FieldValue} {m : Int} (h : a.instant? = some m) :
    (∃ d, a = date d) ∨ ∃ t, a = dateTime t := by
  cases a with
  | date d => exact .inl ⟨d, rfl⟩
  | dateTime t => exact .inr ⟨t, rfl⟩
  | _ => cases h

theorem order?_of_instant? {a b : FieldValue} {m n : Int} (left : a.instant? = some m)
    (right : b.instant? = some n) : a.order? b = some (intOrder m n) := by
  rcases exists_of_instant? left with ⟨d, rfl⟩ | ⟨t, rfl⟩ <;>
    rcases exists_of_instant? right with ⟨e, rfl⟩ | ⟨u, rfl⟩ <;>
    cases left <;> cases right <;> rfl

theorem order?_eq_some_iff {a b : FieldValue} {order : Ordering} :
    a.order? b = some order ↔ Compared a b order := by
  constructor
  · intro known
    cases a with
    | null =>
      cases b with
      | null =>
        cases known
        exact .null
      | _ => cases known
    | bool p =>
      cases b with
      | bool q =>
        cases known
        exact .bool p q
      | _ => cases known
    | number x =>
      cases b with
      | number y => exact .number known
      | _ => cases known
    | text s =>
      cases b with
      | text t =>
        cases known
        exact .text s t
      | _ => cases known
    | date d =>
      cases b with
      | date _ | dateTime _ =>
        cases known
        exact .instant rfl rfl
      | _ => cases known
    | dateTime t =>
      cases b with
      | date _ | dateTime _ =>
        cases known
        exact .instant rfl rfl
      | _ => cases known
    | list items => cases b <;> cases known
  · rintro (_ | _ | known | _ | ⟨left, right⟩)
    · rfl
    · rfl
    · exact known
    · rfl
    · exact order?_of_instant? left right

theorem boolOrder_eq (p q : Bool) : boolOrder p q = compare p q := by
  cases p <;> cases q <;> rfl

/-- A comparison of values from the other side. -/
theorem Compared.swap {a b : FieldValue} {order : Ordering} (h : Compared a b order) :
    Compared b a order.swap := by
  cases h with
  | null => exact .null
  | bool p q =>
    rw [boolOrder_eq, ← Std.OrientedCmp.eq_swap, ← boolOrder_eq]
    exact .bool q p
  | @number x y order known =>
    refine .number ?_
    rw [consistent_floatOrder?.swap x y, known]
    rfl
  | text s t =>
    change Compared (.text t) (.text s) (compare s t).swap
    rw [← Std.OrientedCmp.eq_swap]
    exact .text t s
  | @instant _ _ m n left right =>
    change Compared b a (compare m n).swap
    rw [← Std.OrientedCmp.eq_swap]
    exact .instant right left

theorem order?_swap (a b : FieldValue) : b.order? a = (a.order? b).map Ordering.swap := by
  cases known : a.order? b with
  | some order => exact order?_eq_some_iff.2 (order?_eq_some_iff.1 known).swap
  | none =>
    cases known' : b.order? a with
    | none => rfl
    | some order =>
      have back := order?_eq_some_iff.2 (order?_eq_some_iff.1 known').swap
      rw [known] at back
      cases back

theorem consistent_order? : Consistent order? where
  swap := order?_swap
  chain := by
    intro a b c x y first second le le'
    -- The kind of the value in the middle is that of both others.
    cases order?_eq_some_iff.1 first with
    | null =>
      cases order?_eq_some_iff.1 second with
      | null => exact ⟨.eq, rfl, le, by simp⟩
      | instant left _ => cases left
    | bool p q =>
      cases order?_eq_some_iff.1 second with
      | bool _ r =>
        rw [boolOrder_eq] at le le' ⊢
        change ∃ z, some (boolOrder p r) = some z ∧ _
        rw [boolOrder_eq]
        exact consistent_compare.chain (a := p) (b := q) (c := r) rfl rfl le le'
      | instant left _ => cases left
    | number known =>
      cases order?_eq_some_iff.1 second with
      | number known' => exact consistent_floatOrder?.chain known known' le le'
      | instant left _ => cases left
    | text s t =>
      cases order?_eq_some_iff.1 second with
      | text _ u => exact consistent_compare.chain (a := s) (b := t) (c := u) rfl rfl le le'
      | instant left _ => cases left
    | @instant _ _ m n left right =>
      cases order?_eq_some_iff.1 second with
      | null | bool | number | text => cases right
      | @instant _ _ n' r left' right' =>
        obtain rfl : n' = n := Option.some.inj (left'.symm.trans right)
        rw [order?_of_instant? left right']
        exact consistent_compare.chain (a := m) (b := n') (c := r) rfl rfl le le'

theorem equals_eq {a b : FieldValue} (single : ∀ items, b ≠ list items) :
    a.equals b = (a.order? b == some .eq) := by
  unfold equals
  split
  · rename_i items
    exact absurd rfl (single items)
  · rfl

end FieldValue

/-! ## Conditions -/

/-- What the comparisons of a field with a value say of a record, taken together. -/
structure Condition.Coherent (record : String → FieldValue) (name : String) (value : FieldValue) :
    Prop where
  /-- Of values with an order one of three conditions holds. -/
  one : ((record name).order? value).isSome = true →
    ∃! op, op ∈ [FilterOp.lt, .eq, .gt] ∧ (Condition.field name op value).matches record = true
  /-- Of values without an order none of them holds. -/
  none : (record name).order? value = none →
    ∀ op ∈ [FilterOp.lt, .eq, .gt], (Condition.field name op value).matches record = false
  le : (Condition.field name .le value).matches record = true ↔
    (Condition.field name .lt value).matches record = true ∨
      (Condition.field name .eq value).matches record = true
  ge : (Condition.field name .ge value).matches record = true ↔
    (Condition.field name .gt value).matches record = true ∨
      (Condition.field name .eq value).matches record = true

theorem Condition.coherent (record : String → FieldValue) (name : String) {value : FieldValue}
    (single : ∀ items, value ≠ .list items) : Coherent record name value := by
  have lt : (field name .lt value).matches record = true ↔
      (record name).order? value = some .lt := beq_iff_eq
  have gt : (field name .gt value).matches record = true ↔
      (record name).order? value = some .gt := beq_iff_eq
  have eq : (field name .eq value).matches record = true ↔
      (record name).order? value = some .eq := by
    change (record name).equals value = true ↔ _
    rw [FieldValue.equals_eq single, beq_iff_eq]
  have le : (field name .le value).matches record = true ↔
      (record name).order? value = some .lt ∨ (record name).order? value = some .eq := by
    change (_ || _) = true ↔ _
    rw [Bool.or_eq_true, beq_iff_eq, beq_iff_eq]
  have ge : (field name .ge value).matches record = true ↔
      (record name).order? value = some .gt ∨ (record name).order? value = some .eq := by
    change (_ || _) = true ↔ _
    rw [Bool.or_eq_true, beq_iff_eq, beq_iff_eq]
  refine ⟨fun known => ?_, fun unknown => ?_, ?_, ?_⟩
  · obtain ⟨order, known⟩ := Option.isSome_iff_exists.1 known
    rw [known] at lt gt eq
    cases order with
    | lt => exact ⟨.lt, by simp [lt], by simp [gt, eq]⟩
    | eq => exact ⟨.eq, by simp [eq], by simp [lt, gt]⟩
    | gt => exact ⟨.gt, by simp [gt], by simp [lt, eq]⟩
  · rw [unknown] at lt gt eq
    simp [← Bool.not_eq_true, lt, gt, eq]
  · rw [le, lt, eq]
  · rw [ge, gt, eq]

namespace FieldValue

/-- **The order of field values is consistent across kinds**, all numbers but those that are no
number are in it, and the comparisons in conditions agree with it. The negated ones negate, also for
lists. -/
theorem order?_consistent :
    Consistent order? ∧
      (∀ x y : Float, ((number x).order? (number y)).isSome = true ↔
        x.isNaN = false ∧ y.isNaN = false) ∧
      ∀ (record : String → FieldValue) (name : String) (value : FieldValue),
        ((∀ items, value ≠ list items) → Condition.Coherent record name value) ∧
        (Condition.field name .ne value).matches record =
          !(Condition.field name .eq value).matches record ∧
        (Condition.field name .notMemberOf value).matches record =
          !(Condition.field name .memberOf value).matches record :=
  ⟨consistent_order?, isSome_floatOrder?_iff,
    fun record name _ => ⟨Condition.coherent record name, rfl, rfl⟩⟩

/-! ## An evening, the next day and its start -/

namespace Evening

open Calendar

def nextDay : Date := ⟨401, by decide, by decide⟩

/-- Half past ten in the evening before. -/
def late : DateTime := ⟨⟨400, by decide, by decide⟩, 81000, 0, by decide, by decide⟩

def record : Record := [("at", .dateTime late)]

end Evening

/-- The evening comes before the day, and so before the start of the day; of the comparisons of the
evening with the day only "less" holds. -/
theorem order?_consistent_evening :
    (dateTime Evening.late).order? (date Evening.nextDay) = some .lt ∧
      (date Evening.nextDay).order? (dateTime Evening.nextDay.midnight) = some .eq ∧
      (dateTime Evening.late).order? (dateTime Evening.nextDay.midnight) = some .lt ∧
      (∀ items, date Evening.nextDay ≠ list items) ∧
      (Condition.field "at" .lt (date Evening.nextDay)).matches Evening.record.field = true ∧
      (Condition.field "at" .eq (date Evening.nextDay)).matches Evening.record.field = false := by
  obtain ⟨consistent, -, coherent⟩ := order?_consistent
  have before : (dateTime Evening.late).order? (date Evening.nextDay) = some .lt := by decide
  have same : (date Evening.nextDay).order? (dateTime Evening.nextDay.midnight) = some .eq := by
    decide
  obtain ⟨order, known, -, least⟩ := consistent.chain before same nofun nofun
  rw [least (.inl rfl)] at known
  have day : ∀ items, date Evening.nextDay ≠ list items := fun _ => FieldValue.noConfusion
  have conditions := (coherent Evening.record.field "at" (date Evening.nextDay)).1 day
  obtain ⟨op, -, only⟩ := conditions.one (Option.isSome_of_eq_some before)
  have less : (Condition.field "at" .lt (date Evening.nextDay)).matches Evening.record.field =
      true := rfl
  refine ⟨before, same, known, day, less, ?_⟩
  rw [← Bool.not_eq_true]
  intro equal
  have both := (only .lt ⟨by simp, less⟩).trans (only .eq ⟨by simp, equal⟩).symm
  cases both

end FieldValue

end KpiReport
