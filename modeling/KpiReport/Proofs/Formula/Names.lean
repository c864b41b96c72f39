import KpiReport.Formula.Eval

/-!
# The names that an expression reads

`Expr.names` lists the names of an expression. What the expression gives depends on them only, and
more bindings change it in one way only: a failure for want of a name may go away
(`Expr.eval_persists`). Every other outcome, of whatever kind, stays as it is when a scope grows
(`Expr.eval_of_le`).
-/

namespace KpiReport

namespace Expr

mutual

/-- The names that an expression reads; attributes and functions are not among them. -/
def names : Expr → List String
  | number _ => []
  | text _ => []
  | bool _ => []
  | noData => []
  | name s => [s]
  | member base _ => names base
  | call _ args => namesAll args
  | list items => namesAll items
  | negate operand => names operand
  | not operand => names operand
  | binary _ left right => names left ++ names right
  | compare _ left right => names left ++ names right
  | and left right => names left ++ names right
  | or left right => names left ++ names right
  | conditional condition body otherwise => names condition ++ (names body ++ names otherwise)

/-- The names that some expressions read. -/
def namesAll : List Expr → List String
  | [] => []
  | e :: es => names e ++ namesAll es

end

end Expr

/-! ## Outcomes that persist -/

/-- The new outcome is the old one, unless the old one is a failure for want of a name that was
gained. -/
def Persists {α : Type} (gained : String → Prop) (old new : Except EvalError α) : Prop :=
  new = old ∨ ∃ x, gained x ∧ old = .error (.undefinedName x)

namespace Persists

variable {α β : Type} {gained : String → Prop} {old new : Except EvalError α}

theorem refl (outcome : Except EvalError α) : Persists gained outcome outcome :=
  Or.inl rfl

theorem bind (first : Persists gained old new) {f g : α → Except EvalError β}
    (rest : ∀ a, old = .ok a → Persists gained (f a) (g a)) :
    Persists gained (old.bind f) (new.bind g) := by
  rcases first with rfl | ⟨x, known, rfl⟩
  · cases new with
    | error e => exact refl _
    | ok a => exact rest a rfl
  · exact Or.inr ⟨x, known, rfl⟩

theorem map (first : Persists gained old new) (f : α → β) :
    Persists gained (old.map f) (new.map f) := by
  rcases first with rfl | ⟨x, known, rfl⟩
  · exact refl _
  · exact Or.inr ⟨x, known, rfl⟩

theorem eq_of_isOk (h : Persists gained old new) (defined : ∀ x, old ≠ .error (.undefinedName x)) :
    new = old := by
  rcases h with same | ⟨x, -, failed⟩
  · exact same
  · exact absurd failed (defined x)

end Persists

/-! ## Evaluation as a sequence

An expression is evaluated by evaluating one part after the other. -/

namespace Expr

variable (scope : Scope)

theorem eval_member (base : Expr) (attr : String) :
    (member base attr).eval scope = (base.eval scope).bind fun value => value.member attr := by
  rw [eval]
  cases base.eval scope <;> rfl

theorem eval_negate (operand : Expr) :
    (negate operand).eval scope = (operand.eval scope).bind Value.negate := by
  rw [eval]
  cases operand.eval scope <;> rfl

theorem eval_binary (op : BinaryOp) (left right : Expr) :
    (binary op left right).eval scope =
      (left.eval scope).bind fun a => (right.eval scope).bind fun b => Value.arithmetic op a b := by
  rw [eval]
  cases left.eval scope with
  | error e => rfl
  | ok a => cases right.eval scope <;> rfl

theorem eval_compare (op : CompareOp) (left right : Expr) :
    (compare op left right).eval scope =
      (left.eval scope).bind fun a => (right.eval scope).bind fun b => Value.compare op a b := by
  rw [eval]
  cases left.eval scope with
  | error e => rfl
  | ok a => cases right.eval scope <;> rfl

theorem eval_and (left right : Expr) :
    (and left right).eval scope =
      (left.eval scope).bind fun a => if a.truthy then right.eval scope else .ok a := by
  rw [eval]
  cases left.eval scope <;> rfl

theorem eval_or (left right : Expr) :
    (or left right).eval scope =
      (left.eval scope).bind fun a => if a.truthy then .ok a else right.eval scope := by
  rw [eval]
  cases left.eval scope <;> rfl

theorem eval_conditional (condition body otherwise : Expr) :
    (conditional condition body otherwise).eval scope =
      (condition.eval scope).bind fun c =>
        if c.truthy then body.eval scope else otherwise.eval scope := by
  rw [eval]
  cases condition.eval scope <;> rfl

theorem evalAll_cons (e : Expr) (es : List Expr) :
    evalAll scope (e :: es) =
      (e.eval scope).bind fun value => (evalAll scope es).map (value :: ·) := by
  rw [evalAll]
  cases e.eval scope <;> rfl

end Expr

/-! ## Growing scopes -/

/-- The names that are unbound in the scope `S` and bound in the scope `F`. -/
def Scope.Gains (S F : Scope) (x : String) : Prop :=
  S.get? x = none ∧ F.get? x ≠ none

namespace Expr

variable {S F : Scope} {P : String → Prop}

mutual

/-- If, of the names with the property `P`, the scope `F` keeps every binding of `S`, then an
expression over such names gives in `F` what it gives in `S`, unless it wants a name that `F`
gains. -/
theorem eval_persists (keeps : ∀ x, P x → ∀ value, S.get? x = some value → F.get? x = some value) :
    ∀ e : Expr, (∀ x ∈ e.names, P x) →
      Persists (fun x => P x ∧ S.Gains F x) (e.eval S) (e.eval F)
  | number x, _ => Persists.refl _
  | text s, _ => Persists.refl _
  | bool b, _ => Persists.refl _
  | noData, _ => Persists.refl _
  | name s, within => by
    have read : P s := within s (by simp [names])
    simp only [eval]
    cases old : S.get? s with
    | some value =>
      rw [keeps s read value old]
      exact Persists.refl _
    | none =>
      cases new : F.get? s with
      | none => exact Persists.refl _
      | some value => exact Or.inr ⟨s, ⟨read, old, by simp [new]⟩, rfl⟩
  | member base attr, within => by
    rw [eval_member, eval_member]
    exact (eval_persists keeps base within).bind fun value _ => Persists.refl _
  | call function args, within => by
    simp only [eval]
    cases Builtin.ofName? function with
    | none => exact Persists.refl _
    | some builtin =>
      rcases evalAll_persists keeps args within with same | ⟨x, gained, failed⟩
      · rw [same]
        exact Persists.refl _
      · rw [failed]
        exact Or.inr ⟨x, gained, rfl⟩
  | list items, within => by
    simp only [eval]
    exact (evalAll_persists keeps items within).map _
  | negate operand, within => by
    rw [eval_negate, eval_negate]
    exact (eval_persists keeps operand within).bind fun value _ => Persists.refl _
  | not operand, within => by
    simp only [eval]
    exact (eval_persists keeps operand within).map _
  | binary op left right, within => by
    rw [names, List.forall_mem_append] at within
    rw [eval_binary, eval_binary]
    exact (eval_persists keeps left within.1).bind fun a _ =>
      (eval_persists keeps right within.2).bind fun b _ => Persists.refl _
  | compare op left right, within => by
    rw [names, List.forall_mem_append] at within
    rw [eval_compare, eval_compare]
    exact (eval_persists keeps left within.1).bind fun a _ =>
      (eval_persists keeps right within.2).bind fun b _ => Persists.refl _
  | and left right, within => by
    rw [names, List.forall_mem_append] at within
    rw [eval_and, eval_and]
    refine (eval_persists keeps left within.1).bind fun a _ => ?_
    split
    · exact eval_persists keeps right within.2
    · exact Persists.refl _
  | or left right, within => by
    rw [names, List.forall_mem_append] at within
    rw [eval_or, eval_or]
    refine (eval_persists keeps left within.1).bind fun a _ => ?_
    split
    · exact Persists.refl _
    · exact eval_persists keeps right within.2
  | conditional condition body otherwise, within => by
    rw [names, List.forall_mem_append, List.forall_mem_append] at within
    rw [eval_conditional, eval_conditional]
    refine (eval_persists keeps condition within.1).bind fun c _ => ?_
    split
    · exact eval_persists keeps body within.2.1
    · exact eval_persists keeps otherwise within.2.2

theorem evalAll_persists
    (keeps : ∀ x, P x → ∀ value, S.get? x = some value → F.get? x = some value) :
    ∀ es : List Expr, (∀ x ∈ namesAll es, P x) →
      Persists (fun x => P x ∧ S.Gains F x) (evalAll S es) (evalAll F es)
  | [], _ => Persists.refl _
  | e :: es, within => by
    rw [namesAll, List.forall_mem_append] at within
    rw [evalAll_cons, evalAll_cons]
    exact (eval_persists keeps e within.1).bind fun value _ =>
      (evalAll_persists keeps es within.2).map _

end

/-- An outcome other than the want of a name is the same in every larger scope. -/
theorem eval_of_le (h : S ≤ F) (e : Expr) (defined : ∀ x, e.eval S ≠ .error (.undefinedName x)) :
    e.eval F = e.eval S :=
  (eval_persists (P := fun _ => True) (fun x _ => h x) e fun _ _ => trivial).eq_of_isOk defined

/-- An expression gives the same in scopes that bind its names alike. -/
theorem eval_congr (e : Expr) (same : ∀ x ∈ e.names, F.get? x = S.get? x) :
    e.eval F = e.eval S := by
  rcases eval_persists (P := (· ∈ e.names)) (fun x read value bound => (same x read).trans bound) e
    fun _ read => read with h | ⟨x, ⟨read, unbound, gained⟩, -⟩
  · exact h
  · exact absurd ((same x read).trans unbound) gained

end Expr

end KpiReport
