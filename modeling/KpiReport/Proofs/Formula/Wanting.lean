import KpiReport.Proofs.Formula.Names

/-!
# Failures for want of a name

A KPI is tried again when its formula failed for want of a name. The main statement,
`Expr.eval_settled`, says that this is right: no other outcome changes when more names become known,
and the name that is wanted is one that the formula reads and the scope does not bind.

Only the look-up of a name can want one. Attributes, operators and functions work on values that are
there, and whatever they fail for, it is no name (`Content`).
-/

namespace KpiReport

/-! ## What an outcome wants -/

/-- Whatever name the outcome wants has the property `P`. -/
def Wants {α : Type} (P : String → Prop) (outcome : Except EvalError α) : Prop :=
  ∀ x, outcome = .error (.undefinedName x) → P x

/-- The outcome wants no name. -/
abbrev Content {α : Type} (outcome : Except EvalError α) : Prop :=
  Wants (fun _ => False) outcome

namespace Wants

variable {α β : Type} {P : String → Prop} {outcome : Except EvalError α}

theorem ok (a : α) : Wants P (.ok a) :=
  fun _ failed => nomatch failed

theorem error {failure : EvalError} (other : ∀ x, failure ≠ .undefinedName x) :
    Wants P (.error failure : Except EvalError α) := by
  rintro x ⟨rfl⟩
  exact (other x rfl).elim

/-- What fails because something before it failed wants what that wanted. -/
theorem passedOn (first : Wants P outcome) {failure : EvalError}
    (failed : outcome = .error failure) :
    Wants P (.error failure : Except EvalError β) := by
  rintro x ⟨rfl⟩
  exact first x failed

theorem bind (first : Wants P outcome) {f : α → Except EvalError β}
    (rest : ∀ a, outcome = .ok a → Wants P (f a)) : Wants P (outcome.bind f) := by
  cases outcome with
  | error e => exact first.passedOn rfl
  | ok a => exact rest a rfl

theorem map (first : Wants P outcome) (f : α → β) : Wants P (outcome.map f) := by
  cases outcome with
  | error e => exact first.passedOn rfl
  | ok a => exact ok _

end Wants

theorem Content.wants {α : Type} {outcome : Except EvalError α} (h : Content outcome)
    (P : String → Prop) : Wants P outcome :=
  fun x failed => (h x failed).elim

/-! ## Attributes, operators and functions -/

namespace Value

mutual

theorem content_member (attr : String) : ∀ value : Value, Content (value.member attr)
  | noData => Wants.ok _
  | bool _ => Wants.error nofun
  | number _ => Wants.error nofun
  | text _ => Wants.error nofun
  | record fields => by
    rw [member]
    split
    · exact Wants.ok _
    · exact Wants.error nofun
  | list items => by
    rw [member]
    exact (content_itemMembers attr items).map _

theorem content_itemMembers (attr : String) : ∀ items : List Value, Content (itemMembers attr items)
  | [] => Wants.ok _
  | item :: items => by
    have first := content_member attr item
    rw [itemMembers]
    split
    · exact first.passedOn ‹_›
    · exact (content_itemMembers attr items).map _

end

theorem content_operand (op : BinaryOp) (value : Value) : Content (value.operand op) := by
  cases value with
  | noData | number _ | bool _ => exact Wants.ok _
  | text _ | list _ | record _ => exact Wants.error nofun

theorem content_combine? (op : BinaryOp) (a b : Option Float) : Content (combine? op a b) := by
  unfold combine?
  split
  · exact Wants.error nofun
  · exact Wants.error nofun
  all_goals try split
  all_goals first | exact Wants.ok _ | exact Wants.error nofun

theorem content_arithmetic (op : BinaryOp) (a b : Value) : Content (arithmetic op a b) := by
  unfold arithmetic
  split
  · exact Wants.ok _
  · have left := content_operand op a
    have right := content_operand op b
    split
    · exact left.passedOn ‹_›
    · split
      · exact right.passedOn ‹_›
      · exact content_combine? op _ _

theorem content_negate (value : Value) : Content value.negate := by
  unfold negate
  split
  · exact Wants.ok _
  · split
    · exact Wants.ok _
    · exact Wants.error nofun

theorem content_compare (op : CompareOp) (a b : Value) : Content (compare op a b) := by
  unfold compare
  split
  · exact Wants.ok _
  · exact Wants.ok _
  · split
    · exact Wants.ok _
    · split
      · exact Wants.ok _
      · exact Wants.error nofun

end Value

theorem Aggregate.content_numbers (aggregate : Aggregate) (values : List Value) :
    Content (aggregate.numbers values) := by
  induction values with
  | nil => exact Wants.ok _
  | cons value values ih =>
    cases value with
    | noData => exact ih
    | number _ | bool _ => exact ih.map _
    | text _ | list _ | record _ => exact Wants.error nofun

theorem Aggregate.content_apply (aggregate : Aggregate) (values : List Value) :
    Content (aggregate.apply values) := by
  have taken := aggregate.content_numbers values
  unfold apply
  split
  · exact taken.passedOn ‹_›
  · exact Wants.ok _
  · exact Wants.ok _

namespace Builtin

theorem content_single (function : String) (values : List Value) :
    Content (single function values) := by
  unfold single
  split
  · exact Wants.ok _
  · exact Wants.error nofun

theorem content_lengthOf (value : Value) : Content (lengthOf value) := by
  cases value with
  | list _ | record _ | text _ => exact Wants.ok _
  | noData | bool _ | number _ => exact Wants.error nofun

theorem content_absoluteOf (value : Value) : Content (absoluteOf value) := by
  unfold absoluteOf
  split
  · exact Wants.ok _
  · split
    · exact Wants.ok _
    · exact Wants.error nofun

theorem content_call (builtin : Builtin) (values : List Value) : Content (builtin.call values) := by
  unfold call
  split
  · exact Aggregate.content_apply _ _
  · exact Aggregate.content_apply _ _
  · have argument := content_single "len" values
    split
    · exact argument.passedOn ‹_›
    · exact content_lengthOf _
  · have argument := content_single "abs" values
    split
    · exact argument.passedOn ‹_›
    · exact content_absoluteOf _

end Builtin

/-! ## Expressions -/

namespace Expr

variable {S : Scope} {P : String → Prop}

mutual

/-- An expression over names with the property `P` wants such names only, and only those that the
scope does not bind. -/
theorem wants_eval (S : Scope) : ∀ e : Expr, (∀ x ∈ e.names, P x) →
    Wants (fun x => P x ∧ S.get? x = none) (e.eval S)
  | number x, _ => Wants.ok _
  | text s, _ => Wants.ok _
  | bool b, _ => Wants.ok _
  | noData, _ => Wants.ok _
  | name s, within => by
    simp only [eval]
    cases found : S.get? s with
    | some value => exact Wants.ok _
    | none =>
      rintro x ⟨rfl⟩
      exact ⟨within s (by simp [names]), found⟩
  | member base attr, within => by
    rw [eval_member]
    exact (wants_eval S base within).bind fun value _ => (value.content_member attr).wants _
  | call function args, within => by
    have values := wantsAll_eval S args within
    simp only [eval]
    cases Builtin.ofName? function with
    | none => exact Wants.error nofun
    | some builtin =>
      dsimp only
      split
      · exact values.passedOn ‹_›
      · exact (builtin.content_call _).wants _
  | list items, within => by
    simp only [eval]
    exact (wantsAll_eval S items within).map _
  | negate operand, within => by
    rw [eval_negate]
    exact (wants_eval S operand within).bind fun value _ => value.content_negate.wants _
  | not operand, within => by
    simp only [eval]
    exact (wants_eval S operand within).map _
  | binary op left right, within => by
    rw [names, List.forall_mem_append] at within
    rw [eval_binary]
    exact (wants_eval S left within.1).bind fun a _ =>
      (wants_eval S right within.2).bind fun b _ => (Value.content_arithmetic op a b).wants _
  | compare op left right, within => by
    rw [names, List.forall_mem_append] at within
    rw [eval_compare]
    exact (wants_eval S left within.1).bind fun a _ =>
      (wants_eval S right within.2).bind fun b _ => (Value.content_compare op a b).wants _
  | and left right, within => by
    rw [names, List.forall_mem_append] at within
    rw [eval_and]
    refine (wants_eval S left within.1).bind fun a _ => ?_
    split
    · exact wants_eval S right within.2
    · exact Wants.ok _
  | or left right, within => by
    rw [names, List.forall_mem_append] at within
    rw [eval_or]
    refine (wants_eval S left within.1).bind fun a _ => ?_
    split
    · exact Wants.ok _
    · exact wants_eval S right within.2
  | conditional condition body otherwise, within => by
    rw [names, List.forall_mem_append, List.forall_mem_append] at within
    rw [eval_conditional]
    refine (wants_eval S condition within.1).bind fun c _ => ?_
    split
    · exact wants_eval S body within.2.1
    · exact wants_eval S otherwise within.2.2

theorem wantsAll_eval (S : Scope) : ∀ es : List Expr, (∀ x ∈ namesAll es, P x) →
    Wants (fun x => P x ∧ S.get? x = none) (evalAll S es)
  | [], _ => Wants.ok _
  | e :: es, within => by
    rw [namesAll, List.forall_mem_append] at within
    rw [evalAll_cons]
    exact (wants_eval S e within.1).bind fun value _ => (wantsAll_eval S es within.2).map _

end

/-- **More bindings never change a settled outcome.** Unless an expression fails for want of a name,
it gives the same in every larger scope; the name that it wants is one that it reads and that is not
bound; and what it gives depends on the bindings of its names only. So a failure that is not
retryable stays, whatever becomes known. -/
theorem eval_settled (e : Expr) {S F : Scope} (larger : S ≤ F) :
    ((∀ x, e.eval S ≠ .error (.undefinedName x)) → e.eval F = e.eval S) ∧
      (∀ x, e.eval S = .error (.undefinedName x) → x ∈ e.names ∧ S.get? x = none) ∧
      (∀ G : Scope, (∀ x ∈ e.names, G.get? x = S.get? x) → e.eval G = e.eval S) ∧
      ∀ failure, e.eval S = .error failure → failure.isRetryable = false →
        e.eval F = .error failure := by
  refine ⟨e.eval_of_le larger, fun x => ?_, fun G => e.eval_congr, fun failure failed final => ?_⟩
  · exact wants_eval (P := (· ∈ e.names)) S e (fun _ read => read) x
  · rw [← failed]
    refine e.eval_of_le larger fun x wanted => ?_
    rw [failed] at wanted
    cases wanted
    cases final

end Expr

/-! ## A scope that grows -/

/-- A disjunction keeps its outcome when its second name becomes known, since its first one decides
it; a conjunction of the same names wants the second one; a conjunction that does not read it gives
the same; and an attribute of a truth value stays unknown. -/
theorem Expr.eval_settled_growing :
    (⟨[("a", .bool true)]⟩ : Scope) ≤ ⟨[("b", .bool false), ("a", .bool true)]⟩ ∧
      (Expr.or (.name "a") (.name "b")).eval ⟨[("b", .bool false), ("a", .bool true)]⟩ =
        (Expr.or (.name "a") (.name "b")).eval ⟨[("a", .bool true)]⟩ ∧
      (Expr.and (.name "a") (.name "b")).eval ⟨[("a", .bool true)]⟩ =
        .error (.undefinedName "b") ∧
      ("b" ∈ (Expr.and (.name "a") (.name "b")).names ∧
        (⟨[("a", .bool true)]⟩ : Scope).get? "b" = none) ∧
      (Expr.and (.name "a") (.name "a")).eval ⟨[("b", .bool false), ("a", .bool true)]⟩ =
        (Expr.and (.name "a") (.name "a")).eval ⟨[("a", .bool true)]⟩ ∧
      (Expr.member (.name "a") "x").eval ⟨[("b", .bool false), ("a", .bool true)]⟩ =
        .error (.unknownAttribute "x") := by
  have larger : (⟨[("a", .bool true)]⟩ : Scope) ≤ ⟨[("b", .bool false), ("a", .bool true)]⟩ := by
    intro x value bound
    by_cases same : x = "a"
    · subst same
      exact bound
    · rw [Scope.get?, Table.lookup_cons_eq, if_neg same] at bound
      cases bound
  have decided : (Expr.or (.name "a") (.name "b")).eval ⟨[("a", .bool true)]⟩ = .ok (.bool true) :=
    rfl
  have wanting : (Expr.and (.name "a") (.name "b")).eval ⟨[("a", .bool true)]⟩ =
      .error (.undefinedName "b") := rfl
  refine ⟨larger, ?_, wanting, ?_, ?_, ?_⟩
  · refine (Expr.eval_settled _ larger).1 fun x => ?_
    rw [decided]
    nofun
  · exact (Expr.eval_settled _ larger).2.1 "b" wanting
  · refine (Expr.eval_settled _ larger).2.2.1 _ fun x read => ?_
    rcases List.mem_append.1 read with read | read <;>
      · rw [List.mem_singleton.1 read]
        rfl
  · exact (Expr.eval_settled _ larger).2.2.2 _ rfl rfl

end KpiReport
