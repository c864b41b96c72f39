import KpiReport.Proofs.Results
import KpiReport.Proofs.Runs

/-!
# Failures of operations

`FailsOnly P action` says that the operation, from whatever state it is started, fails only with
failures that have the property `P`. It is kept by sequencing, where the next step has to be looked
at only for what the first one can give (`FailsOnly.bind`), and by loops.
-/

namespace KpiReport

variable {α β σ : Type} {P : ReportError → Prop}

/-! ## Results -/

namespace Result

/-- Every failure has the property. -/
def FailsOnly (P : ReportError → Prop) (result : Result α) : Prop :=
  ∀ e, result = .error e → P e

theorem failsOnly_ok (a : α) : FailsOnly P (.ok a) := by
  intro e failed
  cases failed

theorem failsOnly_error {e : ReportError} (h : P e) : FailsOnly P (.error e : Result α) := by
  rintro _ ⟨rfl⟩
  exact h

theorem failsOnly_ofOption {e : ReportError} (h : P e) (found : Option α) :
    FailsOnly P (ofOption e found) := by
  cases found with
  | none => exact failsOnly_error h
  | some a => exact failsOnly_ok a

variable {result : Result α}

theorem FailsOnly.bind {next : α → Result β} (first : FailsOnly P result)
    (rest : ∀ a, result = .ok a → FailsOnly P (next a)) : FailsOnly P (result >>= next) := by
  cases result with
  | error e => exact failsOnly_error (first e rfl)
  | ok a => exact rest a rfl

theorem FailsOnly.map (h : FailsOnly P result) (f : α → β) : FailsOnly P (result.map f) := by
  cases result with
  | error e => exact failsOnly_error (h e rfl)
  | ok a => exact failsOnly_ok (f a)

theorem FailsOnly.mapM {f : α → Result β} {xs : List α} (each : ∀ x ∈ xs, FailsOnly P (f x)) :
    FailsOnly P (xs.mapM f) := by
  induction xs with
  | nil => exact failsOnly_ok []
  | cons x xs ih =>
    rw [List.forall_mem_cons] at each
    rw [List.mapM_cons]
    exact each.1.bind fun y _ => (ih each.2).bind fun ys _ => failsOnly_ok (y :: ys)

theorem FailsOnly.forM {f : α → Result Unit} {xs : List α} (each : ∀ x ∈ xs, FailsOnly P (f x)) :
    FailsOnly P (xs.forM f) := by
  induction xs with
  | nil => exact failsOnly_ok ()
  | cons x xs ih =>
    rw [List.forall_mem_cons] at each
    exact each.1.bind fun _ _ => ih each.2

end Result

/-! ## Operations on a state -/

/-- Every failure of the operation has the property. -/
def FailsOnly (P : ReportError → Prop) (action : ExceptT ReportError (StateM σ) α) : Prop :=
  ∀ s e s', action.run.run s = (.error e, s') → P e

theorem failsOnly_pure (a : α) :
    FailsOnly P (pure a : ExceptT ReportError (StateM σ) α) := by
  intro s e s' failed
  cases failed

variable {action : ExceptT ReportError (StateM σ) α}

theorem FailsOnly.bind {next : α → ExceptT ReportError (StateM σ) β} (first : FailsOnly P action)
    (rest : ∀ a s s', Runs action s a s' → FailsOnly P (next a)) :
    FailsOnly P (action >>= next) := by
  intro s e s' failed
  rw [ExceptT.run_bind, StateT.run_bind] at failed
  cases ran : action.run.run s with
  | mk result u =>
    rw [ran] at failed
    cases result with
    | error e' =>
      cases failed
      exact first s _ _ ran
    | ok a => exact rest a s u ran u e s' failed

/-- A sequence whose next step may be looked at for any result of the first one. -/
theorem FailsOnly.next {next : α → ExceptT ReportError (StateM σ) β} (first : FailsOnly P action)
    (rest : ∀ a, FailsOnly P (next a)) : FailsOnly P (action >>= next) :=
  first.bind fun a _ _ _ => rest a

theorem FailsOnly.mapM {f : α → ExceptT ReportError (StateM σ) β}
    (each : ∀ a, FailsOnly P (f a)) (xs : List α) : FailsOnly P (xs.mapM f) := by
  induction xs with
  | nil => exact failsOnly_pure []
  | cons x xs ih =>
    rw [List.mapM_cons]
    exact (each x).next fun y => ih.next fun ys => failsOnly_pure (y :: ys)

theorem FailsOnly.forM {f : α → ExceptT ReportError (StateM σ) Unit}
    (each : ∀ a, FailsOnly P (f a)) (xs : List α) : FailsOnly P (xs.forM f) := by
  induction xs with
  | nil => exact failsOnly_pure ()
  | cons x xs ih => exact (each x).next fun _ => ih

theorem FailsOnly.foldlM {f : β → α → ExceptT ReportError (StateM σ) β} {xs : List α}
    (each : ∀ x ∈ xs, ∀ b, FailsOnly P (f b x)) (b : β) : FailsOnly P (xs.foldlM f b) := by
  induction xs generalizing b with
  | nil => exact failsOnly_pure b
  | cons x xs ih =>
    rw [List.forall_mem_cons] at each
    rw [List.foldlM_cons]
    exact (each.1 b).next fun c => ih each.2 c

namespace Traced

theorem failsOnly_ofResult {result : Result α} (h : result.FailsOnly P) :
    FailsOnly P (ofResult result) := by
  intro t e t' failed
  cases failed
  exact h e rfl

theorem failsOnly_log (level : LogLevel) (text : String) : FailsOnly P (log level text) := by
  intro t e t' failed
  cases failed

theorem failsOnly_countAggregation : FailsOnly P countAggregation := by
  intro t e t' failed
  cases failed

theorem failsOnly_countGroupedRead : FailsOnly P countGroupedRead := by
  intro t e t' failed
  cases failed

theorem failsOnly_lift (action : StateM Trace α) : FailsOnly P (liftM action : Traced α) := by
  intro t e t' failed
  cases failed

end Traced

namespace Evaluation

theorem failsOnly_ofTraced {action : Traced α} (h : FailsOnly P action) :
    FailsOnly P (ofTraced action) := by
  intro s e s' failed
  have opened : (ofTraced action).run.run s =
      ((action.run.run s.trace).1, { s with trace := (action.run.run s.trace).2 }) := rfl
  rw [opened, Prod.mk.injEq] at failed
  exact h s.trace e _ (Prod.ext failed.1 rfl)

theorem failsOnly_ofResult {result : Result α} (h : result.FailsOnly P) :
    FailsOnly P (ofResult result) :=
  failsOnly_ofTraced (Traced.failsOnly_ofResult h)

theorem failsOnly_log (level : LogLevel) (text : String) : FailsOnly P (log level text) :=
  failsOnly_ofTraced (Traced.failsOnly_log level text)

theorem failsOnly_getCache : FailsOnly P getCache := by
  intro s e s' failed
  cases failed

theorem failsOnly_modifyCache (f : Cache → Cache) : FailsOnly P (modifyCache f) := by
  intro s e s' failed
  cases failed

theorem failsOnly_onNewCache {action : Evaluation α} (h : FailsOnly P action) :
    FailsOnly P (onNewCache action) := by
  intro t e t' failed
  have opened : (onNewCache action).run.run t =
      ((action.run.run { trace := t }).1, (action.run.run { trace := t }).2.trace) := rfl
  rw [opened, Prod.mk.injEq] at failed
  exact h { trace := t } e _ (Prod.ext failed.1 rfl)

end Evaluation

end KpiReport
