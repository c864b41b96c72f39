import KpiReport.Evaluation.Cache
import KpiReport.Proofs.Lists
import KpiReport.Store.Fetch

/-!
# Runs of operations

`Runs action s a s'` says that an operation started in the state `s` succeeds with `a` and leaves
the state `s'`. A run of a sequence is a run of its parts (`runs_bind`), so the steps of an
evaluation can be taken apart and put together again.

What a traced operation comes to must not depend on the trace that it finds: this is `Oblivious`,
and it is kept by sequencing and by loops (`Oblivious.bind`, `Oblivious.mapM`). `Gives` and `Fails`
say what it comes to.
-/

namespace KpiReport

section Runs

variable {σ α β : Type}

/-- The operation succeeds with `a` and takes the state `s` to `s'`. -/
def Runs (action : ExceptT ReportError (StateM σ) α) (s : σ) (a : α) (s' : σ) : Prop :=
  action.run.run s = (.ok a, s')

theorem Runs.unique {action : ExceptT ReportError (StateM σ) α} {s : σ} {a b : α} {s' t' : σ}
    (h : Runs action s a s') (h' : Runs action s b t') : a = b ∧ s' = t' := by
  have same := h.symm.trans h'
  cases same
  exact ⟨rfl, rfl⟩

theorem exists_runs {action : ExceptT ReportError (StateM σ) α} {s : σ} {a : α}
    (h : (action.run.run s).1 = .ok a) : ∃ s', Runs action s a s' :=
  ⟨(action.run.run s).2, Prod.ext h rfl⟩

theorem runs_pure {a b : α} {s s' : σ} :
    Runs (pure a) s b s' ↔ b = a ∧ s' = s := by
  constructor
  · intro h
    cases h
    exact ⟨rfl, rfl⟩
  · rintro ⟨rfl, rfl⟩
    rfl

theorem runs_bind {action : ExceptT ReportError (StateM σ) α}
    {next : α → ExceptT ReportError (StateM σ) β} {s : σ} {b : β} {s' : σ} :
    Runs (action >>= next) s b s' ↔ ∃ a u, Runs action s a u ∧ Runs (next a) u b s' := by
  unfold Runs
  rw [ExceptT.run_bind, StateT.run_bind]
  rcases action.run.run s with ⟨result, u⟩
  cases result with
  | error e =>
    constructor
    · intro h
      cases h
    · rintro ⟨a, u', h, -⟩
      cases h
  | ok a =>
    constructor
    · intro h
      exact ⟨a, u, rfl, h⟩
    · rintro ⟨a', u', h, h'⟩
      cases h
      exact h'

/-- A run of a loop is made of runs of its steps. -/
theorem forall₂_of_runs_mapM {f : α → ExceptT ReportError (StateM σ) β} {xs : List α} {ys : List β}
    {s s' : σ} (h : Runs (xs.mapM f) s ys s') :
    List.Forall₂ (fun x y => ∃ u u', Runs (f x) u y u') xs ys := by
  induction xs generalizing s s' ys with
  | nil =>
    obtain ⟨rfl, -⟩ := runs_pure.1 h
    exact .nil
  | cons x xs ih =>
    rw [List.mapM_cons] at h
    obtain ⟨y, u, first, h⟩ := runs_bind.1 h
    obtain ⟨rest, v, more, h⟩ := runs_bind.1 h
    obtain ⟨rfl, -⟩ := runs_pure.1 h
    exact .cons ⟨s, u, first⟩ (ih more)

theorem exists_of_mem_runs_mapM {f : α → ExceptT ReportError (StateM σ) β} {xs : List α}
    {ys : List β} {s s' : σ} (h : Runs (xs.mapM f) s ys s') {y : β} (member : y ∈ ys) :
    ∃ x ∈ xs, ∃ u u', Runs (f x) u y u' :=
  exists_of_mem_forall₂ (forall₂_of_runs_mapM h) member

end Runs

/-! ## Traced operations -/

namespace Traced

variable {α β : Type}

theorem runs_ofResult {result : Result α} {t t' : Trace} {a : α} :
    Runs (ofResult result) t a t' ↔ result = .ok a ∧ t' = t := by
  constructor
  · intro h
    cases h
    exact ⟨rfl, rfl⟩
  · rintro ⟨rfl, rfl⟩
    rfl

theorem runs_log {level : LogLevel} {text : String} {t t' : Trace} {a : Unit} :
    Runs (log level text) t a t' ↔ t' = { t with lines := ⟨level, text⟩ :: t.lines } := by
  constructor
  · intro h
    cases h
    rfl
  · rintro rfl
    rfl

theorem runs_lift {action : StateM Trace α} {t t' : Trace} {a : α} :
    Runs (liftM action : Traced α) t a t' ↔ action.run t = (a, t') := by
  have opened : (liftM action : Traced α).run.run t = (.ok (action.run t).1, (action.run t).2) := rfl
  unfold Runs
  rw [opened]
  rcases action.run t with ⟨b, u⟩
  constructor
  · intro h
    cases h
    rfl
  · intro h
    cases h
    rfl

theorem runs_countAggregation {t t' : Trace} {a : Unit} :
    Runs countAggregation t a t' ↔ t' = { t with aggregations := t.aggregations + 1 } := by
  constructor
  · intro h
    cases h
    rfl
  · rintro rfl
    rfl

theorem runs_countGroupedRead {t t' : Trace} {a : Unit} :
    Runs countGroupedRead t a t' ↔ t' = { t with groupedReads := t.groupedReads + 1 } := by
  constructor
  · intro h
    cases h
    rfl
  · rintro rfl
    rfl

/-- Whatever the trace was before, the operation gives `a`. -/
def Gives (action : Traced α) (a : α) : Prop :=
  ∀ t, ∃ t', Runs action t a t'

/-- What the operation gives after one trace, it gives after every trace. -/
def Steady (action : Traced α) : Prop :=
  ∀ ⦃t a t'⦄, Runs action t a t' → action.Gives a

theorem Gives.unique {action : Traced α} {a b : α} (h : action.Gives a) (h' : action.Gives b) :
    a = b := by
  obtain ⟨t, run⟩ := h {}
  obtain ⟨t', run'⟩ := h' {}
  exact (run.unique run').1

theorem Gives.pure (a : α) : Gives (Pure.pure a : Traced α) a :=
  fun t => ⟨t, runs_pure.2 ⟨rfl, rfl⟩⟩

theorem Gives.ofResult {result : Result α} {a : α} (h : result = .ok a) :
    (Traced.ofResult result).Gives a :=
  fun t => ⟨t, runs_ofResult.2 ⟨h, rfl⟩⟩

theorem Gives.log (level : LogLevel) (text : String) : (Traced.log level text).Gives () :=
  fun _ => ⟨_, runs_log.2 rfl⟩

theorem Gives.bind {action : Traced α} {next : α → Traced β} {a : α} {b : β}
    (first : action.Gives a) (rest : (next a).Gives b) : Gives (action >>= next) b := by
  intro t
  obtain ⟨u, run⟩ := first t
  obtain ⟨t', run'⟩ := rest u
  exact ⟨t', runs_bind.2 ⟨a, u, run, run'⟩⟩

theorem Gives.countGroupedRead : Traced.countGroupedRead.Gives () :=
  fun _ => ⟨_, runs_countGroupedRead.2 rfl⟩

theorem Gives.mapM {f : α → Traced β} {g : α → β} {xs : List α}
    (each : ∀ x ∈ xs, (f x).Gives (g x)) : Gives (xs.mapM f) (xs.map g) := by
  induction xs with
  | nil => exact Gives.pure []
  | cons x xs ih =>
    obtain ⟨first, rest⟩ := List.forall_mem_cons.1 each
    rw [List.mapM_cons]
    exact first.bind ((ih rest).bind (Gives.pure _))

theorem Gives.forM {f : α → Traced Unit} (each : ∀ a, (f a).Gives ()) (xs : List α) :
    Gives (xs.forM f) () := by
  induction xs with
  | nil => exact Gives.pure ()
  | cons x xs ih => exact (each x).bind ih

/-- Whatever the trace was before, the operation fails for the reason. -/
def Fails (action : Traced α) (e : ReportError) : Prop :=
  ∀ t, ∃ t', action.run.run t = (.error e, t')

section Fails

variable {e : ReportError}

theorem Fails.ofResult {result : Result α} (h : result = .error e) :
    (Traced.ofResult result).Fails e := by
  subst h
  exact fun t => ⟨t, rfl⟩

/-- What fails, fails whatever would come next. -/
theorem Fails.bind {action : Traced α} (h : action.Fails e) {next : α → Traced β} :
    Fails (action >>= next) e := by
  intro t
  obtain ⟨t', failed⟩ := h t
  refine ⟨t', ?_⟩
  rw [ExceptT.run_bind, StateT.run_bind, failed]
  rfl

theorem Gives.fails {action : Traced α} {a : α} (first : action.Gives a) {next : α → Traced β}
    (rest : (next a).Fails e) : Fails (action >>= next) e := by
  intro t
  obtain ⟨u, run⟩ := first t
  obtain ⟨t', failed⟩ := rest u
  refine ⟨t', ?_⟩
  rw [ExceptT.run_bind, StateT.run_bind, run]
  exact failed

end Fails

/-- Whatever the trace was before, the operation comes to the same. -/
def Oblivious (action : Traced α) : Prop :=
  (∃ a, action.Gives a) ∨ ∃ e, action.Fails e

theorem Oblivious.steady {action : Traced α} (h : action.Oblivious) : action.Steady := by
  intro t a t' run
  rcases h with ⟨b, gives⟩ | ⟨e, fails⟩
  · obtain ⟨u, again⟩ := gives t
    obtain ⟨rfl, -⟩ := run.unique again
    exact gives
  · obtain ⟨u, failed⟩ := fails t
    cases run.symm.trans failed

theorem Steady.gives {action : Traced α} (h : action.Steady) {a : α}
    (run : (action.run.run {}).1 = .ok a) : action.Gives a := by
  obtain ⟨t, run⟩ := exists_runs run
  exact h run

namespace Oblivious

theorem pure (a : α) : Oblivious (Pure.pure a : Traced α) :=
  .inl ⟨a, .pure a⟩

theorem ofResult (result : Result α) : Oblivious (Traced.ofResult result) := by
  cases result with
  | ok a => exact .inl ⟨a, .ofResult rfl⟩
  | error e => exact .inr ⟨e, .ofResult rfl⟩

theorem log (level : LogLevel) (text : String) : Oblivious (Traced.log level text) :=
  .inl ⟨(), .log level text⟩

theorem countAggregation : Oblivious Traced.countAggregation :=
  .inl ⟨(), fun _ => ⟨_, runs_countAggregation.2 rfl⟩⟩

theorem countGroupedRead : Oblivious Traced.countGroupedRead :=
  .inl ⟨(), .countGroupedRead⟩

theorem lift {action : StateM Trace α} {a : α} (same : ∀ t, ∃ t', action.run t = (a, t')) :
    Oblivious (liftM action : Traced α) := by
  refine .inl ⟨a, fun t => ?_⟩
  obtain ⟨t', ran⟩ := same t
  exact ⟨t', runs_lift.2 ran⟩

theorem bind {action : Traced α} {next : α → Traced β} (first : Oblivious action)
    (rest : ∀ a, Oblivious (next a)) : Oblivious (action >>= next) := by
  rcases first with ⟨a, gives⟩ | ⟨e, fails⟩
  · rcases rest a with ⟨b, more⟩ | ⟨e, fails⟩
    · exact .inl ⟨b, gives.bind more⟩
    · exact .inr ⟨e, gives.fails fails⟩
  · exact .inr ⟨e, fails.bind⟩

theorem mapM {f : α → Traced β} (each : ∀ a, Oblivious (f a)) (xs : List α) :
    Oblivious (xs.mapM f) := by
  induction xs with
  | nil => exact pure []
  | cons x xs ih =>
    rw [List.mapM_cons]
    exact (each x).bind fun y => ih.bind fun ys => pure (y :: ys)

theorem forM {f : α → Traced Unit} (each : ∀ a, Oblivious (f a)) (xs : List α) :
    Oblivious (xs.forM f) := by
  induction xs with
  | nil => exact pure ()
  | cons x xs ih => exact (each x).bind fun _ => ih

end Oblivious

end Traced

/-! ## Evaluations -/

namespace Evaluation

variable {α : Type}

theorem runs_ofTraced {action : Traced α} {s s' : Session} {a : α} :
    Runs (ofTraced action) s a s' ↔
      ∃ t, Runs action s.trace a t ∧ s' = { s with trace := t } := by
  have opened : (ofTraced action).run.run s =
      ((action.run.run s.trace).1, { s with trace := (action.run.run s.trace).2 }) := rfl
  unfold Runs
  rw [opened]
  rcases action.run.run s.trace with ⟨result, t⟩
  constructor
  · intro h
    cases h
    exact ⟨t, rfl, rfl⟩
  · rintro ⟨t', h, rfl⟩
    cases h
    rfl

theorem runs_ofResult {result : Result α} {s s' : Session} {a : α} :
    Runs (ofResult result) s a s' ↔ result = .ok a ∧ s' = s := by
  unfold ofResult
  rw [runs_ofTraced]
  constructor
  · rintro ⟨t, run, rfl⟩
    obtain ⟨rfl, rfl⟩ := Traced.runs_ofResult.1 run
    exact ⟨rfl, rfl⟩
  · rintro ⟨rfl, rfl⟩
    exact ⟨s'.trace, Traced.runs_ofResult.2 ⟨rfl, rfl⟩, rfl⟩

theorem runs_getCache {s s' : Session} {cache : Cache} :
    Runs getCache s cache s' ↔ cache = s.cache ∧ s' = s := by
  constructor
  · intro h
    cases h
    exact ⟨rfl, rfl⟩
  · rintro ⟨rfl, rfl⟩
    rfl

theorem runs_modifyCache {f : Cache → Cache} {s s' : Session} {a : Unit} :
    Runs (modifyCache f) s a s' ↔ s' = { s with cache := f s.cache } := by
  constructor
  · intro h
    cases h
    rfl
  · rintro rfl
    rfl

theorem cache_of_runs_ofTraced {action : Traced α} {s s' : Session} {a : α}
    (h : Runs (ofTraced action) s a s') : s'.cache = s.cache := by
  obtain ⟨t, -, rfl⟩ := runs_ofTraced.1 h
  rfl

theorem cache_of_runs_log {level : LogLevel} {text : String} {s s' : Session} {a : Unit}
    (h : Runs (log level text) s a s') : s'.cache = s.cache :=
  cache_of_runs_ofTraced h

theorem exists_runs_log (level : LogLevel) (text : String) (s : Session) :
    ∃ t, Runs (log level text) s () { s with trace := t } :=
  ⟨_, runs_ofTraced.2 ⟨_, Traced.runs_log.2 rfl, rfl⟩⟩

theorem eq_of_runs_ofTraced {action : Traced α} {s s' : Session} {a b : α} (gives : action.Gives a)
    (h : Runs (ofTraced action) s b s') : b = a := by
  obtain ⟨t, run, rfl⟩ := runs_ofTraced.1 h
  obtain ⟨t', run'⟩ := gives s.trace
  exact (run.unique run').1

theorem exists_runs_ofTraced {action : Traced α} {a : α} (gives : action.Gives a) (s : Session) :
    ∃ t, Runs (ofTraced action) s a { s with trace := t } := by
  obtain ⟨t, run⟩ := gives s.trace
  exact ⟨t, runs_ofTraced.2 ⟨t, run, rfl⟩⟩

theorem exists_failed_ofTraced {action : Traced α} {e : ReportError} (fails : action.Fails e)
    (s : Session) : ∃ t, (ofTraced action).run.run s = (.error e, { s with trace := t }) := by
  obtain ⟨t, failed⟩ := fails s.trace
  have opened : (ofTraced action).run.run s =
      ((action.run.run s.trace).1, { s with trace := (action.run.run s.trace).2 }) := rfl
  exact ⟨t, by rw [opened, failed]⟩

theorem runs_onNewCache {action : Evaluation α} {t t' : Trace} {a : α} :
    Runs (onNewCache action) t a t' ↔
      ∃ s', Runs action { trace := t } a s' ∧ t' = s'.trace := by
  have opened : (onNewCache action).run.run t =
      ((action.run.run { trace := t }).1, (action.run.run { trace := t }).2.trace) := rfl
  unfold Runs
  rw [opened]
  rcases action.run.run { trace := t } with ⟨result, s'⟩
  constructor
  · intro h
    cases h
    exact ⟨s', rfl, rfl⟩
  · rintro ⟨u, h, rfl⟩
    cases h
    rfl

end Evaluation

/-! ## Queries -/

/-- Fetching queries stops at the first one if it fails, with the scope as it is, or goes on with its
value in the scope. -/
theorem Query.fetchInto_cons_inv {store : RecordStore} {offset : Calendar.UtcOffset}
    {bounds : Bounds} {extras : Table Filter} {query : Query} {queries : List Query}
    {scope after : Scope} {result : Result Unit} {t t' : Trace}
    (h : (fetchInto store offset bounds extras scope (query :: queries)).run t =
      ((after, result), t')) :
    (∃ e, (query.fetch store offset bounds (extras.get? query.name)).run.run t = (.error e, t') ∧
      after = scope ∧ result = .error e) ∨
    ∃ value u, Runs (query.fetch store offset bounds (extras.get? query.name)) t value u ∧
      (fetchInto store offset bounds extras (scope.insert query.name value) queries).run u =
        ((after, result), t') := by
  rw [fetchInto, StateT.run_bind] at h
  cases fetched : (query.fetch store offset bounds (extras.get? query.name)).run.run t with
  | mk outcome u =>
    rw [fetched] at h
    cases outcome with
    | error e =>
      cases h
      exact .inl ⟨e, rfl, rfl, rfl⟩
    | ok value => exact .inr ⟨value, u, fetched, h⟩

end KpiReport
