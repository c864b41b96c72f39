import KpiReport.Proofs.Definition.Validation
import KpiReport.Proofs.Evaluation.Equations
import KpiReport.Proofs.Evaluation.Nesting
import KpiReport.Report
import Mathlib.Algebra.GroupWithZero.Nat

/-!
# Nothing is evaluated twice

The cache keeps a mark for every evaluation that was begun (`Cache.begun`). A report is only begun
for a period for which it has no mark, and its balances are asked for after its mark is made, once.
So in a computation no report is begun twice for a period, and the ledger is asked for no more
totals than the reports that were begun need once each. Both hold however the computation ends: with
grids or with an error, which is why `Pays` speaks of every outcome and not only of runs.

The main statement, `Sources.evaluation_bounded`, adds the bounds on the nesting of reports and on
the number of passes.
-/

namespace KpiReport

/-! ## Every outcome -/

/-- What holds of the state in which a first operation fails, and of every outcome of the next one
after a success, holds of every outcome of both. -/
theorem outcome_bind {σ α β : Type} {P : σ → Prop} {action : ExceptT ReportError (StateM σ) α}
    {next : α → ExceptT ReportError (StateM σ) β} {s : σ}
    (fails : ∀ e u, action.run.run s = (.error e, u) → P u)
    (goes : ∀ a u, Runs action s a u → P ((next a).run.run u).2) :
    P ((action >>= next).run.run s).2 := by
  rw [ExceptT.run_bind, StateT.run_bind]
  cases ran : action.run.run s with
  | mk result u =>
    cases result with
    | error e => exact fails e u ran
    | ok a => exact goes a u ran

namespace Traced

variable {α β : Type} {m n : Nat}

/-- The ledger is asked for totals at most `n` times, however the operation ends. -/
def Costs (n : Nat) (action : Traced α) : Prop :=
  ∀ t, (action.run.run t).2.aggregations ≤ t.aggregations + n

theorem Costs.mono {action : Traced α} (h : Costs m action) (le : m ≤ n) : Costs n action :=
  fun t => Nat.le_trans (h t) (Nat.add_le_add_left le _)

theorem Costs.bind {action : Traced α} {next : α → Traced β} (first : Costs m action)
    (rest : ∀ a, Costs n (next a)) : Costs (m + n) (action >>= next) := by
  intro t
  have once := first t
  refine outcome_bind (P := fun u : Trace => u.aggregations ≤ t.aggregations + (m + n)) ?_ ?_
  · intro e u ran
    rw [ran] at once
    exact Nat.le_trans once (by omega)
  · intro a u ran
    rw [show action.run.run t = (.ok a, u) from ran] at once
    have more := rest a u
    dsimp only at once
    omega

/-- A step that costs nothing may come first. -/
theorem Costs.next {action : Traced α} {next : α → Traced β} (first : Costs 0 action)
    (rest : ∀ a, Costs n (next a)) : Costs n (action >>= next) :=
  (first.bind rest).mono (Nat.le_of_eq (Nat.zero_add n))

theorem Costs.pure (a : α) : Costs 0 (Pure.pure a : Traced α) :=
  fun _ => Nat.le_refl _

theorem Costs.ofResult (result : Result α) : Costs 0 (Traced.ofResult result) :=
  fun _ => Nat.le_refl _

theorem Costs.log (level : LogLevel) (text : String) : Costs 0 (Traced.log level text) :=
  fun _ => Nat.le_refl _

theorem Costs.countGroupedRead : Costs 0 Traced.countGroupedRead :=
  fun _ => Nat.le_refl _

theorem Costs.countAggregation : Costs 1 Traced.countAggregation :=
  fun _ => Nat.le_refl _

theorem Costs.mapM {f : α → Traced β} (each : ∀ a, Costs n (f a)) (xs : List α) :
    Costs (n * xs.length) (xs.mapM f) := by
  induction xs with
  | nil => exact Costs.pure []
  | cons x xs ih =>
    rw [List.mapM_cons, List.length_cons]
    refine ((each x).bind fun y => ih.bind fun ys => Costs.pure (y :: ys)).mono ?_
    rw [Nat.mul_succ]
    omega

theorem Costs.mapM_free {f : α → Traced β} (each : ∀ a, Costs 0 (f a)) (xs : List α) :
    Costs 0 (xs.mapM f) :=
  (Costs.mapM each xs).mono (Nat.le_of_eq (Nat.zero_mul _))

theorem Costs.forM {f : α → Traced Unit} (each : ∀ a, Costs 0 (f a)) (xs : List α) :
    Costs 0 (xs.forM f) := by
  induction xs with
  | nil => exact Costs.pure ()
  | cons x xs ih => exact (each x).next fun _ => ih

end Traced

open Traced

theorem Registry.costs_resolve (registry : Registry) (ledger : Ledger) (root : String) :
    Costs 0 (registry.resolve ledger root) := by
  refine (Costs.ofResult _).next fun chart => (Costs.forM (fun entry => ?_) _).next fun _ =>
    Costs.pure _
  unfold Registry.warnUnmatched
  split
  · exact Costs.log _ _
  · exact Costs.pure _

/-- The groups of tokens for which the ledger is asked. -/
def Registry.groups (registry : Registry) : List TokenGroup :=
  match registry.accounts with
  | some accounts => TokenGroup.ofTokens (registry.resolvedTokens accounts)
  | none => []

theorem TokenGroup.costs_balances (ledger : Ledger) (bounds : Bounds) (common : Filter)
    (group : TokenGroup) : Costs 1 (group.balances ledger bounds common) :=
  (Costs.log _ _).next fun _ => Costs.countAggregation.bind fun _ =>
    (Costs.ofResult _).next fun _ => Costs.pure _

theorem Registry.costs_balances (registry : Registry) (ledger : Ledger) (bounds : Bounds)
    (target : TargetMove) (extra : Filter) :
    Costs registry.groups.length (registry.balances ledger bounds target extra) := by
  unfold balances resolved groups
  cases registry.accounts with
  | none => exact fun _ => Nat.le_refl _
  | some accounts =>
    have asked := Costs.mapM (TokenGroup.costs_balances ledger bounds (commonFilter target extra))
      (TokenGroup.ofTokens (registry.resolvedTokens accounts))
    rw [Nat.one_mul] at asked
    exact asked.bind fun _ => Costs.pure _

theorem Query.costs_fetch (query : Query) (store : RecordStore) (offset : Calendar.UtcOffset)
    (bounds : Bounds) (extra : Option Filter) : Costs 0 (query.fetch store offset bounds extra) := by
  refine (Costs.ofResult _).next fun filter => ?_
  cases query.aggregate with
  | none =>
    exact (Costs.ofResult _).next fun records => (Costs.log _ _).next fun _ => Costs.pure _
  | some aggregate =>
    refine (Costs.ofResult _).next fun stored => ?_
    split
    · refine Costs.countGroupedRead.next fun _ => (Costs.ofResult _).next fun totals =>
        (Costs.mapM_free (fun field => ?_) _).next fun _ => Costs.pure _
      refine Costs.next ?_ fun _ => Costs.pure _
      unfold Query.sumValue
      split
      · exact Costs.pure _
      · exact (Costs.log _ _).next fun _ => Costs.pure _
    · exact (Costs.ofResult _).next fun records => (Costs.mapM_free (fun field =>
        (Costs.ofResult _).next fun _ => Costs.pure _) _).next fun _ => Costs.pure _

theorem Query.costs_fetchInto (store : RecordStore) (offset : Calendar.UtcOffset) (bounds : Bounds)
    (extras : Table Filter) (scope : Scope) (queries : List Query) (t : Trace) :
    ((fetchInto store offset bounds extras scope queries).run t).2.aggregations ≤
      t.aggregations := by
  induction queries generalizing scope t with
  | nil => exact Nat.le_refl _
  | cons query queries ih =>
    have fetched := query.costs_fetch store offset bounds (extras.get? query.name) t
    rcases fetchInto_cons_inv (Prod.eta _).symm with ⟨e, failed, -⟩ | ⟨value, u, run, more⟩
    · rw [failed] at fetched
      exact fetched
    · rw [run] at fetched
      have rest := ih (scope.insert query.name value) u
      rw [more] at rest
      exact Nat.le_trans rest fetched

theorem Kpi.costs_styleIn (kpi : Kpi) (scope : Scope) : Costs 0 (kpi.styleIn scope) := by
  unfold Kpi.styleIn
  split
  · exact Costs.pure _
  · split
    · exact Costs.pure _
    · exact Costs.pure _
    · exact (Costs.log _ _).next fun _ => Costs.pure _

namespace Sources

variable {sources : Sources} {self : Instance} {column : Column}

theorem costs_newRegistry (template : Template) : Costs 0 (sources.newRegistry self template) :=
  (Costs.ofResult _).next fun registered => (registered.costs_resolve _ _).next fun _ =>
    (Costs.log _ _).next fun _ => Costs.pure _

theorem costs_firstScope (template : Template) (registry : Registry) :
    Costs registry.groups.length (sources.firstScope self column template registry) := by
  refine (Costs.ofResult _).next fun offset => Costs.next ?_ fun fetched =>
    (Costs.ofResult _).next fun _ => (registry.costs_balances _ _ _ _).bind fun _ => Costs.pure _
  intro t
  exact Query.costs_fetchInto _ _ _ _ _ _ t

end Sources

/-! ## Marks -/

/-- The report codes and period names of the evaluations that were begun, the latest first. -/
def begun (marks : List ((String × String) × Progress)) : List (String × String) :=
  (marks.filter fun mark => !mark.2.isFinished).map Prod.fst

theorem begun_append (marks marks' : List ((String × String) × Progress)) :
    begun (marks ++ marks') = begun marks ++ begun marks' := by
  unfold begun
  rw [List.filter_append, List.map_append]

theorem mem_keys_of_begun {marks : List ((String × String) × Progress)} {key : String × String}
    (h : key ∈ begun marks) : key ∈ marks.map Prod.fst := by
  obtain ⟨mark, member, rfl⟩ := List.mem_map.1 h
  exact List.mem_map_of_mem (List.mem_filter.1 member).1

theorem Cache.unmarked_of_progress? {cache : Cache} {report period : String}
    (h : cache.progress? report period = none) : (report, period) ∉ cache.marks.map Prod.fst := by
  intro member
  obtain ⟨mark, stored, same⟩ := List.mem_map.1 member
  have differ := List.lookup_eq_none_iff.1 h mark stored
  rw [same] at differ
  simp at differ

/-! ## What an evaluation pays -/

namespace Sources

/-- How often the ledger is asked for the balances of a report in one period: once for each group
of its account tokens. -/
def requests (sources : Sources) (inst : Instance) (code : String) : Nat :=
  match sources.library.get code with
  | .error _ => 0
  | .ok template =>
    match ((sources.newRegistry inst template).run.run {}).1 with
    | .error _ => 0
    | .ok registry => registry.groups.length

variable {sources : Sources} {self : Instance} {names : List String} {due due' : Nat}
  {s u s' : Session}

theorem requests_eq {code : String} {template : Template} {registry : Registry}
    (get : sources.library.get code = .ok template)
    (gives : (sources.newRegistry self template).Gives registry) :
    sources.requests self code = registry.groups.length := by
  obtain ⟨t, run⟩ := gives {}
  have made : ((sources.newRegistry self template).run.run {}).1 = .ok registry :=
    congrArg Prod.fst run
  unfold requests
  rw [get]
  dsimp only
  rw [made]

/-- Between two sessions the marks `new` were made: for some periods, and none for a report that was
begun before. The ledger was asked for no more totals than the begun reports need once each, and
`due` further ones. -/
structure Makes (sources : Sources) (inst : Instance) (names : List String) (due : Nat)
    (s s' : Session) (new : List ((String × String) × Progress)) : Prop where
  lookedUp : LookedUp sources inst (fun _ => True) s'.cache
  marks : s'.cache.marks = new ++ s.cache.marks
  periods : ∀ mark ∈ new, mark.1.2 ∈ names
  nodup : (begun new).Nodup
  unmarked : ∀ key ∈ begun new, key ∉ s.cache.marks.map Prod.fst
  aggregations : s'.trace.aggregations ≤
    s.trace.aggregations + due + ((begun new).map fun key => sources.requests inst key.1).sum

/-- Between two sessions no report was begun twice, nor paid for twice. -/
def Pays (sources : Sources) (inst : Instance) (names : List String) (due : Nat)
    (s s' : Session) : Prop :=
  ∃ new, Makes sources inst names due s s' new

theorem Pays.trans (h : Pays sources self names due s u) (h' : Pays sources self names due' u s') :
    Pays sources self names (due + due') s s' := by
  obtain ⟨new, made⟩ := h
  obtain ⟨new', made'⟩ := h'
  refine ⟨new' ++ new, made'.lookedUp, ?_, ?_, ?_, ?_, ?_⟩
  · rw [made'.marks, made.marks, List.append_assoc]
  · intro mark member
    rcases List.mem_append.1 member with member | member
    · exact made'.periods mark member
    · exact made.periods mark member
  · rw [begun_append]
    refine List.Nodup.append made'.nodup made.nodup fun key later earlier => ?_
    refine made'.unmarked key later ?_
    rw [made.marks, List.map_append]
    exact List.mem_append_left _ (mem_keys_of_begun earlier)
  · intro key member
    rw [begun_append] at member
    rcases List.mem_append.1 member with later | earlier
    · intro marked
      refine made'.unmarked key later ?_
      rw [made.marks, List.map_append]
      exact List.mem_append_right _ marked
    · exact made.unmarked key earlier
  · have first := made.aggregations
    have second := made'.aggregations
    rw [begun_append, List.map_append, List.sum_append]
    omega

theorem Pays.mono (h : Pays sources self names due s s') {names' : List String}
    (within : names ⊆ names') (le : due ≤ due') : Pays sources self names' due' s s' := by
  obtain ⟨new, made⟩ := h
  refine ⟨new, made.lookedUp, made.marks, fun mark member => within (made.periods mark member),
    made.nodup, made.unmarked, ?_⟩
  have paid := made.aggregations
  omega

/-- Marks are only made for the given periods. -/
theorem Pays.progress? (h : Pays sources self names due s s') (code : String) {period : String}
    (outside : period ∉ names) :
    s'.cache.progress? code period = s.cache.progress? code period := by
  obtain ⟨new, made⟩ := h
  have none : List.lookup (code, period) new = none := by
    refine List.lookup_eq_none_iff.2 fun mark member => ?_
    rw [bne_iff_ne]
    intro same
    have inside := made.periods mark member
    rw [← same] at inside
    exact outside inside
  unfold Cache.progress?
  rw [made.marks, List.lookup_append, none]
  rfl

/-- An operation that leaves the cache alone pays what it costs. -/
theorem Pays.quiet (looked : LookedUp sources self (fun _ => True) s.cache)
    (same : s'.cache = s.cache)
    (asked : s'.trace.aggregations ≤ s.trace.aggregations + due) :
    Pays sources self names due s s' := by
  refine ⟨[], same ▸ looked, by rw [same]; rfl, ?_, List.nodup_nil, ?_, asked⟩
  · intro mark member
    cases member
  · intro key member
    cases member

/-- However the operation ends, it pays. -/
def Careful (sources : Sources) (inst : Instance) (names : List String) (due : Nat) {α : Type}
    (action : Evaluation α) : Prop :=
  ∀ s : Session, LookedUp sources inst (fun _ => True) s.cache →
    Pays sources inst names due s (action.run.run s).2

variable {α β : Type}

theorem pays_bind {action : Evaluation α} {next : α → Evaluation β}
    (first : Pays sources self names due s (action.run.run s).2)
    (rest : ∀ a u, Runs action s a u → LookedUp sources self (fun _ => True) u.cache →
      Pays sources self names due' u ((next a).run.run u).2) :
    Pays sources self names (due + due') s ((action >>= next).run.run s).2 := by
  refine outcome_bind (P := fun u : Session => Pays sources self names (due + due') s u) ?_ ?_
  · intro e u ran
    rw [ran] at first
    exact first.mono (List.Subset.refl _) (Nat.le_add_right _ _)
  · intro a u ran
    rw [show action.run.run s = (.ok a, u) from ran] at first
    obtain ⟨new, made⟩ := first
    exact Pays.trans ⟨new, made⟩ (rest a u ran made.lookedUp)

theorem pays_next {action : Evaluation α} {next : α → Evaluation β}
    (first : Pays sources self names 0 s (action.run.run s).2)
    (rest : ∀ a u, Runs action s a u → LookedUp sources self (fun _ => True) u.cache →
      Pays sources self names due u ((next a).run.run u).2) :
    Pays sources self names due s ((action >>= next).run.run s).2 := by
  have both := pays_bind first rest
  rw [Nat.zero_add] at both
  exact both

theorem Careful.bind {action : Evaluation α} {next : α → Evaluation β}
    (first : Careful sources self names due action)
    (rest : ∀ a, Careful sources self names due' (next a)) :
    Careful sources self names (due + due') (action >>= next) :=
  fun s looked => pays_bind (first s looked) fun a u _ looked' => rest a u looked'

theorem Careful.next {action : Evaluation α} {next : α → Evaluation β}
    (first : Careful sources self names 0 action)
    (rest : ∀ a, Careful sources self names due (next a)) :
    Careful sources self names due (action >>= next) :=
  fun s looked => pays_next (first s looked) fun a u _ looked' => rest a u looked'

theorem Careful.last {action : Evaluation α} {next : α → Evaluation β}
    (first : Careful sources self names due action)
    (rest : ∀ a, Careful sources self names 0 (next a)) :
    Careful sources self names due (action >>= next) :=
  first.bind rest

theorem Careful.pure (a : α) : Careful sources self names 0 (Pure.pure a : Evaluation α) :=
  fun _ looked => .quiet looked rfl (Nat.le_refl _)

theorem Careful.ofTraced {action : Traced α} (costs : Costs due action) :
    Careful sources self names due (Evaluation.ofTraced action) :=
  fun s looked => .quiet looked rfl (costs s.trace)

theorem Careful.ofResult (result : Result α) :
    Careful sources self names 0 (Evaluation.ofResult result) :=
  .ofTraced (Costs.ofResult result)

theorem Careful.log (level : LogLevel) (text : String) :
    Careful sources self names 0 (Evaluation.log level text) :=
  .ofTraced (Costs.log level text)

end Sources

namespace Sheet

open Sources

variable {sources : Sources} {self : Instance} {names : List String} {sheet : Sheet}
  (careful : ∀ code, Careful sources self names 0 (sheet.subReport code))

include careful

theorem bindSubReport_careful (findings : Findings) (code : String) :
    Careful sources self names 0 (sheet.bindSubReport findings code) := by
  unfold bindSubReport
  split
  · exact .pure _
  · refine (careful code).next fun answer => ?_
    cases answer <;> exact .pure _

theorem bindSubReports_careful (asked : List String) (findings : Findings) :
    Careful sources self names 0 (asked.foldlM sheet.bindSubReport findings) := by
  induction asked generalizing findings with
  | nil => exact .pure _
  | cons code asked ih =>
    rw [List.foldlM_cons]
    exact (bindSubReport_careful careful findings code).next ih

theorem pass_careful (queue : List CompiledKpi) (findings : Findings) :
    Careful sources self names 0 (sheet.pass findings queue) := by
  induction queue generalizing findings with
  | nil => exact .pure _
  | cons compiled queue ih =>
    refine (bindSubReports_careful careful compiled.subReports findings).next fun prepared => ?_
    refine Careful.next (.ofTraced ?_) fun settled => (ih settled).next fun _ => .pure _
    exact (compiled.kpi.costs_styleIn _).next fun _ => Costs.pure _

theorem passes_careful (findings : Findings) (queue : List CompiledKpi) :
    Careful sources self names 0 (sheet.passes findings queue) := by
  rw [passes]
  refine (pass_careful careful queue findings).next ?_
  rintro ⟨after, retry⟩
  dsimp only
  split
  · exact .pure _
  · split
    · exact (passes_careful after retry).next fun _ => .pure _
    · exact (Careful.log _ _).next fun _ => .pure _
termination_by queue.length

end Sheet

namespace Sources

variable {sources : Sources} {self : Instance} {column : Column} {names : List String}

theorem registry_careful {template : Template}
    (own : sources.library.get template.code = .ok template) :
    Careful sources self names 0 (sources.registry self template) := by
  intro s looked
  unfold registry
  rw [Evaluation.run_getCache_bind]
  split
  · exact Careful.pure _ s looked
  · refine pays_next (Careful.ofTraced (costs_newRegistry template) s looked)
      fun registry u ran looked' => ?_
    obtain ⟨t, made, rfl⟩ := Evaluation.runs_ofTraced.1 ran
    have kept := looked'.keepRegistry (fun _ => own) (steady_newRegistry template made)
    refine ⟨[], kept, rfl, ?_, List.nodup_nil, ?_, Nat.le_refl _⟩
    · intro mark member
      cases member
    · intro key member
      cases member

/-- The mark of a report that has none begins it, and its balances are paid for from then on. -/
theorem Pays.begin {code period : String} {s s' : Session}
    (unmarked : s.cache.progress? code period = none) (inside : period ∈ names)
    (h : Pays sources self names (sources.requests self code)
      { s with cache := s.cache.mark code period .started } s') :
    Pays sources self names 0 s s' := by
  obtain ⟨new, made⟩ := h
  have fresh := Cache.unmarked_of_progress? unmarked
  have own : begun [((code, period), Progress.started)] = [(code, period)] := rfl
  refine ⟨new ++ [((code, period), .started)], made.lookedUp, ?_, ?_, ?_, ?_, ?_⟩
  · rw [made.marks, List.append_assoc]
    rfl
  · intro mark member
    rcases List.mem_append.1 member with member | member
    · exact made.periods mark member
    · obtain rfl := List.mem_singleton.1 member
      exact inside
  · rw [begun_append, own]
    refine List.Nodup.append made.nodup (List.nodup_singleton _) fun key later member => ?_
    obtain rfl := List.mem_singleton.1 member
    exact made.unmarked _ later List.mem_cons_self
  · intro key member
    rw [begun_append, own] at member
    rcases List.mem_append.1 member with later | member
    · intro marked
      exact made.unmarked key later (List.mem_cons_of_mem _ marked)
    · obtain rfl := List.mem_singleton.1 member
      exact fresh
  · have paid := made.aggregations
    rw [begun_append, own, List.map_append, List.sum_append, List.map_singleton,
      List.sum_singleton]
    dsimp only at paid ⊢
    omega

theorem careful_finish {code period : String} (inside : period ∈ names) (values : Table Value) :
    Careful sources self names 0
      (Evaluation.modifyCache fun cache => cache.mark code period (.finished values)) := by
  intro s looked
  refine ⟨[((code, period), .finished values)], looked, rfl, ?_, List.nodup_nil, ?_, Nat.le_refl _⟩
  · intro mark member
    obtain rfl := List.mem_singleton.1 member
    exact inside
  · intro key member
    cases member

/-- A report that has no mark for the period of the column is begun, and its balances are asked for
once. -/
theorem evaluateWith_pays {template : Template}
    (own : sources.library.get template.code = .ok template)
    {subReport : String → Evaluation (Option (Table Value))}
    (careful : ∀ code, Careful sources self names 0 (subReport code))
    (inside : column.period.name ∈ names) {s : Session}
    (looked : LookedUp sources self (fun _ => True) s.cache)
    (unmarked : s.cache.progress? template.code column.period.name = none) :
    Pays sources self names 0 s
      ((sources.evaluateWith self column subReport template).run.run s).2 := by
  unfold evaluateWith
  rw [Evaluation.run_modifyCache_bind]
  refine Pays.begin unmarked inside ?_
  refine pays_next (registry_careful own _ looked) fun registry u ran looked' => ?_
  have gives := looked' _ _ _ trivial own (registry_grows ran column.period.name).2
  rw [requests_eq own gives]
  refine Careful.last (.ofTraced (costs_firstScope template registry)) (fun base => ?_) u looked'
  refine (Careful.ofResult _).next fun queue => ?_
  have passes : Careful sources self names 0
      ((sources.sheet column subReport template).passes { scope := base } queue) :=
    Sheet.passes_careful careful { scope := base } queue
  refine passes.next ?_
  rintro ⟨findings, passes⟩
  exact (Careful.log _ _).next fun _ => (careful_finish inside _).next fun _ => .pure _

theorem subReportValues_careful {evaluate : Template → Evaluation PeriodResults}
    (pays : ∀ {template s}, sources.library.get template.code = .ok template →
      LookedUp sources self (fun _ => True) s.cache →
      s.cache.progress? template.code column.period.name = none →
      Pays sources self names 0 s ((evaluate template).run.run s).2) (code : String) :
    Careful sources self names 0 (sources.subReportValues column evaluate code) := by
  intro s looked
  unfold subReportValues
  rw [Evaluation.run_getCache_bind]
  cases known : s.cache.progress? code column.period.name with
  | some progress =>
    cases progress with
    | finished values => exact Careful.pure _ s looked
    | started => exact ((Careful.log _ _).next fun _ => .pure _) s looked
  | none =>
    refine pays_next (Careful.ofResult _ s looked) fun template u ran _ => ?_
    obtain ⟨get, rfl⟩ := Evaluation.runs_ofResult.1 ran
    obtain rfl := Library.code_of_get get
    refine pays_next (Careful.log _ _ u looked) fun _ v log looked' => ?_
    rw [← Evaluation.cache_of_runs_log log] at known
    exact pays_next (pays get looked' known) fun found w _ looked'' =>
      Careful.pure _ w looked''

theorem evaluateNested_pays (depth : Nat) {template : Template} {s : Session}
    (inside : column.period.name ∈ names)
    (own : sources.library.get template.code = .ok template)
    (looked : LookedUp sources self (fun _ => True) s.cache)
    (unmarked : s.cache.progress? template.code column.period.name = none) :
    Pays sources self names 0 s
      ((sources.evaluateNested self column depth template).run.run s).2 := by
  induction depth generalizing template s with
  | zero => exact evaluateWith_pays own (fun _ => .pure _) inside looked unmarked
  | succ depth ih =>
    exact evaluateWith_pays own (subReportValues_careful fun own looked unmarked =>
      ih own looked unmarked) inside looked unmarked

/-! ## Computations -/

theorem fill_pays {template : Template} {s : Session} (inside : column.period.name ∈ names)
    (own : sources.library.get template.code = .ok template)
    (looked : LookedUp sources self (fun _ => True) s.cache)
    (unmarked : s.cache.progress? template.code column.period.name = none) :
    Pays sources self names 0 s ((sources.fill self template column).run.run s).2 := by
  refine pays_next (Careful.log _ _ s looked) fun _ u log looked' => ?_
  rw [← Evaluation.cache_of_runs_log log] at unmarked
  exact pays_next (evaluateNested_pays _ inside own looked' unmarked)
    fun found v _ looked'' => Careful.pure _ v looked''

theorem fills_pay {template : Template} (own : sources.library.get template.code = .ok template)
    {columns : List Column} (nodup : (columns.map fun column => column.period.name).Nodup)
    {s : Session} (looked : LookedUp sources self (fun _ => True) s.cache)
    (unmarked : ∀ column ∈ columns, ∀ code, s.cache.progress? code column.period.name = none) :
    Pays sources self (columns.map fun column => column.period.name) 0 s
      ((columns.mapM (sources.fill self template)).run.run s).2 := by
  induction columns generalizing s with
  | nil => exact Careful.pure _ s looked
  | cons column columns ih =>
    obtain ⟨new, nodup⟩ := List.nodup_cons.1 nodup
    obtain ⟨first, others⟩ := List.forall_mem_cons.1 unmarked
    rw [List.mapM_cons, List.map_cons]
    have one : Pays sources self [column.period.name] 0 s
        ((sources.fill self template column).run.run s).2 :=
      fill_pays List.mem_cons_self own looked (first _)
    refine pays_next (one.mono (by simp) (Nat.le_refl _))
      fun filled u ran looked' => ?_
    rw [show (sources.fill self template column).run.run s = (.ok filled, u) from ran] at one
    refine pays_next ((ih nodup looked' ?_).mono (List.subset_cons_self _ _)
      (Nat.le_refl _)) fun rest v _ looked'' => Careful.pure _ v looked''
    intro other member code
    have differ : other.period.name ∉ [column.period.name] := by
      intro same
      refine new (List.mem_map.2 ⟨other, member, ?_⟩)
      exact List.mem_singleton.1 same
    rw [one.progress? code differ]
    exact others other member code

/-- What a computation does before it fills the columns: the template and the columns. -/
def plan (sources : Sources) (self : Instance) : Traced (Template × List Column) := do
  Traced.ofResult self.validate
  let template ← Traced.ofResult (sources.library.get self.report)
  Traced.ofResult template.validate
  let pivot ← Traced.ofResult (sources.pivotDate self)
  let columns ← sources.columns self pivot self.sortedPeriods
  Traced.log .info
    ("Computing report '" ++ template.code ++ "' for instance '" ++ self.name ++ "': " ++
      toString columns.length ++ " valid period(s), pivot date " ++ pivot.toText)
  return (template, columns)

/-- A computation is its plan, the columns filled with one cache, and the layout. -/
theorem compute_eq : sources.compute self = (do
    let (template, columns) ← sources.plan self
    let filled ← Evaluation.onNewCache (columns.mapM (sources.fill self template))
    Traced.ofResult (template.layOut sources.settings.locale filled)) := by
  simp only [compute, filledColumns, plan, bind_assoc, pure_bind]

/-- The session in which a computation leaves its evaluations. -/
def lastSession (sources : Sources) (inst : Instance) (t : Trace) : Session :=
  match (sources.plan inst).run.run t with
  | (.error _, u) => { trace := u }
  | (.ok (template, columns), u) =>
    ((columns.mapM (sources.fill inst template)).run.run { trace := u }).2

theorem costs_plan : Costs 0 (sources.plan self) := by
  have costs_resolve (period : Period) (pivot : Calendar.Date) :
      Costs 0 (period.resolve sources.ledger self.company pivot) := by
    refine (Costs.ofResult _).next fun bounds => ?_
    cases bounds with
    | some bounds => exact .pure _
    | none => exact (Costs.log _ _).next fun _ => .pure _
  have costs_columns (pivot : Calendar.Date) (periods : List Period) :
      Costs 0 (sources.columns self pivot periods) := by
    induction periods with
    | nil => exact .pure _
    | cons period periods ih =>
      exact (costs_resolve period pivot).next fun _ => ih.next fun _ => .pure _
  exact (Costs.ofResult _).next fun _ => (Costs.ofResult _).next fun _ =>
    (Costs.ofResult _).next fun _ => (Costs.ofResult _).next fun _ =>
      (costs_columns _ _).next fun _ => (Costs.log _ _).next fun _ => .pure _

theorem sublist_columns {pivot : Calendar.Date} {periods : List Period} {columns : List Column}
    {t t' : Trace} (h : Runs (sources.columns self pivot periods) t columns t') :
    (columns.map Column.period).Sublist periods := by
  induction periods generalizing columns t t' with
  | nil =>
    obtain ⟨rfl, -⟩ := runs_pure.1 h
    exact .refl _
  | cons period periods ih =>
    obtain ⟨bounds, u, resolve, h⟩ := runs_bind.1 h
    obtain ⟨more, v, rest, h⟩ := runs_bind.1 h
    obtain ⟨rfl, -⟩ := runs_pure.1 h
    cases bounds with
    | none => exact (ih rest).cons period
    | some bounds => exact (ih rest).cons_cons period

/-- The columns that a computation plans have different names. -/
theorem plan_inv {template : Template} {columns : List Column} {t t' : Trace}
    (h : Runs (sources.plan self) t (template, columns) t') :
    sources.library.get template.code = .ok template ∧
      (columns.map fun column => column.period.name).Nodup := by
  obtain ⟨⟨⟩, u₁, valid, h⟩ := runs_bind.1 h
  obtain ⟨stored, u₂, get, h⟩ := runs_bind.1 h
  obtain ⟨⟨⟩, u₃, -, h⟩ := runs_bind.1 h
  obtain ⟨pivot, u₄, -, h⟩ := runs_bind.1 h
  obtain ⟨planned, u₅, made, h⟩ := runs_bind.1 h
  obtain ⟨⟨⟩, u₆, -, h⟩ := runs_bind.1 h
  obtain ⟨same, -⟩ := runs_pure.1 h
  cases same
  obtain ⟨valid, -⟩ := runs_ofResult.1 valid
  obtain ⟨get, -⟩ := runs_ofResult.1 get
  refine ⟨(Library.code_of_get get).symm ▸ get, ?_⟩
  obtain ⟨names, checked, -⟩ := bind_eq_ok.1 valid
  have nodup := (Instance.nodup_of_checkPeriods checked).1
  have sorted : (self.sortedPeriods.map Period.name).Nodup :=
    ((List.mergeSort_perm self.periods _).map Period.name).nodup_iff.2 nodup
  have part := (sublist_columns made).map Period.name
  rw [List.map_map] at part
  exact sorted.sublist part

/-- The trace of a computation is that of its last session, whether it succeeds or not. -/
theorem trace_lastSession (t : Trace) :
    ((sources.compute self).run.run t).2 = (sources.lastSession self t).trace := by
  rw [compute_eq, ExceptT.run_bind, StateT.run_bind]
  unfold lastSession
  cases planned : (sources.plan self).run.run t with
  | mk result u =>
    cases result with
    | error e => rfl
    | ok plan =>
      obtain ⟨template, columns⟩ := plan
      let filling : Evaluation (List FilledColumn) := columns.mapM (sources.fill self template)
      have opened : (Evaluation.onNewCache filling).run.run u =
          ((filling.run.run { trace := u }).1, (filling.run.run { trace := u }).2.trace) := rfl
      change (StateT.run (ExceptT.run (Evaluation.onNewCache filling >>= _)) u).2 =
        (filling.run.run { trace := u }).2.trace
      rw [ExceptT.run_bind, StateT.run_bind, opened]
      cases ran : filling.run.run { trace := u } with
      | mk result s' => cases result <;> rfl

/-- Whether a computation succeeds or not, it begins no report twice. -/
theorem lastSession_pays (t : Trace) :
    ∃ names, Pays sources self names 0 { trace := t } (sources.lastSession self t) := by
  have costs : Costs 0 (sources.plan self) := costs_plan
  have cost := costs t
  unfold lastSession
  cases planned : (sources.plan self).run.run t with
  | mk result u =>
    rw [planned] at cost
    have before (names : List String) : Pays sources self names 0 { trace := t } { trace := u } :=
      .quiet lookedUp_empty rfl cost
    cases result with
    | error e => exact ⟨[], before []⟩
    | ok plan =>
      obtain ⟨template, columns⟩ := plan
      obtain ⟨own, nodup⟩ := plan_inv planned
      exact ⟨_, (before _).trans (fills_pay own nodup lookedUp_empty fun _ _ _ => rfl)⟩

/-! ## The number of passes -/

end Sources

/-- Each pass but the last settles a KPI. -/
theorem Findings.passes_le (period : String) (locale : Locale) (answers : Answers)
    (findings : Findings) (queue : List CompiledKpi) :
    (findings.passes period locale answers queue).2 ≤ max 1 queue.length := by
  rw [passes]
  generalize findings.pass period locale answers queue = one
  obtain ⟨after, retry⟩ := one
  dsimp only
  split
  · exact Nat.le_max_left _ _
  · rename_i left
    split
    · rename_i shorter
      have rest := passes_le period locale answers after retry
      have some : retry.length ≠ 0 := fun none =>
        left (List.isEmpty_iff.2 (List.length_eq_zero_iff.1 none))
      dsimp only
      omega
    · exact Nat.le_max_left _ _
termination_by queue.length

namespace Sources

variable {sources : Sources} {self : Instance} {column : Column}

theorem passes_of_evaluate {template : Template} {s s' : Session} {found : PeriodResults}
    (h : Runs (sources.evaluate self column template) s found s') :
    found.passes ≤ max 1 template.kpis.length := by
  have room := (Cache.room_size sources.library column.period.name
    (s.cache.mark template.code column.period.name .started)).mono (Nat.le_succ _)
  obtain ⟨registry, base, queue, findings, c, ends⟩ := evaluateNested_grows h room
  have bound := Findings.passes_le column.period.name sources.settings.locale
    (c.answers column.period.name) { scope := base } queue
  rw [ends.computes.passes] at bound
  have length : queue.length = template.kpis.length := by
    rw [← (mapM_eq_ok.1 ends.computes.compile).length_eq]
    exact (List.mergeSort_perm _ _).length_eq
  rwa [length] at bound

/-- **Evaluation comes to an end and repeats no work.** In any library and cache:

* an evaluation is the same whatever is put in place of what lies deeper than the library is large,
  so it never nests deeper;
* it takes no more passes than there are KPIs, and one if there are none;
* a computation, whether it succeeds or not, begins no report twice for a period, and asks the ledger
  for no more totals than the reports that it begins need once each. -/
theorem evaluation_bounded (sources : Sources) (self : Instance) :
    (∀ column bottom depth, sources.library.size < depth →
        sources.evaluateOver self column bottom depth = sources.evaluate self column) ∧
      (∀ column template s found s', Runs (sources.evaluate self column template) s found s' →
        found.passes ≤ max 1 template.kpis.length) ∧
      ∀ t, ((sources.compute self).run.run t).2 = (sources.lastSession self t).trace ∧
        (begun (sources.lastSession self t).cache.marks).Nodup ∧
        (sources.lastSession self t).trace.aggregations ≤ t.aggregations +
          ((begun (sources.lastSession self t).cache.marks).map fun key =>
            sources.requests self key.1).sum := by
  refine ⟨fun column bottom depth deep => evaluateOver_eq bottom deep,
    fun column template s found s' run => passes_of_evaluate run,
    fun t => ⟨trace_lastSession t, ?_⟩⟩
  have pays : ∃ names, Pays sources self names 0 { trace := t } (sources.lastSession self t) :=
    lastSession_pays t
  obtain ⟨names, new, made⟩ := pays
  have marks : (sources.lastSession self t).cache.marks = new := by
    rw [made.marks]
    exact List.append_nil new
  rw [marks]
  exact ⟨made.nodup, made.aggregations⟩

end Sources

/-- With no other reports nothing lies deeper, and the four KPIs of the sample take at most four
passes. -/
theorem Sources.evaluation_bounded_sample :
    (∀ bottom, Sample.sources.evaluateOver Sample.self Sample.column bottom 1 =
        Sample.sources.evaluate Sample.self Sample.column) ∧
      ∃ found s', Runs (Sample.sources.evaluate Sample.self Sample.column Sample.template) {} found
        s' ∧ found.passes ≤ 4 := by
  obtain ⟨found, s', run⟩ := Sample.runs_evaluate
  obtain ⟨ends, passes, -⟩ := Sources.evaluation_bounded Sample.sources Sample.self
  exact ⟨fun bottom => ends Sample.column bottom 1 (by decide), found, s', run,
    passes _ _ _ _ _ run⟩

end KpiReport
