import KpiReport.Evaluation.Template
import KpiReport.Proofs.Evaluation.Passes

/-!
# The stages of an evaluation

An evaluation looks up the account tokens, makes the first scope, compiles the KPIs and lets the
passes run. The lemmas take a run of it apart (`Sources.evaluateWith_inv`) and put one together from
runs of its stages (`Sources.evaluateWith_runs`). The account tokens that it keeps in the cache are
those of the template (`Sources.LookedUp`).
-/

namespace KpiReport

/-- The mark of a report that gave an answer. -/
def Progress.ofAnswer : Option (Table Value) → Progress
  | some values => finished values
  | none => started

/-- The values at the end of an evaluation, none while it is going on. -/
def Progress.values? : Progress → Option (Table Value)
  | started => none
  | finished values => some values

theorem Progress.values?_ofAnswer (answer : Option (Table Value)) :
    (ofAnswer answer).values? = answer := by
  cases answer <;> rfl

namespace Sources

variable {sources : Sources} {self : Instance} {column : Column}

/-- The sheet on which a template is evaluated. -/
def sheet (sources : Sources) (column : Column)
    (subReport : String → Evaluation (Option (Table Value))) (template : Template) : Sheet :=
  ⟨template.code, column.period.name, sources.settings.locale, subReport⟩

/-- The stages of an evaluation: the account tokens are looked up, the first scope and the compiled
KPIs are made, and the passes run from the session `u` to the session `v`. -/
structure Stages (sources : Sources) (inst : Instance) (column : Column)
    (subReport : String → Evaluation (Option (Table Value))) (template : Template)
    (registry : Registry) (base : Scope) (queue : List CompiledKpi) (found : Findings × Nat)
    (start : Cache) (u v : Session) : Prop where
  lookUp : ∃ s s', s.cache = start.mark template.code column.period.name .started ∧
    Runs (sources.registry inst template) s registry s' ∧ s'.cache = u.cache
  scope : ∃ t t', Runs (sources.firstScope inst column template registry) t base t'
  compile : template.sortedKpis.mapM (CompiledKpi.ofKpi sources.library template registry) =
    .ok queue
  passes : Runs ((sources.sheet column subReport template).passes { scope := base } queue) u found v

theorem evaluateWith_inv {subReport : String → Evaluation (Option (Table Value))}
    {template : Template} {s s' : Session} {found : PeriodResults}
    (h : Runs (sources.evaluateWith self column subReport template) s found s') :
    ∃ registry base queue findings u v,
      Stages sources self column subReport template registry base queue (findings, found.passes)
        s.cache u v ∧
      found.results = findings.results ∧
      s'.cache = v.cache.mark template.code column.period.name (.finished found.values) := by
  obtain ⟨⟨⟩, s₁, start, h⟩ := runs_bind.1 h
  obtain ⟨registry, s₂, lookUp, h⟩ := runs_bind.1 h
  obtain ⟨base, s₃, scope, h⟩ := runs_bind.1 h
  obtain ⟨queue, s₄, compile, h⟩ := runs_bind.1 h
  obtain ⟨⟨findings, count⟩, v, passes, h⟩ := runs_bind.1 h
  obtain ⟨⟨⟩, s₅, log, h⟩ := runs_bind.1 h
  obtain ⟨⟨⟩, s₆, stop, h⟩ := runs_bind.1 h
  obtain ⟨rfl, rfl⟩ := runs_pure.1 h
  have started := Evaluation.runs_modifyCache.1 start
  have stopped := Evaluation.runs_modifyCache.1 stop
  obtain ⟨t, first, rfl⟩ := Evaluation.runs_ofTraced.1 scope
  obtain ⟨compiled, rfl⟩ := Evaluation.runs_ofResult.1 compile
  refine ⟨registry, base, queue, findings, { s₂ with trace := t }, v, ⟨⟨s₁, s₂, ?_, lookUp, rfl⟩,
    ⟨_, t, first⟩, compiled, passes⟩, rfl, ?_⟩
  · rw [started]
  · rw [stopped, ← Evaluation.cache_of_runs_log log]

theorem registry_inv {template : Template} {s s' : Session} {registry : Registry}
    (h : Runs (sources.registry self template) s registry s') :
    (s.cache.registries.get? template.code = some registry ∧ s'.cache = s.cache) ∨
      (s.cache.registries.get? template.code = none ∧
        (∃ t t', Runs (sources.newRegistry self template) t registry t') ∧
        s'.cache = s.cache.keepRegistry template.code registry) := by
  obtain ⟨cache, s₁, get, h⟩ := runs_bind.1 h
  obtain ⟨rfl, rfl⟩ := Evaluation.runs_getCache.1 get
  split at h
  · rename_i known
    obtain ⟨rfl, rfl⟩ := runs_pure.1 h
    exact Or.inl ⟨known, rfl⟩
  · rename_i unknown
    obtain ⟨registry', s₂, lookUp, h⟩ := runs_bind.1 h
    obtain ⟨⟨⟩, s₃, keep, h⟩ := runs_bind.1 h
    obtain ⟨rfl, rfl⟩ := runs_pure.1 h
    obtain ⟨t, made, rfl⟩ := Evaluation.runs_ofTraced.1 lookUp
    rw [Evaluation.runs_modifyCache.1 keep]
    exact Or.inr ⟨unknown, ⟨_, t, made⟩, rfl⟩

theorem subReportValues_inv {evaluate : Template → Evaluation PeriodResults} {code : String}
    {s s' : Session} {answer : Option (Table Value)}
    (h : Runs (sources.subReportValues column evaluate code) s answer s') :
    (s.cache.progress? code column.period.name = some (.ofAnswer answer) ∧ s'.cache = s.cache) ∨
      (s.cache.progress? code column.period.name = none ∧ ∃ template found u,
        sources.library.get code = .ok template ∧ u.cache = s.cache ∧
        Runs (evaluate template) u found s' ∧ answer = some found.values) := by
  obtain ⟨cache, s₁, get, h⟩ := runs_bind.1 h
  obtain ⟨rfl, rfl⟩ := Evaluation.runs_getCache.1 get
  split at h
  · rename_i values known
    obtain ⟨rfl, rfl⟩ := runs_pure.1 h
    exact Or.inl ⟨known, rfl⟩
  · rename_i known
    obtain ⟨⟨⟩, s₂, log, h⟩ := runs_bind.1 h
    obtain ⟨rfl, rfl⟩ := runs_pure.1 h
    exact Or.inl ⟨known, Evaluation.cache_of_runs_log log⟩
  · rename_i unknown
    obtain ⟨template, s₂, get, h⟩ := runs_bind.1 h
    obtain ⟨⟨⟩, s₃, log, h⟩ := runs_bind.1 h
    obtain ⟨found, s₄, run, h⟩ := runs_bind.1 h
    obtain ⟨rfl, rfl⟩ := runs_pure.1 h
    obtain ⟨stored, rfl⟩ := Evaluation.runs_ofResult.1 get
    exact Or.inr ⟨unknown, template, found, s₃, stored, Evaluation.cache_of_runs_log log, run, rfl⟩

/-! ## Putting runs together -/

theorem registry_runs {template : Template} {registry : Registry}
    (gives : (sources.newRegistry self template).Gives registry) {s : Session}
    (kept : ∀ other, s.cache.registries.get? template.code = some other → other = registry) :
    ∃ s', Runs (sources.registry self template) s registry s' ∧
      (s'.cache = s.cache ∨ s'.cache = s.cache.keepRegistry template.code registry) := by
  have get : Runs Evaluation.getCache s s.cache s := Evaluation.runs_getCache.2 ⟨rfl, rfl⟩
  cases known : s.cache.registries.get? template.code with
  | some other =>
    obtain rfl := kept other known
    refine ⟨s, runs_bind.2 ⟨_, s, get, ?_⟩, Or.inl rfl⟩
    rw [known]
    exact runs_pure.2 ⟨rfl, rfl⟩
  | none =>
    obtain ⟨t, made⟩ := Evaluation.exists_runs_ofTraced gives s
    refine ⟨{ cache := s.cache.keepRegistry template.code registry, trace := t },
      runs_bind.2 ⟨_, s, get, ?_⟩, Or.inr rfl⟩
    rw [known]
    exact runs_bind.2 ⟨registry, _, made, runs_bind.2 ⟨(), _, Evaluation.runs_modifyCache.2 rfl,
      runs_pure.2 ⟨rfl, rfl⟩⟩⟩

/-- An evaluation runs if its stages do: the account tokens are looked up from the marked cache, and
the passes run from every session with the cache that this leaves. -/
theorem evaluateWith_runs {subReport : String → Evaluation (Option (Table Value))}
    {template : Template} {registry : Registry} {base : Scope} {queue : List CompiledKpi}
    {found : Findings × Nat} {s u : Session}
    (lookUp : Runs (sources.registry self template)
      { s with cache := s.cache.mark template.code column.period.name .started } registry u)
    (scope : (sources.firstScope self column template registry).Gives base)
    (compile : template.sortedKpis.mapM (CompiledKpi.ofKpi sources.library template registry) =
      .ok queue)
    (passes : ∀ t, ∃ v, Runs ((sources.sheet column subReport template).passes { scope := base }
      queue) { u with trace := t } found v) :
    ∃ s', Runs (sources.evaluateWith self column subReport template) s
      ⟨found.1.results, found.2⟩ s' := by
  obtain ⟨t, first⟩ := Evaluation.exists_runs_ofTraced scope u
  obtain ⟨v, run⟩ := passes t
  obtain ⟨t', log⟩ := Evaluation.exists_runs_log .debug
    ("Report '" ++ template.code ++ "', period '" ++ column.period.name ++ "': " ++
      toString found.1.results.length ++ " KPI(s) evaluated in " ++ toString found.2 ++
      " pass(es)") v
  let values := (PeriodResults.mk found.1.results found.2).values
  refine ⟨{ cache := v.cache.mark template.code column.period.name (.finished values), trace := t' },
    runs_bind.2 ⟨(), _, Evaluation.runs_modifyCache.2 rfl, ?_⟩⟩
  refine runs_bind.2 ⟨registry, u, lookUp, runs_bind.2 ⟨base, _, first, ?_⟩⟩
  refine runs_bind.2 ⟨queue, _, Evaluation.runs_ofResult.2 ⟨compile, rfl⟩, ?_⟩
  refine runs_bind.2 ⟨found, v, run, runs_bind.2 ⟨(), _, log, ?_⟩⟩
  exact runs_bind.2 ⟨(), _, Evaluation.runs_modifyCache.2 rfl, runs_pure.2 ⟨rfl, rfl⟩⟩

/-- An evaluation runs if all reports reply that its KPIs refer to, and finds what they answer. -/
theorem evaluateWith_runs_of_replies {subReport : String → Evaluation (Option (Table Value))}
    {template : Template} {registry : Registry} {base : Scope} {queue : List CompiledKpi}
    {answers : Answers} {codes : String → Prop} {J : Cache → Prop} {s : Session}
    (tokens : (sources.newRegistry self template).Gives registry)
    (kept : ∀ other, s.cache.registries.get? template.code = some other → other = registry)
    (scope : (sources.firstScope self column template registry).Gives base)
    (compile : template.sortedKpis.mapM (CompiledKpi.ofKpi sources.library template registry) =
      .ok queue)
    (start : ∀ u, Runs (sources.registry self template)
      { s with cache := s.cache.mark template.code column.period.name .started } registry u →
      J u.cache)
    (replies : (sources.sheet column subReport template).Replies codes answers J)
    (inside : ∀ compiled ∈ queue, ∀ code ∈ compiled.subReports, codes code) :
    let ended := Findings.passes column.period.name sources.settings.locale answers
      { scope := base } queue
    ∃ s', Runs (sources.evaluateWith self column subReport template) s
      ⟨ended.1.results, ended.2⟩ s' := by
  obtain ⟨u, lookUp, -⟩ := registry_runs tokens
    (s := { s with cache := s.cache.mark template.code column.period.name .started }) kept
  refine evaluateWith_runs lookUp scope compile fun t => ?_
  obtain ⟨v, run, -⟩ := Sheet.passes_runs replies inside { scope := base }
    (s := { u with trace := t }) (start u lookUp)
  exact ⟨v, run⟩

theorem subReportValues_runs_finished {evaluate : Template → Evaluation PeriodResults}
    {code : String} {s : Session} {values : Table Value}
    (known : s.cache.progress? code column.period.name = some (.finished values)) :
    Runs (sources.subReportValues column evaluate code) s (some values) s := by
  refine runs_bind.2 ⟨_, s, Evaluation.runs_getCache.2 ⟨rfl, rfl⟩, ?_⟩
  rw [known]
  exact runs_pure.2 ⟨rfl, rfl⟩

theorem subReportValues_runs_new {evaluate : Template → Evaluation PeriodResults} {code : String}
    {s : Session} {template : Template} {found : PeriodResults}
    (unknown : s.cache.progress? code column.period.name = none)
    (get : sources.library.get code = .ok template)
    (run : ∀ t, ∃ s', Runs (evaluate template) { s with trace := t } found s') :
    ∃ s', Runs (sources.subReportValues column evaluate code) s (some found.values) s' := by
  obtain ⟨t, log⟩ := Evaluation.exists_runs_log .debug
    ("Computing sub-report '" ++ code ++ "' for period '" ++ column.period.name ++ "'") s
  obtain ⟨s', run⟩ := run t
  refine ⟨s', runs_bind.2 ⟨_, s, Evaluation.runs_getCache.2 ⟨rfl, rfl⟩, ?_⟩⟩
  rw [unknown]
  refine runs_bind.2 ⟨template, s, Evaluation.runs_ofResult.2 ⟨get, rfl⟩, ?_⟩
  exact runs_bind.2 ⟨(), _, log, runs_bind.2 ⟨found, s', run, runs_pure.2 ⟨rfl, rfl⟩⟩⟩

end Sources

/-! ## Stages that do not depend on the trace -/

open Traced

theorem Registry.oblivious_resolve (registry : Registry) (ledger : Ledger) (root : String) :
    Oblivious (registry.resolve ledger root) := by
  refine (Oblivious.ofResult _).bind fun chart => (Oblivious.forM (fun entry => ?_) _).bind fun _ =>
    .pure _
  unfold Registry.warnUnmatched
  split
  · exact .log _ _
  · exact .pure _

theorem Registry.oblivious_balances (registry : Registry) (ledger : Ledger) (bounds : Bounds)
    (target : TargetMove) (extra : Filter) :
    Oblivious (registry.balances ledger bounds target extra) := by
  refine (Oblivious.ofResult _).bind fun accounts => (Oblivious.mapM (fun group => ?_) _).bind
    fun _ => .pure _
  exact (Oblivious.log _ _).bind fun _ => Oblivious.countAggregation.bind fun _ =>
    (Oblivious.ofResult _).bind fun _ => .pure _

theorem Query.oblivious_fetch (query : Query) (store : RecordStore) (offset : Calendar.UtcOffset)
    (bounds : Bounds) (extra : Option Filter) :
    Oblivious (query.fetch store offset bounds extra) := by
  refine (Oblivious.ofResult _).bind fun filter => ?_
  cases query.aggregate with
  | none =>
    exact (Oblivious.ofResult _).bind fun records => (Oblivious.log _ _).bind fun _ => .pure _
  | some aggregate =>
    refine (Oblivious.ofResult _).bind fun stored => ?_
    split
    · refine Oblivious.countGroupedRead.bind fun _ => (Oblivious.ofResult _).bind fun totals =>
        (Oblivious.mapM (fun field => ?_) _).bind fun _ => .pure _
      refine Oblivious.bind ?_ fun _ => .pure _
      unfold Query.sumValue
      split
      · exact .pure _
      · exact (Oblivious.log _ _).bind fun _ => .pure _
    · exact (Oblivious.ofResult _).bind fun records => (Oblivious.mapM (fun field =>
        (Oblivious.ofResult _).bind fun _ => .pure _) _).bind fun _ => .pure _

/-- Fetching the queries comes to the same after every trace, even where one of them fails. -/
theorem Query.exists_fetchInto (store : RecordStore) (offset : Calendar.UtcOffset)
    (bounds : Bounds) (extras : Table Filter) (queries : List Query) (scope : Scope) :
    ∃ found, ∀ t, ∃ t',
      (fetchInto store offset bounds extras scope queries).run t = (found, t') := by
  induction queries generalizing scope with
  | nil => exact ⟨_, fun t => ⟨t, rfl⟩⟩
  | cons query queries ih =>
    rcases query.oblivious_fetch store offset bounds (extras.get? query.name) with
      ⟨value, gives⟩ | ⟨e, fails⟩
    · obtain ⟨found, rest⟩ := ih (scope.insert query.name value)
      refine ⟨found, fun t => ?_⟩
      obtain ⟨u, fetched⟩ := gives t
      obtain ⟨t', more⟩ := rest u
      refine ⟨t', ?_⟩
      rw [fetchInto, StateT.run_bind, show (ExceptT.run (query.fetch store offset bounds
        (extras.get? query.name))).run t = (.ok value, u) from fetched]
      exact more
    · refine ⟨(scope, .error e), fun t => ?_⟩
      obtain ⟨t', failed⟩ := fails t
      refine ⟨t', ?_⟩
      rw [fetchInto, StateT.run_bind, show (ExceptT.run (query.fetch store offset bounds
        (extras.get? query.name))).run t = (.error e, t') from failed]
      rfl

theorem Query.steady_fetchInto {store : RecordStore} {offset : Calendar.UtcOffset} {bounds : Bounds}
    {extras : Table Filter} {queries : List Query} {scope after : Scope} {t t' : Trace}
    (h : (fetchInto store offset bounds extras scope queries).run t = ((after, .ok ()), t'))
    (s : Trace) :
    ∃ s', (fetchInto store offset bounds extras scope queries).run s = ((after, .ok ()), s') := by
  obtain ⟨found, same⟩ := exists_fetchInto store offset bounds extras queries scope
  obtain ⟨u, ran⟩ := same t
  cases h.symm.trans ran
  exact same s

namespace Sources

variable {sources : Sources} {self : Instance} {column : Column}

theorem oblivious_newRegistry (template : Template) :
    Oblivious (sources.newRegistry self template) :=
  (Oblivious.ofResult _).bind fun registered => (registered.oblivious_resolve _ _).bind fun _ =>
    (Oblivious.log _ _).bind fun _ => .pure _

theorem steady_newRegistry (template : Template) : Steady (sources.newRegistry self template) :=
  (oblivious_newRegistry template).steady

theorem oblivious_firstScope (template : Template) (registry : Registry) :
    Oblivious (sources.firstScope self column template registry) := by
  refine (Oblivious.ofResult _).bind fun offset => ?_
  obtain ⟨found, same⟩ := Query.exists_fetchInto sources.store offset column.bounds
    column.period.queryFilters template.queries .empty
  refine (Oblivious.lift same).bind fun fetched => (Oblivious.ofResult _).bind fun _ => ?_
  exact (registry.oblivious_balances sources.ledger column.bounds self.targetMove
    column.period.moveLineFilter).bind fun balances => .pure (balances.bind fetched.1)

theorem steady_firstScope (template : Template) (registry : Registry) :
    Steady (sources.firstScope self column template registry) :=
  (oblivious_firstScope template registry).steady

/-! ## Account tokens in caches -/

/-- The account tokens that a cache holds for the reports `K` are those of their templates. -/
def LookedUp (sources : Sources) (inst : Instance) (K : String → Prop) (cache : Cache) : Prop :=
  ∀ code other registry, K code → sources.library.get code = .ok other →
    cache.registries.get? code = some registry → (sources.newRegistry inst other).Gives registry

variable {K : String → Prop}

theorem lookedUp_empty : LookedUp sources self K {} := by
  intro code other registry _ _ known
  cases known

theorem LookedUp.keepRegistry {cache : Cache} (h : LookedUp sources self K cache)
    {template : Template} (own : K template.code → sources.library.get template.code = .ok template)
    {registry : Registry} (gives : (sources.newRegistry self template).Gives registry) :
    LookedUp sources self K (cache.keepRegistry template.code registry) := by
  intro code other registry' inside get known
  rw [Cache.keepRegistry, Table.get?_insert] at known
  split at known
  · rename_i same
    subst same
    have stored := (own inside).symm.trans get
    cases stored
    cases known
    exact gives
  · exact h code other registry' inside get known

theorem LookedUp.registry {template : Template} {s s' : Session} {registry : Registry}
    (h : LookedUp sources self K s.cache)
    (own : K template.code → sources.library.get template.code = .ok template)
    (run : Runs (sources.registry self template) s registry s') :
    LookedUp sources self K s'.cache := by
  rcases registry_inv run with ⟨-, same⟩ | ⟨-, ⟨t, t', made⟩, kept⟩
  · rw [same]
    exact h
  · rw [kept]
    exact h.keepRegistry own (steady_newRegistry template made)

end Sources

end KpiReport
