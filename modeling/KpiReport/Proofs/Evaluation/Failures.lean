import KpiReport.Evaluation.Template
import KpiReport.Proofs.Evaluation.Passes
import KpiReport.Proofs.Failures
import KpiReport.Proofs.Formula.Written

/-!
# How evaluations fail

An evaluation ends with a failure only where the ledger or the record store reports one, an account
token is malformed, a date leaves the calendar, an aggregate cannot be computed, or a KPI cannot be
compiled (`Sources.failsOnly_evaluate`). Formulas that fail are results and no failures, and a
report that a compiled KPI refers to is always there.
-/

namespace KpiReport

/-- The ledger or the record store reports the failure. -/
inductive Sources.Raises (sources : Sources) : ReportError → Prop where
  | accounts {root : String} {e : ReportError} (h : sources.ledger.accountsUnder root = .error e) :
    Raises sources e
  | totals {filter : Filter} {e : ReportError} (h : sources.ledger.totals filter = .error e) :
    Raises sources e
  | fiscalPeriods {company : String} {e : ReportError}
    (h : sources.ledger.fiscalPeriods company = .error e) : Raises sources e
  | fieldInfo {model field : String} {e : ReportError}
    (h : sources.store.fieldInfo model field = .error e) : Raises sources e
  | searchRead {model : String} {filter : Filter} {fields : List String} {e : ReportError}
    (h : sources.store.searchRead model filter fields = .error e) : Raises sources e
  | readGroup {model : String} {filter : Filter} {fields : List String} {e : ReportError}
    (h : sources.store.readGroup model filter fields = .error e) : Raises sources e

/-- The property of all failures that do not come from compiling: those that the ledger and the
record store report, malformed account tokens, dates outside of the calendar, and aggregates of
values that cannot be aggregated. -/
structure Sources.Usual (sources : Sources) (P : ReportError → Prop) : Prop where
  raised : ∀ e, sources.Raises e → P e
  token : ∀ text fault, P (.malformedToken text fault)
  date : ∀ fault, P (.date fault)
  aggregation : ∀ query aggregate field failure,
    P (.invalidDefinition (.query query) (.aggregation aggregate field failure))

variable {P : ReportError → Prop}

open Result Traced

/-! ## Account tokens -/

namespace AccountToken

section Token

variable (token : ∀ text fault, P (.malformedToken text fault))

include token

theorem failsOnly_withFilter (head : Head) (selectors : List Selector) (text rest : List Char) :
    Result.FailsOnly P (withFilter head selectors text rest) := by
  unfold withFilter
  split
  · split
    · exact failsOnly_error (token _ _)
    · dsimp only
      split
      · exact failsOnly_error (token _ _)
      · exact failsOnly_ok _
  · exact failsOnly_ok _

theorem failsOnly_take? (cs : List Char) : Result.FailsOnly P (take? cs) := by
  unfold take?
  dsimp only
  split
  · exact failsOnly_ok _
  · split
    · exact (failsOnly_withFilter token _ _ _ _).map _
    · split
      · split
        · exact failsOnly_error (token _ _)
        · split
          · exact failsOnly_error (token _ _)
          · exact (failsOnly_withFilter token _ _ _ _).map _
      · exact failsOnly_ok _

theorem failsOnly_scanFrom (previous quote : Option Char) (cs : List Char) :
    Result.FailsOnly P (scanFrom previous quote cs) := by
  fun_induction scanFrom previous quote cs with
  | case1 | case2 => exact failsOnly_ok _
  | case3 _ _ _ _ ih | case4 _ _ _ _ _ ih | case5 _ _ _ _ ih | case7 _ _ _ _ _ _ _ _ ih
  | case8 _ _ _ _ _ _ ih | case9 _ _ _ _ _ ih => exact ih.map _
  | case6 _ _ _ _ _ e failed => exact failsOnly_error (failsOnly_take? token _ e failed)

theorem failsOnly_tokensOf (formula : String) : Result.FailsOnly P (tokensOf formula) :=
  (failsOnly_scanFrom token _ _ _).map _

end Token

end AccountToken

namespace Registry

variable {sources : Sources} (usual : sources.Usual P) (registry : Registry)

include usual

theorem failsOnly_registerAll (formulas : List String) :
    Result.FailsOnly P (registry.registerAll formulas) := by
  induction formulas generalizing registry with
  | nil => exact failsOnly_ok _
  | cons formula formulas ih =>
    have first : Result.FailsOnly P (registry.register formula) :=
      (AccountToken.failsOnly_tokensOf usual.token formula).map _
    rw [registerAll]
    split
    · rename_i e failed
      exact failsOnly_error (first e failed)
    · exact ih _

theorem failsOnly_resolve (root : String) : FailsOnly P (registry.resolve sources.ledger root) := by
  refine (Traced.failsOnly_ofResult fun e failed => usual.raised e (.accounts failed)).next
    fun chart => (FailsOnly.forM (fun entry => ?_) _).next fun _ => failsOnly_pure _
  unfold warnUnmatched
  split
  · exact Traced.failsOnly_log _ _
  · exact failsOnly_pure _

theorem failsOnly_balances (bounds : Bounds) (target : TargetMove) (extra : Filter) :
    FailsOnly P (registry.balances sources.ledger bounds target extra) := by
  refine (Traced.failsOnly_ofResult (failsOnly_ofOption (usual.token _ _) _)).next fun accounts =>
    (FailsOnly.mapM (fun group => ?_) _).next fun _ => failsOnly_pure _
  refine (Traced.failsOnly_log _ _).next fun _ => failsOnly_countAggregation.next fun _ => ?_
  exact (Traced.failsOnly_ofResult fun e failed => usual.raised e (.totals failed)).next fun _ =>
    failsOnly_pure _

theorem failsOnly_substitute (formula : String) :
    Result.FailsOnly P (registry.substitute formula) := by
  unfold substitute
  split
  · rename_i e failed
    exact failsOnly_error (AccountToken.failsOnly_scanFrom usual.token _ _ _ e failed)
  · refine (Result.FailsOnly.mapM fun piece _ => ?_).map _
    cases piece with
    | plain c => exact failsOnly_ok _
    | token token => exact (failsOnly_ofOption (usual.token _ _) _).map _

end Registry

/-! ## Queries -/

theorem failsOnly_shiftDays (date : ∀ fault, P (.date fault)) (day : Calendar.Date) (days : Int) :
    Result.FailsOnly P (shiftDays day days) :=
  failsOnly_ofOption (date _) _

theorem failsOnly_utcMidnight (date : ∀ fault, P (.date fault)) (day : Calendar.Date)
    (offset : Calendar.UtcOffset) (days : Int) :
    Result.FailsOnly P (utcMidnight day offset days) := by
  unfold utcMidnight
  split
  · rename_i e failed
    exact failsOnly_error (failsOnly_shiftDays date _ _ e failed)
  · exact failsOnly_ofOption (date _) _

namespace Query

variable {sources : Sources} (usual : sources.Usual P) (query : Query)
  (offset : Calendar.UtcOffset) (bounds : Bounds)

include usual

theorem failsOnly_dateConditions (field : String) (kind : FieldKind) :
    Result.FailsOnly P (dateConditions field kind bounds offset) := by
  have midnight := failsOnly_utcMidnight (P := P) usual.date
  cases kind with
  | date => exact failsOnly_ok _
  | dateTime | other =>
    unfold dateConditions
    dsimp only
    split
    · rename_i e failed
      exact failsOnly_error (midnight _ _ _ e failed)
    · split
      · rename_i e failed
        exact failsOnly_error (midnight _ _ _ e failed)
      · exact failsOnly_ok _

theorem failsOnly_boundedFilter (extra : Option Filter) :
    Result.FailsOnly P (query.boundedFilter sources.store offset bounds extra) := by
  unfold boundedFilter
  split
  · rename_i e failed
    exact failsOnly_error (usual.raised e (.fieldInfo failed))
  · exact (failsOnly_dateConditions usual _ _ _ _).map _

theorem failsOnly_allStored (model : String) (fields : List String) :
    Result.FailsOnly P (allStored sources.store model fields) := by
  induction fields with
  | nil => exact failsOnly_ok _
  | cons field fields ih =>
    rw [allStored]
    split
    · rename_i e failed
      exact failsOnly_error (usual.raised e (.fieldInfo failed))
    · exact ih.map _

theorem failsOnly_fetchAggregate (filter : Filter) (aggregate : Aggregate) :
    FailsOnly P (query.fetchAggregate sources.store filter aggregate) := by
  refine (Traced.failsOnly_ofResult (failsOnly_allStored usual _ _)).next fun stored => ?_
  split
  · refine failsOnly_countGroupedRead.next fun _ => ?_
    refine (Traced.failsOnly_ofResult fun e failed => usual.raised e (.readGroup failed)).next
      fun totals => (FailsOnly.mapM (fun field => ?_) _).next fun _ => failsOnly_pure _
    refine FailsOnly.next ?_ fun _ => failsOnly_pure _
    unfold sumValue
    split
    · exact failsOnly_pure _
    · exact (Traced.failsOnly_log _ _).next fun _ => failsOnly_pure _
  · refine (Traced.failsOnly_ofResult fun e failed => usual.raised e (.searchRead failed)).next
      fun records => (FailsOnly.mapM (fun field => ?_) _).next fun _ => failsOnly_pure _
    refine (Traced.failsOnly_ofResult ?_).next fun _ => failsOnly_pure _
    unfold aggregateValue
    split
    · exact failsOnly_ok _
    · exact failsOnly_error (usual.aggregation _ _ _ _)

theorem failsOnly_fetch (extra : Option Filter) :
    FailsOnly P (query.fetch sources.store offset bounds extra) := by
  refine (Traced.failsOnly_ofResult (failsOnly_boundedFilter usual query offset bounds extra)).next
    fun filter => ?_
  split
  · exact failsOnly_fetchAggregate usual query filter _
  · exact (Traced.failsOnly_ofResult fun e failed => usual.raised e (.searchRead failed)).next
      fun records => (Traced.failsOnly_log _ _).next fun _ => failsOnly_pure _

theorem failsOnly_fetchInto {extras : Table Filter} {queries : List Query} {scope after : Scope}
    {result : Result Unit} {t t' : Trace}
    (h : (fetchInto sources.store offset bounds extras scope queries).run t =
      ((after, result), t')) : result.FailsOnly P := by
  induction queries generalizing scope t with
  | nil =>
    cases h
    exact failsOnly_ok _
  | cons query queries ih =>
    rcases fetchInto_cons_inv h with ⟨e, failed, -, rfl⟩ | ⟨value, u, -, more⟩
    · exact failsOnly_error (failsOnly_fetch usual query offset bounds _ t e _ failed)
    · exact ih more

end Query

/-! ## Evaluations -/

theorem CompiledKpi.failsOnly_ofKpi {sources : Sources} (usual : sources.Usual P)
    {library : Library} {template : Template} {registry : Registry} {kpi : Kpi}
    (checked : ∀ text references, registry.substitute kpi.expression = .ok text →
      dottedReferences text = .ok references →
      ∀ reference ∈ references, library.isCrossReference template reference = true →
        Result.FailsOnly P (library.checkReference template kpi reference)) :
    Result.FailsOnly P (ofKpi library template registry kpi) := by
  unfold ofKpi
  split
  · rename_i e failed
    exact failsOnly_error (Registry.failsOnly_substitute usual registry _ e failed)
  · rename_i text replaced
    split
    · exact failsOnly_ok _
    · rename_i references found
      refine (Result.FailsOnly.forM fun reference member => ?_).map _
      obtain ⟨written, crosses⟩ := List.mem_filter.1 member
      exact checked text references replaced found reference written crosses

namespace Sheet

variable {sheet : Sheet}

theorem failsOnly_bindSubReport {code : String} (answers : FailsOnly P (sheet.subReport code))
    (findings : Findings) : FailsOnly P (sheet.bindSubReport findings code) := by
  unfold bindSubReport
  split
  · exact failsOnly_pure _
  · refine answers.next fun found => ?_
    split <;> exact failsOnly_pure _

theorem failsOnly_pass {queue : List CompiledKpi}
    (answers : ∀ compiled ∈ queue, ∀ code ∈ compiled.subReports, FailsOnly P (sheet.subReport code))
    (findings : Findings) : FailsOnly P (sheet.pass findings queue) := by
  induction queue generalizing findings with
  | nil => exact failsOnly_pure _
  | cons compiled queue ih =>
    rw [List.forall_mem_cons] at answers
    have bound := FailsOnly.foldlM (fun code member findings =>
      failsOnly_bindSubReport (answers.1 code member) findings) findings
    refine bound.next fun prepared => FailsOnly.next ?_ fun settled => ?_
    · refine Evaluation.failsOnly_ofTraced (FailsOnly.next ?_ fun _ => failsOnly_pure _)
      unfold Kpi.styleIn
      split
      · exact failsOnly_pure _
      · split
        · exact failsOnly_pure _
        · exact failsOnly_pure _
        · exact (Traced.failsOnly_log _ _).next fun _ => failsOnly_pure _
    · exact (ih answers.2 settled).next fun _ => failsOnly_pure _

theorem failsOnly_passes {queue : List CompiledKpi}
    (answers : ∀ compiled ∈ queue, ∀ code ∈ compiled.subReports, FailsOnly P (sheet.subReport code))
    (findings : Findings) : FailsOnly P (sheet.passes findings queue) := by
  rw [passes]
  refine (failsOnly_pass answers findings).bind fun result s s' run => ?_
  obtain ⟨after, retry⟩ := result
  dsimp only
  split
  · exact failsOnly_pure _
  · split
    · refine FailsOnly.next (failsOnly_passes (fun compiled member => ?_) after) fun _ =>
        failsOnly_pure _
      exact answers compiled ((pass_sublist run).subset member)
    · exact (Evaluation.failsOnly_log _ _).next fun _ => failsOnly_pure _
termination_by queue.length

end Sheet

namespace Sources

variable {sources : Sources} (usual : sources.Usual P) (self : Instance) (column : Column)

theorem failsOnly_subReportValues {evaluate : Template → Evaluation PeriodResults} {code : String}
    (stored : sources.library.contains code = true)
    (each : ∀ template, sources.library.get code = .ok template → FailsOnly P (evaluate template)) :
    FailsOnly P (sources.subReportValues column evaluate code) := by
  refine Evaluation.failsOnly_getCache.next fun cache => ?_
  split
  · exact failsOnly_pure _
  · exact (Evaluation.failsOnly_log _ _).next fun _ => failsOnly_pure _
  · obtain ⟨template, get⟩ := Library.exists_get_of_contains stored
    rw [get]
    refine (Evaluation.failsOnly_ofResult (failsOnly_ok template)).bind fun found s s' run => ?_
    cases (Evaluation.runs_ofResult.1 run).1
    exact (Evaluation.failsOnly_log _ _).next fun _ => (each template get).next fun _ =>
      failsOnly_pure _

include usual

theorem failsOnly_offset : Result.FailsOnly P sources.offset :=
  failsOnly_ofOption (usual.date _) _

theorem failsOnly_newRegistry (template : Template) :
    FailsOnly P (sources.newRegistry self template) := by
  refine (Traced.failsOnly_ofResult (Registry.failsOnly_registerAll usual _ _)).next
    fun registered => (Registry.failsOnly_resolve usual registered _).next fun registry => ?_
  exact (Traced.failsOnly_log _ _).next fun _ => failsOnly_pure _

theorem failsOnly_registry (template : Template) :
    FailsOnly P (sources.registry self template) := by
  refine Evaluation.failsOnly_getCache.next fun cache => ?_
  split
  · exact failsOnly_pure _
  · exact (Evaluation.failsOnly_ofTraced (failsOnly_newRegistry usual self template)).next
      fun registry => (Evaluation.failsOnly_modifyCache _).next fun _ => failsOnly_pure _

theorem failsOnly_firstScope (template : Template) (registry : Registry) :
    FailsOnly P (sources.firstScope self column template registry) := by
  refine (Traced.failsOnly_ofResult (failsOnly_offset usual)).next fun offset => ?_
  refine (Traced.failsOnly_lift _).bind fun fetched t t' run => ?_
  have each := Query.failsOnly_fetchInto usual offset column.bounds (Traced.runs_lift.1 run)
  refine (Traced.failsOnly_ofResult each).next fun _ => ?_
  exact (Registry.failsOnly_balances usual registry _ _ _).next fun _ => failsOnly_pure _

/-- The KPIs of a template can be compiled with any registry, or fail with the property. -/
def Compiles (sources : Sources) (P : ReportError → Prop) (template : Template) : Prop :=
  ∀ kpi ∈ template.kpis, ∀ registry,
    (CompiledKpi.ofKpi sources.library template registry kpi).FailsOnly P

theorem failsOnly_evaluateWith {subReport : String → Evaluation (Option (Table Value))}
    (answers : ∀ code, sources.library.contains code = true → FailsOnly P (subReport code))
    {template : Template} (compiles : sources.Compiles P template) :
    FailsOnly P (sources.evaluateWith self column subReport template) := by
  refine (Evaluation.failsOnly_modifyCache _).next fun _ =>
    (failsOnly_registry usual self template).next fun registry =>
    (Evaluation.failsOnly_ofTraced (failsOnly_firstScope usual self column template registry)).next
    fun scope => (Evaluation.failsOnly_ofResult (Result.FailsOnly.mapM fun kpi member => ?_)).bind
    fun queue s s' run => ?_
  · exact compiles kpi (List.mem_mergeSort.1 member) registry
  · have compiled := (Evaluation.runs_ofResult.1 run).1
    refine (Sheet.failsOnly_passes (fun kpi member code asked => ?_) _).next fun found =>
      (Evaluation.failsOnly_log _ _).next fun _ => (Evaluation.failsOnly_modifyCache _).next
      fun _ => failsOnly_pure _
    obtain ⟨source, -, given⟩ := exists_of_mem_mapM compiled member
    exact answers code (CompiledKpi.crossing_of_mem_subReports given asked).2

/-- If compiling fails only with a property that all other failures have, evaluation does, too. -/
theorem failsOnly_evaluate {template : Template} (own : sources.Compiles P template)
    (others : ∀ code template, sources.library.get code = .ok template →
      sources.Compiles P template) :
    FailsOnly P (sources.evaluate self column template) := by
  unfold evaluate
  generalize sources.library.size + 1 = depth
  induction depth generalizing template with
  | zero => exact failsOnly_evaluateWith usual self column (fun _ _ => failsOnly_pure _) own
  | succ depth ih =>
    refine failsOnly_evaluateWith usual self column (fun code stored => ?_) own
    exact failsOnly_subReportValues column stored fun template get => ih (others code template get)

end Sources

end KpiReport
