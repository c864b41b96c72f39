import KpiReport.Proofs.Definition.Validation
import KpiReport.Proofs.Lists
import KpiReport.Proofs.Report

/-!
# The columns of a report

A report has a column for each period of its instance that has bounds, in the order of their
sequence numbers, and each column has a result for every KPI of the template (`Sources.Filled`). A
computation that succeeds goes through such columns, which are then laid out
(`Sources.filled_of_runs`).
-/

namespace KpiReport

open Calendar

/-- The bounds of a period, none where it has none or looking for them fails. -/
def Period.bounds? (period : Period) (ledger : Ledger) (company : String) (pivot : Date) :
    Option Bounds :=
  (period.bounds ledger company pivot).toOption.join

theorem Period.bounds?_of_bounds {period : Period} {ledger : Ledger} {company : String}
    {pivot : Date} {found : Option Bounds} (h : period.bounds ledger company pivot = .ok found) :
    period.bounds? ledger company pivot = found := by
  rw [Period.bounds?, h]
  cases found <;> rfl

namespace Instance

variable {self : Instance}

theorem sortedPeriods_sorted :
    self.sortedPeriods.Pairwise fun p q => p.sequence ≤ q.sequence :=
  pairwise_mergeSort_key Period.sequence self.periods

theorem nodup_of_validate (h : self.validate = .ok ()) : (self.periods.map Period.name).Nodup := by
  obtain ⟨names, checked, -⟩ := bind_eq_ok.1 h
  exact (nodup_of_checkPeriods checked).1

theorem sortedPeriods_distinct (h : self.validate = .ok ()) :
    self.sortedPeriods.Pairwise fun p q => p.name ≠ q.name := by
  have same := (List.mergeSort_perm self.periods fun a b => decide (a.sequence ≤ b.sequence)).symm
  exact List.pairwise_map.1 ((same.map Period.name).nodup_iff.1 (nodup_of_validate h))

end Instance

namespace Sources

variable {sources : Sources} {self : Instance} {template : Template}

/-- The columns of some periods: those of the ones that have bounds. -/
def columnsOf (sources : Sources) (inst : Instance) (pivot : Date) (periods : List Period) :
    List Column :=
  periods.filterMap fun period =>
    (period.bounds? sources.ledger inst.company pivot).map (Column.mk period)

theorem columnsOf_cons {pivot : Date} {period : Period} {found : Option Bounds}
    (h : period.bounds sources.ledger self.company pivot = .ok found) (periods : List Period) :
    sources.columnsOf self pivot (period :: periods) =
      (found.map (Column.mk period)).toList ++ sources.columnsOf self pivot periods := by
  rw [columnsOf, columnsOf, List.filterMap_cons, Period.bounds?_of_bounds h]
  cases found <;> rfl

theorem columnsOf_pairwise (sources : Sources) (self : Instance) (pivot : Date)
    {periods : List Period} {R : Period → Period → Prop} (h : periods.Pairwise R) :
    (sources.columnsOf self pivot periods).Pairwise fun c d => R c.period d.period := by
  refine h.filterMap _ fun p q related c made d made' => ?_
  obtain ⟨bounds, -, rfl⟩ := Option.map_eq_some_iff.1 made
  obtain ⟨bounds', -, rfl⟩ := Option.map_eq_some_iff.1 made'
  exact related

theorem runs_columns {pivot : Date} {periods : List Period} {columns : List Column} {t t' : Trace}
    (h : Runs (sources.columns self pivot periods) t columns t') :
    (∀ period ∈ periods, ∃ found, period.bounds sources.ledger self.company pivot = .ok found) ∧
      columns = sources.columnsOf self pivot periods := by
  induction periods generalizing columns t t' with
  | nil =>
    obtain ⟨rfl, -⟩ := runs_pure.1 h
    exact ⟨List.forall_mem_nil _, rfl⟩
  | cons period periods ih =>
    obtain ⟨found, u, resolve, h⟩ := runs_bind.1 h
    obtain ⟨more, v, rest, h⟩ := runs_bind.1 h
    obtain ⟨rfl, -⟩ := runs_pure.1 h
    obtain ⟨resolved, rfl⟩ := ih rest
    have own := Period.resolve_inv resolve
    exact ⟨List.forall_mem_cons.2 ⟨⟨found, own⟩, resolved⟩, (columnsOf_cons own periods).symm⟩

/-- Every KPI of a valid template has a result of its own, also where its formula fails. -/
theorem evaluate_complete {column : Column} {found : PeriodResults} {s s' : Session}
    (valid : template.validate = .ok ())
    (h : Runs (sources.evaluate self column template) s found s') {kpi : Kpi}
    (member : kpi ∈ template.kpis) :
    ∃ result, found.get? kpi.name = some result ∧ result.kpi = kpi.name ∧
      result.expression = kpi.expression ∧ result.period = column.period.name := by
  have room := (Cache.room_size sources.library column.period.name
    (s.cache.mark template.code column.period.name .started)).mono (Nat.le_succ _)
  obtain ⟨registry, base, queue, findings, c, ends⟩ := evaluateNested_grows h room
  obtain ⟨compiled, inside, made⟩ :=
    exists_mem_of_mapM ends.computes.compile (mem_sortedKpis.2 member)
  obtain rfl := CompiledKpi.kpi_of_ofKpi made
  obtain ⟨-, style, shown⟩ := (ends.computes.settles valid).shows compiled inside
  rw [← ends.computes.results] at shown
  exact ⟨_, shown, rfl, rfl, rfl⟩

/-- Columns that are evaluated one after the other, each with the cache that those before it have
left. -/
inductive InTurn (sources : Sources) (inst : Instance) (template : Template) :
    Cache → List FilledColumn → Prop where
  | nil (cache : Cache) : InTurn sources inst template cache []
  | cons {s s' : Session} {column : FilledColumn} {columns : List FilledColumn}
    (run : Runs (sources.evaluate inst column.toColumn template) s column.found s')
    (rest : InTurn sources inst template s'.cache columns) :
    InTurn sources inst template s.cache (column :: columns)

theorem InTurn.exists_runs {cache : Cache} {columns : List FilledColumn}
    (h : InTurn sources self template cache columns) : ∀ column ∈ columns,
      ∃ s s', Runs (sources.evaluate self column.toColumn template) s column.found s' := by
  induction h with
  | nil => exact List.forall_mem_nil _
  | cons run _ ih => exact List.forall_mem_cons.2 ⟨⟨_, _, run⟩, ih⟩

/-- The columns of an instance, with the results of a template: there is one for each period that
has bounds, in the order of the sequence numbers, they are evaluated in turn from a new cache on,
and each has a result for every KPI. -/
structure Filled (sources : Sources) (inst : Instance) (template : Template) (pivot : Date)
    (columns : List FilledColumn) : Prop where
  pivotDate : sources.pivotDate inst = .ok pivot
  resolved : ∀ period ∈ inst.periods,
    ∃ found, period.bounds sources.ledger inst.company pivot = .ok found
  toColumn : columns.map FilledColumn.toColumn =
    sources.columnsOf inst pivot inst.sortedPeriods
  sequence : columns.Pairwise fun c d => c.period.sequence ≤ d.period.sequence
  distinct : columns.Pairwise fun c d => c.period.name ≠ d.period.name
  computed : ∃ t t', Runs (sources.filledColumns inst template) t columns t'
  evaluated : InTurn sources inst template {} columns
  complete : ∀ column ∈ columns, ∀ kpi ∈ template.kpis,
    ∃ result, column.found.get? kpi.name = some result ∧ result.kpi = kpi.name ∧
      result.expression = kpi.expression ∧ result.period = column.period.name

theorem fills_inv {columns : List Column} {filled : List FilledColumn} {s s' : Session}
    (h : Runs (columns.mapM (sources.fill self template)) s filled s') :
    filled.map FilledColumn.toColumn = columns ∧ InTurn sources self template s.cache filled := by
  induction columns generalizing filled s s' with
  | nil =>
    obtain ⟨rfl, -⟩ := runs_pure.1 h
    exact ⟨rfl, .nil _⟩
  | cons column columns ih =>
    rw [List.mapM_cons] at h
    obtain ⟨first, u, run, h⟩ := runs_bind.1 h
    obtain ⟨others, v, more, h⟩ := runs_bind.1 h
    obtain ⟨rfl, -⟩ := runs_pure.1 h
    obtain ⟨rfl, w, cache, run⟩ := fill_inv run
    obtain ⟨rfl, rest⟩ := ih more
    rw [← cache]
    exact ⟨rfl, .cons run rest⟩

/-- A computation that succeeds fills the columns of the periods that have bounds. -/
theorem filled_of_runs {columns : List FilledColumn} {t t' : Trace}
    (valid : self.validate = .ok ()) (validTemplate : template.validate = .ok ())
    (run : Runs (sources.filledColumns self template) t columns t') :
    ∃ pivot, Filled sources self template pivot columns := by
  obtain ⟨pivot, u, given, h⟩ := runs_bind.1 run
  obtain ⟨planned, v, plan, h⟩ := runs_bind.1 h
  obtain ⟨⟨⟩, w, -, h⟩ := runs_bind.1 h
  obtain ⟨given, -⟩ := Traced.runs_ofResult.1 given
  obtain ⟨resolved, rfl⟩ := runs_columns plan
  obtain ⟨s, fills, -⟩ := Evaluation.runs_onNewCache.1 h
  obtain ⟨toColumn, evaluated⟩ := fills_inv fills
  have ordered {R : Period → Period → Prop} (related : self.sortedPeriods.Pairwise R) :
      columns.Pairwise fun c d => R c.period d.period := by
    have planned := sources.columnsOf_pairwise self pivot related
    rw [← toColumn] at planned
    exact (List.pairwise_map (f := FilledColumn.toColumn)).1 planned
  refine ⟨pivot, given, ?_, toColumn, ordered Instance.sortedPeriods_sorted,
    ordered (Instance.sortedPeriods_distinct valid), ⟨t, t', run⟩, evaluated, ?_⟩
  · exact fun period member => resolved period (List.mem_mergeSort.2 member)
  · intro column member kpi inside
    obtain ⟨s, s', run⟩ := evaluated.exists_runs column member
    exact evaluate_complete validTemplate run inside

theorem gives_compute {columns : List FilledColumn} {grids : List Grid}
    (valid : self.validate = .ok ()) (get : sources.library.get self.report = .ok template)
    (validTemplate : template.validate = .ok ())
    (filled : (sources.filledColumns self template).Gives columns)
    (laidOut : template.layOut sources.settings.locale columns = .ok grids) :
    (sources.compute self).Gives grids :=
  (Traced.Gives.ofResult valid).bind ((Traced.Gives.ofResult get).bind
    ((Traced.Gives.ofResult validTemplate).bind (filled.bind (Traced.Gives.ofResult laidOut))))

/-! ## Templates that refer to no other report -/

theorem gives_columns {pivot : Date} {periods : List Period}
    (resolved : ∀ period ∈ periods,
      ∃ found, period.bounds sources.ledger self.company pivot = .ok found) :
    (sources.columns self pivot periods).Gives (sources.columnsOf self pivot periods) := by
  induction periods with
  | nil => exact Traced.Gives.pure []
  | cons period periods ih =>
    obtain ⟨⟨found, own⟩, resolved⟩ := List.forall_mem_cons.1 resolved
    rw [columnsOf_cons own]
    exact (Period.gives_resolve own).bind ((ih resolved).bind (Traced.Gives.pure _))

/-- The column with what the passes over some compiled KPIs find in a scope. -/
def filledAlone (sources : Sources) (base : Scope) (queue : List CompiledKpi) (column : Column) :
    FilledColumn where
  toColumn := column
  found :=
    let ended := Findings.passes column.period.name sources.settings.locale (fun _ => none)
      { scope := base } queue
    ⟨ended.1.results, ended.2⟩

variable {registry : Registry} {base : Scope} {queue : List CompiledKpi}

theorem runs_fills (own : sources.library.get template.code = .ok template)
    (tokens : (sources.newRegistry self template).Gives registry)
    (compile : template.sortedKpis.mapM (CompiledKpi.ofKpi sources.library template registry) =
      .ok queue) (alone : ∀ compiled ∈ queue, compiled.subReports = []) {columns : List Column}
    (scope : ∀ column ∈ columns, (sources.firstScope self column template registry).Gives base)
    {s : Session} (kept : LookedUp sources self (fun _ => True) s.cache) :
    ∃ s', Runs (columns.mapM (sources.fill self template)) s
      (columns.map (sources.filledAlone base queue)) s' := by
  induction columns generalizing s with
  | nil => exact ⟨s, runs_pure.2 ⟨rfl, rfl⟩⟩
  | cons column columns ih =>
    obtain ⟨first, scope⟩ := List.forall_mem_cons.1 scope
    obtain ⟨t, log⟩ := Evaluation.exists_runs_log .debug
      ("Period '" ++ column.period.name ++ "': " ++ column.bounds.start.toText ++ " to " ++
        column.bounds.stop.toText) s
    have known : ∀ other, s.cache.registries.get? template.code = some other → other = registry :=
      fun other stored => (kept template.code template other trivial own stored).unique tokens
    obtain ⟨u, run⟩ := evaluate_runs_kept (s := { s with trace := t }) tokens known first compile
      alone
    obtain ⟨s', rest⟩ := ih scope (kept.evaluateNested (s := { s with trace := t })
      (fun _ => own) run)
    refine ⟨s', ?_⟩
    rw [List.mapM_cons]
    refine runs_bind.2 ⟨sources.filledAlone base queue column, u, ?_, ?_⟩
    · exact runs_bind.2 ⟨(), _, log, runs_bind.2 ⟨_, u, run, runs_pure.2 ⟨rfl, rfl⟩⟩⟩
    · exact runs_bind.2 ⟨_, s', rest, runs_pure.2 ⟨rfl, rfl⟩⟩

/-- The columns of a template that refers to no other report are filled, each on its own. -/
theorem gives_filledColumns {pivot : Date} (given : sources.pivotDate self = .ok pivot)
    (resolved : ∀ period ∈ self.sortedPeriods,
      ∃ found, period.bounds sources.ledger self.company pivot = .ok found)
    (own : sources.library.get template.code = .ok template)
    (tokens : (sources.newRegistry self template).Gives registry)
    (compile : template.sortedKpis.mapM (CompiledKpi.ofKpi sources.library template registry) =
      .ok queue) (alone : ∀ compiled ∈ queue, compiled.subReports = [])
    (scope : ∀ column ∈ sources.columnsOf self pivot self.sortedPeriods,
      (sources.firstScope self column template registry).Gives base) :
    (sources.filledColumns self template).Gives
      ((sources.columnsOf self pivot self.sortedPeriods).map (sources.filledAlone base queue)) := by
  refine (Traced.Gives.ofResult given).bind ((gives_columns resolved).bind
    ((Traced.Gives.log _ _).bind ?_))
  intro t
  obtain ⟨s', run⟩ := runs_fills (s := { trace := t }) own tokens compile alone scope lookedUp_empty
  exact ⟨s'.trace, Evaluation.runs_onNewCache.2 ⟨s', run, rfl⟩⟩

end Sources

end KpiReport
