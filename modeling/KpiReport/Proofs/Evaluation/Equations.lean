import KpiReport.Ledger.Book
import KpiReport.Proofs.Evaluation.FirstScope
import KpiReport.Proofs.Evaluation.Growth
import KpiReport.Proofs.Evaluation.Solution
import KpiReport.Store.Tables

/-!
# The results of a report solve its formulas

The formulas of a report form a system of equations between the names of its KPIs. The main
statement, `Sources.evaluate_solves`, says that an evaluation ends with a solution: one scope, made
of the first scope, the values of other reports and the values of the KPIs, in which the formula of
every KPI gives what its result shows.
-/

namespace KpiReport

/-- The result of a KPI tells what its formula gives in the final scope `F`: a value, to which the
name is bound; a division by zero, which binds the name to no data; or another failure, which leaves
the name unbound and is quoted in the comment. -/
def CompiledKpi.Solved (compiled : CompiledKpi) (F : Scope) (locale : Locale) (result : KpiResult) :
    Prop :=
  let name := compiled.kpi.name
  let formula := name ++ " = " ++ compiled.kpi.expression
  let Failed (failure : EvalError) : Prop :=
    F.get? name = none ∧ result.value = .noData ∧ result.display = failureSign ∧
      result.comment = formula ++ "\n\n" ++ failure.message
  match compiled.expression with
  | .error fault => Failed (.illFormed fault)
  | .ok e =>
    match e.eval F with
    | .ok value =>
      F.get? name = some value ∧ result.value = value ∧
        result.display = compiled.kpi.render value locale ∧ result.comment = formula
    | .error .divisionByZero =>
      F.get? name = some .noData ∧ result.value = .noData ∧ result.display = divisionByZeroSign ∧
        result.comment = formula ++ "\n\n" ++ EvalError.divisionByZero.message
    | .error failure => Failed failure

theorem CompiledKpi.solved_of_shows {compiled : CompiledKpi} {findings : Findings} {period : String}
    {locale : Locale}
    (h : findings.Shows period locale compiled (compiled.eval findings.scope)) :
    ∃ result, findings.results.get? compiled.kpi.name = some result ∧
      compiled.Solved findings.scope locale result := by
  obtain ⟨bound, style, kept⟩ := h
  refine ⟨_, kept, ?_⟩
  unfold Solved
  unfold eval at bound ⊢
  cases parsed : compiled.expression with
  | error fault =>
    rw [parsed] at bound
    exact ⟨bound, rfl, rfl, rfl⟩
  | ok e =>
    rw [parsed] at bound
    dsimp only at bound ⊢
    cases outcome : e.eval findings.scope with
    | ok value =>
      rw [outcome] at bound
      exact ⟨bound, rfl, rfl, rfl⟩
    | error failure =>
      rw [outcome] at bound
      cases failure <;> exact ⟨bound, rfl, rfl, rfl⟩

/-- The scope `F` completes a first scope: besides names without dots other than those of the KPIs
it binds the values of the reports that the KPIs refer to, and no other dotted name. -/
structure Completes (base : Scope) (queue : List CompiledKpi) (answers : Answers) (F : Scope) :
    Prop where
  base_le : base ≤ F
  other : ∀ x, Dotless x → (∀ compiled ∈ queue, x ≠ compiled.kpi.name) → F.get? x = base.get? x
  reports : ∀ compiled ∈ queue, ∀ code ∈ compiled.subReports, ∀ kpi,
    F.get? (Library.dotted code kpi) = reported answers code kpi
  dotted : ∀ code, Dotless code → (∀ compiled ∈ queue, code ∉ compiled.subReports) → ∀ kpi,
    F.get? (Library.dotted code kpi) = none

theorem Findings.boundReports_passes {period : String} {locale : Locale} {answers : Answers}
    {base : Scope} {queue : List CompiledKpi} {code : String}
    (h : code ∈ (passes period locale answers { scope := base } queue).1.boundReports) :
    ∃ compiled ∈ queue, code ∈ compiled.subReports := by
  refine passes_keeps (J := fun findings => ∀ code ∈ findings.boundReports,
    ∃ compiled ∈ queue, code ∈ compiled.subReports) ?_ (by simp) code h
  intro compiled member findings known code bound
  rcases boundReports_visited bound with old | asked
  · exact known code old
  · exact ⟨compiled, member, asked⟩

namespace Sources

variable {sources : Sources} {self : Instance} {column : Column} {template : Template}
  {registry : Registry} {queue : List CompiledKpi}

theorem mem_sortedKpis {kpi : Kpi} : kpi ∈ template.sortedKpis ↔ kpi ∈ template.kpis :=
  List.mem_mergeSort

/-- KPIs declared in the order of their numbers are evaluated as declared. -/
theorem sortedKpis_eq_kpis (ordered : template.kpis.Pairwise fun a b => a.sequence ≤ b.sequence) :
    template.sortedKpis = template.kpis :=
  List.mergeSort_of_pairwise (ordered.imp decide_eq_true)

theorem names_of_compile
    (compile : template.sortedKpis.mapM (CompiledKpi.ofKpi sources.library template registry) =
      .ok queue) :
    (queue.map fun compiled => compiled.kpi.name).Perm (template.kpis.map Kpi.name) := by
  have same : queue.map (fun compiled => compiled.kpi.name) = template.sortedKpis.map Kpi.name := by
    have each := mapM_eq_ok.1 compile
    clear compile
    generalize template.sortedKpis = kpis at each
    induction each with
    | nil => rfl
    | cons made _ ih => rw [List.map_cons, List.map_cons, ih, CompiledKpi.kpi_of_ofKpi made]
  rw [same]
  exact (List.mergeSort_perm _ _).map _

theorem wellNamed_of_compile (valid : template.validate = .ok ())
    (compile : template.sortedKpis.mapM (CompiledKpi.ofKpi sources.library template registry) =
      .ok queue) : WellNamed queue := by
  have names := Template.names_of_validate valid
  have made : ∀ compiled ∈ queue, ∃ kpi ∈ template.kpis,
      CompiledKpi.ofKpi sources.library template registry kpi = .ok compiled := by
    intro compiled member
    obtain ⟨kpi, inside, made⟩ := exists_of_mem_mapM compile member
    exact ⟨kpi, mem_sortedKpis.1 inside, made⟩
  refine ⟨(names_of_compile compile).nodup_iff.2 names.nodup_kpis, ?_, ?_, ?_⟩
  · intro compiled member
    obtain ⟨kpi, inside, made⟩ := made compiled member
    rw [CompiledKpi.kpi_of_ofKpi made]
    exact dotless_of_isIdentifier (names.nameable_kpi kpi inside).isIdentifier
  · intro compiled member code asked
    obtain ⟨kpi, -, made⟩ := made compiled member
    exact (CompiledKpi.crossing_of_mem_subReports made asked).1
  · intro compiled member e parsed
    obtain ⟨kpi, -, made⟩ := made compiled member
    exact CompiledKpi.reads_of_ofKpi made parsed

theorem tidy_of_firstScope (valid : template.validate = .ok ()) {base : Scope} {t t' : Trace}
    (scope : Runs (sources.firstScope self column template registry) t base t') (answers : Answers) :
    ({ scope := base } : Findings).Tidy answers := by
  intro code _ kpi
  rw [if_neg List.not_mem_nil]
  by_contra bound
  exact Library.not_dotless_dotted code kpi (dotless_of_firstScope valid scope bound)

theorem Computes.settles {base : Scope} {answers : Answers} {findings : Findings}
    {found : PeriodResults} (valid : template.validate = .ok ())
    (h : Computes sources self column template registry base queue answers findings found) :
    Findings.Settles column.period.name sources.settings.locale answers { scope := base } findings
      queue := by
  obtain ⟨t, t', scope⟩ := h.scope
  have named := wellNamed_of_compile valid h.compile
  have unbound : ∀ compiled ∈ queue, base.get? compiled.kpi.name = none := by
    intro compiled member
    obtain ⟨kpi, inside, made⟩ := exists_of_mem_mapM h.compile member
    rw [CompiledKpi.kpi_of_ofKpi made]
    exact unbound_of_firstScope valid scope (mem_sortedKpis.1 inside)
  have settles : Findings.Settles column.period.name sources.settings.locale answers
      { scope := base } _ queue :=
    Findings.passes_settles named (tidy_of_firstScope valid scope answers) unbound
  rw [h.passes] at settles
  exact settles

/-- What a valid template computes solves its formulas: the final scope completes the first one, and
each KPI has one result, which tells what its formula gives there. -/
theorem Computes.solves {base : Scope} {answers : Answers} {findings : Findings}
    {found : PeriodResults} (valid : template.validate = .ok ())
    (h : Computes sources self column template registry base queue answers findings found) :
    Completes base queue answers findings.scope ∧
      (found.results.map Prod.fst).Perm (template.kpis.map Kpi.name) ∧
      ∀ compiled ∈ queue, ∃ result, found.get? compiled.kpi.name = some result ∧
        compiled.Solved findings.scope sources.settings.locale result := by
  have named := wellNamed_of_compile valid h.compile
  have settles := h.settles valid
  have bound : ∀ code ∈ (Findings.passes column.period.name sources.settings.locale answers
      { scope := base } queue).1.boundReports, ∃ compiled ∈ queue, code ∈ compiled.subReports :=
    fun code => Findings.boundReports_passes
  rw [h.passes] at bound
  dsimp only at bound
  have shown : ∀ compiled ∈ queue, ∃ result, found.get? compiled.kpi.name = some result ∧
      compiled.Solved findings.scope sources.settings.locale result := by
    intro compiled member
    rw [PeriodResults.get?, h.results]
    exact CompiledKpi.solved_of_shows (settles.shows compiled member)
  refine ⟨⟨settles.scope_le, settles.scope, settles.answered, ?_⟩, ?_, shown⟩
  · intro code free outside kpi
    rw [settles.tidy code free, if_neg]
    intro inside
    obtain ⟨compiled, member, asked⟩ := bound code inside
    exact outside compiled member asked
  · refine List.Perm.trans ?_ (names_of_compile h.compile)
    refine (List.perm_ext_iff_of_nodup ?_ named.nodup).2 fun x => ?_
    · rw [h.results]
      exact (settles.sorted Table.sorted_nil).nodup
    · rw [Table.mem_names_iff]
      constructor
      · intro stored
        by_contra other
        refine stored ?_
        rw [h.results]
        exact settles.results x fun compiled member same =>
          other (List.mem_map.2 ⟨compiled, member, same.symm⟩)
      · intro named
        obtain ⟨compiled, member, rfl⟩ := List.mem_map.1 named
        obtain ⟨result, stored, -⟩ := shown compiled member
        rw [PeriodResults.get?] at stored
        simp [stored]

/-- A solution of the formulas of a template. The final scope `F` is made of the results of the
queries and the balances of the account tokens (`base`), the values that the cache `c` held for other
reports when the passes ended, and the values of the KPIs; there is one result for each KPI, and it
tells what the compiled formula gives in `F`. -/
structure Solution (sources : Sources) (inst : Instance) (column : Column) (template : Template)
    (start stop : Cache) (found : PeriodResults) (registry : Registry) (base : Scope)
    (queue : List CompiledKpi) (c : Cache) (F : Scope) : Prop where
  lookedUp : c.registries.get? template.code = some registry
  scope : ∃ t t', Runs (sources.firstScope inst column template registry) t base t'
  compile : template.sortedKpis.mapM (CompiledKpi.ofKpi sources.library template registry) =
    .ok queue
  grows : (start.mark template.code column.period.name .started).Grows column.period.name c
  stop : stop = c.mark template.code column.period.name (.finished found.values)
  completes : Completes base queue (c.answers column.period.name) F
  once : (found.results.map Prod.fst).Perm (template.kpis.map Kpi.name)
  solved : ∀ kpi ∈ template.kpis, ∃ compiled ∈ queue, ∃ result,
    CompiledKpi.ofKpi sources.library template registry kpi = .ok compiled ∧
      found.get? kpi.name = some result ∧ compiled.Solved F sources.settings.locale result

/-- **The results of a report solve its formulas**, whatever the cache was before: if the evaluation
of a valid template succeeds, then its results are those of a solution. -/
theorem evaluate_solves {s s' : Session} {found : PeriodResults}
    (valid : template.validate = .ok ())
    (h : Runs (sources.evaluate self column template) s found s') :
    ∃ registry base queue c F,
      Solution sources self column template s.cache s'.cache found registry base queue c F := by
  have room := (Cache.room_size sources.library column.period.name
    (s.cache.mark template.code column.period.name .started)).mono (Nat.le_succ _)
  obtain ⟨registry, base, queue, findings, c, ends⟩ := evaluateNested_grows h room
  obtain ⟨completes, once, solved⟩ := ends.computes.solves valid
  refine ⟨registry, base, queue, c, findings.scope, ends.registry, ends.computes.scope,
    ends.computes.compile, ends.grows, ends.stop, completes, once, fun kpi member => ?_⟩
  obtain ⟨compiled, inside, made⟩ :=
    exists_mem_of_mapM ends.computes.compile (mem_sortedKpis.2 member)
  obtain ⟨result, stored, solution⟩ := solved compiled inside
  rw [CompiledKpi.kpi_of_ofKpi made] at stored
  exact ⟨compiled, inside, result, made, stored, solution⟩

/-- A template that refers to no other report finds what its passes find, from any session that has
no other account tokens for it. -/
theorem evaluate_runs_kept {base : Scope} {s : Session}
    (tokens : (sources.newRegistry self template).Gives registry)
    (kept : ∀ other, s.cache.registries.get? template.code = some other → other = registry)
    (scope : (sources.firstScope self column template registry).Gives base)
    (compile : template.sortedKpis.mapM (CompiledKpi.ofKpi sources.library template registry) =
      .ok queue) (alone : ∀ compiled ∈ queue, compiled.subReports = []) :
    let ended := Findings.passes column.period.name sources.settings.locale (fun _ => none)
      { scope := base } queue
    ∃ s', Runs (sources.evaluate self column template) s ⟨ended.1.results, ended.2⟩ s' := by
  -- no KPI refers to another report, so nothing needs to answer
  let sheet := sources.sheet column (sources.inner self column (sources.library.size + 1)) template
  have replies : sheet.Replies (fun _ => False) (fun _ => none) (fun _ => True) :=
    fun _ never => never.elim
  rw [evaluate, evaluateNested_eq]
  refine evaluateWith_runs_of_replies tokens kept scope compile (fun _ _ => trivial) replies
    fun compiled member code asked => ?_
  rw [alone compiled member] at asked
  cases asked

/-- With a new cache there are no other account tokens. -/
theorem evaluate_runs_alone {base : Scope}
    (tokens : (sources.newRegistry self template).Gives registry)
    (scope : (sources.firstScope self column template registry).Gives base)
    (compile : template.sortedKpis.mapM (CompiledKpi.ofKpi sources.library template registry) =
      .ok queue) (alone : ∀ compiled ∈ queue, compiled.subReports = []) (t : Trace) :
    let ended := Findings.passes column.period.name sources.settings.locale (fun _ => none)
      { scope := base } queue
    ∃ s', Runs (sources.evaluate self column template) { trace := t }
      ⟨ended.1.results, ended.2⟩ s' :=
  evaluate_runs_kept tokens (fun _ known => nomatch known) scope compile alone

end Sources

/-! ## A small report -/

namespace Sample

open Calendar

/-- Two KPIs, the first of which is declared before what it needs, and two that need each other. -/
def template : Template where
  code := "sample"
  name := "Sample"
  kpis := [{ name := "a", expression := "b", sequence := 1 },
    { name := "b", expression := "True", sequence := 2 },
    { name := "c", expression := "d", sequence := 3 },
    { name := "d", expression := "c", sequence := 4 }]

/-- The day of the sample. -/
def day : Date := ⟨0, firstDay_le_zero, zero_le_lastDay⟩

/-- One account without move lines, no records and no other reports. -/
def sources : Sources where
  library := .empty
  ledger := Book.ledger { accounts := [⟨"0", "", none⟩] }
  store := RecordTables.store {}
  settings := {}
  today := fun _ => day

/-- An instance of the sample. -/
def self : Instance where
  name := "sample"
  report := "sample"
  rootAccount := "0"
  periods := []

/-- The column of the day. -/
def column : Column where
  period := { name := "day", periodType := .day, offset := 0, duration := 1 }
  bounds := ⟨day, day, none⟩

/-- The sample has no account tokens. -/
def registry : Registry := ⟨[], some []⟩

theorem valid_template : template.validate = .ok () := by
  rfl

theorem gives_newRegistry : (sources.newRegistry self template).Gives registry :=
  (Sources.steady_newRegistry template).gives (by with_unfolding_all rfl)

theorem gives_firstScope : (sources.firstScope self column template registry).Gives .empty :=
  (Sources.steady_firstScope template registry).gives (by rfl)

/-- The compiled KPIs of the sample. -/
def queue : List CompiledKpi :=
  [⟨{ name := "a", expression := "b", sequence := 1 }, .ok (.name "b"), []⟩,
    ⟨{ name := "b", expression := "True", sequence := 2 }, .ok (.bool true), []⟩,
    ⟨{ name := "c", expression := "d", sequence := 3 }, .ok (.name "d"), []⟩,
    ⟨{ name := "d", expression := "c", sequence := 4 }, .ok (.name "c"), []⟩]

theorem compile_template :
    template.sortedKpis.mapM (CompiledKpi.ofKpi sources.library template registry) = .ok queue := by
  rw [Sources.sortedKpis_eq_kpis (by decide)]
  with_unfolding_all rfl

theorem runs_evaluate : ∃ found s', Runs (sources.evaluate self column template) {} found s' := by
  obtain ⟨s', run⟩ :=
    Sources.evaluate_runs_alone gives_newRegistry gives_firstScope compile_template
      (by simp [queue]) {}
  exact ⟨_, s', run⟩

end Sample

/-- The sample runs and has a solution. -/
theorem Sources.evaluate_solves_sample :
    Sample.template.validate = .ok () ∧ ∃ found s' registry base queue c F,
      Runs (Sample.sources.evaluate Sample.self Sample.column Sample.template) {} found s' ∧
        Solution Sample.sources Sample.self Sample.column Sample.template {} s'.cache found registry
          base queue c F := by
  obtain ⟨found, s', run⟩ := Sample.runs_evaluate
  obtain ⟨registry, base, queue, c, F, solution⟩ :=
    Sources.evaluate_solves Sample.valid_template run
  exact ⟨Sample.valid_template, found, s', registry, base, queue, c, F, run, solution⟩

end KpiReport
