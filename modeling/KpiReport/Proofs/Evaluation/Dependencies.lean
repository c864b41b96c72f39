import KpiReport.Proofs.Account.Registration
import KpiReport.Proofs.Evaluation.Growth

/-!
# Dependencies between reports

A report depends on the reports that its compiled formulas refer to, and on those that these depend
on. Where the dependencies of a report are acyclic, its evaluation never comes back to a report
that is being evaluated.
-/

namespace KpiReport

/-! ## References depend on the tokens alone -/

theorem Registry.substitute_congr {registry registry' : Registry}
    (same : registry.tokens = registry'.tokens) (formula : String) :
    registry.substitute formula = registry'.substitute formula := by
  have pieces : registry.substitutePiece = registry'.substitutePiece := by
    funext piece
    cases piece with
    | plain c => rfl
    | token token =>
      rw [substitutePiece, substitutePiece, index, index, index?, index?, same]
  rw [substitute, substitute, pieces]

theorem CompiledKpi.ofKpi_congr {registry registry' : Registry}
    (same : registry.tokens = registry'.tokens) (library : Library) (template : Template)
    (kpi : Kpi) :
    ofKpi library template registry kpi = ofKpi library template registry' kpi := by
  rw [ofKpi, ofKpi, Registry.substitute_congr same]

/-- The account tokens of a template are those of its formulas, looked up in the chart below the
root of the instance. -/
theorem Sources.newRegistry_inv {sources : Sources} {self : Instance} {template : Template}
    {registry : Registry} {t t' : Trace}
    (h : Runs (sources.newRegistry self template) t registry t') :
    ∃ registered chart,
      Registry.registerAll {} (template.kpis.map Kpi.expression) = .ok registered ∧
      sources.ledger.accountsUnder self.rootAccount = .ok chart ∧
      registry = { registered with accounts := some (registered.codesIn chart) } := by
  obtain ⟨registered, u, register, h⟩ := runs_bind.1 h
  obtain ⟨resolved, v, resolve, h⟩ := runs_bind.1 h
  obtain ⟨⟨⟩, w, -, h⟩ := runs_bind.1 h
  obtain ⟨rfl, -⟩ := runs_pure.1 h
  obtain ⟨made, rfl⟩ := Traced.runs_ofResult.1 register
  obtain ⟨chart, found, rfl⟩ := Registry.resolve_inv resolve
  exact ⟨registered, chart, made, found, rfl⟩

/-! ## Reaching reports -/

namespace Library

/-- The reports that the formulas of a template refer to. -/
def subReports (library : Library) (template : Template) : List String :=
  match Registry.registerAll {} (template.kpis.map Kpi.expression) with
  | .error _ => []
  | .ok registry =>
    template.kpis.flatMap fun kpi =>
      match CompiledKpi.ofKpi library template registry kpi with
      | .error _ => []
      | .ok compiled => compiled.subReports

/-- A template refers to a report, or to one from which it is reached. -/
inductive Reaches (library : Library) : Template → String → Prop where
  | refer {template : Template} {code : String} (asked : code ∈ library.subReports template) :
    Reaches library template code
  | step {template other : Template} {code code' : String}
    (asked : code ∈ library.subReports template) (get : library.get code = .ok other)
    (rest : Reaches library other code') : Reaches library template code'

/-- No report reaches itself, neither the template nor any that it reaches. -/
structure Acyclic (library : Library) (template : Template) : Prop where
  root : ¬ library.Reaches template template.code
  below : ∀ code other, library.Reaches template code → library.get code = .ok other →
    ¬ library.Reaches other code

variable {library : Library}

theorem Reaches.trans {template other : Template} {code code' : String}
    (h : library.Reaches template code) (get : library.get code = .ok other)
    (h' : library.Reaches other code') : library.Reaches template code' := by
  induction h with
  | refer asked => exact .step asked get h'
  | step asked found _ ih => exact .step asked found (ih get)

theorem not_reaches_of_subReports_eq_nil {template : Template}
    (none : library.subReports template = []) (code : String) :
    ¬ library.Reaches template code := by
  rintro (asked | ⟨asked, -, -⟩)
  · rw [none] at asked
    cases asked
  · rw [none] at asked
    cases asked

theorem acyclic_of_subReports_eq_nil {template : Template}
    (none : library.subReports template = []) : library.Acyclic template where
  root := not_reaches_of_subReports_eq_nil none _
  below := fun code _ reached => absurd reached (not_reaches_of_subReports_eq_nil none code)

theorem mem_subReports {sources : Sources} {self : Instance} {template : Template}
    {registry : Registry} {queue : List CompiledKpi} {t t' : Trace}
    (tokens : Runs (sources.newRegistry self template) t registry t')
    (compile : template.sortedKpis.mapM (CompiledKpi.ofKpi sources.library template registry) =
      .ok queue) {compiled : CompiledKpi} (member : compiled ∈ queue) {code : String}
    (asked : code ∈ compiled.subReports) : code ∈ sources.library.subReports template := by
  obtain ⟨registered, chart, register, -, looked⟩ := Sources.newRegistry_inv tokens
  have same : registry.tokens = registered.tokens := by rw [looked]
  obtain ⟨kpi, inside, made⟩ := exists_of_mem_mapM compile member
  rw [CompiledKpi.ofKpi_congr same] at made
  rw [subReports, register]
  refine List.mem_flatMap.2 ⟨kpi, List.mem_mergeSort.1 inside, ?_⟩
  rw [made]
  exact asked

theorem exists_of_mem_subReports {sources : Sources} {self : Instance} {template : Template}
    {registry : Registry} {queue : List CompiledKpi} {t t' : Trace}
    (tokens : Runs (sources.newRegistry self template) t registry t')
    (compile : template.sortedKpis.mapM (CompiledKpi.ofKpi sources.library template registry) =
      .ok queue) {code : String} (asked : code ∈ sources.library.subReports template) :
    ∃ compiled ∈ queue, code ∈ compiled.subReports := by
  obtain ⟨registered, chart, register, -, looked⟩ := Sources.newRegistry_inv tokens
  have same : registry.tokens = registered.tokens := by rw [looked]
  rw [subReports, register] at asked
  obtain ⟨kpi, inside, asked⟩ := List.mem_flatMap.1 asked
  rw [← CompiledKpi.ofKpi_congr same] at asked
  obtain ⟨compiled, member, made⟩ := exists_mem_of_mapM compile (List.mem_mergeSort.2 inside)
  rw [made] at asked
  exact ⟨compiled, member, asked⟩

end Library

end KpiReport
