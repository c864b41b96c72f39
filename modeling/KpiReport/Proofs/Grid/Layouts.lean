import KpiReport.Proofs.Runs
import KpiReport.Report

/-!
# The layout of a report plays no part in its computation

Whether a template is a matrix, or laid out by hand, is looked at only when its grids are made.
`unlaid` takes these two settings away, from a template and from all templates of a library. What
is evaluated stays the same operation, with the same trace and the same failures
(`Sources.filledColumns_unlaid`), and so templates that differ in their layout alone are computed in
the same way up to the last step (`Sources.compute_withReport`, `Sources.prepare_congr`).
-/

namespace KpiReport

open Calendar

/-! ## Templates and libraries without layout -/

/-- The template as a plain report, neither a matrix nor laid out by hand. -/
def Template.unlaid (template : Template) : Template :=
  { template with isMatrix := false, manualPosition := false }

@[simp] theorem Template.unlaid_query? (template : Template) (name : String) :
    template.unlaid.query? name = template.query? name :=
  rfl

@[simp] theorem Template.unlaid_validate (template : Template) :
    template.unlaid.validate = template.validate :=
  rfl

theorem Table.mapValues_insert {α β : Type} (f : α → β) (table : Table α) (name : String)
    (value : α) :
    (table.insert name value).mapValues f = (table.mapValues f).insert name (f value) := by
  induction table with
  | nil => rfl
  | cons entry rest ih =>
    obtain ⟨other, stored⟩ := entry
    rw [Table.insert]
    change _ = Table.insert ((other, f stored) :: Table.mapValues f rest) name (f value)
    rw [Table.insert]
    split
    · rfl
    · split
      · rfl
      · exact congrArg _ ih

namespace Library

/-- The library of the same templates, all of them plain. -/
def unlaid (library : Library) : Library where
  reports := library.reports.mapValues Template.unlaid
  keyed := fun entry stored => by
    obtain ⟨own, inside, rfl⟩ := List.mem_map.1 stored
    exact library.keyed own inside

variable (library : Library)

theorem unlaid_insert (template : Template) :
    (library.insert template).unlaid = library.unlaid.insert template.unlaid := by
  have reports : (library.insert template).unlaid.reports =
      (library.unlaid.insert template.unlaid).reports :=
    Table.mapValues_insert Template.unlaid library.reports template.code template
  unfold unlaid insert at reports ⊢
  simp only at reports
  simp only [reports]

@[simp] theorem get_unlaid (code : String) :
    library.unlaid.get code = (library.get code).map Template.unlaid := by
  rw [get, get, unlaid, Table.get?_mapValues]
  cases library.reports.get? code <;> rfl

@[simp] theorem contains_unlaid (code : String) :
    library.unlaid.contains code = library.contains code := by
  rw [contains, contains, Table.contains, Table.contains, unlaid, Table.get?_mapValues,
    Option.isSome_map]

@[simp] theorem size_unlaid : library.unlaid.size = library.size := by
  simp [size, unlaid, Table.mapValues]

@[simp] theorem checkReference_unlaid (template : Template) (kpi : Kpi)
    (reference : String × String) :
    library.unlaid.checkReference template.unlaid kpi reference =
      library.checkReference template kpi reference := by
  unfold checkReference
  rw [get_unlaid, Template.unlaid_query?]
  cases library.get reference.1 <;> rfl

theorem isCrossReference_unlaid (template : Template) (reference : String × String) :
    library.unlaid.isCrossReference template.unlaid reference =
      library.isCrossReference template reference := by
  simp [isCrossReference]

theorem get_insert (template : Template) :
    (library.insert template).get template.code = .ok template := by
  rw [get, insert, Table.get?_insert, if_pos rfl]
  rfl

end Library

theorem CompiledKpi.ofKpi_unlaid (library : Library) (template : Template) (registry : Registry) :
    CompiledKpi.ofKpi library.unlaid template.unlaid registry =
      CompiledKpi.ofKpi library template registry := by
  have crossing : library.unlaid.isCrossReference template.unlaid =
      library.isCrossReference template := by
    funext reference
    exact library.isCrossReference_unlaid template reference
  funext kpi
  have check : library.unlaid.checkReference template.unlaid kpi =
      library.checkReference template kpi := by
    funext reference
    exact library.checkReference_unlaid template kpi reference
  unfold CompiledKpi.ofKpi
  rw [crossing, check]

/-! ## Evaluations -/

theorem Evaluation.ofResult_ok_bind {α β : Type} (a : α) (next : α → Evaluation β) :
    (Evaluation.ofResult (.ok a) >>= next) = next a :=
  rfl

theorem Traced.ofResult_ok_bind {α β : Type} (a : α) (next : α → Traced β) :
    (Traced.ofResult (.ok a) >>= next) = next a :=
  rfl

namespace Sources

/-- The sources with plain templates. -/
def unlaid (sources : Sources) : Sources :=
  { sources with library := sources.library.unlaid }

variable (sources : Sources) (self : Instance) (column : Column)

theorem evaluateWith_unlaid (subReport : String → Evaluation (Option (Table Value)))
    (template : Template) :
    sources.unlaid.evaluateWith self column subReport template.unlaid =
      sources.evaluateWith self column subReport template := by
  have compile := CompiledKpi.ofKpi_unlaid sources.library template
  unfold evaluateWith
  simp only [unlaid, compile]
  rfl

theorem subReportValues_unlaid {evaluate evaluate' : Template → Evaluation PeriodResults}
    (same : ∀ template, evaluate' template.unlaid = evaluate template) :
    sources.unlaid.subReportValues column evaluate' = sources.subReportValues column evaluate := by
  funext code
  have get : sources.unlaid.library.get code = (sources.library.get code).map Template.unlaid :=
    sources.library.get_unlaid code
  have found : (Evaluation.ofResult (sources.unlaid.library.get code) >>= fun template => do
      Evaluation.log .debug
        ("Computing sub-report '" ++ code ++ "' for period '" ++ column.period.name ++ "'")
      let found ← evaluate' template
      return some found.values) =
      (Evaluation.ofResult (sources.library.get code) >>= fun template => do
      Evaluation.log .debug
        ("Computing sub-report '" ++ code ++ "' for period '" ++ column.period.name ++ "'")
      let found ← evaluate template
      return some found.values) := by
    rw [get]
    cases sources.library.get code with
    | error e => rfl
    | ok template =>
      rw [Except.map, Evaluation.ofResult_ok_bind, Evaluation.ofResult_ok_bind, same]
  unfold subReportValues
  rw [found]

theorem evaluateNested_unlaid (depth : Nat) (template : Template) :
    sources.unlaid.evaluateNested self column depth template.unlaid =
      sources.evaluateNested self column depth template := by
  induction depth generalizing template with
  | zero => exact sources.evaluateWith_unlaid self column _ template
  | succ depth ih =>
    rw [evaluateNested, evaluateNested, sources.subReportValues_unlaid column ih,
      evaluateWith_unlaid]

theorem evaluate_unlaid (template : Template) :
    sources.unlaid.evaluate self column template.unlaid =
      sources.evaluate self column template := by
  have size : sources.unlaid.library.size = sources.library.size := sources.library.size_unlaid
  rw [evaluate, size, evaluateNested_unlaid, evaluate]

theorem columns_unlaid (pivot : Date) (periods : List Period) :
    sources.unlaid.columns self pivot periods = sources.columns self pivot periods := by
  induction periods with
  | nil => rfl
  | cons period periods ih =>
    rw [columns, columns, ih]
    rfl

theorem filledColumns_unlaid (template : Template) :
    sources.unlaid.filledColumns self template.unlaid =
      sources.filledColumns self template := by
  have fill : sources.unlaid.fill self template.unlaid = sources.fill self template := by
    funext column
    unfold fill
    rw [evaluate_unlaid]
  unfold filledColumns
  simp only [fill, columns_unlaid]
  rfl

/-! ## Reports -/

/-- The sources with one more template in the library, in place of one with its code. -/
def withReport (template : Template) : Sources :=
  { sources with library := sources.library.insert template }

theorem unlaid_withReport (template : Template) :
    (sources.withReport template).unlaid = sources.unlaid.withReport template.unlaid := by
  unfold withReport unlaid
  simp only [Library.unlaid_insert]

/-- What precedes the layout of a report: the checks of the instance and the template, and the
columns with their results. -/
def prepare (template : Template) : Traced (List FilledColumn) := do
  Traced.ofResult self.validate
  Traced.ofResult template.validate
  sources.filledColumns self template

theorem prepare_unlaid (template : Template) :
    sources.unlaid.prepare self template.unlaid = sources.prepare self template := by
  rw [prepare, filledColumns_unlaid, Template.unlaid_validate, prepare]

/-- Templates that differ in their layout alone are prepared by the same operation. -/
theorem prepare_congr (template other : Template) (same : template.unlaid = other.unlaid) :
    (sources.withReport template).prepare self template =
      (sources.withReport other).prepare self other := by
  rw [← prepare_unlaid, unlaid_withReport, same, ← unlaid_withReport, prepare_unlaid]

variable {self} (template : Template)

/-- The report of an instance is prepared and then laid out. -/
theorem compute_withReport (own : self.report = template.code) :
    (sources.withReport template).compute self =
      ((sources.withReport template).prepare self template >>= fun columns =>
        Traced.ofResult (template.layOut sources.settings.locale columns)) := by
  have get : (sources.withReport template).library.get self.report = .ok template := by
    rw [own]
    exact sources.library.get_insert template
  unfold compute prepare
  simp only [get, Traced.ofResult_ok_bind, bind_assoc]
  rfl

/-- The layout leaves no trace. -/
theorem run_compute_withReport (own : self.report = template.code) {t u : Trace}
    {prepared : Result (List FilledColumn)}
    (h : ((sources.withReport template).prepare self template).run.run t = (prepared, u)) :
    ((sources.withReport template).compute self).run.run t =
      (prepared >>= template.layOut sources.settings.locale, u) := by
  rw [sources.compute_withReport template own, ExceptT.run_bind, StateT.run_bind, h]
  cases prepared <;> rfl

theorem runs_compute_withReport (own : self.report = template.code) {t u : Trace}
    {grids : List Grid} :
    Runs ((sources.withReport template).compute self) t grids u ↔
      ∃ columns, Runs ((sources.withReport template).prepare self template) t columns u ∧
        template.layOut sources.settings.locale columns = .ok grids := by
  rw [sources.compute_withReport template own, runs_bind]
  refine exists_congr fun columns => ?_
  constructor
  · rintro ⟨v, prepared, laidOut⟩
    obtain ⟨made, rfl⟩ := Traced.runs_ofResult.1 laidOut
    exact ⟨prepared, made⟩
  · rintro ⟨prepared, made⟩
    exact ⟨u, prepared, Traced.runs_ofResult.2 ⟨made, rfl⟩⟩

end Sources

end KpiReport
