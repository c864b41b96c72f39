import KpiReport.Proofs.Evaluation.Growth

/-!
# The depth of nesting

Reports are evaluated inside each other up to a depth that the number of reports bounds. Below it
`Sources.evaluateOver` puts an arbitrary operation in place of a further evaluation. It is never
reached, since of the reports inside each other each has been started and none is started twice
(`Cache.Room`). So every sufficient depth gives one and the same operation, whatever is put below it
(`Sources.evaluateOver_eq`), and this operation calls itself with no bound
(`Sources.evaluate_eq`): the nested evaluations come to an end, in cyclic libraries too.
-/

namespace KpiReport

/-! ## Operations that do the same -/

namespace Evaluation

variable {α β : Type} {J : Cache → Prop}

/-- The operations do the same in every session whose cache has the property `J`. -/
def Alike (J : Cache → Prop) (action action' : Evaluation α) : Prop :=
  ∀ s : Session, J s.cache → action.run.run s = action'.run.run s

/-- A success takes every cache with the property `J` to one with the property `J'`. -/
def Leads (J J' : Cache → Prop) (action : Evaluation α) : Prop :=
  ∀ ⦃s a s'⦄, J s.cache → Runs action s a s' → J' s'.cache

theorem Alike.refl (J : Cache → Prop) (action : Evaluation α) : Alike J action action :=
  fun _ _ => rfl

theorem Alike.bind {action action' : Evaluation α} {next next' : α → Evaluation β}
    (first : Alike J action action') (J' : Cache → Prop) (leads : Leads J J' action)
    (rest : ∀ a, Alike J' (next a) (next' a)) : Alike J (action >>= next) (action' >>= next') := by
  intro s start
  have same := first s start
  rw [ExceptT.run_bind, ExceptT.run_bind, StateT.run_bind, StateT.run_bind, ← same]
  cases ran : action.run.run s with
  | mk result u =>
    cases result with
    | error e => rfl
    | ok a => exact rest a u (leads start ran)

theorem run_getCache_bind (next : Cache → Evaluation α) (s : Session) :
    (getCache >>= next).run.run s = (next s.cache).run.run s :=
  rfl

theorem run_modifyCache_bind (f : Cache → Cache) (next : Unit → Evaluation α) (s : Session) :
    (modifyCache f >>= next).run.run s = (next ()).run.run { s with cache := f s.cache } :=
  rfl

theorem leads_ofTraced (J : Cache → Prop) (action : Traced α) : Leads J J (ofTraced action) := by
  intro s a s' start run
  rw [cache_of_runs_ofTraced run]
  exact start

end Evaluation

open Evaluation

namespace Sheet

variable {sheet : Sheet} {J : Cache → Prop} {subReport : String → Evaluation (Option (Table Value))}

/-- The sheet with other answers of other reports. -/
def withSubReport (sheet : Sheet) (subReport : String → Evaluation (Option (Table Value))) :
    Sheet :=
  { sheet with subReport := subReport }

section Alike

variable (alike : ∀ code, Alike J (sheet.subReport code) (subReport code))
  (leads : ∀ code, Leads J J (sheet.subReport code))

include leads in
theorem bindSubReport_leads (findings : Findings) (code : String) :
    Leads J J (sheet.bindSubReport findings code) := by
  intro s findings' s' start run
  have trail : sheet.Trail (fun _ => True) s s' := (bindSubReport_inv run trivial).trail
  exact trail.keeps (fun _ _ _ _ _ held asked => leads _ held asked) start

include leads in
theorem bindSubReports_leads (asked : List String) (findings : Findings) :
    Leads J J (asked.foldlM sheet.bindSubReport findings) := by
  intro s findings' s' start run
  have trail : sheet.Trail (fun _ => True) s s' :=
    (bindSubReports_inv run fun _ _ => trivial).trail
  exact trail.keeps (fun _ _ _ _ _ held asked => leads _ held asked) start

include leads in
theorem pass_leads (findings : Findings) (queue : List CompiledKpi) :
    Leads J J (sheet.pass findings queue) := by
  intro s result s' start run
  have trail : sheet.Trail (fun _ => True) s s' := (pass_inv run fun _ _ _ _ => trivial).trail
  exact trail.keeps (fun _ _ _ _ _ held asked => leads _ held asked) start

include alike leads

theorem bindSubReport_alike (findings : Findings) (code : String) :
    Alike J (sheet.bindSubReport findings code)
      ((sheet.withSubReport subReport).bindSubReport findings code) := by
  unfold bindSubReport
  split
  · exact .refl _ _
  · exact (alike code).bind J (leads code) fun _ => .refl _ _

theorem bindSubReports_alike (asked : List String) (findings : Findings) :
    Alike J (asked.foldlM sheet.bindSubReport findings)
      (asked.foldlM (sheet.withSubReport subReport).bindSubReport findings) := by
  induction asked generalizing findings with
  | nil => exact .refl _ _
  | cons code asked ih =>
    rw [List.foldlM_cons, List.foldlM_cons]
    exact (bindSubReport_alike alike leads findings code).bind J
      (bindSubReport_leads leads findings code) ih

theorem pass_alike (queue : List CompiledKpi) (findings : Findings) :
    Alike J (sheet.pass findings queue) ((sheet.withSubReport subReport).pass findings queue) := by
  induction queue generalizing findings with
  | nil => exact .refl _ _
  | cons compiled queue ih =>
    refine (bindSubReports_alike alike leads compiled.subReports findings).bind J
      (bindSubReports_leads leads compiled.subReports findings) fun prepared => ?_
    refine (Alike.refl J _).bind J (leads_ofTraced J _) fun settled => ?_
    exact (ih settled).bind J (pass_leads leads settled queue) fun _ => .refl _ _

/-- Passes do the same if the other reports do. -/
theorem passes_alike (findings : Findings) (queue : List CompiledKpi) :
    Alike J (sheet.passes findings queue)
      ((sheet.withSubReport subReport).passes findings queue) := by
  rw [passes, passes]
  refine (pass_alike alike leads queue findings).bind J (pass_leads leads findings queue) ?_
  rintro ⟨after, retry⟩
  dsimp only
  split
  · exact .refl _ _
  · split
    · exact (passes_alike after retry).bind (fun _ => True) (fun _ _ _ _ _ => trivial)
        fun _ => .refl _ _
    · exact .refl _ _
termination_by queue.length

end Alike

end Sheet

namespace Sources

variable {sources : Sources} {self : Instance} {column : Column}

theorem registry_leads {J : Cache → Prop}
    (kept : ∀ cache code registry, J cache → J (Cache.keepRegistry cache code registry))
    (template : Template) : Leads J J (sources.registry self template) := by
  intro s registry s' start run
  rcases registry_inv run with ⟨-, same⟩ | ⟨-, -, same⟩
  · rw [same]
    exact start
  · rw [same]
    exact kept _ _ _ start

/-- Evaluations of a template do the same if the reports inside it do. -/
theorem evaluateWith_alike {J : Cache → Prop}
    {subReport subReport' : String → Evaluation (Option (Table Value))}
    (alike : ∀ code, Alike J (subReport code) (subReport' code))
    (leads : ∀ code, Leads J J (subReport code))
    (kept : ∀ cache code registry, J cache → J (Cache.keepRegistry cache code registry))
    (template : Template) :
    Alike (fun cache => J (cache.mark template.code column.period.name .started))
      (sources.evaluateWith self column subReport template)
      (sources.evaluateWith self column subReport' template) := by
  refine (Alike.refl _ _).bind J ?_ fun _ => ?_
  · intro s a s' start run
    rw [Evaluation.runs_modifyCache.1 run]
    exact start
  refine (Alike.refl J _).bind J (registry_leads kept template) fun registry => ?_
  refine (Alike.refl J _).bind J (leads_ofTraced J _) fun base => ?_
  refine (Alike.refl J _).bind J (leads_ofTraced J _) fun queue => ?_
  have passes : Alike J
      ((sources.sheet column subReport template).passes { scope := base } queue)
      ((sources.sheet column subReport' template).passes { scope := base } queue) :=
    Sheet.passes_alike alike leads { scope := base } queue
  exact passes.bind (fun _ => True) (fun _ _ _ _ _ => trivial) fun _ => .refl _ _

theorem subReportValues_alike {J : Cache → Prop}
    {evaluate evaluate' : Template → Evaluation PeriodResults} {code : String}
    (alike : ∀ template, sources.library.get code = .ok template →
      Alike (fun cache => J cache ∧ cache.progress? code column.period.name = none)
        (evaluate template) (evaluate' template)) :
    Alike J (sources.subReportValues column evaluate code)
      (sources.subReportValues column evaluate' code) := by
  intro s start
  unfold subReportValues
  rw [run_getCache_bind, run_getCache_bind]
  cases known : s.cache.progress? code column.period.name with
  | some progress => cases progress <;> rfl
  | none =>
    cases get : sources.library.get code with
    | error e => rfl
    | ok template =>
      let J' : Cache → Prop := fun cache => J cache ∧ cache.progress? code column.period.name = none
      have asked : Alike J' (Evaluation.log .debug
            ("Computing sub-report '" ++ code ++ "' for period '" ++ column.period.name ++ "'") >>=
          fun _ => evaluate template >>= fun found => return some found.values)
          (Evaluation.log .debug
            ("Computing sub-report '" ++ code ++ "' for period '" ++ column.period.name ++ "'") >>=
          fun _ => evaluate' template >>= fun found => return some found.values) :=
        (Alike.refl J' _).bind J' (leads_ofTraced J' _) fun _ =>
          (alike template get).bind (fun _ => True) (fun _ _ _ _ _ => trivial) fun _ => .refl _ _
      exact asked s ⟨start, known⟩

/-! ## Room -/

theorem subReportValues_leads (depth n : Nat) (le : n ≤ depth) (code : String) :
    Leads (Cache.Room sources.library column.period.name n)
      (Cache.Room sources.library column.period.name n)
      (sources.subReportValues column (sources.evaluateNested self column depth) code) := by
  intro s answer s' room run
  rcases subReportValues_inv run with ⟨-, same⟩ | ⟨-, template, -, -, get, -⟩
  · rw [same]
    exact room
  · have honest : (sources.sheet column (sources.inner self column (depth + 1)) template).Honest
      sources.library (depth + 1) := honest_inner (depth + 1) template
    exact room.grows (honest (Library.contains_of_get get)
      (room.mono (Nat.le_succ_of_le le)) run).1

/-- Evaluates a template for a column, with `bottom` in place of the evaluation of a report that has
`depth` reports above it. -/
def evaluateOver (sources : Sources) (self : Instance) (column : Column)
    (bottom : Template → Evaluation PeriodResults) : Nat → Template → Evaluation PeriodResults
  | 0 => bottom
  | depth + 1 =>
    sources.evaluateWith self column
      (sources.subReportValues column (sources.evaluateOver self column bottom depth))

/-- While no more than `n` reports have not been started, what lies deeper is not reached. -/
theorem evaluateOver_alike (bottom : Template → Evaluation PeriodResults) (n depth : Nat)
    (deep : n < depth) (template : Template) :
    Alike (fun cache => (cache.mark template.code column.period.name .started).Room sources.library
        column.period.name n)
      (sources.evaluateNested self column (n + 1) template)
      (sources.evaluateOver self column bottom depth template) := by
  induction n generalizing depth template with
  | zero =>
    obtain ⟨depth, rfl⟩ : ∃ m, depth = m + 1 := ⟨depth - 1, by omega⟩
    refine evaluateWith_alike (fun code => subReportValues_alike fun other get => ?_)
      (subReportValues_leads 0 0 (Nat.le_refl _)) (fun _ _ _ => id) template
    rintro s ⟨room, unstarted⟩
    rw [room.started (Library.contains_of_get get)] at unstarted
    cases unstarted
  | succ n ih =>
    obtain ⟨depth, rfl⟩ : ∃ m, depth = m + 1 := ⟨depth - 1, by omega⟩
    refine evaluateWith_alike (fun code => subReportValues_alike fun other get => ?_)
      (subReportValues_leads (n + 1) (n + 1) (Nat.le_refl _)) (fun _ _ _ => id) template
    rintro s ⟨room, unstarted⟩
    refine ih depth (by omega) other s ?_
    rw [Library.code_of_get get]
    exact room.enter (Library.contains_of_get get) unstarted

/-- **Nested evaluations come to an end.** Once more reports may lie inside each other than the
library holds, what is put in place of a further evaluation makes no difference, in any cache. -/
theorem evaluateOver_eq (bottom : Template → Evaluation PeriodResults) {depth : Nat}
    (deep : sources.library.size < depth) :
    sources.evaluateOver self column bottom depth = sources.evaluate self column := by
  funext template s
  exact (evaluateOver_alike bottom _ depth deep template s (Cache.room_size _ _ _)).symm

/-- An evaluation is made of further evaluations, with no bound on their nesting. -/
theorem evaluate_eq : sources.evaluate self column =
    sources.evaluateWith self column
      (sources.subReportValues column (sources.evaluate self column)) := by
  let again := sources.evaluateOver self column (sources.evaluate self column)
  have inner : again (sources.library.size + 1) = sources.evaluate self column :=
    evaluateOver_eq _ (by omega)
  calc sources.evaluate self column
      = again (sources.library.size + 2) := (evaluateOver_eq _ (by omega)).symm
    _ = sources.evaluateWith self column
          (sources.subReportValues column (again (sources.library.size + 1))) := rfl
    _ = _ := by rw [inner]

end Sources

end KpiReport
