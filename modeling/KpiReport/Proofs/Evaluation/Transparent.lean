import KpiReport.Proofs.Evaluation.Nesting
import KpiReport.Proofs.Evaluation.Order

/-!
# The cache changes no result

Evaluations that share a cache compute each report once and bind its values wherever they are asked
for. In a library of valid reports none of which reaches itself, this changes nothing:

* a cache that earlier evaluations left is sound, and no evaluation is unfinished in it
  (`Sources.Reached.settled`), so an evaluation is ready to start from it;
* every evaluation that begins inside another one is ready too (`Sources.Begins.ready`), and what it
  binds under a dotted name is what the report of that name yields (`Sources.Binds.reported`).

The main statement is `Sources.evaluate_transparent`.
-/

namespace KpiReport

/-! ## Which reports are asked, and when -/

namespace Sheet

/-- When the passes over a queue start from some findings and a session, they ask for the report
`code` in the session `w`. -/
inductive Calls (sheet : Sheet) (code : String) (w : Session) :
    Findings → List CompiledKpi → Session → Prop where
  /-- The report is asked for in the first pass, after the KPIs `before` and the reports `asked`. -/
  | now {findings prepared after : Findings} {before later retry : List CompiledKpi}
    {compiled : CompiledKpi} {asked unasked : List String} {s u : Session}
    (pass : Runs (sheet.pass findings before) s (prepared, retry) u)
    (split : compiled.subReports = asked ++ code :: unasked)
    (bind : Runs (asked.foldlM sheet.bindSubReport prepared) u after w)
    (unbound : code ∉ after.boundReports) :
    Calls sheet code w findings (before ++ compiled :: later) s
  /-- The report is asked for in a later pass. -/
  | later {findings after : Findings} {queue retry : List CompiledKpi} {s u : Session}
    (pass : Runs (sheet.pass findings queue) s (after, retry) u) (left : retry ≠ [])
    (shorter : retry.length < queue.length) (rest : Calls sheet code w after retry u) :
    Calls sheet code w findings queue s

variable {sheet : Sheet} {codes : String → Prop}

/-- The report that is asked for is one to which a KPI of the queue refers, and nothing but asking
for such reports has changed the cache before. -/
theorem Calls.trail {code : String} {findings : Findings} {queue : List CompiledKpi} {s w : Session}
    (h : sheet.Calls code w findings queue s)
    (inside : ∀ compiled ∈ queue, ∀ code ∈ compiled.subReports, codes code) :
    codes code ∧ sheet.Trail codes s w := by
  induction h with
  | @now _ _ _ before later _ compiled asked unasked _ _ pass split bind _ =>
    have own := inside compiled (List.mem_append_right _ List.mem_cons_self)
    rw [split] at own
    have first := pass_inv pass fun compiled member =>
      inside compiled (List.mem_append_left _ member)
    have rest := bindSubReports_inv bind fun code member => own code (List.mem_append_left _ member)
    exact ⟨own code (List.mem_append_right _ List.mem_cons_self), first.trail.trans rest.trail⟩
  | later pass _ _ _ ih =>
    obtain ⟨asked, trail⟩ := ih fun compiled member =>
      inside compiled ((pass_sublist pass).subset member)
    exact ⟨asked, (pass_inv pass inside).trail.trans trail⟩

end Sheet

/-! ## Evaluations inside evaluations -/

namespace Sources

variable {sources : Sources} {self : Instance} {column : Column}

/-- What an evaluation does before its passes: the first scope and the compiled KPIs. -/
def preparation (sources : Sources) (self : Instance) (column : Column) (template : Template) :
    Evaluation (Scope × List CompiledKpi) := do
  Evaluation.modifyCache fun cache => cache.mark template.code column.period.name .started
  let registry ← sources.registry self template
  let scope ← Evaluation.ofTraced (sources.firstScope self column template registry)
  let queue ← Evaluation.ofResult
    (template.sortedKpis.mapM (CompiledKpi.ofKpi sources.library template registry))
  return (scope, queue)

/-- An evaluation is its preparation, the passes, and the mark that they have ended. -/
theorem evaluateWith_eq (subReport : String → Evaluation (Option (Table Value)))
    (template : Template) : sources.evaluateWith self column subReport template = (do
    let (scope, queue) ← sources.preparation self column template
    let (findings, passes) ←
      (sources.sheet column subReport template).passes { scope := scope } queue
    Evaluation.log .debug
      ("Report '" ++ template.code ++ "', period '" ++ column.period.name ++ "': " ++
        toString findings.results.length ++ " KPI(s) evaluated in " ++ toString passes ++
        " pass(es)")
    let found : PeriodResults := ⟨findings.results, passes⟩
    Evaluation.modifyCache fun cache =>
      cache.mark template.code column.period.name (.finished found.values)
    return found) := by
  simp only [evaluateWith, preparation, bind_assoc, pure_bind]
  rfl

/-- In the course of the evaluation of a template from a session, with some depth left, an
evaluation of another template begins in another session, with another depth. -/
inductive Begins (sources : Sources) (inst : Instance) (column : Column) :
    Nat → Template → Session → Nat → Template → Session → Prop where
  | here {depth : Nat} {template : Template} {s : Session} :
    Begins sources inst column depth template s depth template s
  | inside {depth depth' : Nat} {template other template' : Template} {s u w w' s' : Session}
    {base : Scope} {queue : List CompiledKpi} {code : String}
    (prepared : Runs (sources.preparation inst column template) s (base, queue) u)
    (calls : (sources.sheet column (sources.inner inst column (depth + 1)) template).Calls code w
      { scope := base } queue u)
    (unknown : w.cache.progress? code column.period.name = none)
    (get : sources.library.get code = .ok other) (same : w'.cache = w.cache)
    (rest : Begins sources inst column depth other w' depth' template' s') :
    Begins sources inst column (depth + 1) template s depth' template' s'

/-- The evaluation of a template, or one that begins inside it, binds a name to a value. A scope
keeps every binding, so the last scope holds all that were made. -/
def Binds (sources : Sources) (inst : Instance) (column : Column) (depth : Nat)
    (template : Template) (s : Session) (name : String) (value : Value) : Prop :=
  ∃ less other s' base queue u findings passes v,
    Begins sources inst column depth template s less other s' ∧
      Runs (sources.preparation inst column other) s' (base, queue) u ∧
      Runs ((sources.sheet column (sources.inner inst column less) other).passes
        { scope := base } queue) u (findings, passes) v ∧
      (name, value) ∈ findings.scope.bindings

theorem preparation_inv {template : Template} {s u : Session} {base : Scope}
    {queue : List CompiledKpi}
    (prepared : Runs (sources.preparation self column template) s (base, queue) u) :
    ∃ registry, (∃ w w', w.cache = s.cache.mark template.code column.period.name .started ∧
        Runs (sources.registry self template) w registry w' ∧ w'.cache = u.cache) ∧
      (∃ t t', Runs (sources.firstScope self column template registry) t base t') ∧
      template.sortedKpis.mapM (CompiledKpi.ofKpi sources.library template registry) =
        .ok queue := by
  obtain ⟨⟨⟩, s₁, start, rest⟩ := runs_bind.1 prepared
  obtain ⟨registry, s₂, lookUp, rest⟩ := runs_bind.1 rest
  obtain ⟨scope, s₃, fetch, rest⟩ := runs_bind.1 rest
  obtain ⟨compiled, s₄, compile, rest⟩ := runs_bind.1 rest
  obtain ⟨same, rfl⟩ := runs_pure.1 rest
  cases same
  obtain ⟨made, rfl⟩ := Evaluation.runs_ofResult.1 compile
  obtain ⟨t, first, rfl⟩ := Evaluation.runs_ofTraced.1 fetch
  refine ⟨registry, ⟨s₁, s₂, ?_, lookUp, rfl⟩, ⟨_, t, first⟩, made⟩
  rw [Evaluation.runs_modifyCache.1 start]

/-! ## Readiness inside evaluations -/

variable {K : String → Prop}

/-- An evaluation that begins inside one that is ready is ready itself. -/
theorem Begins.ready {depth less : Nat} {template other : Template} {s s' : Session}
    (h : Begins sources self column depth template s less other s')
    (start : Ready sources self column K depth template s.cache) :
    Ready sources self column K less other s'.cache := by
  induction h with
  | here => exact start
  | @inside depth less template other other' s u w w' s' base queue code prepared calls unknown get
      same _ ih =>
    obtain rfl := Library.code_of_get get
    obtain ⟨registry, ⟨v, v', begun, lookUp, kept⟩, -, compile⟩ := preparation_inv prepared
    obtain ⟨tokens, working⟩ := start.lookUp begun lookUp
    rw [kept] at working
    obtain ⟨asked, trail⟩ := calls.trail (mayAsk_of_compile tokens compile)
    have fit := start.keeps (fun less _ => yields_of_runs less) working trail
    refine ih ?_
    rw [same]
    exact start.enter fit (.refer asked.1) get unknown

end Sources

/-! ## Dotted names -/

namespace Findings

variable {period : String} {locale : Locale} {answers : Answers} {queue : List CompiledKpi}

/-- Every binding of a dotted name is one of the values that a report of the queue gave. -/
def Reported (answers : Answers) (queue : List CompiledKpi) (findings : Findings) : Prop :=
  ∀ entry ∈ findings.scope.bindings, ¬ Dotless entry.1 →
    ∃ compiled ∈ queue, ∃ code ∈ compiled.subReports, ∃ values given, answers code = some values ∧
      given ∈ values ∧ entry = (Library.dotted code given.1, given.2)

theorem mem_bindings_insertAll {scope : Scope} {entries : List (String × Value)}
    {entry : String × Value} (h : entry ∈ (scope.insertAll entries).bindings) :
    entry ∈ entries ∨ entry ∈ scope.bindings := by
  induction entries generalizing scope with
  | nil => exact .inr h
  | cons first entries ih =>
    have split : entry ∈ entries ∨ entry ∈ (scope.insert first.1 first.2).bindings := ih h
    rcases split with member | member
    · exact .inl (List.mem_cons_of_mem _ member)
    · rcases List.mem_cons.1 member with same | member
      · rw [same]
        exact .inl List.mem_cons_self
      · exact .inr member

theorem reported_bindAnswer {findings : Findings} (h : findings.Reported answers queue)
    {compiled : CompiledKpi} (member : compiled ∈ queue) {code : String}
    (asked : code ∈ compiled.subReports) :
    (findings.bindAnswer answers code).Reported answers queue := by
  unfold bindAnswer
  split
  · exact h
  · split
    · rename_i values given
      intro entry bound dotted
      rcases mem_bindings_insertAll bound with new | old
      · obtain ⟨value, inside, rfl⟩ := List.mem_map.1 new
        exact ⟨compiled, member, code, asked, values, value, given, inside, rfl⟩
      · exact h entry old dotted
    · exact h

theorem reported_prepared {findings : Findings} (h : findings.Reported answers queue)
    {compiled : CompiledKpi} (member : compiled ∈ queue) :
    (findings.prepared answers compiled).Reported answers queue :=
  prepared_keeps (J := Findings.Reported answers queue)
    (fun _ asked _ before => reported_bindAnswer before member asked) h

theorem reported_visited {findings : Findings} (h : findings.Reported answers queue)
    {compiled : CompiledKpi} (member : compiled ∈ queue) (named : Dotless compiled.kpi.name) :
    (findings.visited period locale answers compiled).Reported answers queue := by
  have before := reported_prepared h member
  intro entry bound dotted
  unfold visited settled bindOutcome at bound
  dsimp only [keepResult] at bound
  split at bound
  · rcases List.mem_cons.1 bound with rfl | old
    · exact absurd named dotted
    · exact before entry old dotted
  · exact before entry bound dotted

end Findings

namespace Sources

variable {sources : Sources} {self : Instance} {column : Column} {template : Template}

/-! ## Caches that evaluations leave -/

section Leads

open Evaluation

variable {J : Cache → Prop}
  (mark : ∀ cache code progress, J cache → J (Cache.mark cache code column.period.name progress))
  (keep : ∀ cache code registry, J cache → J (Cache.keepRegistry cache code registry))

include mark keep

theorem evaluateWith_leads {subReport : String → Evaluation (Option (Table Value))}
    (asks : ∀ code, Leads J J (subReport code)) (template : Template) :
    Leads J J (sources.evaluateWith self column subReport template) := by
  intro s found s' start run
  obtain ⟨registry, base, queue, findings, u, v, stages, -, stop⟩ := evaluateWith_inv run
  obtain ⟨w, w', begun, lookUp, same⟩ := stages.lookUp
  have marked : J w.cache := begun ▸ mark _ _ _ start
  have looked : J u.cache := same ▸ registry_leads keep template marked lookUp
  have trail : (sources.sheet column subReport template).Trail (fun _ => True) u v :=
    (Sheet.passes_inv stages.passes fun _ _ _ _ => trivial).trail
  rw [stop]
  exact mark _ _ _ (trail.keeps (fun code _ _ _ _ held ran => asks code held ran) looked)

/-- What marks for the period of a column and account tokens that are looked up keep, an evaluation
for the column keeps. -/
theorem evaluateNested_leads (depth : Nat) (template : Template) :
    Leads J J (sources.evaluateNested self column depth template) := by
  induction depth generalizing template with
  | zero =>
    refine evaluateWith_leads mark keep (fun code => ?_) template
    intro s answer s' start run
    obtain ⟨-, rfl⟩ := runs_pure.1 run
    exact start
  | succ depth ih =>
    refine evaluateWith_leads mark keep (fun code => ?_) template
    intro s answer s' start run
    rcases subReportValues_inv run with ⟨-, same⟩ | ⟨-, other, found, u, -, same, nested, -⟩
    · rw [same]
      exact start
    · rw [← same] at start
      exact ih other start nested

end Leads

/-- The caches that evaluations of reports of the library leave, one after the other, where every
period name stands for one column. -/
inductive Reached (sources : Sources) (inst : Instance) (columns : String → Column) :
    Cache → Prop where
  | empty : Reached sources inst columns {}
  | evaluate {column : Column} {template : Template} {s s' : Session} {found : PeriodResults}
    (before : Reached sources inst columns s.cache)
    (named : columns column.period.name = column)
    (get : sources.library.get template.code = .ok template)
    (run : Runs (sources.evaluate inst column template) s found s') :
    Reached sources inst columns s'.cache

/-- A cache that tells what the templates yield for a column, with no evaluation left unfinished. -/
structure Settled (sources : Sources) (inst : Instance) (column : Column) (cache : Cache) :
    Prop where
  sound : Sound sources inst column (fun _ => True) cache
  closed : ∀ code, cache.progress? code column.period.name ≠ some .started

theorem Settled.ready {cache : Cache} (h : Settled sources self column cache)
    (acyclic : sources.library.Acyclic template)
    (get : sources.library.get template.code = .ok template) :
    Ready sources self column (fun _ => True) (sources.library.size + 1) template cache where
  room := (Cache.room_size _ _ _).mono (Nat.le_succ _)
  fresh := by
    intro code reached
    rw [Cache.progress?_mark, if_neg]
    · exact h.closed code
    · rintro ⟨rfl, -⟩
      exact acyclic.root reached
  sound := h.sound
  tokens := fun registry => h.sound.tokens _ _ registry trivial get
  own := fun _ => get
  within := fun _ _ => trivial
  acyclic := acyclic.below

/-- An evaluation leaves no other evaluation for its column unfinished. -/
theorem closed_of_evaluate {s s' : Session} {found : PeriodResults}
    (run : Runs (sources.evaluate self column template) s found s')
    (closed : ∀ code, s.cache.progress? code column.period.name ≠ some .started) (code : String) :
    s'.cache.progress? code column.period.name ≠ some .started := by
  have room := (Cache.room_size sources.library column.period.name
    (s.cache.mark template.code column.period.name .started)).mono (Nat.le_succ _)
  obtain ⟨registry, base, queue, findings, c, ends⟩ := evaluateNested_grows run room
  rw [ends.stop, Cache.progress?_mark]
  split
  · exact nofun
  · rename_i other
    have marked : (s.cache.mark template.code column.period.name .started).progress? code
        column.period.name = s.cache.progress? code column.period.name := by
      rw [Cache.progress?_mark, if_neg other]
    cases known : s.cache.progress? code column.period.name with
    | none => exact ends.grows.closes code (marked.trans known)
    | some progress =>
      rw [ends.grows.keeps code progress (marked.trans known), ← known]
      exact closed code

variable {columns : String → Column}

/-- A cache that earlier evaluations left is settled for every column. -/
theorem Reached.settled
    (acyclic : ∀ code template, sources.library.get code = .ok template →
      sources.library.Acyclic template) {cache : Cache}
    (h : Reached sources self columns cache) {column : Column}
    (named : columns column.period.name = column) : Settled sources self column cache := by
  induction h generalizing column with
  | empty => exact ⟨sound_empty, nofun⟩
  | @evaluate own template s s' found before named' get run ih =>
    have start := ih named'
    obtain ⟨-, sound⟩ := yields_of_runs _ (start.ready (acyclic _ template get) get) run
    by_cases same : column.period.name = own.period.name
    · obtain rfl : column = own := by rw [← named, ← named', same]
      exact ⟨sound, closed_of_evaluate run start.closed⟩
    · have unchanged (code : String) : s'.cache.progress? code column.period.name =
          s.cache.progress? code column.period.name := by
        refine evaluateNested_leads (J := fun cache => cache.progress? code column.period.name =
          s.cache.progress? code column.period.name) ?_ (fun _ _ _ => id) _ template rfl run
        intro cache other progress held
        rw [Cache.progress?_mark, if_neg fun both => same both.2, held]
      have earlier := ih named
      refine ⟨⟨sound.tokens, ?_⟩, fun code => ?_⟩
      · intro code other values inside stored known
        rw [unchanged] at known
        exact earlier.sound.values code other values inside stored known
      · rw [unchanged]
        exact earlier.closed code

/-! ## Transparency -/

theorem Yields.get?_of_mem_values {found : PeriodResults}
    (h : Yields sources self column template found) {entry : String × Value}
    (member : entry ∈ found.values) :
    ∃ result, found.get? entry.1 = some result ∧ entry.2 = result.value := by
  cases h with
  | intro others founds tokens computes =>
    obtain ⟨⟨kpi, result⟩, stored, rfl⟩ := List.mem_map.1 member
    exact ⟨result, computes.sorted.get?_of_mem stored, rfl⟩

/-- A dotted name is bound to what the report of the name yields. -/
theorem Binds.reported
    (valid : ∀ code template, sources.library.get code = .ok template → template.validate = .ok ())
    {s : Session} {depth : Nat}
    (ready : Ready sources self column (fun _ => True) depth template s.cache) {name : String}
    {value : Value} (h : Binds sources self column depth template s name value)
    (dotted : ¬ Dotless name) :
    ∃ report kpi other found result, name = Library.dotted report kpi ∧
      sources.library.get report = .ok other ∧ Yields sources self column other found ∧
      found.get? kpi = some result ∧ value = result.value := by
  obtain ⟨less, inner, s', base, queue, u, findings, passes, v, begins, prepared, run, bound⟩ := h
  have ready' := begins.ready ready
  have validInner := valid _ inner (ready'.own trivial)
  obtain ⟨registry, lookUp, ⟨t, t', scope⟩, compile⟩ := preparation_inv prepared
  have stages : Stages sources self column (sources.inner self column less) inner registry base
      queue (findings, passes) s'.cache u v := ⟨lookUp, ⟨t, t', scope⟩, compile, run⟩
  obtain ⟨-, -, computed, others, founds, told⟩ :=
    ready'.stages (fun less _ => yields_of_runs less) stages
  have named := wellNamed_of_compile validInner compile
  have start : Findings.Reported (v.cache.answers column.period.name) queue { scope := base } := by
    intro entry member dotted
    refine absurd (dotless_of_firstScope validInner scope ?_) dotted
    rw [Scope.get?]
    exact Table.mem_names_iff.1 (List.mem_map_of_mem member)
  have reported : (Findings.passes column.period.name sources.settings.locale
      (v.cache.answers column.period.name) { scope := base } queue).1.Reported
        (v.cache.answers column.period.name) queue := by
    refine Findings.passes_keeps (J := Findings.Reported _ queue) ?_ start
    intro compiled member findings before
    exact Findings.reported_visited before member (named.dotless compiled member)
  rw [computed] at reported
  obtain ⟨compiled, member, code, asked, values, given, answer, inside, same⟩ :=
    reported _ bound dotted
  rw [told.answer compiled member code asked] at answer
  obtain rfl := Option.some.inj answer
  obtain ⟨result, stored, valued⟩ :=
    (told.yields compiled member code asked).get?_of_mem_values inside
  exact ⟨code, given.1, others code, founds code, result, congrArg Prod.fst same,
    told.get compiled member code asked, told.yields compiled member code asked, stored,
    (congrArg Prod.snd same).trans valued⟩

/-- **The cache changes no result.** Let the reports of a library be valid and reach none of
themselves, let earlier evaluations have left a cache, and let a report be evaluated with it for one
of their columns.

* It gives the results that it gives with an empty cache.
* Whatever it binds under a dotted name, in its own scope or in that of a report inside it, is the
  value that the KPI of that name has when its report is evaluated alone with an empty cache. -/
theorem evaluate_transparent {columns : String → Column}
    (valid : ∀ code template, sources.library.get code = .ok template → template.validate = .ok ())
    (acyclic : ∀ code template, sources.library.get code = .ok template →
      sources.library.Acyclic template)
    {s : Session} (reached : Reached sources self columns s.cache)
    (named : columns column.period.name = column)
    (get : sources.library.get template.code = .ok template) (t : Trace) :
    (∀ found, (∃ s', Runs (sources.evaluate self column template) s found s') ↔
      ∃ s', Runs (sources.evaluate self column template) { trace := t } found s') ∧
    ∀ name value, Binds sources self column (sources.library.size + 1) template s name value →
      ¬ Dotless name →
      ∃ report kpi other found s' result, name = Library.dotted report kpi ∧
        sources.library.get report = .ok other ∧
        Runs (sources.evaluate self column other) { trace := t } found s' ∧
        found.get? kpi = some result ∧ value = result.value := by
  have ready := (reached.settled acyclic named).ready (acyclic _ template get) get
  refine ⟨fun found => ?_, fun name value bound dotted => ?_⟩
  · rw [exists_runs_iff_yields (acyclic _ template get) t]
    constructor
    · rintro ⟨s', run⟩
      exact (yields_of_runs _ ready run).1
    · exact runs_of_yields ready
  · obtain ⟨report, kpi, other, found, result, same, stored, yields, told, valued⟩ :=
      bound.reported valid ready dotted
    obtain ⟨s', run⟩ := (exists_runs_iff_yields (acyclic _ other stored) t).2 yields
    exact ⟨report, kpi, other, found, s', result, same, stored, run, told, valued⟩

end Sources

/-! ## Two reports -/

namespace Linked

/-- A report that refers to no other. -/
def inner : Template where
  code := "s"
  name := "Inner"
  kpis := [{ name := "k", expression := "True" }]

/-- A report that refers to the other one. -/
def outer : Template where
  code := "r"
  name := "Outer"
  kpis := [{ name := "x", expression := "s.k" }]

/-- The two reports. -/
def sources : Sources :=
  { Sample.sources with library := .ofTemplates [inner, outer] }

theorem template_of_get {code : String} {template : Template}
    (h : sources.library.get code = .ok template) :
    code = "s" ∧ template = inner ∨ code = "r" ∧ template = outer := by
  have member := Library.code_of_get h
  unfold Library.get Result.ofOption at h
  split at h
  · rename_i found
    cases h
    have stored := Table.mem_of_get? found
    have reports : sources.library.reports = [("r", outer), ("s", inner)] := by rfl
    rw [reports] at stored
    simpa [or_comm] using stored
  · cases h

theorem get_inner : sources.library.get "s" = .ok inner := by
  rfl

theorem get_outer : sources.library.get "r" = .ok outer := by
  rfl

theorem subReports_inner : sources.library.subReports inner = [] := by
  with_unfolding_all rfl

theorem subReports_outer : sources.library.subReports outer = ["s"] := by
  with_unfolding_all rfl

theorem not_reaches_inner (code : String) : ¬ sources.library.Reaches inner code :=
  Library.not_reaches_of_subReports_eq_nil subReports_inner code

theorem valid : ∀ code template, sources.library.get code = .ok template →
    template.validate = .ok () := by
  intro code template get
  rcases template_of_get get with ⟨-, rfl⟩ | ⟨-, rfl⟩ <;> rfl

theorem acyclic : ∀ code template, sources.library.get code = .ok template →
    sources.library.Acyclic template := by
  have loop : ∀ code other, sources.library.get code = .ok other →
      ¬ sources.library.Reaches other code := by
    intro code other get reached
    rcases template_of_get get with ⟨rfl, rfl⟩ | ⟨rfl, rfl⟩
    · exact not_reaches_inner _ reached
    · cases reached with
      | refer asked =>
        rw [subReports_outer] at asked
        exact absurd (List.mem_singleton.1 asked) (by decide)
      | step asked get rest =>
        rw [subReports_outer] at asked
        obtain rfl := List.mem_singleton.1 asked
        cases get_inner.symm.trans get
        exact not_reaches_inner _ rest
  intro code template get
  obtain rfl := Library.code_of_get get
  exact ⟨loop _ _ get, fun code other _ get => loop code other get⟩

/-- Neither report has account tokens. -/
def registry : Registry := ⟨[], some []⟩

theorem gives_firstScope {template : Template} (queries : template.queries = []) :
    (sources.firstScope Sample.self Sample.column template registry).Gives .empty := by
  refine (Sources.steady_firstScope template registry).gives ?_
  rw [Sources.firstScope, queries]
  rfl

/-- What the passes find. -/
def ended (answers : Answers) (queue : List CompiledKpi) : Findings × Nat :=
  Findings.passes "day" sources.settings.locale answers { scope := .empty } queue

/-- What the passes report. -/
def found (answers : Answers) (queue : List CompiledKpi) : PeriodResults :=
  ⟨(ended answers queue).1.results, (ended answers queue).2⟩

/-- The compiled KPI of the inner report. -/
def innerQueue : List CompiledKpi :=
  [⟨{ name := "k", expression := "True" }, .ok (.bool true), []⟩]

/-- The compiled KPI of the outer report. -/
def outerQueue : List CompiledKpi :=
  [⟨{ name := "x", expression := "s.k" }, .ok (.name "s.k"), ["s"]⟩]

/-- What the inner report yields. -/
def innerFound : PeriodResults := found (fun _ => none) innerQueue

/-- The answer of the inner report. -/
def answers : Answers := fun _ => some innerFound.values

theorem compile_inner :
    inner.sortedKpis.mapM (CompiledKpi.ofKpi sources.library inner registry) = .ok innerQueue := by
  with_unfolding_all rfl

theorem compile_outer :
    outer.sortedKpis.mapM (CompiledKpi.ofKpi sources.library outer registry) = .ok outerQueue := by
  with_unfolding_all rfl

theorem yields_inner : Sources.Yields sources Sample.self Sample.column inner innerFound :=
  .intro (fun _ => inner) (fun _ => innerFound)
    ((Sources.steady_newRegistry inner).gives (by with_unfolding_all rfl))
    ⟨⟨{}, gives_firstScope rfl {}⟩, compile_inner, rfl, rfl⟩
    (by simp [innerQueue]) (by simp [innerQueue]) (by simp [innerQueue])

theorem gives_registry : (sources.newRegistry Sample.self outer).Gives registry :=
  (Sources.steady_newRegistry outer).gives (by with_unfolding_all rfl)

theorem yields_outer :
    Sources.Yields sources Sample.self Sample.column outer (found answers outerQueue) :=
  .intro (fun _ => inner) (fun _ => innerFound) gives_registry
    ⟨⟨{}, gives_firstScope rfl {}⟩, compile_outer, rfl, rfl⟩
    (by simp [outerQueue, get_inner]) (by simp [outerQueue, yields_inner]) (by simp [answers])

theorem bound_outer : (ended answers outerQueue).1.scope.bindings =
    [("x", .bool true), ("s.k", .bool true)] := by
  with_unfolding_all rfl

/-- Whatever evaluations came before, the passes over the outer report find what they find with the
answer of the inner one. -/
theorem passes_outer {s s' : Session} {shown : PeriodResults}
    (ready : Sources.Ready sources Sample.self Sample.column (fun _ => True)
      (sources.library.size + 1) outer s.cache)
    (run : Runs (sources.evaluate Sample.self Sample.column outer) s shown s') :
    ∃ base queue u v, Runs (sources.preparation Sample.self Sample.column outer) s (base, queue) u ∧
      Runs ((sources.sheet Sample.column
        (sources.inner Sample.self Sample.column (sources.library.size + 1)) outer).passes
        { scope := base } queue) u (ended answers outerQueue) v := by
  rw [Sources.evaluate, Sources.evaluateNested_eq, Sources.evaluateWith_eq] at run
  obtain ⟨⟨base, queue⟩, u, prepared, run⟩ := runs_bind.1 run
  obtain ⟨⟨findings, passes⟩, v, run, -⟩ := runs_bind.1 run
  obtain ⟨own, lookUp, ⟨t, t', scope⟩, compile⟩ := Sources.preparation_inv prepared
  obtain ⟨tokens, -, computed, others, founds, told⟩ :=
    ready.stages (fun less _ => Sources.yields_of_runs less) ⟨lookUp, ⟨t, t', scope⟩, compile, run⟩
  obtain rfl := tokens.unique gives_registry
  obtain rfl := (Sources.steady_firstScope outer registry scope).unique (gives_firstScope rfl)
  obtain rfl := Except.ok.inj (compile_outer.symm.trans compile)
  have referred : (⟨{ name := "x", expression := "s.k" }, .ok (.name "s.k"), ["s"]⟩ : CompiledKpi) ∈
      outerQueue := List.mem_singleton.2 rfl
  have inside : others "s" = inner :=
    (Except.ok.inj (get_inner.symm.trans (told.get _ referred "s" (List.mem_singleton.2 rfl)))).symm
  have yields := told.yields _ referred "s" (List.mem_singleton.2 rfl)
  rw [inside] at yields
  have answered := told.answer _ referred "s" (List.mem_singleton.2 rfl)
  rw [yields.unique yields_inner] at answered
  have agree : ∀ compiled ∈ outerQueue, ∀ code ∈ compiled.subReports,
      answers code = v.cache.answers Sample.column.period.name code := by
    refine List.forall_mem_singleton.2 (List.forall_mem_singleton.2 ?_)
    exact answered.symm
  have same : ended answers outerQueue = (findings, passes) :=
    (Findings.passes_congr agree _).trans computed
  rw [same]
  exact ⟨_, _, _, _, prepared, run⟩

/-- Whatever evaluations came before, that of the outer report binds the value of the inner one. -/
theorem binds_outer {s s' : Session} {shown : PeriodResults}
    (ready : Sources.Ready sources Sample.self Sample.column (fun _ => True)
      (sources.library.size + 1) outer s.cache)
    (run : Runs (sources.evaluate Sample.self Sample.column outer) s shown s') :
    Sources.Binds sources Sample.self Sample.column (sources.library.size + 1) outer s "s.k"
      (.bool true) := by
  obtain ⟨base, queue, u, v, prepared, run⟩ := passes_outer ready run
  refine ⟨_, _, _, _, _, _, _, _, _, .here, prepared, run, ?_⟩
  change _ ∈ (ended answers outerQueue).1.scope.bindings
  rw [bound_outer]
  simp

end Linked

/-- After the inner report of two, the outer one is evaluated with the results that it has alone,
and binds the value that the inner one shows. -/
theorem Sources.evaluate_transparent_linked :
    ∃ s found s' s'' inside u result,
      Reached Linked.sources Sample.self (fun _ => Sample.column) s.cache ∧
      (∃ values, s.cache.progress? "s" "day" = some (.finished values)) ∧
      Runs (Linked.sources.evaluate Sample.self Sample.column Linked.outer) s found s' ∧
      Runs (Linked.sources.evaluate Sample.self Sample.column Linked.outer) {} found s'' ∧
      Runs (Linked.sources.evaluate Sample.self Sample.column Linked.inner) {} inside u ∧
      inside.get? "k" = some result ∧ result.value = .bool true := by
  obtain ⟨s, first⟩ := (Sources.exists_runs_iff_yields
    (Linked.acyclic _ _ Linked.get_inner) {}).2 Linked.yields_inner
  have reached : Reached Linked.sources Sample.self (fun _ => Sample.column) s.cache :=
    .evaluate (s := {}) .empty rfl Linked.get_inner first
  have ready := (reached.settled Linked.acyclic rfl).ready
    (Linked.acyclic _ _ Linked.get_outer) Linked.get_outer
  obtain ⟨s', second⟩ := runs_of_yields ready Linked.yields_outer
  have own : Linked.sources.library.get Linked.outer.code = .ok Linked.outer := Linked.get_outer
  obtain ⟨same, bound⟩ :=
    Sources.evaluate_transparent Linked.valid Linked.acyclic reached rfl own {}
  obtain ⟨s'', alone⟩ := (same _).1 ⟨s', second⟩
  obtain ⟨report, kpi, other, inside, u, result, named, get, run, shown, value⟩ :=
    bound "s.k" (.bool true) (Linked.binds_outer ready second) (Library.not_dotless_dotted "s" "k")
  have kept : ∃ values, s.cache.progress? "s" "day" = some (.finished values) := by
    rw [Sources.evaluate, Sources.evaluateNested_eq] at first
    obtain ⟨-, -, -, -, -, v, -, -, stop⟩ := Sources.evaluateWith_inv first
    rw [stop]
    exact ⟨_, by rw [Cache.progress?_mark, if_pos ⟨rfl, rfl⟩]⟩
  have parted : report = "s" ∧ kpi = "k" := by
    have same : Library.dotted "s" "k" = Library.dotted report kpi := named
    refine (Library.dotted_inj ?_ ?_ same).imp Eq.symm Eq.symm
    · exact dotless_of_isIdentifier (by decide)
    · rcases Linked.template_of_get get with ⟨rfl, -⟩ | ⟨rfl, -⟩ <;>
        exact dotless_of_isIdentifier (by decide)
  obtain ⟨rfl, rfl⟩ := parted
  cases Linked.get_inner.symm.trans get
  exact ⟨s, _, s', s'', inside, u, result, reached, kept, second, alone, run, shown, value.symm⟩

end KpiReport
