import KpiReport.Proofs.Evaluation.Dependencies
import Mathlib.Tactic.Choose

/-!
# Caches that tell the truth

What a template yields can be said without a cache: `Sources.Yields` is the evaluation in which every
report is computed anew wherever it is referred to. A cache is sound when what it holds is what the
templates yield. Where the dependencies are acyclic, an evaluation from a sound cache

* gives what the template yields, and leaves a sound cache (`Sources.yields_of_runs`);
* succeeds if the template yields anything (`Sources.runs_of_yields`).

So the cache changes nothing but the work that is done.
-/

namespace KpiReport

namespace Findings

variable {period : String} {locale : Locale} {answers answers' : Answers}

theorem foldl_bindAnswer_congr {asked : List String}
    (same : ∀ code ∈ asked, answers code = answers' code) (findings : Findings) :
    asked.foldl (bindAnswer answers) findings = asked.foldl (bindAnswer answers') findings := by
  induction asked generalizing findings with
  | nil => rfl
  | cons code asked ih =>
    obtain ⟨first, rest⟩ := List.forall_mem_cons.1 same
    rw [List.foldl_cons, List.foldl_cons, bindAnswer, bindAnswer, first]
    exact ih rest _

theorem pass_congr {queue : List CompiledKpi}
    (same : ∀ compiled ∈ queue, ∀ code ∈ compiled.subReports, answers code = answers' code)
    (findings : Findings) :
    findings.pass period locale answers queue = findings.pass period locale answers' queue := by
  induction queue generalizing findings with
  | nil => rfl
  | cons compiled queue ih =>
    obtain ⟨first, rest⟩ := List.forall_mem_cons.1 same
    have prepared : findings.prepared answers compiled = findings.prepared answers' compiled :=
      foldl_bindAnswer_congr first findings
    have visited : findings.visited period locale answers compiled =
        findings.visited period locale answers' compiled := by
      rw [Findings.visited, Findings.visited, prepared]
    rw [pass, pass, prepared, visited, ih rest]

/-- The passes depend only on the answers of the reports that the KPIs refer to. -/
theorem passes_congr {queue : List CompiledKpi}
    (same : ∀ compiled ∈ queue, ∀ code ∈ compiled.subReports, answers code = answers' code)
    (findings : Findings) :
    findings.passes period locale answers queue = findings.passes period locale answers' queue := by
  rw [passes, passes, pass_congr same]
  have part := findings.retry_sublist period locale answers' queue
  generalize findings.pass period locale answers' queue = one at part ⊢
  obtain ⟨after, retry⟩ := one
  dsimp only at part ⊢
  split
  · rfl
  · split
    · rw [passes_congr fun compiled member => same compiled (part.subset member)]
    · rfl
termination_by queue.length

end Findings

namespace Sources

/-- A template yields results: they are computed from the balances of its own account tokens and
from what the reports yield that its formulas refer to. -/
inductive Yields (sources : Sources) (inst : Instance) (column : Column) :
    Template → PeriodResults → Prop where
  | intro {template : Template} {registry : Registry} {base : Scope} {queue : List CompiledKpi}
      {answers : Answers} {findings : Findings} {found : PeriodResults}
      (others : String → Template) (founds : String → PeriodResults)
      (tokens : (sources.newRegistry inst template).Gives registry)
      (computes : Computes sources inst column template registry base queue answers findings found)
      (get : ∀ compiled ∈ queue, ∀ code ∈ compiled.subReports,
        sources.library.get code = .ok (others code))
      (yields : ∀ compiled ∈ queue, ∀ code ∈ compiled.subReports,
        Yields sources inst column (others code) (founds code))
      (answer : ∀ compiled ∈ queue, ∀ code ∈ compiled.subReports,
        answers code = some (founds code).values) :
      Yields sources inst column template found

variable {sources : Sources} {self : Instance} {column : Column}

theorem Computes.gives_firstScope {template : Template} {registry : Registry} {base : Scope}
    {queue : List CompiledKpi} {answers : Answers} {findings : Findings} {found : PeriodResults}
    (h : Computes sources self column template registry base queue answers findings found) :
    (sources.firstScope self column template registry).Gives base := by
  obtain ⟨t, t', run⟩ := h.scope
  exact steady_firstScope template registry run

theorem Computes.unique {template : Template} {registry : Registry} {base base' : Scope}
    {queue queue' : List CompiledKpi} {answers answers' : Answers} {findings findings' : Findings}
    {found found' : PeriodResults}
    (h : Computes sources self column template registry base queue answers findings found)
    (h' : Computes sources self column template registry base' queue' answers' findings' found')
    (same : ∀ compiled ∈ queue, ∀ code ∈ compiled.subReports, answers code = answers' code) :
    found = found' := by
  obtain rfl := h.gives_firstScope.unique h'.gives_firstScope
  have queues := h.compile.symm.trans h'.compile
  cases queues
  have passes := h.passes.symm.trans ((Findings.passes_congr same _).trans h'.passes)
  simp only [Prod.mk.injEq] at passes
  obtain ⟨results, passes⟩ := found
  obtain ⟨results', passes'⟩ := found'
  obtain ⟨rfl, rfl⟩ := passes
  obtain rfl : results = results' := h.results.trans h'.results.symm
  rfl

theorem Yields.unique {template : Template} {found found' : PeriodResults}
    (h : Yields sources self column template found)
    (h' : Yields sources self column template found') : found = found' := by
  induction h generalizing found' with
  | intro others founds tokens computes get _ answer ih =>
    cases h' with
    | intro others' founds' tokens' computes' get' yields' answer' =>
      obtain rfl := tokens.unique tokens'
      obtain rfl := computes.gives_firstScope.unique computes'.gives_firstScope
      have queues := computes.compile.symm.trans computes'.compile
      cases queues
      refine computes.unique computes' fun compiled member code asked => ?_
      have same : others code = others' code := by
        have := (get compiled member code asked).symm.trans (get' compiled member code asked)
        simpa using this
      rw [answer compiled member code asked, answer' compiled member code asked,
        ih compiled member code asked (same ▸ yields' compiled member code asked)]

/-! ## Sound caches -/

/-- What the cache holds for the reports `K` is what their templates yield. -/
structure Sound (sources : Sources) (inst : Instance) (column : Column) (K : String → Prop)
    (cache : Cache) : Prop where
  tokens : LookedUp sources inst K cache
  values : ∀ code other values, K code → sources.library.get code = .ok other →
    cache.progress? code column.period.name = some (.finished values) →
    ∃ found, Yields sources inst column other found ∧ found.values = values

variable {K : String → Prop}

theorem sound_empty : Sound sources self column K {} where
  tokens := lookedUp_empty
  values := by
    intro code other values _ _ known
    cases known

theorem Sound.mark_started {cache : Cache} (h : Sound sources self column K cache) (code : String) :
    Sound sources self column K (cache.mark code column.period.name .started) where
  tokens := h.tokens
  values := by
    intro code' other values inside get known
    rw [Cache.progress?_mark] at known
    split at known
    · cases known
    · exact h.values code' other values inside get known

theorem Sound.mark_finished {cache : Cache} (h : Sound sources self column K cache)
    {template : Template} (own : K template.code → sources.library.get template.code = .ok template)
    {found : PeriodResults} (yields : Yields sources self column template found) :
    Sound sources self column K
      (cache.mark template.code column.period.name (.finished found.values)) where
  tokens := h.tokens
  values := by
    intro code other values inside get known
    rw [Cache.progress?_mark] at known
    split at known
    · rename_i same
      obtain ⟨rfl, -⟩ := same
      have stored := (own inside).symm.trans get
      cases stored
      cases known
      exact ⟨found, yields, rfl⟩
    · exact h.values code other values inside get known

theorem Sound.keepRegistry {cache : Cache} (h : Sound sources self column K cache)
    {template : Template} (own : K template.code → sources.library.get template.code = .ok template)
    {registry : Registry} (gives : (sources.newRegistry self template).Gives registry) :
    Sound sources self column K (cache.keepRegistry template.code registry) where
  tokens := h.tokens.keepRegistry own gives
  values := h.values

/-- A cache from which a template can be evaluated with some depth left: it is sound for a set `K`
of reports that holds all those that the template reaches, none of them is being evaluated, and none
reaches itself. -/
structure Ready (sources : Sources) (inst : Instance) (column : Column) (K : String → Prop)
    (depth : Nat) (template : Template) (cache : Cache) : Prop where
  room : (cache.mark template.code column.period.name .started).Room sources.library
    column.period.name depth
  fresh : ∀ code, sources.library.Reaches template code →
    (cache.mark template.code column.period.name .started).progress? code column.period.name ≠
      some .started
  sound : Sound sources inst column K cache
  tokens : ∀ registry, cache.registries.get? template.code = some registry →
    (sources.newRegistry inst template).Gives registry
  own : K template.code → sources.library.get template.code = .ok template
  within : ∀ code, sources.library.Reaches template code → K code
  acyclic : ∀ code other, sources.library.Reaches template code →
    sources.library.get code = .ok other → ¬ sources.library.Reaches other code

/-- A cache while the passes of a template run. -/
structure Working (sources : Sources) (inst : Instance) (column : Column) (K : String → Prop)
    (depth : Nat) (template : Template) (cache : Cache) : Prop where
  room : cache.Room sources.library column.period.name depth
  fresh : ∀ code, sources.library.Reaches template code →
    cache.progress? code column.period.name ≠ some .started
  sound : Sound sources inst column K cache

theorem Working.grows {depth : Nat} {template : Template} {c c' : Cache}
    (h : Working sources self column K depth template c) (grows : c.Grows column.period.name c')
    (sound : Sound sources self column K c') : Working sources self column K depth template c' where
  room := h.room.grows grows
  fresh := by
    intro code reached
    cases known : c.progress? code column.period.name with
    | none => exact grows.closes code known
    | some progress =>
      rw [grows.keeps code progress known, ← known]
      exact h.fresh code reached
  sound := sound

theorem Ready.working {depth : Nat} {template : Template} {cache : Cache}
    (h : Ready sources self column K depth template cache) :
    Working sources self column K depth template
      (cache.mark template.code column.period.name .started) :=
  ⟨h.room, h.fresh, h.sound.mark_started template.code⟩

theorem Ready.enter {depth : Nat} {template other : Template} {start c : Cache}
    (ready : Ready sources self column K (depth + 1) template start)
    (working : Working sources self column K (depth + 1) template c)
    (reached : sources.library.Reaches template other.code)
    (get : sources.library.get other.code = .ok other)
    (unknown : c.progress? other.code column.period.name = none) :
    Ready sources self column K depth other c where
  room := working.room.enter (Library.contains_of_get get) unknown
  fresh := by
    intro code below
    rw [Cache.progress?_mark, if_neg]
    · exact working.fresh code (reached.trans get below)
    · rintro ⟨rfl, -⟩
      exact ready.acyclic _ other reached get below
  sound := working.sound
  tokens := fun registry => working.sound.tokens _ other registry (ready.within _ reached) get
  own := fun _ => get
  within := fun code below => ready.within code (reached.trans get below)
  acyclic := fun code next below => ready.acyclic code next (reached.trans get below)

/-- What it means that evaluations with some depth left yield what the templates yield. -/
def Faithful (sources : Sources) (inst : Instance) (column : Column) (K : String → Prop)
    (depth : Nat) : Prop :=
  ∀ ⦃template s found s'⦄, Ready sources inst column K depth template s.cache →
    Runs (sources.evaluateNested inst column depth template) s found s' →
    Yields sources inst column template found ∧ Sound sources inst column K s'.cache

/-- Asking for a report while the passes of a template run gives what the report yields. -/
theorem ask_inv {depth : Nat} (faithful : ∀ less, depth = less + 1 →
      Faithful sources self column K less) {template : Template} {start : Cache}
    (ready : Ready sources self column K depth template start) {code : String}
    (asked : code ∈ sources.library.subReports template)
    (inside : sources.library.contains code = true) {u u' : Session}
    {answer : Option (Table Value)} (working : Working sources self column K depth template u.cache)
    (run : Runs (sources.inner self column depth code) u answer u') :
    Working sources self column K depth template u'.cache ∧ ∃ other found,
      sources.library.get code = .ok other ∧ Yields sources self column other found ∧
      answer = some found.values := by
  have reached : sources.library.Reaches template code := .refer asked
  have unstarted := working.fresh code reached
  cases depth with
  | zero => exact absurd (working.room.started inside) unstarted
  | succ depth =>
    obtain ⟨grows, -⟩ := honest_inner (depth + 1) template inside working.room run
    rcases subReportValues_inv run with ⟨told, same⟩ | ⟨unknown, other, found, v, get, same, nested,
      rfl⟩
    · cases answer with
      | none => exact absurd told unstarted
      | some values =>
        obtain ⟨other, get⟩ := Library.exists_get_of_contains inside
        obtain ⟨found, yields, rfl⟩ :=
          working.sound.values code other values (ready.within code reached) get told
        rw [same]
        exact ⟨working, other, found, get, yields, rfl⟩
    · have keyed : other.code = code := Library.code_of_get get
      subst keyed
      have ready' := ready.enter working reached get unknown
      rw [← same] at ready'
      obtain ⟨yields, sound⟩ := faithful depth rfl ready' nested
      exact ⟨working.grows grows sound, other, found, get, yields, rfl⟩

/-- Looking up the account tokens of a template gives those of its formulas, and keeps the cache
sound. -/
theorem Ready.lookUp {depth : Nat} {template : Template} {s s' : Session} {cache : Cache}
    (ready : Ready sources self column K depth template cache)
    (begun : s.cache = cache.mark template.code column.period.name .started) {registry : Registry}
    (run : Runs (sources.registry self template) s registry s') :
    (sources.newRegistry self template).Gives registry ∧
      Working sources self column K depth template s'.cache := by
  have working := ready.working
  rw [← begun] at working
  have grows := (registry_grows run column.period.name).1
  rcases registry_inv run with ⟨known, same⟩ | ⟨-, ⟨t, t', made⟩, kept⟩
  · rw [begun] at known
    refine ⟨ready.tokens registry known, ?_⟩
    rw [same]
    exact working
  · have gives := steady_newRegistry template made
    refine ⟨gives, working.grows grows ?_⟩
    rw [kept]
    exact working.sound.keepRegistry ready.own gives

/-- The reports that a template may ask for. -/
def MayAsk (sources : Sources) (template : Template) (code : String) : Prop :=
  code ∈ sources.library.subReports template ∧ sources.library.contains code = true

theorem mayAsk_of_compile {template : Template} {registry : Registry} {queue : List CompiledKpi}
    (tokens : (sources.newRegistry self template).Gives registry)
    (compile : template.sortedKpis.mapM (CompiledKpi.ofKpi sources.library template registry) =
      .ok queue) : ∀ compiled ∈ queue, ∀ code ∈ compiled.subReports,
        sources.MayAsk template code := by
  intro compiled member code asked
  obtain ⟨t, made⟩ := tokens {}
  exact ⟨Library.mem_subReports made compile member asked,
    holds_of_compile compile compiled member code asked⟩

/-- The cache stays fit for work while the passes of a template ask other reports. -/
theorem Ready.keeps {depth : Nat}
    (less : ∀ less, depth = less + 1 → Faithful sources self column K less)
    {template : Template} {start : Cache}
    (ready : Ready sources self column K depth template start) {u x : Session}
    (working : Working sources self column K depth template u.cache)
    (trail : (sources.sheet column (sources.inner self column depth) template).Trail
      (sources.MayAsk template) u x) : Working sources self column K depth template x.cache := by
  refine trail.keeps (J := Working sources self column K depth template) ?_ working
  intro code answer y y' asked working run
  exact (ask_inv less ready asked.1 asked.2 working run).1

/-- What the passes of a template were answered: every report that they refer to gave what it
yields. -/
structure Told (sources : Sources) (inst : Instance) (column : Column) (queue : List CompiledKpi)
    (answers : Answers) (others : String → Template) (founds : String → PeriodResults) : Prop where
  get : ∀ compiled ∈ queue, ∀ code ∈ compiled.subReports,
    sources.library.get code = .ok (others code)
  yields : ∀ compiled ∈ queue, ∀ code ∈ compiled.subReports,
    Yields sources inst column (others code) (founds code)
  answer : ∀ compiled ∈ queue, ∀ code ∈ compiled.subReports,
    answers code = some (founds code).values

/-- From a ready cache the passes find what the reports yield that they refer to. -/
theorem Ready.stages {depth : Nat}
    (less : ∀ less, depth = less + 1 → Faithful sources self column K less)
    {template : Template} {start : Cache}
    (ready : Ready sources self column K depth template start) {registry : Registry} {base : Scope}
    {queue : List CompiledKpi} {found : Findings × Nat} {u v : Session}
    (stages : Stages sources self column (sources.inner self column depth) template registry base
      queue found start u v) :
    (sources.newRegistry self template).Gives registry ∧
      Working sources self column K depth template v.cache ∧
      Findings.passes column.period.name sources.settings.locale
          (v.cache.answers column.period.name) { scope := base } queue = found ∧
      ∃ others founds, Told sources self column queue (v.cache.answers column.period.name) others
        founds := by
  have honest : (sources.sheet column (sources.inner self column depth) template).Honest
    sources.library depth := honest_inner depth template
  obtain ⟨w, w', begun, lookUp, same⟩ := stages.lookUp
  obtain ⟨tokens, working⟩ := ready.lookUp begun lookUp
  rw [same] at working
  have may := mayAsk_of_compile tokens stages.compile
  have follows := Sheet.passes_inv stages.passes may
  have agrees : (sources.sheet column (sources.inner self column depth) template).Agrees
      (sources.MayAsk template) (v.cache.answers column.period.name) u v :=
    honest.agrees (fun code asked => asked.2) working.room
  have yielded : ∀ code, ∃ other given, (∃ compiled ∈ queue, code ∈ compiled.subReports) →
      sources.library.get code = .ok other ∧ Yields sources self column other given ∧
        v.cache.answers column.period.name code = some given.values := by
    intro code
    by_cases referred : ∃ compiled ∈ queue, code ∈ compiled.subReports
    · obtain ⟨compiled, member, asked⟩ := referred
      rcases follows.asked code (List.mem_flatMap.2 ⟨compiled, member, asked⟩) with
        bound | ⟨answer, x, x', before, run, after⟩
      · cases bound
      · have asked' := may compiled member code asked
        obtain ⟨-, other, given, get, yields, rfl⟩ :=
          ask_inv less ready asked'.1 asked'.2 (ready.keeps less working before) run
        refine ⟨other, given, fun _ => ⟨get, yields, ?_⟩⟩
        exact (agrees code _ asked' ⟨x, x', before, run, after⟩).symm
    · exact ⟨template, ⟨[], 0⟩, fun h => absurd h referred⟩
  choose others founds spec using yielded
  refine ⟨tokens, ready.keeps less working follows.trail, (follows.holds _ agrees).symm, others,
    founds, ?_, ?_, ?_⟩
  · exact fun compiled member code asked => (spec code ⟨compiled, member, asked⟩).1
  · exact fun compiled member code asked => (spec code ⟨compiled, member, asked⟩).2.1
  · exact fun compiled member code asked => (spec code ⟨compiled, member, asked⟩).2.2

theorem faithful_step {depth : Nat}
    (less : ∀ less, depth = less + 1 → Faithful sources self column K less) :
    Faithful sources self column K depth := by
  intro template s found s' ready run
  rw [evaluateNested_eq] at run
  obtain ⟨registry, base, queue, findings, u, v, stages, results, stop⟩ := evaluateWith_inv run
  obtain ⟨tokens, working, passes, others, founds, told⟩ := ready.stages less stages
  have yields : Yields sources self column template found :=
    .intro others founds tokens ⟨stages.scope, stages.compile, passes, results⟩ told.get told.yields
      told.answer
  refine ⟨yields, ?_⟩
  rw [stop]
  exact working.sound.mark_finished ready.own yields

/-- **What an evaluation from a sound cache gives is what the template yields**, and the cache stays
sound. -/
theorem yields_of_runs (depth : Nat) : Faithful sources self column K depth := by
  induction depth with
  | zero =>
    refine faithful_step fun less none => ?_
    cases none
  | succ depth ih =>
    refine faithful_step fun less same => ?_
    cases same
    exact ih

/-- A report that yields something answers when it is asked. -/
theorem ask_runs {depth : Nat} (nested : ∀ less, depth = less + 1 → ∀ {other s found},
      Ready sources self column K less other s.cache → Yields sources self column other found →
      ∃ s', Runs (sources.evaluateNested self column less other) s found s')
    {template other : Template} {start : Cache}
    (ready : Ready sources self column K depth template start)
    (asked : other.code ∈ sources.library.subReports template)
    (get : sources.library.get other.code = .ok other) {found : PeriodResults}
    (yields : Yields sources self column other found) {u : Session}
    (working : Working sources self column K depth template u.cache) :
    ∃ u', Runs (sources.inner self column depth other.code) u (some found.values) u' := by
  have reached : sources.library.Reaches template other.code := .refer asked
  have unstarted := working.fresh _ reached
  cases depth with
  | zero => exact absurd (working.room.started (Library.contains_of_get get)) unstarted
  | succ depth =>
    cases known : u.cache.progress? other.code column.period.name with
    | none =>
      refine subReportValues_runs_new known get fun t => ?_
      exact nested depth rfl (s := { u with trace := t })
        (ready.enter working reached get known) yields
    | some progress =>
      cases progress with
      | started => exact absurd known unstarted
      | finished values =>
        obtain ⟨found', yields', rfl⟩ :=
          working.sound.values _ other values (ready.within _ reached) get known
        obtain rfl := yields.unique yields'
        exact ⟨u, subReportValues_runs_finished known⟩

theorem runs_step {depth : Nat} (nested : ∀ less, depth = less + 1 → ∀ {other s found},
      Ready sources self column K less other s.cache → Yields sources self column other found →
      ∃ s', Runs (sources.evaluateNested self column less other) s found s')
    {template : Template} {s : Session} {found : PeriodResults}
    (ready : Ready sources self column K depth template s.cache)
    (yields : Yields sources self column template found) :
    ∃ s', Runs (sources.evaluateNested self column depth template) s found s' := by
  rw [evaluateNested_eq]
  cases yields with
  | @intro _ registry base queue answers findings _ others founds tokens computes get yields
      answer =>
    have may := mayAsk_of_compile tokens computes.compile
    have replies : (sources.sheet column (sources.inner self column depth) template).Replies
        (fun code => ∃ compiled ∈ queue, code ∈ compiled.subReports) answers
        (Working sources self column K depth template) := by
      rintro code ⟨compiled, member, asked⟩ w working
      have asked' := may compiled member code asked
      have stored := get compiled member code asked
      have keyed := Library.code_of_get stored
      have referred : (others code).code ∈ sources.library.subReports template := by
        rw [keyed]
        exact asked'.1
      have own : sources.library.get (others code).code = .ok (others code) := by
        rw [keyed]
        exact stored
      obtain ⟨w', run⟩ :=
        ask_runs nested ready referred own (yields compiled member code asked) working
      rw [keyed, ← answer compiled member code asked] at run
      exact ⟨w', run, (ask_inv (fun less _ => yields_of_runs less) ready asked'.1 asked'.2 working
        run).1⟩
    have run := evaluateWith_runs_of_replies tokens
      (fun other known => (ready.tokens other known).unique tokens) computes.gives_firstScope
      computes.compile (fun u lookUp => (ready.lookUp rfl lookUp).2) replies
      fun compiled member code asked => ⟨compiled, member, asked⟩
    rw [computes.passes] at run
    dsimp only at run
    rwa [← computes.results] at run

/-- **An evaluation from a sound cache succeeds if the template yields anything.** -/
theorem runs_of_yields {depth : Nat} {template : Template} {s : Session} {found : PeriodResults}
    (ready : Ready sources self column K depth template s.cache)
    (yields : Yields sources self column template found) :
    ∃ s', Runs (sources.evaluateNested self column depth template) s found s' := by
  induction depth generalizing template s found with
  | zero => exact runs_step (fun less none => by cases none) ready yields
  | succ depth ih =>
    refine runs_step (fun less same => ?_) ready yields
    cases same
    exact ih

end Sources

end KpiReport
