import KpiReport.Proofs.Evaluation.Nesting

/-!
# Runs in lockstep

One operation, run from two sessions, may meet two different caches. `Evaluation.Lockstep` says that
from caches of one relation it comes to the same, be this a success or a failure, and tells how the
caches are related then. It is kept by sequencing (`Lockstep.bind`), and an operation that does not
look at the trace is in lockstep with itself. So passes run in lockstep if the reports that they ask
for do (`Sheet.passes_lockstep`), and so does an evaluation (`Sources.evaluateWith_lockstep`).

The account tokens that a cache holds decide which reports the formulas of a template refer to
(`Sources.Refers`). Nothing is assumed about the tokens in a cache, except that two caches give the
template the same ones (`Sources.SameTokens`).
-/

namespace KpiReport

namespace Evaluation

variable {α β : Type} {R R₀ : Cache → Cache → Prop} {R' : α → Cache → Cache → Prop}
  {R'' : β → Cache → Cache → Prop} {E : Cache → Cache → Prop}

/-- The outcomes are the same, and the caches that are left are related, by `R` after a success and
by `E` after a failure. -/
inductive Agree (R : α → Cache → Cache → Prop) (E : Cache → Cache → Prop) :
    Except ReportError α × Session → Except ReportError α × Session → Prop where
  | ok {a : α} {s t : Session} (related : R a s.cache t.cache) : Agree R E (.ok a, s) (.ok a, t)
  | error {e : ReportError} {s t : Session} (related : E s.cache t.cache) :
    Agree R E (.error e, s) (.error e, t)

theorem Agree.same {x y : Except ReportError α × Session} (h : Agree R' E x y) : x.1 = y.1 := by
  cases h <;> rfl

theorem Agree.imp {x y : Except ReportError α × Session} (h : Agree R' E x y)
    {S : α → Cache → Cache → Prop} {F : Cache → Cache → Prop}
    (succeeds : ∀ a c d, R' a c d → S a c d) (fails : ∀ c d, E c d → F c d) : Agree S F x y := by
  cases h with
  | ok related => exact .ok (succeeds _ _ _ related)
  | error related => exact .error (fails _ _ related)

/-- From caches related by `R`, the operation comes to the same. -/
def Lockstep (R : Cache → Cache → Prop) (R' : α → Cache → Cache → Prop) (E : Cache → Cache → Prop)
    (action : Evaluation α) : Prop :=
  ∀ s t : Session, R s.cache t.cache → Agree R' E (action.run.run s) (action.run.run t)

theorem lockstep_pure {a : α} (kept : ∀ c d, R c d → R' a c d) : Lockstep R R' E (pure a) :=
  fun _ _ start => .ok (kept _ _ start)

theorem Lockstep.bind {action : Evaluation α} {next : α → Evaluation β}
    (first : Lockstep R R' E action)
    (rest : ∀ a s s', Runs action s a s' → Lockstep (R' a) R'' E (next a)) :
    Lockstep R R'' E (action >>= next) := by
  intro s t start
  have both := first s t start
  rw [ExceptT.run_bind, StateT.run_bind, StateT.run_bind]
  cases ran : action.run.run s with
  | mk result u =>
    rw [ran] at both
    generalize action.run.run t = ran' at both ⊢
    cases both with
    | ok related => exact rest _ s u ran _ _ related
    | error related => exact .error related

/-- A sequence whose next step may be looked at for any result of the first one. -/
theorem Lockstep.next {action : Evaluation α} {next : α → Evaluation β}
    (first : Lockstep R R' E action) (rest : ∀ a, Lockstep (R' a) R'' E (next a)) :
    Lockstep R R'' E (action >>= next) :=
  first.bind fun a _ _ _ => rest a

theorem Lockstep.weaken {F : Cache → Cache → Prop} {action : Evaluation α}
    (h : Lockstep R R' E action) (fails : ∀ c d, E c d → F c d) : Lockstep R R' F action :=
  fun s t start => (h s t start).imp (fun _ _ _ => id) fails

/-- What holds of the first cache after a success. -/
theorem Lockstep.leads {J J' : Cache → Prop} {action : Evaluation α} (h : Lockstep R R' E action)
    (leads : Leads J J' action) (holds : ∀ c d, R c d → J c) :
    Lockstep R (fun a c d => R' a c d ∧ J' c) E action := by
  intro s t start
  have both := h s t start
  cases ran : action.run.run s with
  | mk result u =>
    rw [ran] at both
    generalize action.run.run t = y at both ⊢
    cases both with
    | ok related => exact .ok ⟨related, leads (holds _ _ start) ran⟩
    | error related => exact .error related

/-- Two runs are in lockstep if each of them is in lockstep with one from the cache `base`. -/
theorem Lockstep.both {base : Cache} {J K E F : Cache → Prop} {J' K' : α → Cache → Prop}
    {action : Evaluation α}
    (left : Lockstep (fun c d => J c ∧ d = base) (fun a c _ => J' a c) (fun c _ => E c) action)
    (right : Lockstep (fun c d => K c ∧ d = base) (fun a c _ => K' a c) (fun c _ => F c) action) :
    Lockstep (fun c d => J c ∧ K d) (fun a c d => J' a c ∧ K' a d) (fun c d => E c ∧ F d)
      action := by
  rintro s t ⟨first, second⟩
  have one := left s ⟨base, {}⟩ ⟨first, rfl⟩
  have two := right t ⟨base, {}⟩ ⟨second, rfl⟩
  generalize action.run.run s = x at one ⊢
  generalize action.run.run t = y at two ⊢
  generalize action.run.run ⟨base, {}⟩ = z at one two
  cases one with
  | ok related =>
    cases two with
    | ok related' => exact .ok ⟨related, related'⟩
  | error related =>
    cases two with
    | error related' => exact .error ⟨related, related'⟩

theorem lockstep_modifyCache {f : Cache → Cache} (moves : ∀ c d, R₀ c d → R (f c) (f d)) :
    Lockstep R₀ (fun _ => R) E (modifyCache f) :=
  fun _ _ start => .ok (moves _ _ start)

/-- What does not look at the trace runs in lockstep from any two caches. -/
theorem lockstep_ofTraced {action : Traced α} (oblivious : action.Oblivious)
    (fails : ∀ c d, R c d → E c d) : Lockstep R (fun _ => R) E (ofTraced action) := by
  intro s t start
  rcases oblivious with ⟨a, gives⟩ | ⟨e, failing⟩
  · obtain ⟨u, run⟩ := exists_runs_ofTraced gives s
    obtain ⟨v, run'⟩ := exists_runs_ofTraced gives t
    rw [run, run']
    exact .ok start
  · obtain ⟨u, failed⟩ := exists_failed_ofTraced failing s
    obtain ⟨v, failed'⟩ := exists_failed_ofTraced failing t
    rw [failed, failed']
    exact .error (fails _ _ start)

theorem lockstep_ofResult {result : Result α} (fails : ∀ c d, R c d → E c d) :
    Lockstep R (fun _ => R) E (ofResult result) :=
  lockstep_ofTraced (.ofResult result) fails

theorem lockstep_log {level : LogLevel} {text : String} (fails : ∀ c d, R c d → E c d) :
    Lockstep R (fun _ => R) E (log level text) :=
  lockstep_ofTraced (.log level text) fails

end Evaluation

open Evaluation

/-! ## Passes -/

namespace Sheet

variable {sheet : Sheet} {R E : Cache → Cache → Prop}

theorem bindSubReport_lockstep {code : String}
    (ask : Lockstep R (fun _ => R) E (sheet.subReport code)) (findings : Findings) :
    Lockstep R (fun _ => R) E (sheet.bindSubReport findings code) := by
  unfold bindSubReport
  split
  · exact lockstep_pure fun _ _ => id
  · refine ask.next fun answer => ?_
    cases answer <;> exact lockstep_pure fun _ _ => id

theorem bindSubReports_lockstep {asked : List String}
    (ask : ∀ code ∈ asked, Lockstep R (fun _ => R) E (sheet.subReport code)) (findings : Findings) :
    Lockstep R (fun _ => R) E (asked.foldlM sheet.bindSubReport findings) := by
  induction asked generalizing findings with
  | nil => exact lockstep_pure fun _ _ => id
  | cons code asked ih =>
    obtain ⟨first, rest⟩ := List.forall_mem_cons.1 ask
    rw [List.foldlM_cons]
    exact (bindSubReport_lockstep first findings).next fun after => ih rest after

theorem pass_lockstep (fails : ∀ c d, R c d → E c d) {queue : List CompiledKpi}
    (ask : ∀ compiled ∈ queue, ∀ code ∈ compiled.subReports,
      Lockstep R (fun _ => R) E (sheet.subReport code)) (findings : Findings) :
    Lockstep R (fun _ => R) E (sheet.pass findings queue) := by
  induction queue generalizing findings with
  | nil => exact lockstep_pure fun _ _ => id
  | cons compiled queue ih =>
    obtain ⟨first, rest⟩ := List.forall_mem_cons.1 ask
    refine (bindSubReports_lockstep first findings).next fun prepared => ?_
    have settle := prepared.gives_settle compiled (compiled.eval prepared.scope) sheet.period
      sheet.locale
    refine (lockstep_ofTraced (.inl ⟨_, settle⟩) fails).next fun settled => ?_
    exact (ih rest settled).next fun _ => lockstep_pure fun _ _ => id

/-- Passes run in lockstep if all reports do that the KPIs refer to. -/
theorem passes_lockstep (fails : ∀ c d, R c d → E c d) {queue : List CompiledKpi}
    (ask : ∀ compiled ∈ queue, ∀ code ∈ compiled.subReports,
      Lockstep R (fun _ => R) E (sheet.subReport code)) (findings : Findings) :
    Lockstep R (fun _ => R) E (sheet.passes findings queue) := by
  rw [passes]
  refine (pass_lockstep fails ask findings).bind ?_
  rintro ⟨after, retry⟩ s s' run
  dsimp only
  split
  · exact lockstep_pure fun _ _ => id
  · split
    · have again := fun compiled member => ask compiled ((pass_sublist run).subset member)
      exact (passes_lockstep fails again after).next fun _ => lockstep_pure fun _ _ => id
    · exact (lockstep_log fails).next fun _ => lockstep_pure fun _ _ => id
termination_by queue.length

end Sheet

/-! ## Account tokens -/

namespace Cache

/-- Keeps the account tokens of a report if there are none yet. -/
def stock (cache : Cache) (report : String) (registry : Registry) : Cache :=
  if cache.registries.get? report = none then cache.keepRegistry report registry else cache

theorem progress?_stock (cache : Cache) (report : String) (registry : Registry)
    (code period : String) :
    (cache.stock report registry).progress? code period = cache.progress? code period := by
  unfold stock
  split <;> rfl

theorem Room.stock {library : Library} {period : String} {n : Nat} {cache : Cache}
    (h : cache.Room library period n) (report : String) (registry : Registry) :
    (cache.stock report registry).Room library period n := by
  intro codes nodup within
  simp only [progress?_stock] at within
  exact h codes nodup within

end Cache

namespace Sources

/-- The account tokens with which a template is evaluated from the cache. -/
def Tokens (sources : Sources) (inst : Instance) (cache : Cache) (template : Template)
    (registry : Registry) : Prop :=
  cache.registries.get? template.code = some registry ∨
    cache.registries.get? template.code = none ∧
      (sources.newRegistry inst template).Gives registry

/-- From both caches the template is evaluated with the same account tokens. -/
def SameTokens (sources : Sources) (inst : Instance) (c d : Cache) (template : Template) : Prop :=
  ∀ registry, sources.Tokens inst c template registry ↔ sources.Tokens inst d template registry

variable {sources : Sources} {self : Instance} {column : Column} {base cache : Cache}
  {template : Template} {registry : Registry}

theorem Tokens.unique {registry' : Registry} (h : sources.Tokens self cache template registry)
    (h' : sources.Tokens self cache template registry') : registry = registry' := by
  rcases h with known | ⟨unknown, gives⟩ <;> rcases h' with known' | ⟨unknown', gives'⟩
  · exact Option.some.inj (known.symm.trans known')
  · cases known.symm.trans unknown'
  · cases unknown.symm.trans known'
  · exact gives.unique gives'

theorem tokens_iff_of_get? (known : cache.registries.get? template.code = some registry)
    (registry' : Registry) : sources.Tokens self cache template registry' ↔ registry' = registry :=
  ⟨fun h => h.unique (.inl known), fun same => same ▸ .inl known⟩

theorem tokens_iff_of_get?_eq_none (unknown : cache.registries.get? template.code = none)
    (registry' : Registry) : sources.Tokens self cache template registry' ↔
      (sources.newRegistry self template).Gives registry' := by
  simp [Tokens, unknown]

/-- Keeping the tokens of one template changes those of no template with another code. -/
theorem SameTokens.stock {other : Template} (h : sources.SameTokens self base cache other)
    (tokens : sources.Tokens self base template registry)
    (distinct : other.code = template.code → other = template) :
    sources.SameTokens self base (cache.stock template.code registry) other := by
  unfold Cache.stock
  split
  · by_cases same : other.code = template.code
    · obtain rfl := distinct same
      have kept : (cache.keepRegistry other.code registry).registries.get? other.code =
          some registry := by
        rw [Cache.keepRegistry, Table.get?_insert, if_pos rfl]
      intro registry'
      rw [tokens_iff_of_get? kept]
      exact ⟨fun h' => h'.unique tokens, fun same => same ▸ tokens⟩
    · have kept : (cache.keepRegistry template.code registry).registries.get? other.code =
          cache.registries.get? other.code := by
        rw [Cache.keepRegistry, Table.get?_insert, if_neg same]
      intro registry'
      rw [h registry', Tokens, Tokens, kept]
  · exact h

/-- The account tokens of a template are looked up in lockstep from caches that give it the same
ones as the cache `base`. -/
theorem registry_lockstep {R E : Cache → Cache → Prop}
    (same : ∀ c d, R c d → sources.SameTokens self base c template ∧
      sources.SameTokens self base d template)
    (fails : ∀ c d, R c d → E c d)
    (kept : ∀ c d registry, R c d → sources.Tokens self base template registry →
      R (c.stock template.code registry) (d.stock template.code registry)) :
    Lockstep R (fun registry c d => R c d ∧ sources.Tokens self base template registry) E
      (sources.registry self template) := by
  have found : ∀ {s : Session} {registry}, sources.Tokens self s.cache template registry →
      ∃ t, (sources.registry self template).run.run s =
        (.ok registry, { cache := s.cache.stock template.code registry, trace := t }) := by
    intro s registry tokens
    unfold Sources.registry Cache.stock
    rw [run_getCache_bind]
    rcases tokens with known | ⟨unknown, gives⟩
    · rw [known]
      exact ⟨s.trace, rfl⟩
    · obtain ⟨t, made⟩ := exists_runs_ofTraced gives s
      rw [unknown]
      exact ⟨t, runs_bind.2 ⟨registry, _, made, rfl⟩⟩
  have failed : ∀ {s : Session} {e}, (sources.newRegistry self template).Fails e →
      s.cache.registries.get? template.code = none →
      ∃ t, (sources.registry self template).run.run s = (.error e, { s with trace := t }) := by
    intro s e failing unknown
    unfold Sources.registry
    rw [run_getCache_bind, unknown]
    obtain ⟨t, failed⟩ := exists_failed_ofTraced failing s
    refine ⟨t, ?_⟩
    rw [ExceptT.run_bind, StateT.run_bind, failed]
    rfl
  intro s t start
  obtain ⟨left, right⟩ := same _ _ start
  by_cases any : ∃ registry, sources.Tokens self base template registry
  · obtain ⟨registry, tokens⟩ := any
    obtain ⟨u, run⟩ := found ((left registry).1 tokens)
    obtain ⟨v, run'⟩ := found ((right registry).1 tokens)
    rw [run, run']
    exact .ok ⟨kept _ _ registry start tokens, tokens⟩
  · have unknown : ∀ {c : Cache}, sources.SameTokens self base c template →
        c.registries.get? template.code = none := by
      intro c same
      cases known : c.registries.get? template.code with
      | none => rfl
      | some registry => exact absurd ⟨registry, (same registry).2 (.inl known)⟩ any
    have oblivious : (sources.newRegistry self template).Oblivious := oblivious_newRegistry template
    rcases oblivious with ⟨registry, gives⟩ | ⟨e, failing⟩
    · exact absurd ⟨registry, (left registry).2 (.inr ⟨unknown left, gives⟩)⟩ any
    · obtain ⟨u, stopped⟩ := failed failing (unknown left)
      obtain ⟨v, stopped'⟩ := failed failing (unknown right)
      rw [stopped, stopped']
      exact .error (fails _ _ start)

/-! ## Evaluations -/

/-- Evaluated from the cache, the template may ask for the report. -/
def Refers (sources : Sources) (inst : Instance) (cache : Cache) (template : Template)
    (code : String) : Prop :=
  ∃ registry queue, sources.Tokens inst cache template registry ∧
    template.sortedKpis.mapM (CompiledKpi.ofKpi sources.library template registry) = .ok queue ∧
    ∃ compiled ∈ queue, code ∈ compiled.subReports

theorem Refers.holds {code : String} (h : sources.Refers self cache template code) :
    ∃ other, sources.library.get code = .ok other := by
  obtain ⟨registry, queue, -, compile, compiled, member, asked⟩ := h
  exact Library.exists_get_of_contains (holds_of_compile compile compiled member code asked)

/-- An evaluation runs in lockstep if the reports inside it do. Its caches are related by `R` from
the mark at its start to the mark at its end. -/
theorem evaluateWith_lockstep (base : Cache) {R R₀ E : Cache → Cache → Prop}
    {R' : PeriodResults → Cache → Cache → Prop}
    {subReport : String → Evaluation (Option (Table Value))}
    (begins : ∀ c d, R₀ c d → R (c.mark template.code column.period.name .started)
      (d.mark template.code column.period.name .started))
    (same : ∀ c d, R c d → sources.SameTokens self base c template ∧
      sources.SameTokens self base d template)
    (kept : ∀ c d registry, R c d → sources.Tokens self base template registry →
      R (c.stock template.code registry) (d.stock template.code registry))
    (ask : ∀ code, sources.Refers self base template code →
      Lockstep R (fun _ => R) E (subReport code))
    (fails : ∀ c d, R c d → E c d)
    (ends : ∀ found : PeriodResults, ∀ c d, R c d →
      R' found (c.mark template.code column.period.name (.finished found.values))
        (d.mark template.code column.period.name (.finished found.values))) :
    Lockstep R₀ R' E (sources.evaluateWith self column subReport template) := by
  unfold evaluateWith
  refine (lockstep_modifyCache begins).next fun _ => ?_
  refine (registry_lockstep same fails kept).next fun registry s t start => ?_
  obtain ⟨related, tokens⟩ := start
  revert s t related
  change Lockstep R R' E _
  refine (lockstep_ofTraced (oblivious_firstScope template registry) fails).next fun scope => ?_
  refine (lockstep_ofResult fails).bind fun queue u u' compiled => ?_
  obtain ⟨compile, -⟩ := runs_ofResult.1 compiled
  have passes := (sources.sheet column subReport template).passes_lockstep fails
    (fun compiled member code asked =>
      ask code ⟨registry, queue, tokens, compile, compiled, member, asked⟩) { scope := scope }
  refine passes.next fun found => ?_
  refine (lockstep_log fails).next fun _ => ?_
  exact (lockstep_modifyCache (ends ⟨found.1.results, found.2⟩)).next fun _ =>
    lockstep_pure fun _ _ => id

section Ask

variable {evaluate : Template → Evaluation PeriodResults} {code : String} {s t : Session}
  {R : Option (Table Value) → Cache → Cache → Prop} {E : Cache → Cache → Prop}

/-- A report with a mark answers what the mark says. -/
theorem run_subReportValues_of_known {progress : Progress}
    (known : s.cache.progress? code column.period.name = some progress) :
    ∃ u, (sources.subReportValues column evaluate code).run.run s =
      (.ok progress.values?, { s with trace := u }) := by
  unfold subReportValues
  rw [run_getCache_bind, known]
  cases progress <;> exact ⟨_, rfl⟩

/-- A report without a mark is evaluated. -/
theorem run_subReportValues_of_unknown {other : Template}
    (unknown : s.cache.progress? code column.period.name = none)
    (get : sources.library.get code = .ok other) :
    ∃ u, (sources.subReportValues column evaluate code).run.run s =
      ((evaluate other >>= fun found => return some found.values : Evaluation _).run.run
        { s with trace := u }) := by
  unfold subReportValues
  rw [run_getCache_bind, unknown, get]
  exact ⟨_, rfl⟩

/-- A report that is marked alike in two caches answers alike. -/
theorem agree_of_known {progress : Progress}
    (known : s.cache.progress? code column.period.name = some progress)
    (known' : t.cache.progress? code column.period.name = some progress)
    (related : R progress.values? s.cache t.cache) :
    Agree R E ((sources.subReportValues column evaluate code).run.run s)
      ((sources.subReportValues column evaluate code).run.run t) := by
  obtain ⟨u, run⟩ := run_subReportValues_of_known known
  obtain ⟨v, run'⟩ := run_subReportValues_of_known known'
  rw [run, run']
  exact .ok related

/-- A report that is marked in neither of two caches answers alike if it is evaluated in
lockstep. -/
theorem agree_of_unknown {other : Template} {R₀ : Cache → Cache → Prop}
    {R' : PeriodResults → Cache → Cache → Prop}
    (unknown : s.cache.progress? code column.period.name = none)
    (unknown' : t.cache.progress? code column.period.name = none)
    (get : sources.library.get code = .ok other) (nested : Lockstep R₀ R' E (evaluate other))
    (start : R₀ s.cache t.cache)
    (ends : ∀ found c d, R' found c d → R (some found.values) c d) :
    Agree R E ((sources.subReportValues column evaluate code).run.run s)
      ((sources.subReportValues column evaluate code).run.run t) := by
  obtain ⟨u, run⟩ := run_subReportValues_of_unknown unknown get
  obtain ⟨v, run'⟩ := run_subReportValues_of_unknown unknown' get
  rw [run, run']
  exact nested.next (fun found => lockstep_pure (ends found)) { s with trace := u }
    { t with trace := v } start

end Ask

end Sources

end KpiReport
