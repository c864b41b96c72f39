import KpiReport.Proofs.Evaluation.Transparent

/-!
# Moments of an evaluation

An evaluation can fail half-way, and then its findings are lost. `Sheet.Finds` and `Sources.Finds`
say which findings there are at some moment of it, whether or not it comes to its end.

What asking for a report and settling a KPI keep holds at every moment of the passes
(`Sheet.Finds.keeps`). The property may speak of the KPIs that wait for their values: all of the
queue at first, and each until an outcome settles it.
-/

namespace KpiReport

namespace Sheet

/-- When the passes over a queue start from some findings and a session, the findings are `held` at
some moment. -/
inductive Finds (sheet : Sheet) (held : Findings) : Findings → List CompiledKpi → Session → Prop
    where
  /-- In the first pass, after the KPIs `before`, the reports `asked` have been asked for the next
  KPI. -/
  | asking {findings prepared : Findings} {before later retry : List CompiledKpi}
    {compiled : CompiledKpi} {asked unasked : List String} {s u w : Session}
    (pass : Runs (sheet.pass findings before) s (prepared, retry) u)
    (split : compiled.subReports = asked ++ unasked)
    (bind : Runs (asked.foldlM sheet.bindSubReport prepared) u held w) :
    Finds sheet held findings (before ++ compiled :: later) s
  /-- The first pass has come to its end. -/
  | passed {findings : Findings} {queue retry : List CompiledKpi} {s u : Session}
    (pass : Runs (sheet.pass findings queue) s (held, retry) u) : Finds sheet held findings queue s
  /-- A later pass is going on. -/
  | later {findings after : Findings} {queue retry : List CompiledKpi} {s u : Session}
    (pass : Runs (sheet.pass findings queue) s (after, retry) u) (left : retry ≠ [])
    (shorter : retry.length < queue.length) (rest : Finds sheet held after retry u) :
    Finds sheet held findings queue s

variable {sheet : Sheet}

theorem finds_of_passes {findings after : Findings} {queue : List CompiledKpi} {count : Nat}
    {s s' : Session} (h : Runs (sheet.passes findings queue) s (after, count) s') :
    sheet.Finds after findings queue s := by
  rw [passes] at h
  obtain ⟨⟨middle, retry⟩, u, pass, h⟩ := runs_bind.1 h
  dsimp only at h
  split at h
  · obtain ⟨same, -⟩ := runs_pure.1 h
    cases same
    exact .passed pass
  · rename_i left
    split at h
    · rename_i shorter
      obtain ⟨⟨last, more⟩, v, rest, h⟩ := runs_bind.1 h
      obtain ⟨same, -⟩ := runs_pure.1 h
      cases same
      exact .later pass (fun none => left (List.isEmpty_iff.2 none)) shorter (finds_of_passes rest)
    · obtain ⟨⟨⟩, v, -, h⟩ := runs_bind.1 h
      obtain ⟨same, -⟩ := runs_pure.1 h
      cases same
      exact .passed pass
termination_by queue.length

/-! ## What the passes keep -/

/-- Asking for a report to which a waiting KPI refers and settling a waiting KPI keep a property of
the findings, the waiting KPIs and the cache. -/
structure Keeps (sheet : Sheet) (J : Findings → List CompiledKpi → Cache → Prop) : Prop where
  ask : ∀ {findings findings' : Findings} {waiting : List CompiledKpi} {compiled : CompiledKpi}
    {code : String} {s s' : Session}, J findings waiting s.cache → compiled ∈ waiting →
    code ∈ compiled.subReports → Runs (sheet.bindSubReport findings code) s findings' s' →
    J findings' waiting s'.cache
  settle : ∀ {findings : Findings} {before later : List CompiledKpi} {compiled : CompiledKpi}
    {cache : Cache}, J findings (before ++ compiled :: later) cache →
    J (findings.settled compiled (compiled.eval findings.scope) sheet.period sheet.locale)
      (before ++ if Outcome.isRetryable (compiled.eval findings.scope) then compiled :: later
        else later) cache

/-- Either the report is bound, or it is asked, and its values are bound if it gives any. -/
theorem bindSubReport_cases {findings findings' : Findings} {code : String} {s s' : Session}
    (h : Runs (sheet.bindSubReport findings code) s findings' s') :
    (findings' = findings ∧ s' = s) ∨ code ∉ findings.boundReports ∧ ∃ answer,
      Runs (sheet.subReport code) s answer s' ∧
        findings' = answer.elim findings (findings.bindReport code) := by
  unfold bindSubReport at h
  split at h
  · exact .inl (runs_pure.1 h)
  · rename_i unbound
    obtain ⟨answer, u, run, h⟩ := runs_bind.1 h
    refine .inr ⟨fun bound => unbound (List.contains_iff_mem.2 bound), answer, ?_⟩
    cases answer with
    | none =>
      obtain ⟨rfl, rfl⟩ := runs_pure.1 h
      exact ⟨run, rfl⟩
    | some values =>
      obtain ⟨rfl, rfl⟩ := runs_pure.1 h
      exact ⟨run, rfl⟩

namespace Keeps

variable {J : Findings → List CompiledKpi → Cache → Prop} (keeps : sheet.Keeps J)

include keeps

theorem asks {findings findings' : Findings} {waiting : List CompiledKpi} {compiled : CompiledKpi}
    {asked : List String} {s s' : Session} (start : J findings waiting s.cache)
    (member : compiled ∈ waiting) (inside : asked ⊆ compiled.subReports)
    (h : Runs (asked.foldlM sheet.bindSubReport findings) s findings' s') :
    J findings' waiting s'.cache := by
  induction asked generalizing findings s with
  | nil =>
    obtain ⟨rfl, rfl⟩ := runs_pure.1 h
    exact start
  | cons code asked ih =>
    rw [List.foldlM_cons] at h
    obtain ⟨middle, u, first, rest⟩ := runs_bind.1 h
    obtain ⟨own, inside⟩ := List.cons_subset.1 inside
    exact ih (keeps.ask start member own first) inside rest

/-- A pass over some of the waiting KPIs leaves those waiting that it does not settle. -/
theorem pass (before later : List CompiledKpi) {findings after : Findings}
    {queue retry : List CompiledKpi} {s s' : Session}
    (h : Runs (sheet.pass findings queue) s (after, retry) s')
    (start : J findings (before ++ (queue ++ later)) s.cache) :
    J after (before ++ (retry ++ later)) s'.cache := by
  induction queue generalizing findings before retry s with
  | nil =>
    obtain ⟨same, rfl⟩ := runs_pure.1 h
    cases same
    exact start
  | cons compiled queue ih =>
    obtain ⟨prepared, u, ask, h⟩ := runs_bind.1 h
    obtain ⟨settled, v, settle, h⟩ := runs_bind.1 h
    obtain ⟨⟨last, again⟩, w, rest, h⟩ := runs_bind.1 h
    obtain ⟨same, rfl⟩ := runs_pure.1 h
    cases same
    have asked := keeps.asks start (by simp) (List.Subset.refl _) ask
    have middle := keeps.settle asked
    rw [← Evaluation.eq_of_runs_ofTraced (prepared.gives_settle _ _ _ _) settle,
      ← Evaluation.cache_of_runs_ofTraced settle] at middle
    split
    · rename_i retried
      rw [if_pos retried] at middle
      -- The KPI waits on: it now stands before the rest of the queue.
      have reached := ih (before ++ [compiled]) rest (by simpa using middle)
      simpa using reached
    · rename_i settled
      rw [if_neg settled] at middle
      exact ih before rest middle

theorem passes {findings after : Findings} {queue : List CompiledKpi} {count : Nat}
    {s s' : Session} (h : Runs (sheet.passes findings queue) s (after, count) s')
    (start : J findings queue s.cache) : ∃ waiting, J after waiting s'.cache := by
  rw [Sheet.passes] at h
  obtain ⟨⟨middle, retry⟩, u, first, h⟩ := runs_bind.1 h
  have one : J middle retry u.cache := by
    have one := keeps.pass [] [] first (by simpa using start)
    simpa using one
  dsimp only at h
  split at h
  · obtain ⟨same, rfl⟩ := runs_pure.1 h
    cases same
    exact ⟨_, one⟩
  · split at h
    · rename_i shorter
      obtain ⟨⟨last, more⟩, v, rest, h⟩ := runs_bind.1 h
      obtain ⟨same, rfl⟩ := runs_pure.1 h
      cases same
      exact passes rest one
    · obtain ⟨⟨⟩, v, warn, h⟩ := runs_bind.1 h
      obtain ⟨same, rfl⟩ := runs_pure.1 h
      cases same
      rw [Evaluation.cache_of_runs_log warn]
      exact ⟨_, one⟩
termination_by queue.length

end Keeps

/-- **What asking and settling keep holds at every moment of the passes.** -/
theorem Finds.keeps {J : Findings → List CompiledKpi → Cache → Prop} (keeps : sheet.Keeps J)
    {held findings : Findings} {queue : List CompiledKpi} {s : Session}
    (h : sheet.Finds held findings queue s) (start : J findings queue s.cache) :
    ∃ waiting cache, J held waiting cache := by
  induction h with
  | @asking _ _ before later retry compiled asked unasked _ _ w pass split bind =>
    have prepared := keeps.pass [] (compiled :: later) pass start
    have inside : asked ⊆ compiled.subReports := by
      rw [split]
      exact List.subset_append_left _ _
    exact ⟨_, w.cache, keeps.asks prepared (by simp) inside bind⟩
  | @passed _ queue retry _ u pass =>
    have ended := keeps.pass [] [] pass (by simpa using start)
    exact ⟨_, u.cache, ended⟩
  | @later _ _ queue retry _ u pass _ _ _ ih =>
    have ended := keeps.pass [] [] pass (by simpa using start)
    exact ih (by simpa using ended)

end Sheet

namespace Sources

/-- At some moment of the evaluation of a template from a session, with some depth left, these are
the findings. -/
inductive Finds (sources : Sources) (inst : Instance) (column : Column) (depth : Nat)
    (template : Template) (s : Session) : Findings → Prop where
  /-- The results of the queries are bound, up to one that failed if there is one. -/
  | queries {registry : Registry} {offset : Calendar.UtcOffset} {scope : Scope}
    {result : Result Unit} {u : Session} {t : Trace}
    (lookUp : Runs (sources.registry inst template)
      { s with cache := s.cache.mark template.code column.period.name .started } registry u)
    (clock : sources.offset = .ok offset)
    (fetch : (Query.fetchInto sources.store offset column.bounds column.period.queryFilters .empty
      template.queries).run u.trace = ((scope, result), t)) :
    Finds sources inst column depth template s { scope := scope }
  /-- The balances are bound. -/
  | balances {registry : Registry} {base : Scope} {u : Session} {t : Trace}
    (lookUp : Runs (sources.registry inst template)
      { s with cache := s.cache.mark template.code column.period.name .started } registry u)
    (first : Runs (sources.firstScope inst column template registry) u.trace base t) :
    Finds sources inst column depth template s { scope := base }
  /-- The passes are going on. -/
  | passes {base : Scope} {queue : List CompiledKpi} {findings : Findings} {u : Session}
    (prepared : Runs (sources.preparation inst column template) s (base, queue) u)
    (finds : (sources.sheet column (sources.inner inst column depth) template).Finds findings
      { scope := base } queue u) :
    Finds sources inst column depth template s findings

end Sources

end KpiReport
