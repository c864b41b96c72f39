import KpiReport.Proofs.Evaluation.Visits
import Mathlib.Data.List.Nodup

/-!
# The passes solve the formulas

A KPI is evaluated at some moment of some pass, in the scope of that moment, and the scope grows
afterwards. The main statement, `Findings.passes_settles`, says that in the end this makes no
difference: every KPI shows what its formula gives in the final scope.

Two facts carry the proof. While the scope grows, an outcome other than the want of a name stays
(`Expr.eval_of_le`). And what a retried KPI wants can only be the name of another KPI, since the
reports that it refers to have been asked before; so a pass that settles no KPI changes no outcome.
-/

namespace KpiReport

namespace CompiledKpi

/-- The formula reads identifiers and dotted names of KPIs of the sub-reports. -/
def ReadsOwn (compiled : CompiledKpi) : Prop :=
  ∀ e, compiled.expression = .ok e → e.Reads (Readable compiled.subReports)

theorem eval_of_le {compiled : CompiledKpi} {S F : Scope} (h : S ≤ F)
    (defined : ∀ x, compiled.eval S ≠ .error (.undefinedName x)) :
    compiled.eval F = compiled.eval S := by
  unfold eval at defined ⊢
  split
  · rfl
  · rename_i e parsed
    rw [parsed] at defined
    exact e.eval_of_le h defined

theorem eval_congr {compiled : CompiledKpi} (reads : compiled.ReadsOwn) {S F : Scope}
    (same : ∀ x, Readable compiled.subReports x → F.get? x = S.get? x) :
    compiled.eval F = compiled.eval S := by
  unfold eval
  split
  · rfl
  · rename_i e parsed
    exact e.eval_congr fun x read => same x (reads e parsed x read)

end CompiledKpi

theorem Outcome.ne_undefinedName {outcome : Outcome} (h : ¬ outcome.isRetryable = true)
    (x : String) : outcome ≠ .error (.undefinedName x) := by
  rintro rfl
  exact h rfl

theorem Outcome.binding?_of_isRetryable {outcome : Outcome} (h : outcome.isRetryable = true) :
    outcome.binding? = none := by
  cases outcome with
  | ok value => cases h
  | error e => cases e <;> first | rfl | cases h

/-- The KPIs have different names without dots, and refer to what their formulas read. -/
structure WellNamed (queue : List CompiledKpi) : Prop where
  nodup : (queue.map fun compiled => compiled.kpi.name).Nodup
  dotless : ∀ compiled ∈ queue, Dotless compiled.kpi.name
  reports : ∀ compiled ∈ queue, ∀ code ∈ compiled.subReports, Dotless code
  reads : ∀ compiled ∈ queue, compiled.ReadsOwn

theorem WellNamed.sublist {queue retry : List CompiledKpi} (h : WellNamed queue)
    (part : retry.Sublist queue) : WellNamed retry where
  nodup := h.nodup.sublist (part.map _)
  dotless := fun compiled member => h.dotless compiled (part.subset member)
  reports := fun compiled member => h.reports compiled (part.subset member)
  reads := fun compiled member => h.reads compiled (part.subset member)

theorem WellNamed.eq_of_name {queue : List CompiledKpi} (h : WellNamed queue) {a b : CompiledKpi}
    (ha : a ∈ queue) (hb : b ∈ queue) (same : a.kpi.name = b.kpi.name) : a = b :=
  List.inj_on_of_nodup_map h.nodup ha hb same

namespace Findings

variable {period : String} {locale : Locale} {answers : Answers}

/-! ## One pass -/

/-- What a pass over a queue changes, `retry` being the KPIs that are to be tried again. -/
structure Sweeps (period : String) (locale : Locale) (answers : Answers) (before after : Findings)
    (queue retry : List CompiledKpi) : Prop where
  tidy : after.Tidy answers
  bound : before.boundReports ⊆ after.boundReports
  scope_le : before.scope ≤ after.scope
  part : retry.Sublist queue
  sorted : before.results.Sorted → after.results.Sorted
  scope : ∀ x, Dotless x → (∀ compiled ∈ queue, compiled ∉ retry → x ≠ compiled.kpi.name) →
    after.scope.get? x = before.scope.get? x
  results : ∀ x, (∀ compiled ∈ queue, x ≠ compiled.kpi.name) →
    after.results.get? x = before.results.get? x
  visits : ∀ compiled ∈ queue, ∃ S, before.scope ≤ S ∧ S ≤ after.scope ∧
    (∀ code ∈ compiled.subReports, Answered answers S code) ∧
    (compiled ∈ retry ↔ Outcome.isRetryable (compiled.eval S) = true) ∧
    after.Shows period locale compiled (compiled.eval S)

theorem Shows.mono {before after : Findings} {compiled : CompiledKpi} {outcome : Outcome}
    (h : before.Shows period locale compiled outcome)
    (scope : after.scope.get? compiled.kpi.name = before.scope.get? compiled.kpi.name)
    (results : after.results.get? compiled.kpi.name = before.results.get? compiled.kpi.name) :
    after.Shows period locale compiled outcome := by
  obtain ⟨bound, style, kept⟩ := h
  exact ⟨scope.trans bound, style, results.trans kept⟩

theorem sweeps_cons {before middle after : Findings} {compiled : CompiledKpi}
    {queue retry : List CompiledKpi} {S : Scope} (free : Dotless compiled.kpi.name)
    (other : ∀ c ∈ queue, c.kpi.name ≠ compiled.kpi.name)
    (visit : Visits period locale answers before middle compiled S)
    (sweep : Sweeps period locale answers middle after queue retry) :
    Sweeps period locale answers before after (compiled :: queue)
      (if Outcome.isRetryable (compiled.eval S) then compiled :: retry else retry) := by
  have alone : compiled ∉ retry := fun member => other compiled (sweep.part.subset member) rfl
  have mem_retry : ∀ c, c ≠ compiled → (c ∈ (if Outcome.isRetryable (compiled.eval S) then
      compiled :: retry else retry) ↔ c ∈ retry) := by
    intro c ne
    split
    · simp [ne]
    · rfl
  have shows : after.Shows period locale compiled (compiled.eval S) := by
    refine visit.shows.mono (sweep.scope _ free fun c member _ => (other c member).symm) ?_
    exact sweep.results _ fun c member => (other c member).symm
  refine ⟨sweep.tidy, List.Subset.trans visit.bound sweep.bound, ?_, ?_, ?_, ?_, ?_, ?_⟩
  · exact Scope.le_trans (Scope.le_trans visit.before_le visit.le_after) sweep.scope_le
  · split
    · exact sweep.part.cons_cons compiled
    · exact sweep.part.cons compiled
  · exact fun sorted => sweep.sorted (visit.sorted sorted)
  · intro x free' ne
    have later : after.scope.get? x = middle.scope.get? x := by
      refine sweep.scope x free' fun c member done => ne c (List.mem_cons_of_mem _ member) ?_
      rwa [mem_retry c fun same => other c member (congrArg (·.kpi.name) same)]
    rw [later]
    by_cases own : x = compiled.kpi.name
    · subst own
      by_cases again : Outcome.isRetryable (compiled.eval S) = true
      · have unbound := visit.shows.1.trans (Outcome.binding?_of_isRetryable again)
        rw [unbound]
        exact (Scope.get?_eq_none_of_le (Scope.le_trans visit.before_le visit.le_after)
          unbound).symm
      · refine absurd rfl (ne compiled List.mem_cons_self ?_)
        rwa [if_neg again]
    · exact visit.scope x free' own
  · intro x ne
    rw [sweep.results x fun c member => ne c (List.mem_cons_of_mem _ member),
      visit.results x (ne compiled List.mem_cons_self)]
  · refine List.forall_mem_cons.2 ⟨⟨S, visit.before_le, ?_, visit.answered, ?_, shows⟩, ?_⟩
    · exact Scope.le_trans visit.le_after sweep.scope_le
    · split
      · rename_i again
        simp [again]
      · rename_i done
        exact iff_of_false alone done
    · intro c member
      obtain ⟨T, le, le', answered, retried, shows⟩ := sweep.visits c member
      refine ⟨T, ?_, le', answered, ?_, shows⟩
      · exact Scope.le_trans (Scope.le_trans visit.before_le visit.le_after) le
      · rw [mem_retry c fun same => other c member (congrArg (·.kpi.name) same)]
        exact retried

theorem pass_sweeps {queue : List CompiledKpi} (named : WellNamed queue) {findings : Findings}
    (tidy : findings.Tidy answers)
    (unbound : ∀ compiled ∈ queue, findings.scope.get? compiled.kpi.name = none) :
    Sweeps period locale answers findings (findings.pass period locale answers queue).1 queue
      (findings.pass period locale answers queue).2 := by
  induction queue generalizing findings with
  | nil =>
    exact ⟨tidy, List.Subset.refl _, Scope.le_refl _, .refl _, id, fun _ _ _ => rfl,
      fun _ _ => rfl, fun _ member => nomatch member⟩
  | cons compiled queue ih =>
    have visit : Visits period locale answers findings _ compiled _ :=
      visited_visits tidy (named.reports compiled List.mem_cons_self)
        (named.dotless compiled List.mem_cons_self) (unbound compiled List.mem_cons_self)
    have other : ∀ c ∈ queue, c.kpi.name ≠ compiled.kpi.name := by
      intro c member same
      have nodup := List.nodup_cons.1 named.nodup
      exact nodup.1 (List.mem_map.2 ⟨c, member, same⟩)
    have sweep := ih (named.sublist (List.sublist_cons_self _ _)) visit.tidy fun c member => by
      rw [visit.scope _ (named.dotless c (List.mem_cons_of_mem _ member)) (other c member)]
      exact unbound c (List.mem_cons_of_mem _ member)
    rw [pass]
    generalize pass period locale answers (findings.visited period locale answers compiled) queue =
      rest at sweep ⊢
    exact sweeps_cons (named.dotless compiled List.mem_cons_self) other visit sweep

/-! ## All passes -/

/-- What the passes over a queue change: each KPI shows its outcome in the final scope. -/
structure Settles (period : String) (locale : Locale) (answers : Answers) (before after : Findings)
    (queue : List CompiledKpi) : Prop where
  tidy : after.Tidy answers
  bound : before.boundReports ⊆ after.boundReports
  scope_le : before.scope ≤ after.scope
  sorted : before.results.Sorted → after.results.Sorted
  scope : ∀ x, Dotless x → (∀ compiled ∈ queue, x ≠ compiled.kpi.name) →
    after.scope.get? x = before.scope.get? x
  results : ∀ x, (∀ compiled ∈ queue, x ≠ compiled.kpi.name) →
    after.results.get? x = before.results.get? x
  answered : ∀ compiled ∈ queue, ∀ code ∈ compiled.subReports, Answered answers after.scope code
  shows : ∀ compiled ∈ queue,
    after.Shows period locale compiled (compiled.eval after.scope)

theorem Sweeps.settles_of_eval {before after : Findings} {queue retry : List CompiledKpi}
    (named : WellNamed queue) (sweep : Sweeps period locale answers before after queue retry)
    (same : ∀ compiled ∈ queue, ∀ S, before.scope ≤ S → S ≤ after.scope →
      (∀ code ∈ compiled.subReports, Answered answers S code) →
      (compiled ∈ retry ↔ Outcome.isRetryable (compiled.eval S) = true) →
      compiled.eval after.scope = compiled.eval S) :
    Settles period locale answers before after queue := by
  refine ⟨sweep.tidy, sweep.bound, sweep.scope_le, sweep.sorted, ?_, sweep.results, ?_, ?_⟩
  · exact fun x free ne => sweep.scope x free fun c member _ => ne c member
  · intro c member code asked
    obtain ⟨S, -, le, answered, -, -⟩ := sweep.visits c member
    exact sweep.tidy.answered_of_le le (named.reports c member code asked) (answered code asked)
  · intro c member
    obtain ⟨S, le, le', answered, retried, shows⟩ := sweep.visits c member
    rw [same c member S le le' answered retried]
    exact shows

/-- If no KPI is to be tried again, all outcomes are final. -/
theorem Sweeps.settles_of_nil {before after : Findings} {queue : List CompiledKpi}
    (named : WellNamed queue) (sweep : Sweeps period locale answers before after queue []) :
    Settles period locale answers before after queue := by
  refine sweep.settles_of_eval named fun c _ S _ le _ retried => ?_
  refine CompiledKpi.eval_of_le le (Outcome.ne_undefinedName ?_)
  rw [← retried]
  exact List.not_mem_nil

/-- If every KPI is to be tried again, only names of reports have been bound since each was
evaluated, and none that it reads: all outcomes are final. -/
theorem Sweeps.settles_of_all {before after : Findings} {queue : List CompiledKpi}
    (named : WellNamed queue) (sweep : Sweeps period locale answers before after queue queue) :
    Settles period locale answers before after queue := by
  refine sweep.settles_of_eval named fun c member S le le' answered _ => ?_
  refine CompiledKpi.eval_congr (named.reads c member) fun x read => ?_
  rcases read with identifier | ⟨code, asked, kpi, rfl⟩
  · have still : after.scope.get? x = before.scope.get? x :=
      sweep.scope x (dotless_of_isIdentifier identifier) fun _ inside outside =>
        absurd inside outside
    cases old : before.scope.get? x with
    | some value => rw [still, old, le x value old]
    | none =>
      have unbound := still.trans old
      rw [unbound, Scope.get?_eq_none_of_le le' unbound]
  · have final := sweep.tidy.answered_of_le le' (named.reports c member code asked)
      (answered code asked)
    rw [final kpi, answered code asked kpi]

theorem Sweeps.settles_trans {before middle after : Findings} {queue retry : List CompiledKpi}
    (named : WellNamed queue) (sweep : Sweeps period locale answers before middle queue retry)
    (rest : Settles period locale answers middle after retry) :
    Settles period locale answers before after queue := by
  have le := Scope.le_trans sweep.scope_le rest.scope_le
  refine ⟨rest.tidy, List.Subset.trans sweep.bound rest.bound, le,
    fun sorted => rest.sorted (sweep.sorted sorted), ?_, ?_, ?_, ?_⟩
  · intro x free ne
    rw [rest.scope x free fun c member => ne c (sweep.part.subset member)]
    exact sweep.scope x free fun c member _ => ne c member
  · intro x ne
    rw [rest.results x fun c member => ne c (sweep.part.subset member)]
    exact sweep.results x ne
  · intro c member code asked
    obtain ⟨S, -, le', answered, -, -⟩ := sweep.visits c member
    exact rest.tidy.answered_of_le (Scope.le_trans le' rest.scope_le)
      (named.reports c member code asked) (answered code asked)
  · intro c member
    by_cases again : c ∈ retry
    · exact rest.shows c again
    · obtain ⟨S, -, le', -, retried, shows⟩ := sweep.visits c member
      have final : c.eval after.scope = c.eval S := by
        refine CompiledKpi.eval_of_le (Scope.le_trans le' rest.scope_le)
          (Outcome.ne_undefinedName ?_)
        rwa [← retried]
      have other : ∀ d ∈ retry, c.kpi.name ≠ d.kpi.name := by
        intro d inside same
        exact again (named.eq_of_name member (sweep.part.subset inside) same ▸ inside)
      rw [final]
      exact shows.mono (rest.scope _ (named.dotless c member) other) (rest.results _ other)

theorem passes_settles {queue : List CompiledKpi} (named : WellNamed queue) {findings : Findings}
    (tidy : findings.Tidy answers)
    (unbound : ∀ compiled ∈ queue, findings.scope.get? compiled.kpi.name = none) :
    Settles period locale answers findings (findings.passes period locale answers queue).1
      queue := by
  have sweep : Sweeps period locale answers findings _ queue _ := pass_sweeps named tidy unbound
  rw [passes]
  generalize pass period locale answers findings queue = one at sweep ⊢
  obtain ⟨after, retry⟩ := one
  dsimp only at sweep ⊢
  split
  · rename_i done
    rw [List.isEmpty_iff] at done
    subst done
    exact sweep.settles_of_nil named
  · split
    · refine sweep.settles_trans named ?_
      refine passes_settles (named.sublist sweep.part) sweep.tidy fun c member => ?_
      obtain ⟨S, -, -, -, retried, shows⟩ := sweep.visits c (sweep.part.subset member)
      exact shows.1.trans (Outcome.binding?_of_isRetryable (retried.1 member))
    · rename_i stuck
      have all : retry = queue := sweep.part.eq_of_length_le (Nat.le_of_not_lt stuck)
      subst all
      exact sweep.settles_of_all named
termination_by queue.length

end Findings

end KpiReport
