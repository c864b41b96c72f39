import KpiReport.Evaluation.Passes
import KpiReport.Proofs.Runs
import Mathlib.Logic.Relation

/-!
# Passes over given answers

While the passes run, other reports are evaluated, the cache changes and lines are logged. What the
passes find depends on none of this except the values that the other reports give. So the passes are
first written as functions of these answers, `Findings.pass` and `Findings.passes`.

* A run of the passes finds what the functions give for the answers that it got
  (`Sheet.passes_inv`).
* If every report that is asked answers, the passes run (`Sheet.passes_runs`).
-/

namespace KpiReport

/-- The values that other reports give, by their codes. -/
abbrev Answers := String → Option (Table Value)

/-- The style of a KPI in a scope, without the log. -/
def Kpi.styleOf (kpi : Kpi) (scope : Scope) : Option String :=
  match kpi.styleExpression with
  | none => none
  | some formula =>
    match evalFormula scope formula with
    | .ok .noData => none
    | .ok value => some value.toText
    | .error _ => none

theorem Kpi.gives_styleIn (kpi : Kpi) (scope : Scope) :
    (kpi.styleIn scope).Gives (kpi.styleOf scope) := by
  intro t
  unfold Kpi.styleIn Kpi.styleOf
  cases kpi.styleExpression with
  | none => exact ⟨t, runs_pure.2 ⟨rfl, rfl⟩⟩
  | some formula =>
    dsimp only
    cases evalFormula scope formula with
    | error e => exact ⟨_, runs_bind.2 ⟨(), _, Traced.runs_log.2 rfl, runs_pure.2 ⟨rfl, rfl⟩⟩⟩
    | ok value => cases value <;> exact ⟨t, runs_pure.2 ⟨rfl, rfl⟩⟩

namespace Findings

/-- The findings once the outcome of a KPI is settled. -/
def settled (findings : Findings) (compiled : CompiledKpi) (outcome : Outcome) (period : String)
    (locale : Locale) : Findings :=
  let findings := findings.bindOutcome compiled.kpi outcome
  findings.keepResult
    (compiled.result outcome (compiled.kpi.styleOf findings.scope) period locale)

theorem boundReports_settled (findings : Findings) (compiled : CompiledKpi) (outcome : Outcome)
    (period : String) (locale : Locale) :
    (findings.settled compiled outcome period locale).boundReports = findings.boundReports := by
  unfold settled bindOutcome
  dsimp only [keepResult]
  split <;> rfl

theorem gives_settle (findings : Findings) (compiled : CompiledKpi) (outcome : Outcome)
    (period : String) (locale : Locale) :
    (findings.settle compiled outcome period locale).Gives
      (findings.settled compiled outcome period locale) := by
  intro t
  obtain ⟨t', run⟩ :=
    compiled.kpi.gives_styleIn (findings.bindOutcome compiled.kpi outcome).scope t
  exact ⟨t', runs_bind.2 ⟨_, t', run, runs_pure.2 ⟨rfl, rfl⟩⟩⟩

variable (period : String) (locale : Locale) (answers : Answers)

/-- Binds the values that a report gives, unless they are bound. -/
def bindAnswer (findings : Findings) (code : String) : Findings :=
  if findings.boundReports.contains code then findings
  else
    match answers code with
    | some values => findings.bindReport code values
    | none => findings

/-- The findings when a KPI is evaluated: the reports that it refers to have been asked. -/
def prepared (findings : Findings) (compiled : CompiledKpi) : Findings :=
  compiled.subReports.foldl (bindAnswer answers) findings

/-- The findings after a KPI has been evaluated. -/
def visited (findings : Findings) (compiled : CompiledKpi) : Findings :=
  let findings := findings.prepared answers compiled
  findings.settled compiled (compiled.eval findings.scope) period locale

/-- One pass over a queue of KPIs: the findings, and the KPIs that are to be tried again. -/
def pass (findings : Findings) : List CompiledKpi → Findings × List CompiledKpi
  | [] => (findings, [])
  | compiled :: queue =>
    let outcome : Outcome := compiled.eval (findings.prepared answers compiled).scope
    let rest := pass (findings.visited period locale answers compiled) queue
    (rest.1, if outcome.isRetryable then compiled :: rest.2 else rest.2)

/-- The passes until no KPI is left or a pass settles none, and their number. -/
def passes (findings : Findings) (queue : List CompiledKpi) : Findings × Nat :=
  let (findings, retry) := findings.pass period locale answers queue
  if retry.isEmpty then (findings, 1)
  else if retry.length < queue.length then
    let (findings, more) := passes findings retry
    (findings, more + 1)
  else (findings, 1)
termination_by queue.length

theorem retry_sublist (findings : Findings) (queue : List CompiledKpi) :
    (findings.pass period locale answers queue).2.Sublist queue := by
  induction queue generalizing findings with
  | nil => exact .refl _
  | cons compiled queue ih =>
    rw [pass]
    dsimp only
    split
    · exact (ih _).cons_cons compiled
    · exact (ih _).cons compiled

variable {period} {locale} {answers}

/-- What binding the values of one report keeps, asking for all reports of a KPI keeps. -/
theorem prepared_keeps {J : Findings → Prop} {compiled : CompiledKpi}
    (bind : ∀ code ∈ compiled.subReports, ∀ findings, J findings →
      J (bindAnswer answers findings code)) {findings : Findings}
    (start : J findings) : J (prepared answers findings compiled) :=
  List.foldlRecOn _ _ start fun findings kept code asked => bind code asked findings kept

theorem pass_keeps {J : Findings → Prop} {queue : List CompiledKpi}
    (visit : ∀ compiled ∈ queue, ∀ findings, J findings →
      J (visited period locale answers findings compiled)) {findings : Findings}
    (start : J findings) : J (pass period locale answers findings queue).1 := by
  induction queue generalizing findings with
  | nil => exact start
  | cons compiled queue ih =>
    obtain ⟨first, rest⟩ := List.forall_mem_cons.1 visit
    exact ih rest (first findings start)

/-- What every evaluation of a KPI keeps, the passes keep. -/
theorem passes_keeps {J : Findings → Prop} {queue : List CompiledKpi}
    (visit : ∀ compiled ∈ queue, ∀ findings, J findings →
      J (visited period locale answers findings compiled)) {findings : Findings}
    (start : J findings) : J (passes period locale answers findings queue).1 := by
  have one := pass_keeps visit start
  have part := findings.retry_sublist period locale answers queue
  rw [passes]
  generalize pass period locale answers findings queue = result at one part ⊢
  obtain ⟨after, retry⟩ := result
  dsimp only at one part ⊢
  split
  · exact one
  · split
    · exact passes_keeps (fun compiled member => visit compiled (part.subset member)) one
    · exact one
termination_by queue.length

end Findings

/-! ## Trails -/

namespace Sheet

variable (sheet : Sheet) (codes : String → Prop)

/-- A step from one session to the next: the cache stays, or one of some reports is asked. -/
def Step (s s' : Session) : Prop :=
  s'.cache = s.cache ∨ ∃ code answer, codes code ∧ Runs (sheet.subReport code) s answer s'

/-- The sessions are linked by steps. -/
def Trail : Session → Session → Prop :=
  Relation.ReflTransGen (sheet.Step codes)

/-- A report was asked between two sessions, and gave the answer. -/
def Asked (code : String) (answer : Option (Table Value)) (s s' : Session) : Prop :=
  ∃ u u', sheet.Trail codes s u ∧ Runs (sheet.subReport code) u answer u' ∧
    sheet.Trail codes u' s'

/-- Every report that was asked between two sessions gave the given answer. -/
def Agrees (answers : Answers) (s s' : Session) : Prop :=
  ∀ code answer, codes code → sheet.Asked codes code answer s s' → answer = answers code

variable {sheet} {codes}

theorem Trail.quiet {s s' : Session} (h : s'.cache = s.cache) : sheet.Trail codes s s' :=
  Relation.ReflTransGen.single (Or.inl h)

theorem Trail.ask {code : String} {answer : Option (Table Value)} {s s' : Session}
    (h : Runs (sheet.subReport code) s answer s') (inside : codes code) :
    sheet.Trail codes s s' :=
  Relation.ReflTransGen.single (Or.inr ⟨code, answer, inside, h⟩)

/-- What the cache keeps whenever a report is asked, it keeps on a trail. -/
theorem Trail.keeps {J : Cache → Prop} {s s' : Session} (h : sheet.Trail codes s s')
    (ask : ∀ ⦃code answer u u'⦄, codes code → J u.cache → Runs (sheet.subReport code) u answer u' →
      J u'.cache) (start : J s.cache) : J s'.cache := by
  induction h with
  | refl => exact start
  | tail _ last ih =>
    rcases last with same | ⟨code, answer, inside, run⟩
    · rw [same]
      exact ih
    · exact ask inside ih run

theorem Asked.widen {code : String} {answer : Option (Table Value)} {s u u' s' : Session}
    (before : sheet.Trail codes s u) (h : sheet.Asked codes code answer u u')
    (after : sheet.Trail codes u' s') : sheet.Asked codes code answer s s' := by
  obtain ⟨v, v', first, run, last⟩ := h
  exact ⟨v, v', before.trans first, run, last.trans after⟩

theorem Agrees.narrow {answers : Answers} {s u u' s' : Session}
    (before : sheet.Trail codes s u) (after : sheet.Trail codes u' s')
    (h : sheet.Agrees codes answers s s') : sheet.Agrees codes answers u u' :=
  fun code answer inside asked => h code answer inside (asked.widen before after)

/-! ## Runs of the passes -/

/-- What a run from the session `s` to `s'` did, which took the findings from `before` to `after`: it
asked for the reports `needed` as far as they were not bound before, and `holds` for all answers
that agree with those it got. -/
structure Follows (sheet : Sheet) (codes : String → Prop) (before after : Findings)
    (needed : List String) (s s' : Session) (holds : Answers → Prop) : Prop where
  trail : sheet.Trail codes s s'
  bound : ∀ code ∈ after.boundReports,
    code ∈ before.boundReports ∨ ∃ answer, sheet.Asked codes code answer s s'
  asked : ∀ code ∈ needed,
    code ∈ before.boundReports ∨ ∃ answer, sheet.Asked codes code answer s s'
  holds : ∀ answers, sheet.Agrees codes answers s s' → holds answers

theorem Follows.quiet {before after : Findings} {s s' : Session} {holds : Answers → Prop}
    (h : s'.cache = s.cache) (bound : after.boundReports = before.boundReports)
    (all : ∀ answers, holds answers) : Follows sheet codes before after [] s s' holds where
  trail := Trail.quiet h
  bound := fun _ member => Or.inl (bound ▸ member)
  asked := fun _ member => nomatch member
  holds := fun answers _ => all answers

theorem Follows.trans {before middle after : Findings} {first second : List String}
    {s u s' : Session} {holds₁ holds₂ holds : Answers → Prop}
    (h₁ : Follows sheet codes before middle first s u holds₁)
    (h₂ : Follows sheet codes middle after second u s' holds₂)
    (both : ∀ answers, holds₁ answers → holds₂ answers → holds answers) :
    Follows sheet codes before after (first ++ second) s s' holds := by
  have early {code : String}
      (h : code ∈ before.boundReports ∨ ∃ answer, sheet.Asked codes code answer s u) :
      code ∈ before.boundReports ∨ ∃ answer, sheet.Asked codes code answer s s' := by
    rcases h with known | ⟨answer, asked⟩
    · exact Or.inl known
    · exact Or.inr ⟨answer, asked.widen .refl h₂.trail⟩
  have late {code : String}
      (h : code ∈ middle.boundReports ∨ ∃ answer, sheet.Asked codes code answer u s') :
      code ∈ before.boundReports ∨ ∃ answer, sheet.Asked codes code answer s s' := by
    rcases h with known | ⟨answer, asked⟩
    · exact early (h₁.bound code known)
    · exact Or.inr ⟨answer, asked.widen h₁.trail .refl⟩
  refine ⟨h₁.trail.trans h₂.trail, fun code member => late (h₂.bound code member), ?_, ?_⟩
  · intro code member
    rcases List.mem_append.1 member with member | member
    · exact early (h₁.asked code member)
    · exact late (h₂.asked code member)
  · intro answers agrees
    exact both answers (h₁.holds answers (agrees.narrow .refl h₂.trail))
      (h₂.holds answers (agrees.narrow h₁.trail .refl))

theorem bindSubReport_inv {findings findings' : Findings} {code : String} {s s' : Session}
    (h : Runs (sheet.bindSubReport findings code) s findings' s') (inside : codes code) :
    Follows sheet codes findings findings' [code] s s' fun answers =>
      findings' = findings.bindAnswer answers code := by
  unfold bindSubReport at h
  split at h
  · rename_i bound
    obtain ⟨rfl, rfl⟩ := runs_pure.1 h
    refine ⟨.refl, fun _ => Or.inl, List.forall_mem_singleton.2 ?_, fun answers _ => ?_⟩
    · exact Or.inl (List.contains_iff_mem.1 bound)
    · rw [Findings.bindAnswer, if_pos bound]
  · rename_i unbound
    obtain ⟨answer, u, run, h⟩ := runs_bind.1 h
    have same : u = s' := by
      cases answer <;> exact (runs_pure.1 h).2.symm
    subst same
    have asked : sheet.Asked codes code answer s u := ⟨s, u, .refl, run, .refl⟩
    refine ⟨Trail.ask run inside, ?_, List.forall_mem_singleton.2 (Or.inr ⟨answer, asked⟩), ?_⟩
    · intro code' member
      cases answer with
      | none =>
        obtain ⟨rfl, -⟩ := runs_pure.1 h
        exact Or.inl member
      | some values =>
        obtain ⟨rfl, -⟩ := runs_pure.1 h
        rcases List.mem_cons.1 member with rfl | member
        · exact Or.inr ⟨_, asked⟩
        · exact Or.inl member
    · intro answers agrees
      rw [Findings.bindAnswer, if_neg unbound, ← agrees code answer inside asked]
      cases answer <;> exact (runs_pure.1 h).1

theorem bindSubReports_inv {findings findings' : Findings} {asked : List String} {s s' : Session}
    (h : Runs (asked.foldlM sheet.bindSubReport findings) s findings' s')
    (inside : ∀ code ∈ asked, codes code) :
    Follows sheet codes findings findings' asked s s' fun answers =>
      findings' = asked.foldl (Findings.bindAnswer answers) findings := by
  induction asked generalizing findings s with
  | nil =>
    obtain ⟨rfl, rfl⟩ := runs_pure.1 h
    exact .quiet rfl rfl fun _ => rfl
  | cons code asked ih =>
    rw [List.foldlM_cons] at h
    obtain ⟨middle, u, first, rest⟩ := runs_bind.1 h
    obtain ⟨known, inside⟩ := List.forall_mem_cons.1 inside
    refine (bindSubReport_inv first known).trans (ih rest inside) fun answers found₁ found₂ => ?_
    rw [found₂, found₁, List.foldl_cons]

/-- A run of a pass asks for the reports that the KPIs of the queue refer to, and finds what the
answers say. -/
theorem pass_inv {findings : Findings} {queue : List CompiledKpi}
    {result : Findings × List CompiledKpi} {s s' : Session}
    (h : Runs (sheet.pass findings queue) s result s')
    (inside : ∀ compiled ∈ queue, ∀ code ∈ compiled.subReports, codes code) :
    Follows sheet codes findings result.1 (queue.flatMap CompiledKpi.subReports) s s' fun answers =>
      result = findings.pass sheet.period sheet.locale answers queue := by
  induction queue generalizing findings result s with
  | nil =>
    obtain ⟨rfl, rfl⟩ := runs_pure.1 h
    exact .quiet rfl rfl fun _ => rfl
  | cons compiled queue ih =>
    obtain ⟨prepared, u, ask, h⟩ := runs_bind.1 h
    obtain ⟨settled, v, settle, h⟩ := runs_bind.1 h
    obtain ⟨⟨after, retry⟩, w, rest, h⟩ := runs_bind.1 h
    obtain ⟨rfl, rfl⟩ := runs_pure.1 h
    obtain ⟨known, inside⟩ := List.forall_mem_cons.1 inside
    have asked := bindSubReports_inv ask known
    have quiet : Follows sheet codes prepared settled [] u v fun _ =>
        settled = prepared.settled compiled (compiled.eval prepared.scope) sheet.period
          sheet.locale := by
      have same := Evaluation.eq_of_runs_ofTraced (prepared.gives_settle _ _ _ _) settle
      refine .quiet (Evaluation.cache_of_runs_ofTraced settle) ?_ fun _ => same
      rw [same, Findings.boundReports_settled]
    have follows := ih rest inside
    refine asked.trans (quiet.trans follows fun answers => And.intro) ?_
    rintro answers prepare ⟨settle, found⟩
    have visit : settled = findings.visited sheet.period sheet.locale answers compiled := by
      rw [settle, prepare]
      rfl
    rw [Findings.pass, ← visit, ← found, prepare]
    rfl

theorem pass_sublist {findings : Findings} {queue : List CompiledKpi}
    {result : Findings × List CompiledKpi} {s s' : Session}
    (h : Runs (sheet.pass findings queue) s result s') : result.2.Sublist queue := by
  induction queue generalizing findings result s with
  | nil =>
    obtain ⟨rfl, rfl⟩ := runs_pure.1 h
    exact List.Sublist.refl _
  | cons compiled queue ih =>
    obtain ⟨prepared, u, -, h⟩ := runs_bind.1 h
    obtain ⟨settled, v, -, h⟩ := runs_bind.1 h
    obtain ⟨⟨after, retry⟩, w, rest, h⟩ := runs_bind.1 h
    obtain ⟨rfl, rfl⟩ := runs_pure.1 h
    dsimp only
    split
    · exact (ih rest).cons_cons compiled
    · exact (ih rest).cons compiled

/-- A run of the passes asks for the reports that the KPIs of the queue refer to, and finds what
the answers say. -/
theorem passes_inv {findings : Findings} {queue : List CompiledKpi} {result : Findings × Nat}
    {s s' : Session} (h : Runs (sheet.passes findings queue) s result s')
    (inside : ∀ compiled ∈ queue, ∀ code ∈ compiled.subReports, codes code) :
    Follows sheet codes findings result.1 (queue.flatMap CompiledKpi.subReports) s s' fun answers =>
      result = findings.passes sheet.period sheet.locale answers queue := by
  rw [passes] at h
  obtain ⟨⟨after, retry⟩, u, first, h⟩ := runs_bind.1 h
  have one := pass_inv first inside
  dsimp only at h one
  split at h
  · rename_i done
    obtain ⟨rfl, rfl⟩ := runs_pure.1 h
    refine ⟨one.trail, one.bound, one.asked, fun answers agrees => ?_⟩
    rw [Findings.passes, ← one.holds answers agrees]
    exact (if_pos done).symm
  · rename_i left
    split at h
    · rename_i shorter
      obtain ⟨⟨last, more⟩, v, rest, h⟩ := runs_bind.1 h
      obtain ⟨rfl, rfl⟩ := runs_pure.1 h
      have again := passes_inv rest fun compiled member =>
        inside compiled ((pass_sublist first).subset member)
      have both := one.trans again fun answers => And.intro
      refine ⟨both.trail, both.bound, fun code member => ?_, fun answers agrees => ?_⟩
      · exact both.asked code (List.mem_append_left _ member)
      · obtain ⟨found, found'⟩ := both.holds answers agrees
        rw [Findings.passes, ← found]
        dsimp only
        rw [if_neg left, if_pos shorter, ← found']
    · rename_i stuck
      obtain ⟨⟨⟩, v, warn, h⟩ := runs_bind.1 h
      obtain ⟨rfl, rfl⟩ := runs_pure.1 h
      have warned : s'.cache = u.cache := Evaluation.cache_of_runs_log warn
      have both := one.trans (.quiet warned rfl fun _ => trivial) fun answers found _ => found
      refine ⟨both.trail, both.bound, fun code member => ?_, fun answers agrees => ?_⟩
      · exact both.asked code (List.mem_append_left _ member)
      · rw [Findings.passes, ← both.holds answers agrees]
        dsimp only
        rw [if_neg left, if_neg stuck]
termination_by queue.length

/-! ## Existence of runs -/

/-- While the cache has the property `J`, each of the reports answers and keeps the property. -/
def Replies (sheet : Sheet) (codes : String → Prop) (answers : Answers) (J : Cache → Prop) : Prop :=
  ∀ code, codes code → ∀ s : Session, J s.cache →
    ∃ s', Runs (sheet.subReport code) s (answers code) s' ∧ J s'.cache

section Replies

variable {answers : Answers} {J : Cache → Prop}

theorem bindSubReport_runs (replies : Replies sheet codes answers J) (findings : Findings)
    {code : String} (inside : codes code) {s : Session} (start : J s.cache) :
    ∃ s', Runs (sheet.bindSubReport findings code) s (findings.bindAnswer answers code) s' ∧
      J s'.cache := by
  unfold bindSubReport Findings.bindAnswer
  split
  · exact ⟨s, runs_pure.2 ⟨rfl, rfl⟩, start⟩
  · obtain ⟨s', run, stop⟩ := replies code inside s start
    refine ⟨s', runs_bind.2 ⟨_, s', run, ?_⟩, stop⟩
    cases answers code <;> exact runs_pure.2 ⟨rfl, rfl⟩

theorem bindSubReports_runs (replies : Replies sheet codes answers J) {asked : List String}
    (inside : ∀ code ∈ asked, codes code) (findings : Findings) {s : Session} (start : J s.cache) :
    ∃ s', Runs (asked.foldlM sheet.bindSubReport findings) s
      (asked.foldl (Findings.bindAnswer answers) findings) s' ∧ J s'.cache := by
  induction asked generalizing findings s with
  | nil => exact ⟨s, runs_pure.2 ⟨rfl, rfl⟩, start⟩
  | cons code asked ih =>
    obtain ⟨known, inside⟩ := List.forall_mem_cons.1 inside
    obtain ⟨u, first, middle⟩ := bindSubReport_runs replies findings known start
    obtain ⟨s', rest, stop⟩ := ih inside (findings.bindAnswer answers code) middle
    rw [List.foldlM_cons]
    exact ⟨s', runs_bind.2 ⟨_, u, first, rest⟩, stop⟩

theorem pass_runs (replies : Replies sheet codes answers J) {queue : List CompiledKpi}
    (inside : ∀ compiled ∈ queue, ∀ code ∈ compiled.subReports, codes code) (findings : Findings)
    {s : Session} (start : J s.cache) :
    ∃ s', Runs (sheet.pass findings queue) s
      (findings.pass sheet.period sheet.locale answers queue) s' ∧ J s'.cache := by
  induction queue generalizing findings s with
  | nil => exact ⟨s, runs_pure.2 ⟨rfl, rfl⟩, start⟩
  | cons compiled queue ih =>
    obtain ⟨known, inside⟩ := List.forall_mem_cons.1 inside
    obtain ⟨u, ask, asked⟩ := bindSubReports_runs replies known findings start
    have gives := (findings.prepared answers compiled).gives_settle compiled
      (compiled.eval (findings.prepared answers compiled).scope) sheet.period sheet.locale
    obtain ⟨t, settle⟩ := Evaluation.exists_runs_ofTraced gives u
    obtain ⟨s', rest, stop⟩ :=
      ih inside (findings.visited sheet.period sheet.locale answers compiled)
        (s := { u with trace := t }) asked
    refine ⟨s', ?_, stop⟩
    exact runs_bind.2 ⟨_, u, ask, runs_bind.2 ⟨_, _, settle, runs_bind.2 ⟨_, s', rest,
      runs_pure.2 ⟨rfl, rfl⟩⟩⟩⟩

/-- If every report that the KPIs refer to answers, the passes run and find what the answers say. -/
theorem passes_runs (replies : Replies sheet codes answers J) {queue : List CompiledKpi}
    (inside : ∀ compiled ∈ queue, ∀ code ∈ compiled.subReports, codes code) (findings : Findings)
    {s : Session} (start : J s.cache) :
    ∃ s', Runs (sheet.passes findings queue) s
      (findings.passes sheet.period sheet.locale answers queue) s' ∧ J s'.cache := by
  obtain ⟨u, first, middle⟩ := pass_runs replies inside findings start
  rw [passes, Findings.passes]
  generalize findings.pass sheet.period sheet.locale answers queue = one at first ⊢
  obtain ⟨after, retry⟩ := one
  by_cases done : retry.isEmpty = true
  · refine ⟨u, runs_bind.2 ⟨_, u, first, ?_⟩, middle⟩
    dsimp only
    rw [if_pos done, if_pos done]
    exact runs_pure.2 ⟨rfl, rfl⟩
  by_cases shorter : retry.length < queue.length
  · obtain ⟨s', again, stop⟩ := passes_runs replies
      (fun compiled member => inside compiled ((pass_sublist first).subset member)) after middle
    refine ⟨s', runs_bind.2 ⟨_, u, first, ?_⟩, stop⟩
    dsimp only
    rw [if_neg done, if_neg done, if_pos shorter, if_pos shorter]
    exact runs_bind.2 ⟨_, s', again, runs_pure.2 ⟨rfl, rfl⟩⟩
  · obtain ⟨t, warn⟩ := Evaluation.exists_runs_log .warn
      ("Report '" ++ sheet.report ++ "', period '" ++ sheet.period ++
        "': unresolved KPIs (missing or cyclic dependency): " ++
        String.intercalate ", " (retry.map fun compiled => compiled.kpi.name)) u
    refine ⟨{ u with trace := t }, runs_bind.2 ⟨_, u, first, ?_⟩, middle⟩
    dsimp only
    rw [if_neg done, if_neg done, if_neg shorter, if_neg shorter]
    exact runs_bind.2 ⟨_, _, warn, runs_pure.2 ⟨rfl, rfl⟩⟩
termination_by queue.length

end Replies

end Sheet

end KpiReport
