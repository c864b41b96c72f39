import KpiReport.Proofs.Evaluation.Passes
import KpiReport.Proofs.Formula.Written

/-!
# Visiting a key figure

What the evaluation of one KPI changes in the findings. First the reports that it refers to are
bound, under dotted names that nothing else can take (`Findings.prepared_tidy`); then its own name
is bound, if its outcome settles it. No binding is ever lost, so the scope only grows
(`Findings.visited_visits`).
-/

namespace KpiReport

/-! ## Names of reports -/

/-- The value that a report gives for a KPI; of several with one name the last counts. -/
def reported (answers : Answers) (code kpi : String) : Option Value :=
  (answers code).bind fun values => List.lookup kpi values.reverse

/-- The bindings of the values of a report. -/
def dottedEntries (code : String) (values : List (String × Value)) : List (String × Value) :=
  values.map fun entry => (Library.dotted code entry.1, entry.2)

theorem lookup_dottedEntries {code code' : String} (h : Dotless code) (h' : Dotless code')
    (kpi : String) (values : List (String × Value)) :
    List.lookup (Library.dotted code' kpi) (dottedEntries code values) =
      if code' = code then List.lookup kpi values else none := by
  induction values with
  | nil => simp [dottedEntries]
  | cons entry values ih =>
    obtain ⟨name, value⟩ := entry
    rw [dottedEntries, List.map_cons, Table.lookup_cons_eq, Table.lookup_cons_eq]
    rw [dottedEntries] at ih
    rw [ih]
    by_cases same : code' = code
    · subst same
      by_cases first : kpi = name
      · simp [first]
      · have other : Library.dotted code' kpi ≠ Library.dotted code' name :=
          fun eq => first (Library.dotted_inj h' h' eq).2
        simp [first, other]
    · have other : Library.dotted code' kpi ≠ Library.dotted code name :=
        fun eq => same (Library.dotted_inj h' h eq).1
      simp [same, other]

theorem lookup_dottedEntries_of_dotless {x : String} (h : Dotless x) (code : String)
    (values : List (String × Value)) : List.lookup x (dottedEntries code values) = none := by
  induction values with
  | nil => rfl
  | cons entry values ih =>
    have other : x ≠ Library.dotted code entry.1 := by
      rintro rfl
      exact Library.not_dotless_dotted code entry.1 h
    rw [dottedEntries, List.map_cons, Table.lookup_cons_eq, if_neg other]
    exact ih

/-- A name with a dot is the dotted name of a report without one. -/
theorem exists_eq_dotted {x : String} (h : ¬ Dotless x) :
    ∃ code kpi, Dotless code ∧ x = Library.dotted code kpi := by
  unfold Dotless at h
  rw [Decidable.not_not] at h
  obtain ⟨before, after, split, first⟩ := List.eq_append_cons_of_mem h
  refine ⟨String.ofList before, String.ofList after, ?_, ?_⟩
  · simpa [Dotless] using first
  · apply String.toList_inj.1
    simpa [Library.dotted] using split

namespace Findings

variable {period : String} {locale : Locale} {answers : Answers}

theorem get?_bindReport (findings : Findings) (code : String) (values : Table Value) (x : String) :
    (findings.bindReport code values).scope.get? x =
      (List.lookup x (dottedEntries code values.reverse)).or (findings.scope.get? x) := by
  rw [bindReport, Scope.get?_insertAll, ← List.map_reverse]
  rfl

/-- The dotted names that are bound are those of the bound reports. -/
def Tidy (answers : Answers) (findings : Findings) : Prop :=
  ∀ code, Dotless code → ∀ kpi, findings.scope.get? (Library.dotted code kpi) =
    if code ∈ findings.boundReports then reported answers code kpi else none

/-- The values of the report are bound as far as it gives any. -/
def Answered (answers : Answers) (scope : Scope) (code : String) : Prop :=
  ∀ kpi, scope.get? (Library.dotted code kpi) = reported answers code kpi

/-- Reports have been bound, and nothing else has changed. -/
structure Gathers (before after : Findings) : Prop where
  scope_le : before.scope ≤ after.scope
  dotless : ∀ x, Dotless x → after.scope.get? x = before.scope.get? x
  bound : before.boundReports ⊆ after.boundReports
  results : after.results = before.results

theorem Gathers.refl (findings : Findings) : Gathers findings findings where
  scope_le := Scope.le_refl _
  dotless := fun _ _ => rfl
  bound := List.Subset.refl _
  results := rfl

theorem Gathers.trans {a b c : Findings} (h : Gathers a b) (h' : Gathers b c) : Gathers a c where
  scope_le := Scope.le_trans h.scope_le h'.scope_le
  dotless := fun x free => (h'.dotless x free).trans (h.dotless x free)
  bound := List.Subset.trans h.bound h'.bound
  results := h'.results.trans h.results

theorem Tidy.answered_of_le {findings : Findings} (tidy : findings.Tidy answers) {S : Scope}
    (h : S ≤ findings.scope) {code : String} (free : Dotless code)
    (answered : Answered answers S code) : Answered answers findings.scope code := by
  intro kpi
  rw [tidy code free]
  split
  · rfl
  · rename_i unbound
    have old := Scope.get?_eq_none_of_le h ((tidy code free kpi).trans (if_neg unbound))
    rw [← answered kpi, old]

theorem bindReport_tidy {findings : Findings} (tidy : findings.Tidy answers) {code : String}
    (free : Dotless code) {values : Table Value} (given : answers code = some values)
    (unbound : code ∉ findings.boundReports) :
    (findings.bindReport code values).Tidy answers ∧
      Gathers findings (findings.bindReport code values) := by
  have dotted : ∀ code', Dotless code' → ∀ kpi,
      (findings.bindReport code values).scope.get? (Library.dotted code' kpi) =
        if code' = code then reported answers code kpi
        else findings.scope.get? (Library.dotted code' kpi) := by
    intro code' free' kpi
    rw [get?_bindReport, lookup_dottedEntries free free']
    by_cases same : code' = code
    · subst same
      rw [if_pos rfl, if_pos rfl, tidy code' free', if_neg unbound, Option.or_none, reported, given,
        Option.bind_some]
    · rw [if_neg same, if_neg same, Option.none_or]
  have dotless : ∀ x, Dotless x →
      (findings.bindReport code values).scope.get? x = findings.scope.get? x := by
    intro x free'
    rw [get?_bindReport, lookup_dottedEntries_of_dotless free', Option.none_or]
  refine ⟨?_, ?_, dotless, List.subset_cons_self _ _, rfl⟩
  · intro code' free' kpi
    rw [dotted code' free', tidy code' free', bindReport]
    by_cases same : code' = code
    · simp [same]
    · simp [same]
  · intro x value bound
    by_cases free' : Dotless x
    · rw [dotless x free', bound]
    · obtain ⟨code', kpi, free'', rfl⟩ := exists_eq_dotted free'
      rw [dotted code' free'']
      by_cases same : code' = code
      · rw [same, tidy code free, if_neg unbound] at bound
        cases bound
      · rw [if_neg same, bound]

theorem bindAnswer_tidy {findings : Findings} (tidy : findings.Tidy answers) {code : String}
    (free : Dotless code) :
    (findings.bindAnswer answers code).Tidy answers ∧
      Gathers findings (findings.bindAnswer answers code) ∧
      Answered answers (findings.bindAnswer answers code).scope code := by
  unfold bindAnswer
  split
  · rename_i bound
    refine ⟨tidy, Gathers.refl _, fun kpi => ?_⟩
    rw [tidy code free, if_pos (List.contains_iff_mem.1 bound)]
  · rename_i unbound
    rw [List.contains_iff_mem] at unbound
    cases given : answers code with
    | none =>
      refine ⟨tidy, Gathers.refl _, fun kpi => ?_⟩
      rw [tidy code free, if_neg unbound, reported, given]
      rfl
    | some values =>
      obtain ⟨tidy', gathers⟩ := bindReport_tidy tidy free given unbound
      refine ⟨tidy', gathers, fun kpi => ?_⟩
      have bound : code ∈ (findings.bindReport code values).boundReports := List.mem_cons_self
      rw [tidy' code free, if_pos bound]

theorem foldl_bindAnswer_tidy {asked : List String} (free : ∀ code ∈ asked, Dotless code)
    {findings : Findings} (tidy : findings.Tidy answers) :
    (asked.foldl (bindAnswer answers) findings).Tidy answers ∧
      Gathers findings (asked.foldl (bindAnswer answers) findings) ∧
      ∀ code ∈ asked, Answered answers (asked.foldl (bindAnswer answers) findings).scope code := by
  induction asked generalizing findings with
  | nil => exact ⟨tidy, Gathers.refl _, fun code member => nomatch member⟩
  | cons code asked ih =>
    obtain ⟨free, frees⟩ := List.forall_mem_cons.1 free
    obtain ⟨tidy', gathers, answered⟩ := bindAnswer_tidy tidy free
    obtain ⟨tidy'', gathers', rest⟩ := ih frees tidy'
    refine ⟨tidy'', gathers.trans gathers', List.forall_mem_cons.2 ⟨?_, rest⟩⟩
    exact tidy''.answered_of_le gathers'.scope_le free answered

theorem boundReports_bindAnswer {findings : Findings} {asked code : String}
    (h : code ∈ (findings.bindAnswer answers asked).boundReports) :
    code ∈ findings.boundReports ∨ code = asked := by
  unfold bindAnswer at h
  split at h
  · exact Or.inl h
  · split at h
    · rcases List.mem_cons.1 h with rfl | h
      · exact Or.inr rfl
      · exact Or.inl h
    · exact Or.inl h

theorem boundReports_foldl_bindAnswer {asked : List String} {findings : Findings} {code : String}
    (h : code ∈ (asked.foldl (bindAnswer answers) findings).boundReports) :
    code ∈ findings.boundReports ∨ code ∈ asked := by
  induction asked generalizing findings with
  | nil => exact Or.inl h
  | cons first asked ih =>
    rcases ih h with known | later
    · rcases boundReports_bindAnswer known with known | rfl
      · exact Or.inl known
      · exact Or.inr List.mem_cons_self
    · exact Or.inr (List.mem_cons_of_mem _ later)

theorem boundReports_visited {findings : Findings} {compiled : CompiledKpi} {code : String}
    (h : code ∈ (findings.visited period locale answers compiled).boundReports) :
    code ∈ findings.boundReports ∨ code ∈ compiled.subReports := by
  rw [visited, boundReports_settled] at h
  exact boundReports_foldl_bindAnswer h

theorem prepared_tidy {compiled : CompiledKpi} (free : ∀ code ∈ compiled.subReports, Dotless code)
    {findings : Findings} (tidy : findings.Tidy answers) :
    (findings.prepared answers compiled).Tidy answers ∧
      Gathers findings (findings.prepared answers compiled) ∧
      ∀ code ∈ compiled.subReports,
        Answered answers (findings.prepared answers compiled).scope code :=
  foldl_bindAnswer_tidy free tidy

/-! ## Settling a KPI -/

/-- The final findings show the outcome of a KPI: its name is bound to the value if there is one, and
the result tells the outcome. -/
def Shows (period : String) (locale : Locale) (findings : Findings) (compiled : CompiledKpi)
    (outcome : Outcome) : Prop :=
  findings.scope.get? compiled.kpi.name = outcome.binding? ∧
    ∃ style, findings.results.get? compiled.kpi.name =
      some (compiled.result outcome style period locale)

theorem get?_bindOutcome {findings : Findings} {kpi : Kpi}
    (unbound : findings.scope.get? kpi.name = none) (outcome : Outcome) (x : String) :
    (findings.bindOutcome kpi outcome).scope.get? x =
      if x = kpi.name then outcome.binding? else findings.scope.get? x := by
  unfold bindOutcome
  cases outcome.binding? with
  | none =>
    dsimp only
    split
    · rename_i same
      rw [same, unbound]
    · rfl
  | some value => exact Scope.get?_insert ..

/-- After the evaluation of a KPI, a name is bound to what the formula of the KPI gives it, or to
what it was bound to when the reports had been asked. -/
theorem get?_visited {findings : Findings} {compiled : CompiledKpi} {x : String} {value : Value}
    (bound : (findings.visited period locale answers compiled).scope.get? x = some value) :
    x = compiled.kpi.name ∧
        Outcome.binding? (compiled.eval (findings.prepared answers compiled).scope) = some value ∨
      (findings.prepared answers compiled).scope.get? x = some value := by
  unfold visited settled bindOutcome at bound
  dsimp only [keepResult] at bound
  split at bound
  · rename_i found given
    rw [Scope.get?_insert] at bound
    split at bound
    · rename_i same
      exact .inl ⟨same, given.trans bound⟩
    · exact .inr bound
  · exact .inr bound

theorem results_settled (findings : Findings) (compiled : CompiledKpi) (outcome : Outcome)
    (period : String) (locale : Locale) :
    ∃ style, (findings.settled compiled outcome period locale).results =
      findings.results.insert compiled.kpi.name
        (compiled.result outcome style period locale) := by
  refine ⟨compiled.kpi.styleOf (findings.bindOutcome compiled.kpi outcome).scope, ?_⟩
  unfold settled bindOutcome
  dsimp only [keepResult, CompiledKpi.result]
  split <;> rfl

/-- What the evaluation of a KPI changes. -/
structure Visits (period : String) (locale : Locale) (answers : Answers) (before after : Findings)
    (compiled : CompiledKpi) (S : Scope) : Prop where
  tidy : after.Tidy answers
  bound : before.boundReports ⊆ after.boundReports
  before_le : before.scope ≤ S
  le_after : S ≤ after.scope
  answered : ∀ code ∈ compiled.subReports, Answered answers S code
  scope : ∀ x, Dotless x → x ≠ compiled.kpi.name → after.scope.get? x = before.scope.get? x
  results : ∀ x, x ≠ compiled.kpi.name → after.results.get? x = before.results.get? x
  sorted : before.results.Sorted → after.results.Sorted
  shows : after.Shows period locale compiled (compiled.eval S)

theorem visited_visits {findings : Findings} (tidy : findings.Tidy answers) {compiled : CompiledKpi}
    (frees : ∀ code ∈ compiled.subReports, Dotless code) (free : Dotless compiled.kpi.name)
    (unbound : findings.scope.get? compiled.kpi.name = none) :
    Visits period locale answers findings (findings.visited period locale answers compiled) compiled
      (findings.prepared answers compiled).scope := by
  obtain ⟨tidy', gathers, answered⟩ := prepared_tidy frees tidy
  have unbound' : (findings.prepared answers compiled).scope.get? compiled.kpi.name = none :=
    (gathers.dotless _ free).trans unbound
  have get : ∀ x, (findings.visited period locale answers compiled).scope.get? x =
      if x = compiled.kpi.name then
        Outcome.binding? (compiled.eval (findings.prepared answers compiled).scope)
      else (findings.prepared answers compiled).scope.get? x := by
    intro x
    exact get?_bindOutcome unbound' _ x
  have bound : (findings.visited period locale answers compiled).boundReports =
      (findings.prepared answers compiled).boundReports := boundReports_settled ..
  obtain ⟨style, kept⟩ := results_settled (findings.prepared answers compiled) compiled
    (compiled.eval (findings.prepared answers compiled).scope) period locale
  have results : ∀ x, (findings.visited period locale answers compiled).results.get? x =
      if x = compiled.kpi.name then
        some (compiled.result (compiled.eval (findings.prepared answers compiled).scope) style period
          locale)
      else findings.results.get? x := by
    intro x
    rw [visited, kept, gathers.results, Table.get?_insert]
  refine ⟨?_, ?_, gathers.scope_le, ?_, answered, ?_, ?_, ?_, ?_, style, ?_⟩
  · intro code free' kpi
    rw [get, if_neg, bound, tidy' code free']
    intro eq
    rw [← eq] at free
    exact Library.not_dotless_dotted _ _ free
  · rw [bound]
    exact gathers.bound
  · intro x value known
    rw [get, if_neg, known]
    rintro rfl
    rw [unbound'] at known
    cases known
  · intro x free' other
    rw [get, if_neg other, gathers.dotless x free']
  · intro x other
    rw [results, if_neg other]
  · intro sorted
    rw [visited, kept, gathers.results]
    exact Table.sorted_insert sorted _ _
  · rw [get, if_pos rfl]
  · rw [results, if_pos rfl]

end Findings

end KpiReport
