import KpiReport.Proofs.Evaluation.Moments

/-!
# Every name is bound once

Queries, account tokens, reports and KPIs bind their names in one scope, at different times and from
different places. `Binder` lists what a name can be bound for in the evaluation of a template. If
the template is valid, no two binders share a name (`Binder.name_injective`), and at no moment of
the evaluation a name is bound that is bound already (`Sources.evaluate_writeOnce`). Of a cache this
asks only that no report it has finished gives two values for one KPI.
-/

namespace KpiReport

/-! ## Histories of scopes -/

namespace Scope

variable {scope : Scope}

/-- The names in the order of their bindings, the latest first; a name that was bound twice stands
there twice. -/
def names (scope : Scope) : List String :=
  scope.bindings.map Prod.fst

/-- No name was bound when it was bound already. -/
def WriteOnce (scope : Scope) : Prop :=
  scope.names.Nodup

theorem mem_names_iff {x : String} : x ∈ scope.names ↔ scope.get? x ≠ none :=
  Table.mem_names_iff

theorem names_insert (name : String) (value : Value) :
    (scope.insert name value).names = name :: scope.names :=
  rfl

/-- A binding is the first one of its name. -/
theorem writeOnce_insert {name : String} {value : Value} :
    (scope.insert name value).WriteOnce ↔ scope.get? name = none ∧ scope.WriteOnce := by
  rw [WriteOnce, names_insert, List.nodup_cons, mem_names_iff, Decidable.not_not]
  rfl

theorem names_insertAll (entries : List (String × Value)) :
    (scope.insertAll entries).names = (entries.map Prod.fst).reverse ++ scope.names := by
  induction entries generalizing scope with
  | nil => rfl
  | cons entry entries ih =>
    refine ih.trans ?_
    rw [names_insert, List.map_cons, List.reverse_cons, List.append_assoc]
    rfl

theorem mem_names_insertAll {entries : List (String × Value)} {x : String} :
    x ∈ (scope.insertAll entries).names ↔ x ∈ entries.map Prod.fst ∨ x ∈ scope.names := by
  rw [names_insertAll, List.mem_append, List.mem_reverse]

theorem WriteOnce.insertAll (h : scope.WriteOnce) {entries : List (String × Value)}
    (nodup : (entries.map Prod.fst).Nodup) (new : ∀ x ∈ entries.map Prod.fst, x ∉ scope.names) :
    (scope.insertAll entries).WriteOnce := by
  rw [WriteOnce, names_insertAll]
  exact (List.nodup_reverse.2 nodup).append h fun x member =>
    new x (List.mem_reverse.1 member)

end Scope

/-! ## Binders -/

/-- What a name can be bound for in the evaluation of a template. -/
inductive Binder (template : Template) where
  | query (position : Fin template.queries.length)
  | token (position : Nat)
  | value (report : String) (dotless : Dotless report) (kpi : String)
  | kpi (position : Fin template.kpis.length)

namespace Binder

variable {template : Template}

/-- The name that is bound. -/
def name : Binder template → String
  | query position => template.queries[position].name
  | token position => Registry.privateName position
  | value report _ other => Library.dotted report other
  | kpi position => template.kpis[position].name

theorem position_inj {α : Type} {xs : List α} {f : α → String} (nodup : (xs.map f).Nodup)
    {i j : Fin xs.length} (same : f xs[i] = f xs[j]) : i = j := by
  have element : xs.get i = xs.get j :=
    List.inj_on_of_nodup_map nodup (List.getElem_mem i.isLt) (List.getElem_mem j.isLt) same
  exact (nodup.of_map f).get_inj_iff.1 element

/-- **Different things never share a name** in a valid template. -/
theorem name_injective (valid : template.validate = .ok ()) :
    Function.Injective (name : Binder template → String) := by
  have names := Template.names_of_validate valid
  have asked (i : Fin template.queries.length) : Template.Nameable template.queries[i].name :=
    names.nameable_query _ (List.getElem_mem i.isLt)
  have defined (i : Fin template.kpis.length) : Template.Nameable template.kpis[i].name :=
    names.nameable_kpi _ (List.getElem_mem i.isLt)
  have visible {x : String} (nameable : Template.Nameable x) (position : Nat) :
      x ≠ Registry.privateName position := by
    rintro rfl
    have hidden := nameable.notPrivate
    rw [Registry.isPrivate_privateName] at hidden
    cases hidden
  have undotted {x : String} (free : Dotless x) (code kpi : String) :
      x ≠ Library.dotted code kpi := by
    rintro rfl
    exact Library.not_dotless_dotted code kpi free
  have plain {x : String} (nameable : Template.Nameable x) : Dotless x :=
    dotless_of_isIdentifier nameable.isIdentifier
  have apart (i : Fin template.queries.length) (j : Fin template.kpis.length) :
      template.queries[i].name ≠ template.kpis[j].name :=
    names.query_ne_kpi _ (List.getElem_mem i.isLt) _ (List.getElem_mem j.isLt)
  rintro (i | m | ⟨code, free, x⟩ | i) (j | n | ⟨code', free', y⟩ | j) same
  -- queries
  · rw [position_inj (Template.nodup_queries_of_validate valid) same]
  · exact absurd same (visible (asked i) n)
  · exact absurd same (undotted (plain (asked i)) code' y)
  · exact absurd same (apart i j)
  -- account tokens
  · exact absurd same.symm (visible (asked j) m)
  · rw [Registry.privateName_injective same]
  · exact absurd same (undotted (Registry.dotless_privateName m) code' y)
  · exact absurd same.symm (visible (defined j) m)
  -- reports
  · exact absurd same.symm (undotted (plain (asked j)) code x)
  · exact absurd same.symm (undotted (Registry.dotless_privateName n) code x)
  · obtain ⟨rfl, rfl⟩ := Library.dotted_inj free free' same
    rfl
  · exact absurd same.symm (undotted (plain (defined j)) code x)
  -- KPIs
  · exact absurd same.symm (apart j i)
  · exact absurd same (visible (defined i) n)
  · exact absurd same (undotted (plain (defined i)) code' y)
  · rw [position_inj names.nodup_kpis same]

end Binder

/-! ## The first scope -/

/-- Queries are fetched in order, up to one that fails if there is one. -/
theorem Query.names_fetchInto {store : RecordStore} {offset : Calendar.UtcOffset} {bounds : Bounds}
    {extras : Table Filter} {queries : List Query} {scope after : Scope} {result : Result Unit}
    {t t' : Trace}
    (h : (fetchInto store offset bounds extras scope queries).run t = ((after, result), t')) :
    ∃ fetched, fetched <+: queries.map Query.name ∧
      after.names = fetched.reverse ++ scope.names := by
  induction queries generalizing scope t with
  | nil =>
    cases h
    exact ⟨[], List.nil_prefix, rfl⟩
  | cons query queries ih =>
    rcases fetchInto_cons_inv h with ⟨e, -, rfl, -⟩ | ⟨value, u, -, more⟩
    · exact ⟨[], List.nil_prefix, rfl⟩
    · obtain ⟨fetched, part, names⟩ := ih more
      refine ⟨query.name :: fetched, List.prefix_cons_inj _ |>.2 part, ?_⟩
      rw [names, Scope.names_insert, List.reverse_cons, List.append_assoc]
      rfl

theorem Balances.names_entriesFrom (balances : Balances) (index : Nat) :
    (balances.entriesFrom index).map Prod.fst =
      (List.range' index balances.length).map Registry.privateName := by
  induction balances generalizing index with
  | nil => rfl
  | cons balance balances ih =>
    rw [entriesFrom, List.map_cons, ih, List.length_cons, List.range'_succ, List.map_cons]

theorem Balances.nodup_entriesFrom (balances : Balances) (index : Nat) :
    ((balances.entriesFrom index).map Prod.fst).Nodup := by
  rw [names_entriesFrom]
  exact List.Nodup.map (fun _ _ => Registry.privateName_injective) List.nodup_range'

section FirstScope

variable {template : Template} (valid : template.validate = .ok ())

include valid

/-- The names of the first scope are those of queries and account tokens. -/
theorem Origin.binder {x : String} (h : Origin template x) :
    Dotless x ∧ ∃ binder : Binder template, binder.name = x := by
  cases h with
  | query query asked =>
    obtain ⟨position, rfl⟩ := List.mem_iff_get.1 asked
    have nameable := (Template.names_of_validate valid).nameable_query _ asked
    exact ⟨dotless_of_isIdentifier nameable.isIdentifier, .query position, rfl⟩
  | token index => exact ⟨Registry.dotless_privateName index, .token index, rfl⟩

theorem Query.writeOnce_fetchInto {store : RecordStore} {offset : Calendar.UtcOffset}
    {bounds : Bounds} {extras : Table Filter} {scope : Scope} {result : Result Unit} {t t' : Trace}
    (h : (fetchInto store offset bounds extras .empty template.queries).run t =
      ((scope, result), t')) :
    scope.WriteOnce ∧ ∀ x ∈ scope.names, ∃ query ∈ template.queries, x = query.name := by
  refine ⟨?_, fun x member => ?_⟩
  · obtain ⟨fetched, part, names⟩ := names_fetchInto h
    have nodup := (Template.nodup_queries_of_validate valid).sublist part.sublist
    rw [Scope.WriteOnce, names]
    simpa [Scope.names, Scope.empty] using nodup
  · rcases origin_of_fetchInto h (Scope.mem_names_iff.1 member) with none | asked
    · exact absurd rfl none
    · exact asked

theorem Sources.writeOnce_firstScope {sources : Sources} {self : Instance} {column : Column}
    {registry : Registry} {base : Scope} {t t' : Trace}
    (h : Runs (sources.firstScope self column template registry) t base t') :
    base.WriteOnce ∧ ∀ x ∈ base.names, Origin template x := by
  refine ⟨?_, fun x member => origin_of_firstScope h (Scope.mem_names_iff.1 member)⟩
  obtain ⟨offset, u, -, h⟩ := runs_bind.1 h
  obtain ⟨⟨scope, fetched⟩, v, fetch, h⟩ := runs_bind.1 h
  obtain ⟨⟨⟩, w, -, h⟩ := runs_bind.1 h
  obtain ⟨balances, z, -, h⟩ := runs_bind.1 h
  obtain ⟨rfl, rfl⟩ := runs_pure.1 h
  obtain ⟨once, asked⟩ := Query.writeOnce_fetchInto valid (Traced.runs_lift.1 fetch)
  refine once.insertAll (balances.nodup_entriesFrom 0) fun x new old => ?_
  rw [Balances.names_entriesFrom] at new
  obtain ⟨index, -, rfl⟩ := List.mem_map.1 new
  obtain ⟨query, member, same⟩ := asked _ old
  have visible := ((Template.names_of_validate valid).nameable_query query member).notPrivate
  rw [← same, Registry.isPrivate_privateName] at visible
  cases visible

end FirstScope

namespace Findings

variable {template : Template} {findings : Findings}

/-- Each name in the scope was bound once, for a binder of the template; each report was bound once,
and no dotted name was bound but with its report. -/
structure WriteOnce (template : Template) (findings : Findings) : Prop where
  scope : findings.scope.WriteOnce
  binders : ∀ x ∈ findings.scope.names, ∃ binder : Binder template, binder.name = x
  reports : findings.boundReports.Nodup
  dotted : ∀ code kpi, Dotless code → Library.dotted code kpi ∈ findings.scope.names →
    code ∈ findings.boundReports

/-- Before the passes, no report is bound. -/
theorem writeOnce_start (valid : template.validate = .ok ()) {scope : Scope}
    (once : scope.WriteOnce) (origin : ∀ x ∈ scope.names, Origin template x) :
    ({ scope := scope } : Findings).WriteOnce template where
  scope := once
  binders := fun x member => ((origin x member).binder valid).2
  reports := List.nodup_nil
  dotted := fun code kpi _ member =>
    absurd ((origin _ member).binder valid).1 (Library.not_dotless_dotted code kpi)

theorem mem_names_bindReport {code : String} {values : Table Value} {x : String} :
    x ∈ (findings.bindReport code values).scope.names ↔
      (∃ kpi ∈ values.map Prod.fst, Library.dotted code kpi = x) ∨ x ∈ findings.scope.names := by
  rw [bindReport, Scope.mem_names_insertAll, List.map_map]
  simp

theorem WriteOnce.bindReport (h : findings.WriteOnce template) {code : String}
    (free : Dotless code) (unbound : code ∉ findings.boundReports) {values : Table Value}
    (distinct : (values.map Prod.fst).Nodup) :
    (findings.bindReport code values).WriteOnce template := by
  have entries : (values.map fun entry => (Library.dotted code entry.1, entry.2)).map Prod.fst =
      (values.map Prod.fst).map (Library.dotted code) := by
    rw [List.map_map, List.map_map]
    rfl
  refine ⟨h.scope.insertAll ?_ fun x new => ?_, fun x member => ?_, ?_,
    fun code' kpi free' member => ?_⟩
  · rw [entries]
    exact distinct.map fun _ _ same => (Library.dotted_inj free free same).2
  · rw [entries] at new
    obtain ⟨kpi, -, rfl⟩ := List.mem_map.1 new
    exact fun old => unbound (h.dotted code kpi free old)
  · rcases mem_names_bindReport.1 member with ⟨kpi, -, rfl⟩ | old
    · exact ⟨.value code free kpi, rfl⟩
    · exact h.binders x old
  · exact List.nodup_cons.2 ⟨unbound, h.reports⟩
  · rcases mem_names_bindReport.1 member with ⟨kpi', -, same⟩ | old
    · rw [(Library.dotted_inj free free' same).1]
      exact List.mem_cons_self
    · exact List.mem_cons_of_mem _ (h.dotted code' kpi free' old)

theorem scope_settled (findings : Findings) (compiled : CompiledKpi) (outcome : Outcome)
    (period : String) (locale : Locale) :
    (findings.settled compiled outcome period locale).scope =
      match outcome.binding? with
      | some value => findings.scope.insert compiled.kpi.name value
      | none => findings.scope := by
  unfold settled bindOutcome
  dsimp only [keepResult]
  cases outcome.binding? <;> rfl

theorem mem_names_settled {compiled : CompiledKpi} {outcome : Outcome} {period : String}
    {locale : Locale} {x : String}
    (h : x ∈ (findings.settled compiled outcome period locale).scope.names) :
    x = compiled.kpi.name ∧ ¬ outcome.isRetryable = true ∨ x ∈ findings.scope.names := by
  rw [scope_settled] at h
  split at h
  · rename_i value bound
    refine (List.mem_cons.1 h).imp_left fun same => ⟨same, fun retried => ?_⟩
    rw [Outcome.binding?_of_isRetryable retried] at bound
    cases bound
  · exact .inr h

theorem WriteOnce.settled (h : findings.WriteOnce template) {compiled : CompiledKpi}
    (own : compiled.kpi ∈ template.kpis) (free : Dotless compiled.kpi.name)
    (unbound : compiled.kpi.name ∉ findings.scope.names) (outcome : Outcome) (period : String)
    (locale : Locale) : (findings.settled compiled outcome period locale).WriteOnce template := by
  refine ⟨?_, fun x member => ?_, ?_, fun code kpi free' member => ?_⟩
  · rw [scope_settled]
    split
    · rw [Scope.mem_names_iff, Decidable.not_not] at unbound
      exact Scope.writeOnce_insert.2 ⟨unbound, h.scope⟩
    · exact h.scope
  · rcases mem_names_settled member with ⟨rfl, -⟩ | old
    · obtain ⟨position, same⟩ := List.mem_iff_get.1 own
      exact ⟨.kpi position, congrArg Kpi.name same⟩
    · exact h.binders x old
  · rw [boundReports_settled]
    exact h.reports
  · rw [boundReports_settled]
    rcases mem_names_settled member with ⟨same, -⟩ | old
    · rw [← same] at free
      exact absurd free (Library.not_dotless_dotted code kpi)
    · exact h.dotted code kpi free' old

end Findings

/-! ## Caches -/

/-- No report that the cache has finished gives two values for one KPI. -/
def Cache.Orderly (cache : Cache) : Prop :=
  ∀ key values, (key, Progress.finished values) ∈ cache.marks → (values.map Prod.fst).Nodup

namespace Cache.Orderly

theorem empty : ({} : Cache).Orderly := nofun

variable {cache : Cache}

theorem started (h : cache.Orderly) (code period : String) :
    (cache.mark code period .started).Orderly := by
  intro key values member
  rcases List.mem_cons.1 member with same | old
  · cases same
  · exact h key values old

theorem finished (h : cache.Orderly) (code period : String) {values : Table Value}
    (distinct : (values.map Prod.fst).Nodup) :
    (cache.mark code period (.finished values)).Orderly := by
  intro key values' member
  rcases List.mem_cons.1 member with same | old
  · cases same
    exact distinct
  · exact h key values' old

theorem nodup_of_progress? (h : cache.Orderly) {code period : String} {values : Table Value}
    (known : cache.progress? code period = some (.finished values)) :
    (values.map Prod.fst).Nodup := by
  obtain ⟨before, after, split, -⟩ := List.lookup_eq_some_iff.1 known
  refine h (code, period) values ?_
  rw [split]
  simp

end Cache.Orderly

namespace Sheet

/-- The reports that are asked keep the cache orderly, and give one value for each of their KPIs. -/
def Orderly (sheet : Sheet) : Prop :=
  ∀ ⦃code answer s s'⦄, s.cache.Orderly → Runs (sheet.subReport code) s answer s' →
    s'.cache.Orderly ∧ ∀ values ∈ answer, (values.map Prod.fst).Nodup

variable {sheet : Sheet}

theorem keeps_sorted (orderly : sheet.Orderly) :
    sheet.Keeps fun findings _ cache => findings.results.Sorted ∧ cache.Orderly where
  ask := by
    rintro findings findings' waiting compiled code s s' ⟨sorted, start⟩ - - run
    rcases bindSubReport_cases run with ⟨rfl, rfl⟩ | ⟨-, answer, asked, rfl⟩
    · exact ⟨sorted, start⟩
    · refine ⟨?_, (orderly start asked).1⟩
      cases answer <;> exact sorted
  settle := by
    rintro findings before later compiled cache ⟨sorted, start⟩
    obtain ⟨style, kept⟩ := Findings.results_settled findings compiled
      (compiled.eval findings.scope) sheet.period sheet.locale
    refine ⟨?_, start⟩
    rw [kept]
    exact Table.sorted_insert sorted _ _

/-- So far every name was bound once, and the waiting KPIs have not bound theirs. -/
structure Awaits (template : Template) (findings : Findings) (waiting : List CompiledKpi)
    (cache : Cache) : Prop where
  orderly : cache.Orderly
  once : findings.WriteOnce template
  named : WellNamed waiting
  own : ∀ compiled ∈ waiting, compiled.kpi ∈ template.kpis
  unbound : ∀ compiled ∈ waiting, compiled.kpi.name ∉ findings.scope.names

theorem keeps_awaits (orderly : sheet.Orderly) (template : Template) :
    sheet.Keeps (Awaits template) where
  ask := by
    intro findings findings' waiting compiled code s s' h member inside run
    rcases bindSubReport_cases run with ⟨rfl, rfl⟩ | ⟨unbound, answer, asked, rfl⟩
    · exact h
    · obtain ⟨after, distinct⟩ := orderly h.orderly asked
      cases answer with
      | none => exact ⟨after, h.once, h.named, h.own, h.unbound⟩
      | some values =>
        have free := h.named.reports compiled member code inside
        refine ⟨after, h.once.bindReport free unbound (distinct values rfl), h.named, h.own, ?_⟩
        intro other waits bound
        -- The values of a report have dotted names, and KPIs have none.
        rcases Findings.mem_names_bindReport.1 bound with ⟨kpi, -, same⟩ | old
        · have dotless := h.named.dotless other waits
          rw [← same] at dotless
          exact Library.not_dotless_dotted code kpi dotless
        · exact h.unbound other waits old
  settle := by
    intro findings before later compiled cache h
    have member : compiled ∈ before ++ compiled :: later := by simp
    have once := h.once.settled (h.own compiled member) (h.named.dotless compiled member)
      (h.unbound compiled member) (compiled.eval findings.scope) sheet.period sheet.locale
    have rest : (before ++ later).Sublist (before ++ compiled :: later) :=
      (List.sublist_cons_self _ _).append_left before
    split
    · rename_i retried
      refine ⟨h.orderly, once, h.named, h.own, fun other waits bound => ?_⟩
      rcases Findings.mem_names_settled bound with ⟨-, settled⟩ | old
      · exact settled retried
      · exact h.unbound other waits old
    · refine ⟨h.orderly, once, h.named.sublist rest,
        fun other waits => h.own other (rest.subset waits), fun other waits bound => ?_⟩
      rcases Findings.mem_names_settled bound with ⟨same, -⟩ | old
      · have distinct := h.named.nodup
        simp only [List.map_append, List.map_cons, List.nodup_middle, List.nodup_cons] at distinct
        apply distinct.1
        rw [← List.map_append, ← same]
        exact List.mem_map_of_mem waits
      · exact h.unbound other (rest.subset waits) old

end Sheet

/-! ## Nested evaluations -/

namespace Sources

variable {sources : Sources} {self : Instance} {column : Column}

theorem orderly_registry {template : Template} {s s' : Session} {registry : Registry}
    (h : Runs (sources.registry self template) s registry s') (start : s.cache.Orderly) :
    s'.cache.Orderly := by
  rcases registry_inv h with ⟨-, same⟩ | ⟨-, -, kept⟩
  · rw [same]
    exact start
  · rw [kept]
    exact start

theorem orderly_preparation {template : Template} {s u : Session} {base : Scope}
    {queue : List CompiledKpi}
    (h : Runs (sources.preparation self column template) s (base, queue) u)
    (start : s.cache.Orderly) : u.cache.Orderly := by
  obtain ⟨registry, ⟨w, w', begun, lookUp, same⟩, -, -⟩ := preparation_inv h
  rw [← same]
  refine orderly_registry lookUp ?_
  rw [begun]
  exact start.started _ _

theorem orderly_inner (depth : Nat) (nested : ∀ less, depth = less + 1 →
      ∀ ⦃template s found s'⦄, s.cache.Orderly →
        Runs (sources.evaluateNested self column less template) s found s' →
        s'.cache.Orderly ∧ found.results.Sorted) (template : Template) :
    (sources.sheet column (sources.inner self column depth) template).Orderly := by
  intro code answer s s' start run
  cases depth with
  | zero =>
    obtain ⟨rfl, rfl⟩ := runs_pure.1 run
    exact ⟨start, nofun⟩
  | succ depth =>
    rcases subReportValues_inv run with ⟨known, same⟩ | ⟨-, other, found, v, -, same, begun, rfl⟩
    · rw [same]
      refine ⟨start, ?_⟩
      rintro values ⟨⟩
      exact start.nodup_of_progress? known
    · rw [← same] at start
      obtain ⟨after, sorted⟩ := nested depth rfl start begun
      refine ⟨after, ?_⟩
      rintro values ⟨⟩
      exact (sorted.mapValues _).nodup

/-- An evaluation keeps the cache orderly, and gives one result for each KPI. -/
theorem orderly_evaluateNested {depth : Nat} {template : Template} {s s' : Session}
    {found : PeriodResults} (start : s.cache.Orderly)
    (h : Runs (sources.evaluateNested self column depth template) s found s') :
    s'.cache.Orderly ∧ found.results.Sorted := by
  induction depth using Nat.strongRecOn generalizing template s found s' with
  | _ depth ih =>
    rw [evaluateNested_eq, evaluateWith_eq] at h
    obtain ⟨⟨base, queue⟩, u, prepared, h⟩ := runs_bind.1 h
    obtain ⟨⟨findings, passes⟩, v, run, h⟩ := runs_bind.1 h
    obtain ⟨⟨⟩, w, log, h⟩ := runs_bind.1 h
    obtain ⟨⟨⟩, z, stop, h⟩ := runs_bind.1 h
    obtain ⟨rfl, rfl⟩ := runs_pure.1 h
    have orderly : (sources.sheet column (sources.inner self column depth) template).Orderly :=
      orderly_inner depth (fun less same _ _ _ _ => ih less (by omega)) template
    obtain ⟨-, sorted, ended⟩ := (Sheet.keeps_sorted orderly).passes run
      ⟨Table.sorted_nil, orderly_preparation prepared start⟩
    refine ⟨?_, sorted⟩
    rw [Evaluation.runs_modifyCache.1 stop]
    refine Cache.Orderly.finished ?_ _ _ (sorted.mapValues _).nodup
    rw [Evaluation.cache_of_runs_log log]
    exact ended

theorem orderly_sheet (depth : Nat) (template : Template) :
    (sources.sheet column (sources.inner self column depth) template).Orderly :=
  orderly_inner depth (fun _ _ _ _ _ _ start run => orderly_evaluateNested start run) template

/-- The cache is orderly wherever an evaluation begins inside another one. -/
theorem Begins.orderly {depth less : Nat} {template other : Template} {s s' : Session}
    (h : Begins sources self column depth template s less other s') (start : s.cache.Orderly) :
    s'.cache.Orderly := by
  induction h with
  | here => exact start
  | @inside depth less template other other' s u w w' s' base queue code prepared calls unknown get
      same _ ih =>
    apply ih
    rw [same]
    have trail : (sources.sheet column (sources.inner self column (depth + 1)) template).Trail
        (fun _ => True) u w := (calls.trail fun _ _ _ _ => trivial).2
    exact trail.keeps (fun _ _ _ _ _ before run => (orderly_sheet _ template before run).1)
      (orderly_preparation prepared start)

/-- **Every name is bound once.** Let a template be evaluated with an orderly cache, or let its
evaluation begin inside such an evaluation. If it is valid, different queries, account tokens,
values of reports and KPIs have different names, and at every moment of its evaluation, whether or
not that comes to its end, each name in the scope was bound once and for one of them. -/
theorem evaluate_writeOnce {template other : Template} {s s' : Session} {depth : Nat}
    (orderly : s.cache.Orderly)
    (begun : Begins sources self column (sources.library.size + 1) template s depth other s')
    (valid : other.validate = .ok ()) :
    Function.Injective (Binder.name : Binder other → String) ∧
      ∀ findings, Finds sources self column depth other s' findings → findings.WriteOnce other := by
  refine ⟨Binder.name_injective valid, fun findings found => ?_⟩
  cases found with
  | queries lookUp clock fetch =>
    obtain ⟨once, asked⟩ := Query.writeOnce_fetchInto valid fetch
    refine Findings.writeOnce_start valid once fun x member => ?_
    obtain ⟨query, inside, rfl⟩ := asked x member
    exact .query query inside
  | balances lookUp first =>
    obtain ⟨once, origin⟩ := writeOnce_firstScope valid first
    exact Findings.writeOnce_start valid once origin
  | @passes base queue findings u prepared finds =>
    obtain ⟨registry, -, ⟨t, t', first⟩, compile⟩ := preparation_inv prepared
    obtain ⟨once, origin⟩ := writeOnce_firstScope valid first
    have own : ∀ compiled ∈ queue, compiled.kpi ∈ other.kpis := by
      intro compiled member
      obtain ⟨kpi, inside, made⟩ := exists_of_mem_mapM compile member
      rw [CompiledKpi.kpi_of_ofKpi made]
      exact mem_sortedKpis.1 inside
    have start : Sheet.Awaits other { scope := base } queue u.cache := by
      refine ⟨orderly_preparation prepared (begun.orderly orderly),
        Findings.writeOnce_start valid once origin, wellNamed_of_compile valid compile, own, ?_⟩
      intro compiled member
      rw [Scope.mem_names_iff, Decidable.not_not]
      exact unbound_of_firstScope valid first (own compiled member)
    obtain ⟨waiting, cache, held⟩ :=
      finds.keeps (Sheet.keeps_awaits (orderly_sheet depth other) other) start
    exact held.once

/-- The report that refers to another one binds the value of that report, then its own. -/
theorem evaluate_writeOnce_linked :
    ∃ findings, Finds Linked.sources Sample.self Sample.column (Linked.sources.library.size + 1)
        Linked.outer {} findings ∧
      findings.scope.names = ["x", "s.k"] ∧ Linked.outer.validate = .ok () ∧
      findings.WriteOnce Linked.outer := by
  obtain ⟨s, run⟩ := (exists_runs_iff_yields (Linked.acyclic _ _ Linked.get_outer) {}).2
    Linked.yields_outer
  have reached : Reached Linked.sources Sample.self (fun _ => Sample.column) {} := .empty
  have ready := (reached.settled Linked.acyclic rfl).ready (Linked.acyclic _ _ Linked.get_outer)
    Linked.get_outer
  obtain ⟨base, queue, u, v, prepared, passes⟩ := Linked.passes_outer ready run
  have valid : Linked.outer.validate = .ok () := Linked.valid _ _ Linked.get_outer
  have found := Finds.passes prepared (Sheet.finds_of_passes passes)
  have orderly : ({} : Session).cache.Orderly := Cache.Orderly.empty
  obtain ⟨-, once⟩ := evaluate_writeOnce orderly .here valid
  have names : (Linked.ended Linked.answers Linked.outerQueue).1.scope.names = ["x", "s.k"] :=
    congrArg (List.map Prod.fst) Linked.bound_outer
  exact ⟨_, found, names, valid, once _ found⟩

end Sources

end KpiReport
