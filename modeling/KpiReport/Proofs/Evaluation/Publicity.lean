import KpiReport.Proofs.Evaluation.Memo
import KpiReport.Proofs.Evaluation.Renumbering
import KpiReport.Proofs.Evaluation.Visits
import KpiReport.Store.Tables

/-!
# Values without private fields

Values enter the scope of a report from its queries, its account tokens and other reports, and its
formulas make new ones of them. If no query asks for a private field, none of these values has one:
neither those of the final scope (`Sources.Computes.findings_public`) nor those that a report yields
(`Sources.Yields.values_public`).
-/

namespace KpiReport

/-! ## Records -/

/-- The store gives the fields that it is asked for, and no others. -/
def RecordStore.Projects (store : RecordStore) : Prop :=
  ∀ model filter fields records, store.searchRead model filter fields = .ok records →
    ∀ record ∈ records, ∀ entry ∈ record, entry.1 ∈ fields

theorem RecordTables.projects_store (tables : RecordTables) : tables.store.Projects := by
  intro model filter fields records read record member entry stored
  obtain ⟨found, -, rfl⟩ := map_eq_ok.1 read
  obtain ⟨whole, -, rfl⟩ := List.mem_map.1 member
  obtain ⟨field, asked, rfl⟩ := List.mem_map.1 (Table.mem_ofEntries stored)
  exact asked

namespace FieldValue

mutual

theorem toValue_public : ∀ v : FieldValue, v.toValue.Public
  | null | bool _ | number _ | date _ | dateTime _ | text _ => trivial
  | list items => itemValues_public items

theorem itemValues_public : ∀ items : List FieldValue, Value.AllPublic (itemValues items)
  | [] => trivial
  | item :: items => ⟨toValue_public item, itemValues_public items⟩

end

end FieldValue

theorem Record.toValue_public {record : Record}
    (shown : ∀ entry ∈ record, Template.isPrivate entry.1 = false) : record.toValue.Public := by
  apply Value.fieldsPublic_iff.2
  intro entry member
  obtain ⟨field, stored, rfl⟩ := List.mem_map.1 member
  exact ⟨shown field stored, field.2.toValue_public⟩

/-! ## Queries -/

namespace Query

theorem aggregateRecord_public (count : Nat) {entries : List (String × Value)}
    (shown : ∀ entry ∈ entries, Template.isPrivate entry.1 = false ∧ entry.2.Public) :
    (aggregateRecord count entries).Public := by
  apply Value.fieldsPublic_iff.2
  intro entry member
  rcases List.mem_cons.1 (Table.mem_ofEntries member) with rfl | member
  · have plain : Template.isPrivate "count" = false := by decide
    exact ⟨plain, trivial⟩
  · exact shown entry member

variable {query : Query} {store : RecordStore} {value : Value} {t t' : Trace}

theorem sumValue_public {totals : GroupTotals} {field : String}
    (h : Runs (query.sumValue totals field) t value t') : value.Public := by
  unfold sumValue at h
  split at h
  · obtain ⟨rfl, -⟩ := runs_pure.1 h
    exact FieldValue.toValue_public _
  · obtain ⟨⟨⟩, u, -, h⟩ := runs_bind.1 h
    obtain ⟨rfl, -⟩ := runs_pure.1 h
    exact trivial

theorem aggregateValue_public {aggregate : Aggregate} {records : List Record} {field : String}
    (h : query.aggregateValue aggregate records field = .ok value) : value.Public := by
  unfold aggregateValue at h
  split at h
  · rename_i found
    cases h
    exact Aggregate.public_of_apply found
  · cases h

theorem fetchAggregate_public (shown : query.Shown) {filter : Filter} {aggregate : Aggregate}
    (h : Runs (query.fetchAggregate store filter aggregate) t value t') : value.Public := by
  obtain ⟨stored, u, -, h⟩ := runs_bind.1 h
  split at h
  · obtain ⟨⟨⟩, v, -, h⟩ := runs_bind.1 h
    obtain ⟨totals, w, -, h⟩ := runs_bind.1 h
    obtain ⟨entries, z, each, h⟩ := runs_bind.1 h
    obtain ⟨rfl, -⟩ := runs_pure.1 h
    apply aggregateRecord_public
    intro entry member
    obtain ⟨field, asked, x, y, run⟩ := exists_of_mem_runs_mapM each member
    obtain ⟨sum, _, summed, run⟩ := runs_bind.1 run
    obtain ⟨rfl, -⟩ := runs_pure.1 run
    exact ⟨shown field asked, sumValue_public summed⟩
  · obtain ⟨records, v, -, h⟩ := runs_bind.1 h
    obtain ⟨entries, w, each, h⟩ := runs_bind.1 h
    obtain ⟨rfl, -⟩ := runs_pure.1 h
    apply aggregateRecord_public
    intro entry member
    obtain ⟨field, asked, x, y, run⟩ := exists_of_mem_runs_mapM each member
    obtain ⟨found, _, applied, run⟩ := runs_bind.1 run
    obtain ⟨rfl, -⟩ := runs_pure.1 run
    exact ⟨shown field asked, aggregateValue_public (Traced.runs_ofResult.1 applied).1⟩

/-- A query that asks for no private field gives a value without one. -/
theorem fetch_public (projects : store.Projects) (shown : query.Shown)
    {offset : Calendar.UtcOffset} {bounds : Bounds} {extra : Option Filter}
    (h : Runs (query.fetch store offset bounds extra) t value t') : value.Public := by
  obtain ⟨filter, u, -, h⟩ := runs_bind.1 h
  split at h
  · exact fetchAggregate_public shown h
  · obtain ⟨records, v, read, h⟩ := runs_bind.1 h
    obtain ⟨⟨⟩, w, -, h⟩ := runs_bind.1 h
    obtain ⟨rfl, -⟩ := runs_pure.1 h
    obtain ⟨read, -⟩ := Traced.runs_ofResult.1 read
    apply Value.allPublic_iff.2
    intro item member
    obtain ⟨record, stored, rfl⟩ := List.mem_map.1 member
    exact Record.toValue_public fun entry inside =>
      shown _ (projects _ _ _ records read record stored entry inside)

end Query

/-! ## Scopes -/

namespace Scope

/-- No bound value has a private field. -/
def Public (scope : Scope) : Prop :=
  ∀ x value, scope.get? x = some value → value.Public

theorem empty_public : Scope.empty.Public := nofun

theorem Public.insert {scope : Scope} (h : scope.Public) (name : String) {value : Value}
    (clean : value.Public) : (scope.insert name value).Public := by
  intro x found bound
  rw [get?_insert] at bound
  split at bound
  · cases bound
    exact clean
  · exact h x found bound

theorem Public.insertAll {scope : Scope} (h : scope.Public) {entries : List (String × Value)}
    (clean : ∀ entry ∈ entries, entry.2.Public) : (scope.insertAll entries).Public := by
  induction entries generalizing scope with
  | nil => exact h
  | cons entry entries ih =>
    obtain ⟨first, rest⟩ := List.forall_mem_cons.1 clean
    exact ih (h.insert entry.1 first) rest

end Scope

theorem Query.fetchInto_public {store : RecordStore} (projects : store.Projects)
    {offset : Calendar.UtcOffset} {bounds : Bounds} {extras : Table Filter} {queries : List Query}
    (shown : ∀ query ∈ queries, query.Shown) {scope after : Scope} {result : Result Unit}
    {t t' : Trace} (before : scope.Public)
    (h : (fetchInto store offset bounds extras scope queries).run t = ((after, result), t')) :
    after.Public := by
  induction queries generalizing scope t with
  | nil =>
    cases h
    exact before
  | cons query queries ih =>
    obtain ⟨first, rest⟩ := List.forall_mem_cons.1 shown
    rcases fetchInto_cons_inv h with ⟨e, -, rfl, -⟩ | ⟨value, u, run, more⟩
    · exact before
    · exact ih rest (before.insert _ (fetch_public projects first run)) more

theorem Balances.entriesFrom_public (balances : Balances) (index : Nat) :
    ∀ entry ∈ balances.entriesFrom index, entry.2.Public := by
  induction balances generalizing index with
  | nil => exact nofun
  | cons balance balances ih =>
    exact List.forall_mem_cons.2 ⟨Value.public_ofFloat? balance, ih (index + 1)⟩

namespace Sources

variable {sources : Sources} {self : Instance} {column : Column} {template : Template}
  {registry : Registry}

theorem firstScope_public (projects : sources.store.Projects)
    (shown : ∀ query ∈ template.queries, query.Shown) {base : Scope} {t t' : Trace}
    (h : Runs (sources.firstScope self column template registry) t base t') : base.Public := by
  obtain ⟨offset, u, -, h⟩ := runs_bind.1 h
  obtain ⟨⟨scope, fetched⟩, v, fetch, h⟩ := runs_bind.1 h
  obtain ⟨⟨⟩, w, -, h⟩ := runs_bind.1 h
  obtain ⟨balances, z, -, h⟩ := runs_bind.1 h
  obtain ⟨rfl, -⟩ := runs_pure.1 h
  have clean := Query.fetchInto_public projects shown Scope.empty_public (Traced.runs_lift.1 fetch)
  exact clean.insertAll (balances.entriesFrom_public 0)

end Sources

/-! ## Passes -/

theorem CompiledKpi.eval_public {compiled : CompiledKpi} {S : Scope} (clean : S.Public)
    {value : Value} (h : compiled.eval S = .ok value) : value.Public := by
  unfold eval at h
  split at h
  · cases h
  · rename_i e _
    exact Expr.eval_public clean e h

theorem Outcome.binding?_public {outcome : Outcome}
    (clean : ∀ value, outcome = .ok value → value.Public) {value : Value}
    (h : outcome.binding? = some value) : value.Public := by
  unfold binding? at h
  split at h
  · rename_i found
    cases h
    exact clean _ rfl
  · cases h
    exact trivial
  · cases h

theorem Outcome.value_public {outcome : Outcome}
    (clean : ∀ value, outcome = .ok value → value.Public) : outcome.value.Public := by
  unfold value
  split
  · exact clean _ rfl
  · exact trivial

namespace Findings

/-- No value that has been bound or reported has a private field. -/
structure Public (findings : Findings) : Prop where
  scope : findings.scope.Public
  results : ∀ entry ∈ findings.results, entry.2.value.Public

variable {period : String} {locale : Locale} {answers : Answers}

theorem bindAnswer_public {findings : Findings} (h : findings.Public) {code : String}
    (given : ∀ values, answers code = some values → ∀ entry ∈ values, entry.2.Public) :
    (findings.bindAnswer answers code).Public := by
  unfold bindAnswer
  split
  · exact h
  · split
    · rename_i values told
      refine ⟨h.scope.insertAll fun entry member => ?_, h.results⟩
      obtain ⟨value, inside, rfl⟩ := List.mem_map.1 member
      exact given values told value inside
    · exact h

theorem prepared_public {findings : Findings} (h : findings.Public) {compiled : CompiledKpi}
    (given : ∀ code ∈ compiled.subReports, ∀ values, answers code = some values →
      ∀ entry ∈ values, entry.2.Public) : (findings.prepared answers compiled).Public :=
  prepared_keeps (J := Findings.Public)
    (fun code asked _ clean => bindAnswer_public clean (given code asked)) h

theorem visited_public {findings : Findings} (h : findings.Public) {compiled : CompiledKpi}
    (given : ∀ code ∈ compiled.subReports, ∀ values, answers code = some values →
      ∀ entry ∈ values, entry.2.Public) :
    (findings.visited period locale answers compiled).Public := by
  have prepared := prepared_public h given
  have clean : ∀ value, compiled.eval (findings.prepared answers compiled).scope = .ok value →
      value.Public := fun value => CompiledKpi.eval_public prepared.scope
  constructor
  · intro x value bound
    rcases get?_visited bound with ⟨-, given⟩ | old
    · exact Outcome.binding?_public clean given
    · exact prepared.scope x value old
  · obtain ⟨style, kept⟩ := results_settled (findings.prepared answers compiled) compiled
      (compiled.eval (findings.prepared answers compiled).scope) period locale
    rw [visited, kept]
    intro entry stored
    rcases Table.mem_insert stored with rfl | old
    · exact Outcome.value_public clean
    · exact prepared.results entry old

end Findings

/-! ## Reports -/

namespace Sources

variable {sources : Sources} {self : Instance} {column : Column} {template : Template}
  {registry : Registry} {base : Scope} {queue : List CompiledKpi} {answers : Answers}
  {findings : Findings} {found : PeriodResults}

/-- A report whose queries ask for no private field finds no value with one, as long as other
reports give it none. -/
theorem Computes.findings_public (projects : sources.store.Projects)
    (shown : ∀ query ∈ template.queries, query.Shown)
    (h : Computes sources self column template registry base queue answers findings found)
    (given : ∀ compiled ∈ queue, ∀ code ∈ compiled.subReports, ∀ values,
      answers code = some values → ∀ entry ∈ values, entry.2.Public) : findings.Public := by
  obtain ⟨t, t', scope⟩ := h.scope
  have start : ({ scope := base } : Findings).Public :=
    ⟨firstScope_public projects shown scope, nofun⟩
  have passes : (Findings.passes column.period.name sources.settings.locale answers
      { scope := base } queue).1.Public := by
    refine Findings.passes_keeps (J := Findings.Public) ?_ start
    exact fun compiled member findings clean =>
      Findings.visited_public clean (given compiled member)
  rw [h.passes] at passes
  exact passes

/-- What a report yields has no private fields. -/
theorem Yields.values_public (projects : sources.store.Projects)
    (unreserved : sources.library.Unreserved)
    (h : Yields sources self column template found)
    (shown : ∀ query ∈ template.queries, query.Shown) :
    ∀ entry ∈ found.values, entry.2.Public := by
  induction h with
  | @intro template registry base queue answers findings found others founds tokens computes get _
      answer ih =>
    have clean := computes.findings_public projects shown fun compiled member code asked values
        given entry inside => by
      have told := answer compiled member code asked
      cases told.symm.trans given
      exact ih compiled member code asked
        (unreserved.field _ _ (get compiled member code asked)) entry inside
    intro entry member
    obtain ⟨stored, inside, rfl⟩ := List.mem_map.1 member
    rw [computes.results] at inside
    exact clean.results stored inside

end Sources

end KpiReport
