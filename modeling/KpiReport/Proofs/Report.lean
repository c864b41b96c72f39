import KpiReport.Proofs.Account.Balances
import KpiReport.Proofs.Account.Drilldown
import KpiReport.Proofs.Evaluation.Dependencies
import KpiReport.Proofs.Evaluation.Equations
import KpiReport.Report

/-!
# The lines behind the cells of a report

A report is computed with the account tokens of its template, which are looked up once and kept for
all columns. The lines behind a cell are selected later, with the tokens of one formula, which are
looked up anew. The main statement, `Sources.drilldown_exact`, says that the two agree: the filter
that is given for a cell matches a line exactly if the computation counted it for a token of the
formula and it has an amount on the side of the token.
-/

namespace KpiReport

open Calendar

/-! ## Columns -/

namespace Period

variable {period : Period} {ledger : Ledger} {company : String} {pivot : Date}
  {found : Option Bounds}

theorem resolve_inv {t t' : Trace} (h : Runs (period.resolve ledger company pivot) t found t') :
    period.bounds ledger company pivot = .ok found := by
  obtain ⟨bounds, u, given, h⟩ := runs_bind.1 h
  obtain ⟨made, -⟩ := Traced.runs_ofResult.1 given
  cases bounds with
  | some bounds =>
    obtain ⟨rfl, -⟩ := runs_pure.1 h
    exact made
  | none =>
    obtain ⟨⟨⟩, v, -, h⟩ := runs_bind.1 h
    obtain ⟨rfl, -⟩ := runs_pure.1 h
    exact made

theorem gives_resolve (h : period.bounds ledger company pivot = .ok found) :
    (period.resolve ledger company pivot).Gives found := by
  refine (Traced.Gives.ofResult h).bind ?_
  cases found with
  | some bounds => exact Traced.Gives.pure _
  | none => exact (Traced.Gives.log _ _).bind (Traced.Gives.pure _)

end Period

namespace Sources

variable {sources : Sources} {self : Instance} {template : Template}

/-- There is a column for each period that has bounds. -/
theorem mem_columns {pivot : Date} {periods : List Period} {columns : List Column} {t t' : Trace}
    (h : Runs (sources.columns self pivot periods) t columns t') (column : Column) :
    column ∈ columns ↔ column.period ∈ periods ∧
      column.period.bounds sources.ledger self.company pivot = .ok (some column.bounds) := by
  induction periods generalizing columns t t' with
  | nil =>
    obtain ⟨rfl, -⟩ := runs_pure.1 h
    simp
  | cons period periods ih =>
    obtain ⟨bounds, u, resolve, h⟩ := runs_bind.1 h
    obtain ⟨more, v, rest, h⟩ := runs_bind.1 h
    obtain ⟨rfl, -⟩ := runs_pure.1 h
    have resolved := Period.resolve_inv resolve
    have own : column ∈ (bounds.map (Column.mk period)).toList ↔ column.period = period ∧
        column.period.bounds sources.ledger self.company pivot = .ok (some column.bounds) := by
      constructor
      · intro member
        cases bounds with
        | none => cases member
        | some bounds =>
          obtain rfl := List.mem_singleton.1 member
          exact ⟨rfl, resolved⟩
      · rintro ⟨rfl, given⟩
        rw [given] at resolved
        cases resolved
        exact List.mem_singleton.2 rfl
    rw [List.mem_append, own, ih rest, List.mem_cons, or_and_right]

theorem fill_inv {column : Column} {filled : FilledColumn} {s s' : Session}
    (h : Runs (sources.fill self template column) s filled s') :
    filled.toColumn = column ∧ ∃ u, u.cache = s.cache ∧
      Runs (sources.evaluate self column template) u filled.found s' := by
  obtain ⟨⟨⟩, u, log, h⟩ := runs_bind.1 h
  obtain ⟨found, v, run, h⟩ := runs_bind.1 h
  obtain ⟨rfl, rfl⟩ := runs_pure.1 h
  exact ⟨rfl, u, Evaluation.cache_of_runs_log log, run⟩

/-- The private name of each account token is bound to the sum over the lines that the token
counts. -/
def Sums (sources : Sources) (inst : Instance) (column : Column) (registry : Registry)
    (accounts : List (List String)) (base : Scope) : Prop :=
  ∀ book : Book, sources.ledger = book.ledger → ∀ member ∈ registry.resolvedTokens accounts,
    base.get? (Registry.privateName member.index) =
      some (.ofFloat? (member.alone book column.bounds inst.targetMove
        column.period.moveLineFilter))

theorem sums_of_firstScope {column : Column} {registry : Registry} {accounts : List (List String)}
    (looked : registry.accounts = some accounts) {base : Scope} {t t' : Trace}
    (h : Runs (sources.firstScope self column template registry) t base t') :
    Sums sources self column registry accounts base := by
  intro book ledger member inside
  obtain ⟨balances, u, u', run, bound⟩ := balances_of_firstScope h
  obtain ⟨balances', u'', run', length, alone, -⟩ := Registry.balances_runs looked book column.bounds
    self.targetMove column.period.moveLineFilter u
  rw [ledger] at run
  obtain ⟨rfl, -⟩ := run.unique run'
  have position : member.index < balances.length := by
    rw [length]
    exact (List.getElem?_eq_some_iff.1 (Registry.getElem?_of_mem_resolvedTokens inside).1).1
  have known := List.getElem?_eq_getElem position
  have own := alone member inside
  rw [Balances.get?, known, Option.join_some] at own
  rw [bound member.index _ known, own]

/-- A column is computed with the account tokens of the template, each of which stands for the sum
over the lines that it counts. -/
structure Counted (sources : Sources) (inst : Instance) (template : Template)
    (column : FilledColumn) (registry : Registry) (accounts : List (List String)) : Prop where
  tokens : (sources.newRegistry inst template).Gives registry
  looked : registry.accounts = some accounts
  computes : ∃ base queue answers findings, Computes sources inst column.toColumn template registry
    base queue answers findings column.found ∧
    Sums sources inst column.toColumn registry accounts base

theorem counted_of_evaluate {column : FilledColumn} {s s' : Session}
    (own : sources.library.get template.code = .ok template)
    (kept : LookedUp sources self (fun _ => True) s.cache)
    (h : Runs (sources.evaluate self column.toColumn template) s column.found s') :
    LookedUp sources self (fun _ => True) s'.cache ∧
      ∃ registry accounts, Counted sources self template column registry accounts := by
  have after := kept.evaluateNested (fun _ => own) h
  have room := (Cache.room_size sources.library column.period.name
    (s.cache.mark template.code column.period.name .started)).mono (Nat.le_succ _)
  obtain ⟨registry, base, queue, findings, c, ends⟩ := evaluateNested_grows h room
  have gives : (sources.newRegistry self template).Gives registry := by
    refine after template.code template registry trivial own ?_
    rw [ends.stop]
    exact ends.registry
  obtain ⟨t, run⟩ := gives {}
  obtain ⟨registered, chart, -, -, rfl⟩ := newRegistry_inv run
  obtain ⟨u, u', scope⟩ := ends.computes.scope
  exact ⟨after, _, _, gives, rfl, base, queue, _, findings, ends.computes,
    sums_of_firstScope rfl scope⟩

theorem counted_of_fill {columns : List Column} {filled : List FilledColumn} {s s' : Session}
    (own : sources.library.get template.code = .ok template)
    (kept : LookedUp sources self (fun _ => True) s.cache)
    (h : Runs (columns.mapM (sources.fill self template)) s filled s') :
    filled.map FilledColumn.toColumn = columns ∧ ∀ column ∈ filled,
      ∃ registry accounts, Counted sources self template column registry accounts := by
  induction columns generalizing filled s with
  | nil =>
    obtain ⟨rfl, -⟩ := runs_pure.1 h
    exact ⟨rfl, fun column member => nomatch member⟩
  | cons column columns ih =>
    rw [List.mapM_cons] at h
    obtain ⟨first, u, run, h⟩ := runs_bind.1 h
    obtain ⟨rest, v, more, h⟩ := runs_bind.1 h
    obtain ⟨rfl, rfl⟩ := runs_pure.1 h
    obtain ⟨rfl, w, same, run⟩ := fill_inv run
    rw [← same] at kept
    obtain ⟨kept', counted⟩ := counted_of_evaluate own kept run
    obtain ⟨rfl, others⟩ := ih kept' more
    exact ⟨rfl, List.forall_mem_cons.2 ⟨counted, others⟩⟩

/-- How a report is computed: there is a column for each period that has bounds, each is computed
with the account tokens of the template, and the grids are laid out from the columns. -/
structure Computed (sources : Sources) (inst : Instance) (template : Template)
    (columns : List FilledColumn) (grids : List Grid) : Prop where
  valid : template.validate = .ok ()
  get : sources.library.get inst.report = .ok template
  filled : ∃ t t', Runs (sources.filledColumns inst template) t columns t'
  mem_columns : ∃ pivot, sources.pivotDate inst = .ok pivot ∧ ∀ column : Column,
    column ∈ columns.map FilledColumn.toColumn ↔ column.period ∈ inst.periods ∧
      column.period.bounds sources.ledger inst.company pivot = .ok (some column.bounds)
  counted : ∀ column ∈ columns, ∃ registry accounts,
    Counted sources inst template column registry accounts
  laidOut : template.layOut sources.settings.locale columns = .ok grids

theorem compute_inv {grids : List Grid} {t t' : Trace}
    (h : Runs (sources.compute self) t grids t') :
    self.validate = .ok () ∧ ∃ template columns, Computed sources self template columns grids := by
  obtain ⟨⟨⟩, u₁, valid, h⟩ := runs_bind.1 h
  obtain ⟨template, u₂, get, h⟩ := runs_bind.1 h
  obtain ⟨⟨⟩, u₃, validTemplate, h⟩ := runs_bind.1 h
  obtain ⟨columns, u₄, filled, laidOut⟩ := runs_bind.1 h
  obtain ⟨valid, -⟩ := Traced.runs_ofResult.1 valid
  obtain ⟨get, -⟩ := Traced.runs_ofResult.1 get
  obtain ⟨validTemplate, -⟩ := Traced.runs_ofResult.1 validTemplate
  obtain ⟨laidOut, -⟩ := Traced.runs_ofResult.1 laidOut
  have run := filled
  obtain ⟨pivot, v₁, given, run⟩ := runs_bind.1 run
  obtain ⟨planned, v₂, plan, run⟩ := runs_bind.1 run
  obtain ⟨⟨⟩, v₃, -, run⟩ := runs_bind.1 run
  obtain ⟨given, -⟩ := Traced.runs_ofResult.1 given
  obtain ⟨s, fills, -⟩ := Evaluation.runs_onNewCache.1 run
  have own : sources.library.get template.code = .ok template := by
    rw [Library.code_of_get get]
    exact get
  obtain ⟨rfl, counted⟩ := counted_of_fill (s := { trace := v₃ }) own lookedUp_empty fills
  refine ⟨valid, template, columns, validTemplate, get, ⟨_, _, filled⟩, ⟨pivot, given, ?_⟩, counted,
    laidOut⟩
  intro column
  rw [mem_columns plan, Instance.sortedPeriods, List.mem_mergeSort]

/-- A result that can be drilled into is that of a KPI with account tokens. -/
theorem Computes.drillable {column : Column} {registry : Registry} {base : Scope}
    {queue : List CompiledKpi} {answers : Answers} {findings : Findings} {found : PeriodResults}
    (valid : template.validate = .ok ())
    (h : Computes sources self column template registry base queue answers findings found)
    {name : String} {result : KpiResult} (stored : found.get? name = some result)
    (drillable : result.drilldown = true) :
    result.expression ∈ template.kpis.map Kpi.expression ∧
      AccountToken.occursIn result.expression = true := by
  have settles := h.settles valid
  rw [PeriodResults.get?, h.results] at stored
  by_cases own : ∃ compiled ∈ queue, name = compiled.kpi.name
  · obtain ⟨compiled, member, rfl⟩ := own
    obtain ⟨-, style, kept⟩ := settles.shows compiled member
    rw [stored] at kept
    cases kept
    obtain ⟨kpi, inside, made⟩ := exists_of_mem_mapM h.compile member
    have same := CompiledKpi.kpi_of_ofKpi made
    refine ⟨List.mem_map.2 ⟨kpi, mem_sortedKpis.1 inside, ?_⟩, ?_⟩
    · rw [← same]
      rfl
    · exact (Bool.and_eq_true _ _ ▸ drillable).2
  · rw [settles.results name fun compiled member same => own ⟨compiled, member, same⟩] at stored
    cases stored

/-- A line is behind a formula in a column that was computed with some account tokens: one of these,
which stands in the formula, counted the line, and the line has an amount on the side of the token. -/
def Behind (inst : Instance) (column : Column) (registry : Registry)
    (accounts : List (List String)) (formula : String) (line : MoveLine) : Prop :=
  ∃ tokens, AccountToken.tokensOf formula = .ok tokens ∧
    ∃ member ∈ registry.resolvedTokens accounts, member.token ∈ tokens ∧
      member.counts column.bounds inst.targetMove column.period.moveLineFilter line = true ∧
      member.token.side.shows line = true

/-- With the tokens of one formula of a template, looked up anew, the lines are selected that are
behind the formula in the columns of the report. -/
theorem Counted.drilldownFilter {column : FilledColumn} {registry : Registry}
    {accounts : List (List String)}
    (h : Counted sources self template column registry accounts) {formula : String}
    (member : formula ∈ template.kpis.map Kpi.expression)
    (occurs : AccountToken.occursIn formula = true) :
    ∃ filter, (sources.drilldownFilter self column.toColumn formula).Gives (some filter) ∧
      ∀ line : MoveLine, Filter.matches line.field filter = true ↔
        Behind self column.toColumn registry accounts formula line := by
  obtain ⟨t, run⟩ := h.tokens {}
  obtain ⟨registered, chart, register, found, rfl⟩ := newRegistry_inv run
  obtain rfl := Option.some.inj h.looked
  obtain ⟨sound, -, holds⟩ := Registry.registerAll_sound Registry.sound_empty register
  obtain ⟨tokens, scanned, inside⟩ := holds formula member
  obtain ⟨tokens', scanned', nonempty⟩ := AccountToken.occursIn_iff.1 occurs
  obtain rfl : tokens = tokens' := by
    rw [scanned] at scanned'
    cases scanned'
    rfl
  let fresh : Registry := tokens.foldl Registry.add {}
  have alone : Registry.register {} formula = .ok fresh := map_eq_ok.2 ⟨tokens, scanned, rfl⟩
  obtain ⟨sound', -, inside'⟩ := Registry.foldl_add_sound
    (fun token => AccountToken.written_of_tokensOf scanned) Registry.sound_empty
  obtain ⟨filter, made, agrees⟩ := Registry.drilldownFilter_matches (sound'.lookUp chart) rfl scanned
    inside' nonempty column.bounds self.targetMove column.period.moveLineFilter
  refine ⟨filter, ?_, fun line => ?_⟩
  · exact (Traced.Gives.ofResult alone).bind ((Registry.gives_resolve found).bind
      (Traced.Gives.ofResult made))
  · rw [agrees]
    constructor
    · rintro ⟨⟨position, token, codes⟩, listed, accounts, counted, shown⟩
      obtain rfl : codes = chart.select token.selectors := accounts
      obtain ⟨index, known⟩ := Registry.exists_mem_resolvedTokens (inside token listed) chart
      exact ⟨tokens, scanned, _, known, listed, counted, shown⟩
    · rintro ⟨other, same, member, known, listed, counted, shown⟩
      rw [scanned] at same
      cases same
      exact ⟨member, listed, Registry.mem_resolvedTokens_codesIn known, counted, shown⟩

theorem gives_drilldown {column : Column} {formula : String} {pivot : Date} {filter : Filter}
    (period : self.period? column.period.name = some column.period)
    (occurs : AccountToken.occursIn formula = true) (given : sources.pivotDate self = .ok pivot)
    (bounds : column.period.bounds sources.ledger self.company pivot = .ok (some column.bounds))
    (selected : (sources.drilldownFilter self column formula).Gives (some filter)) :
    (sources.drilldown self column.period.name formula).Gives
      (some ⟨formula ++ " - " ++ column.period.name, filter⟩) := by
  have known : Result.ofOption (.unknownPeriod column.period.name)
      (self.period? column.period.name) = .ok column.period := by
    rw [period]
    rfl
  refine (Traced.Gives.ofResult known).bind ?_
  rw [occurs]
  exact (Traced.Gives.ofResult given).bind ((Period.gives_resolve bounds).bind
    (selected.bind (Traced.Gives.pure _)))

/-- **Drilling down shows exactly the lines behind a cell.** If a report is computed, then for every
result of one of its columns that can be drilled into, the lines behind its formula are given, by a
filter that matches a line exactly if the line is behind the formula in that column. -/
theorem drilldown_exact {grids : List Grid} {t t' : Trace}
    (h : Runs (sources.compute self) t grids t') :
    ∃ template columns, Computed sources self template columns grids ∧
      ∀ column ∈ columns, ∃ registry accounts,
        Counted sources self template column registry accounts ∧
        ∀ name result, column.found.get? name = some result → result.drilldown = true →
          ∃ shown, (sources.drilldown self column.period.name result.expression).Gives (some shown) ∧
            ∀ line : MoveLine, Filter.matches line.field shown.filter = true ↔
              Behind self column.toColumn registry accounts result.expression line := by
  obtain ⟨valid, template, columns, computed⟩ := compute_inv h
  refine ⟨template, columns, computed, fun column member => ?_⟩
  obtain ⟨registry, accounts, counted⟩ := computed.counted column member
  refine ⟨registry, accounts, counted, fun name result stored drillable => ?_⟩
  obtain ⟨base, queue, answers, findings, computes, -⟩ := counted.computes
  obtain ⟨own, occurs⟩ := computes.drillable computed.valid stored drillable
  obtain ⟨pivot, given, mem_columns⟩ := computed.mem_columns
  obtain ⟨inside, bounds⟩ := (mem_columns column.toColumn).1 (List.mem_map_of_mem member)
  obtain ⟨filter, selected, agrees⟩ := counted.drilldownFilter own occurs
  exact ⟨_, gives_drilldown (Instance.period?_of_validate valid inside) occurs given bounds selected,
    agrees⟩

end Sources

/-! ## A report with one cell -/

namespace OneCell

/-- The only day of the fiscal period. -/
def day : Date := ⟨0, firstDay_le_zero, zero_le_lastDay⟩

/-- The credit of one account. -/
def template : Template where
  code := "income"
  name := "Income"
  kpis := [{ name := "sales", expression := "crd[7]" }]

/-- The account, without lines, and the fiscal period. -/
def book : Book where
  accounts := [⟨"7", "", none⟩]
  periods := [("", [⟨"01", day, day, false⟩])]

/-- The book and the template. -/
def sources : Sources where
  library := { reports := [(template.code, template)] }
  ledger := book.ledger
  store := RecordTables.store {}
  settings := {}
  today := fun _ => day

/-- The fiscal period that holds the pivot date. -/
def period : Period where
  name := "now"
  periodType := .fiscalPeriod
  offset := 0
  duration := 1

/-- The instance has one column. -/
def self : Instance where
  name := "income"
  report := "income"
  rootAccount := "7"
  periods := [period]

/-- The column of the fiscal period. -/
def column : Column where
  period := period
  bounds := ⟨day, day, some ⟨"01", "01", ["01"]⟩⟩

/-- The token of the formula with its account. -/
def registry : Registry where
  tokens := [⟨"crd[7]", .credit, .variation, [.code "7"], []⟩]
  accounts := some [["7"]]

theorem gives_newRegistry : (sources.newRegistry self template).Gives registry :=
  (Sources.steady_newRegistry template).gives (by with_unfolding_all rfl)

/-- No line matches the token. -/
def base : Scope := Scope.empty.insert "__acc_0" .noData

theorem gives_firstScope : (sources.firstScope self column template registry).Gives base :=
  (Sources.steady_firstScope template registry).gives (by rfl)

/-- The compiled KPI. -/
def queue : List CompiledKpi :=
  [⟨{ name := "sales", expression := "crd[7]" }, .ok (.name "__acc_0"), []⟩]

theorem compile_template :
    template.sortedKpis.mapM (CompiledKpi.ofKpi sources.library template registry) = .ok queue := by
  with_unfolding_all rfl

/-- The column with its result. -/
def filled : FilledColumn where
  toColumn := column
  found :=
    let ended := Findings.passes period.name sources.settings.locale (fun _ => none)
      { scope := base } queue
    ⟨ended.1.results, ended.2⟩

/-- The result comes from accounts alone. -/
theorem result_filled : ∃ result, filled.found.get? "sales" = some result ∧
    result.expression = "crd[7]" ∧ result.drilldown = true := by
  have shown : (filled.found.get? "sales").map (fun result => (result.expression, result.drilldown)) =
      some ("crd[7]", true) := by
    with_unfolding_all rfl
  obtain ⟨result, stored, same⟩ := Option.map_eq_some_iff.1 shown
  obtain ⟨expression, drilldown⟩ := Prod.mk.inj same
  exact ⟨result, stored, expression, drilldown⟩

theorem fill_filled (t : Trace) :
    ∃ s', Runs (sources.fill self template column) { trace := t } filled s' := by
  obtain ⟨u, log⟩ := Evaluation.exists_runs_log .debug
    ("Period '" ++ period.name ++ "': " ++ day.toText ++ " to " ++ day.toText) { trace := t }
  obtain ⟨s', run⟩ := Sources.evaluate_runs_alone gives_newRegistry
    gives_firstScope compile_template (by simp [queue]) u
  exact ⟨s', runs_bind.2 ⟨(), _, log, runs_bind.2 ⟨_, s', run, runs_pure.2 ⟨rfl, rfl⟩⟩⟩⟩

theorem gives_filledColumns : (sources.filledColumns self template).Gives [filled] := by
  have given : sources.pivotDate self = .ok day := by rfl
  have bounds : period.bounds sources.ledger self.company day = .ok (some column.bounds) := by
    with_unfolding_all rfl
  have sorted : self.sortedPeriods = [period] := List.mergeSort_singleton period
  have planned : (sources.columns self day self.sortedPeriods).Gives [column] := by
    rw [sorted]
    exact (Period.gives_resolve bounds).bind ((Traced.Gives.pure []).bind (Traced.Gives.pure _))
  refine (Traced.Gives.ofResult given).bind (planned.bind ((Traced.Gives.log _ _).bind ?_))
  intro t
  obtain ⟨s', run⟩ := fill_filled t
  refine ⟨s'.trace, Evaluation.runs_onNewCache.2 ⟨s', ?_, rfl⟩⟩
  rw [List.mapM_cons]
  exact runs_bind.2 ⟨filled, s', run, runs_pure.2 ⟨rfl, rfl⟩⟩

theorem layOut_filled : ∃ grids, template.layOut sources.settings.locale [filled] = .ok grids := by
  have headers : headerColumns sources.settings.locale [filled] = .ok [⟨"now", "01"⟩] := by
    rfl
  exact ⟨_, map_eq_ok.2 ⟨_, headers, rfl⟩⟩

theorem runs_compute : ∃ grids t, Runs (sources.compute self) {} grids t := by
  have valid : self.validate = .ok () := by rfl
  have get : sources.library.get self.report = .ok template := rfl
  have validTemplate : template.validate = .ok () := rfl
  obtain ⟨grids, laidOut⟩ := layOut_filled
  have gives : (sources.compute self).Gives grids :=
    (Traced.Gives.ofResult valid).bind ((Traced.Gives.ofResult get).bind
      ((Traced.Gives.ofResult validTemplate).bind (gives_filledColumns.bind
        (Traced.Gives.ofResult laidOut))))
  exact ⟨grids, gives {}⟩

/-- A line of the account in the fiscal period. -/
def line (credit : Float) : MoveLine :=
  ⟨"7", day, 0, credit, MoveLine.posted, some "01", []⟩

theorem behind_line (credit : Float) :
    Sources.Behind self column registry [["7"]] "crd[7]" (line credit) ↔ (credit == 0) = false := by
  have scanned : AccountToken.tokensOf "crd[7]" = .ok registry.tokens := by with_unfolding_all rfl
  have counted : ∀ member ∈ registry.resolvedTokens [["7"]],
      member.counts column.bounds self.targetMove column.period.moveLineFilter (line credit) = true ∧
        member.token.side.shows (line credit) = !(credit == 0) := by
    refine List.forall_mem_singleton.2 ⟨?_, rfl⟩
    rfl
  constructor
  · rintro ⟨tokens, -, member, inside, -, -, shown⟩
    rw [(counted member inside).2] at shown
    simpa using shown
  · intro nonzero
    obtain ⟨first, shown⟩ := List.forall_mem_singleton.1 counted
    refine ⟨registry.tokens, scanned, _, List.mem_singleton.2 rfl, List.mem_singleton.2 rfl, first,
      ?_⟩
    rw [shown, nonzero]
    rfl

end OneCell

/-- Behind the only cell of the report are the lines of its account that have a credit. -/
theorem Sources.drilldown_exact_one_cell :
    ∃ grids t shown, Runs (OneCell.sources.compute OneCell.self) {} grids t ∧
      (OneCell.sources.drilldown OneCell.self "now" "crd[7]").Gives (some shown) ∧
      ∀ credit, Filter.matches (OneCell.line credit).field shown.filter = true ↔
        (credit == 0) = false := by
  obtain ⟨grids, t, run⟩ := OneCell.runs_compute
  obtain ⟨template, columns, computed, each⟩ := Sources.drilldown_exact run
  obtain rfl : OneCell.template = template := by
    have get := computed.get
    cases get
    rfl
  obtain ⟨u, u', filled⟩ := computed.filled
  obtain ⟨v, filled'⟩ := OneCell.gives_filledColumns u
  obtain ⟨rfl, -⟩ := filled.unique filled'
  obtain ⟨registry, accounts, counted, exact⟩ := each OneCell.filled List.mem_cons_self
  obtain rfl := counted.tokens.unique OneCell.gives_newRegistry
  obtain rfl := Option.some.inj counted.looked
  obtain ⟨result, stored, formula, drillable⟩ := OneCell.result_filled
  obtain ⟨shown, gives, agrees⟩ := exact "sales" result stored drillable
  rw [formula] at gives agrees
  exact ⟨grids, t, shown, run, gives, fun credit =>
    (agrees _).trans (OneCell.behind_line credit)⟩

end KpiReport
