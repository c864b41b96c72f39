import KpiReport.Proofs.Account.Balances
import KpiReport.Proofs.Evaluation.Mirroring
import Mathlib.Logic.Relation

/-!
# A formula affects only the key figures that depend on it

Another text for the formula of one KPI renumbers the account tokens of the report, and with them
the private names in all its formulas; it changes what the ledger is asked, which reports are
evaluated, and the order in which KPIs are tried again. None of this reaches a KPI that does not
depend on the formula: the main statement, `Sources.evaluate_isolated`, compares the evaluations of
a template with two texts for one formula.

The two evaluations mirror each other (`Sources.YieldsBy.mirrors`): KPIs that do not depend on the
formula are compiled alike up to the private names, and what they read beside each other is bound
alike, be it a query, a balance or a value of another report.
-/

namespace KpiReport

variable {k text text' : String}

/-! ## Another text for one formula -/

/-- The KPI, with another formula if its name is `k`. -/
def Kpi.reword (k text : String) (kpi : Kpi) : Kpi :=
  if kpi.name = k then { kpi with expression := text } else kpi

/-- The template with another formula for the KPI `k`. -/
def Template.reword (k text : String) (template : Template) : Template :=
  { template with kpis := template.kpis.map (Kpi.reword k text) }

theorem Kpi.name_reword (kpi : Kpi) : (kpi.reword k text).name = kpi.name := by
  unfold reword
  split <;> rfl

theorem Kpi.reword_of_ne {kpi : Kpi} (other : kpi.name ≠ k) : kpi.reword k text = kpi :=
  if_neg other

namespace Template

variable {template : Template}

theorem names_reword (template : Template) :
    (template.reword k text).kpis.map Kpi.name = template.kpis.map Kpi.name := by
  rw [reword, List.map_map]
  exact List.map_congr_left fun kpi _ => kpi.name_reword

theorem mem_reword {kpi : Kpi} (member : kpi ∈ template.kpis) (other : kpi.name ≠ k) :
    kpi ∈ (template.reword k text).kpis :=
  List.mem_map.2 ⟨kpi, member, Kpi.reword_of_ne other⟩

theorem mem_of_mem_reword {kpi : Kpi} (member : kpi ∈ (template.reword k text).kpis)
    (other : kpi.name ≠ k) : kpi ∈ template.kpis := by
  obtain ⟨origin, inside, rfl⟩ := List.mem_map.1 member
  rw [Kpi.name_reword] at other
  rwa [Kpi.reword_of_ne other]

end Template

/-- The formula of the KPI `x` of a template reads the name `y`. -/
def Library.Reads (library : Library) (template : Template) (x y : String) : Prop :=
  ∃ registry kpi compiled e,
    Registry.registerAll {} (template.kpis.map Kpi.expression) = .ok registry ∧
    kpi ∈ template.kpis ∧ kpi.name = x ∧
    CompiledKpi.ofKpi library template registry kpi = .ok compiled ∧
    compiled.expression = .ok e ∧ y ∈ e.names

/-- A name that no compiled formula reads can be reached from itself only. -/
theorem Library.apart_of_compiled {library : Library} {template : Template} {registry : Registry}
    {queue : List CompiledKpi} {x y : String} (other : x ≠ y)
    (tokens : Registry.registerAll {} (template.kpis.map Kpi.expression) = .ok registry)
    (compile : template.kpis.mapM (CompiledKpi.ofKpi library template registry) = .ok queue)
    (free : ∀ compiled ∈ queue, ∀ e, compiled.expression = .ok e → y ∉ e.names) :
    ¬ Relation.ReflTransGen (library.Reads template) x y := by
  intro reaches
  rcases reaches.cases_tail with same |
    ⟨z, -, registry', kpi, compiled, e, tokens', member, -, made, parsed, read⟩
  · exact other same.symm
  · cases tokens.symm.trans tokens'
    obtain ⟨compiled', inside, made'⟩ := exists_mem_of_mapM compile member
    cases made.symm.trans made'
    exact free compiled inside e parsed read

/-! ## First scopes -/

theorem Balances.get?_bind_of_not_isPrivate (balances : Balances) (scope : Scope) {x : String}
    (shown : Template.isPrivate x = false) : (balances.bind scope).get? x = scope.get? x := by
  have none : List.lookup x (balances.entriesFrom 0).reverse = none := by
    rw [List.lookup_eq_none_iff]
    intro entry member
    obtain ⟨index, named⟩ := origin_of_entriesFrom (List.mem_reverse.1 member)
    rw [bne_iff_ne]
    rintro rfl
    rw [named, Registry.isPrivate_privateName] at shown
    cases shown
  rw [bind, Scope.get?_insertAll, none, Option.none_or]

namespace Sources

variable {sources : Sources} {self : Instance} {column : Column} {template : Template}
  {registry registry' : Registry} {base base' : Scope}

/-- The first scope binds all but the private names whatever the account tokens are. -/
theorem firstScope_agree {template' : Template} (same : template'.queries = template.queries)
    {t t' u u' : Trace} (h : Runs (sources.firstScope self column template registry) t base t')
    (h' : Runs (sources.firstScope self column template' registry') u base' u') {x : String}
    (shown : Template.isPrivate x = false) : base'.get? x = base.get? x := by
  obtain ⟨offset, v, given, h⟩ := runs_bind.1 h
  obtain ⟨⟨scope, result⟩, w, fetch, h⟩ := runs_bind.1 h
  obtain ⟨⟨⟩, z, done, h⟩ := runs_bind.1 h
  obtain ⟨balances, y, -, h⟩ := runs_bind.1 h
  obtain ⟨rfl, -⟩ := runs_pure.1 h
  obtain ⟨offset', v', given', h'⟩ := runs_bind.1 h'
  obtain ⟨⟨scope', result'⟩, w', fetch', h'⟩ := runs_bind.1 h'
  obtain ⟨⟨⟩, z', done', h'⟩ := runs_bind.1 h'
  obtain ⟨balances', y', -, h'⟩ := runs_bind.1 h'
  obtain ⟨rfl, -⟩ := runs_pure.1 h'
  have offsets := (Traced.runs_ofResult.1 given).1.symm.trans (Traced.runs_ofResult.1 given').1
  cases offsets
  obtain ⟨rfl, -⟩ := Traced.runs_ofResult.1 done
  -- the queries are the same, and what they give does not depend on the trace
  obtain ⟨s, again⟩ := Query.steady_fetchInto (Traced.runs_lift.1 fetch) v'
  have fetched' := Traced.runs_lift.1 fetch'
  rw [same] at fetched'
  cases again.symm.trans fetched'
  rw [Balances.get?_bind_of_not_isPrivate _ _ shown, Balances.get?_bind_of_not_isPrivate _ _ shown]

/-! ## One evaluation -/

variable {queue queue' : List CompiledKpi} {answers answers' : Answers}
  {findings findings' : Findings} {found found' : PeriodResults}
  {others others' : String → Template} {founds founds' : String → PeriodResults}

/-- How a template comes to what it yields: its account tokens, what it computes, and what other
reports tell it. -/
structure YieldsBy (sources : Sources) (inst : Instance) (column : Column) (template : Template)
    (registry : Registry) (base : Scope) (queue : List CompiledKpi) (answers : Answers)
    (findings : Findings) (found : PeriodResults) (others : String → Template)
    (founds : String → PeriodResults) : Prop where
  tokens : (sources.newRegistry inst template).Gives registry
  computes : Computes sources inst column template registry base queue answers findings found
  told : Told sources inst column queue answers others founds

theorem Yields.exists_by (h : Yields sources self column template found) :
    ∃ registry base queue answers findings others founds,
      YieldsBy sources self column template registry base queue answers findings found others
        founds := by
  cases h with
  | intro others founds tokens computes get yields answer =>
    exact ⟨_, _, _, _, _, others, founds, tokens, computes, get, yields, answer⟩

/-- What the sources and the template keep clear of, the formula of `k` apart. -/
structure Clear (sources : Sources) (template : Template) (k : String) : Prop where
  /-- No report of the library uses private names. -/
  unreserved : sources.library.Unreserved
  /-- The store gives the fields that it is asked for. -/
  projects : sources.store.Projects
  /-- The ledger adds up the lines of each account. -/
  sums : ∃ lines sums, sources.ledger.SumsPerAccount lines sums
  /-- No query of the template asks for a private field. -/
  shown : ∀ query ∈ template.queries, query.Shown
  /-- No formula but that of `k` writes a private name, and account tokens stand apart in them. -/
  plain : ∀ kpi ∈ template.kpis, kpi.name ≠ k → AccountToken.Plain kpi.expression

namespace YieldsBy

variable
  (h : YieldsBy sources self column (template.reword k text) registry base queue answers findings
    found others founds)

include h

/-- The account tokens of the formulas are registered, and each token is what it is written as. -/
theorem sound : registry.Sound ∧ ∀ kpi ∈ template.kpis, kpi.name ≠ k →
    ∀ tokens, AccountToken.tokensOf kpi.expression = .ok tokens →
      ∀ token ∈ tokens, token ∈ registry.tokens := by
  obtain ⟨t, run⟩ := h.tokens {}
  obtain ⟨registered, chart, made, -, rfl⟩ := newRegistry_inv run
  obtain ⟨sound, -, holds⟩ := Registry.registerAll_sound Registry.sound_empty made
  refine ⟨sound.lookUp chart, fun kpi member other tokens found token inside => ?_⟩
  obtain ⟨tokens', found', within⟩ :=
    holds _ (List.mem_map_of_mem (Template.mem_reword member other))
  cases found.symm.trans found'
  exact within token inside

theorem exists_compiled {kpi : Kpi} (member : kpi ∈ template.kpis) (other : kpi.name ≠ k) :
    ∃ compiled ∈ queue,
      CompiledKpi.ofKpi sources.library template registry kpi = .ok compiled :=
  exists_mem_of_mapM h.computes.compile (mem_sortedKpis.2 (Template.mem_reword member other))

theorem ofKpi_of_mem {compiled : CompiledKpi} (member : compiled ∈ queue)
    (other : compiled.kpi.name ≠ k) : compiled.kpi ∈ template.kpis ∧
      CompiledKpi.ofKpi sources.library template registry compiled.kpi = .ok compiled := by
  obtain ⟨kpi, stands, made⟩ := exists_of_mem_mapM h.computes.compile member
  obtain rfl := CompiledKpi.kpi_of_ofKpi made
  exact ⟨Template.mem_of_mem_reword (mem_sortedKpis.1 stands) other, made⟩

theorem exists_named_iff {x : String} :
    (∃ compiled ∈ queue, compiled.kpi.name = x) ↔ x ∈ template.kpis.map Kpi.name := by
  have names : (template.reword k text).kpis.map Kpi.name = template.kpis.map Kpi.name :=
    template.names_reword
  rw [← names, ← (names_of_compile h.computes.compile).mem_iff, List.mem_map]

theorem shown_name (valid : (template.reword k text).validate = .ok ()) {compiled : CompiledKpi}
    (member : compiled ∈ queue) : Template.isPrivate compiled.kpi.name = false := by
  obtain ⟨kpi, stands, made⟩ := exists_of_mem_mapM h.computes.compile member
  rw [CompiledKpi.kpi_of_ofKpi made]
  exact ((Template.names_of_validate valid).nameable_kpi kpi (mem_sortedKpis.1 stands)).notPrivate

theorem findings_public (clear : Clear sources template k) : findings.scope.Public := by
  have shown : ∀ query ∈ (template.reword k text).queries, query.Shown := clear.shown
  refine (h.computes.findings_public clear.projects shown ?_).scope
  intro compiled member code asked values given
  have answer := h.told.answer compiled member code asked
  cases answer.symm.trans given
  exact (h.told.yields compiled member code asked).values_public clear.projects clear.unreserved
    (clear.unreserved.field _ _ (h.told.get compiled member code asked))

/-- Names that are not those of KPIs keep their first bindings. -/
theorem get?_eq_base (valid : (template.reword k text).validate = .ok ()) {x : String}
    (free : Dotless x) (other : x ∉ template.kpis.map Kpi.name) :
    findings.scope.get? x = base.get? x := by
  refine (h.computes.solves valid).1.other x free fun compiled member same => other ?_
  exact h.exists_named_iff.1 ⟨compiled, member, same.symm⟩

/-- The private name of an account token is bound to the balance of the token. -/
theorem get?_nameOf {lines : List MoveLine}
    {sums : String → List MoveLine → Option AccountTotals}
    (sound : sources.ledger.SumsPerAccount lines sums) {chart : Chart}
    (looked : sources.ledger.accountsUnder self.rootAccount = .ok chart) {token : AccountToken}
    (member : token ∈ registry.tokens) :
    base.get? (registry.nameOf token) =
      some (.ofFloat? (ResolvedToken.balanceOver ⟨0, token, chart.select token.selectors⟩ lines
        sums column.bounds self.targetMove column.period.moveLineFilter)) := by
  obtain ⟨t, run⟩ := h.tokens {}
  obtain ⟨registered, chart', -, looked', rfl⟩ := newRegistry_inv run
  cases looked.symm.trans looked'
  obtain ⟨index, known⟩ := Registry.index?_of_mem member
  obtain ⟨stored, stands, text⟩ := Registry.index?_eq_some known
  have written := h.sound.1.written
  obtain rfl :=
    (written stored (List.mem_of_getElem? stands)).eq_of_text (written token member) text
  have resolved : (⟨index, stored, chart.select stored.selectors⟩ : ResolvedToken) ∈
      registered.resolvedTokens (registered.codesIn chart) := by
    refine Registry.mem_resolvedTokens stands ?_
    rw [Registry.codesIn, List.getElem?_map]
    exact congrArg (Option.map _) stands
  obtain ⟨t, t', scope⟩ := h.computes.scope
  obtain ⟨balances, u, u', balanced, bound⟩ := balances_of_firstScope scope
  rw [Registry.nameOf_of_index? known]
  exact bound index _ (Registry.getElem?_of_runs_balances sound rfl balanced resolved)

end YieldsBy

/-! ## Two evaluations -/

namespace YieldsBy

variable
  (h : YieldsBy sources self column (template.reword k text) registry base queue answers findings
    found others founds)
  (h' : YieldsBy sources self column (template.reword k text') registry' base' queue' answers'
    findings' found' others' founds')

include h h'

/-- Compiled KPIs other than `k` differ in private names only. -/
theorem renamed (clear : Clear sources template k) {compiled : CompiledKpi}
    (member : compiled ∈ queue) (other : compiled.kpi.name ≠ k) :
    ∃ compiled' ∈ queue', compiled.Renamed (registry.crossover registry') compiled' := by
  obtain ⟨inside, made⟩ := h.ofKpi_of_mem member other
  obtain ⟨compiled', member', made'⟩ := h'.exists_compiled inside other
  exact ⟨compiled', member', CompiledKpi.renamed_of_ofKpi clear.unreserved
    (clear.plain _ inside other) (h.sound.2 _ inside other) made made'⟩

/-- Reports to which both refer answer the same. -/
theorem answers_eq {compiled compiled' : CompiledKpi} (member : compiled ∈ queue)
    (member' : compiled' ∈ queue') {code : String} (asked : code ∈ compiled.subReports)
    (asked' : code ∈ compiled'.subReports) : answers' code = answers code := by
  have same : others code = others' code := Except.ok.inj
    ((h.told.get compiled member code asked).symm.trans (h'.told.get compiled' member' code asked'))
  have yields := h.told.yields compiled member code asked
  rw [same] at yields
  rw [h.told.answer compiled member code asked, h'.told.answer compiled' member' code asked',
    yields.unique (h'.told.yields compiled' member' code asked')]

/-- Account tokens that both have registered are bound to the same balances. -/
theorem get?_crossover (clear : Clear sources template k) {token : AccountToken}
    (member : token ∈ registry.tokens) (member' : token ∈ registry'.tokens) :
    base'.get? (registry'.nameOf token) = base.get? (registry.nameOf token) := by
  obtain ⟨lines, sums, sound⟩ := clear.sums
  obtain ⟨t, run⟩ := h.tokens {}
  obtain ⟨-, chart, -, looked, -⟩ := newRegistry_inv run
  rw [h.get?_nameOf sound looked member, h'.get?_nameOf sound looked member']

/-- What a KPI reads besides KPIs is bound alike. -/
theorem reads (clear : Clear sources template k)
    (valid : (template.reword k text).validate = .ok ())
    (valid' : (template.reword k text').validate = .ok ()) {compiled : CompiledKpi}
    (member : compiled ∈ queue) (other : compiled.kpi.name ≠ k) {e : Expr}
    (parsed : compiled.expression = .ok e) {x : String} (read : x ∈ e.names)
    (foreign : x ∉ template.kpis.map Kpi.name) :
    findings'.scope.get? (registry.crossover registry' x) = findings.scope.get? x := by
  obtain ⟨inside, made⟩ := h.ofKpi_of_mem member other
  have changes := Registry.changesPrivate_crossover registry registry'
  rcases CompiledKpi.reads_of_ofKpi made parsed x read with identifier | ⟨code, asked, attr, rfl⟩
  · have free := dotless_of_isIdentifier identifier
    rw [h.get?_eq_base valid free foreign]
    rcases CompiledKpi.reads_wrote_of_ofKpi clear.unreserved (clear.plain _ inside other) made
      parsed x read with shown | ⟨tokens, given, token, own, rfl⟩
    · -- a query, or a name that nothing binds
      obtain ⟨t, t', scope⟩ := h.computes.scope
      obtain ⟨u, u', scope'⟩ := h'.computes.scope
      rw [changes.eq_of_not_isPrivate shown, h'.get?_eq_base valid' free foreign]
      exact firstScope_agree rfl scope scope' shown
    · -- an account token
      have stands := h.sound.2 _ inside other tokens given token own
      have stands' := h'.sound.2 _ inside other tokens given token own
      have foreign' : registry'.nameOf token ∉ template.kpis.map Kpi.name := by
        rw [← h'.exists_named_iff]
        rintro ⟨another, known, named⟩
        have shown := h'.shown_name valid' known
        rw [named, Registry.isPrivate_nameOf] at shown
        cases shown
      have free' : Dotless (registry'.nameOf token) := Registry.dotless_privateName _
      rw [Registry.crossover_nameOf stands, h'.get?_eq_base valid' free' foreign']
      exact h.get?_crossover h' clear stands stands'
  · -- a value of another report
    obtain ⟨compiled', member', renamed⟩ := h.renamed h' clear member other
    have asked' : code ∈ compiled'.subReports := renamed.subReports ▸ asked
    obtain ⟨found, get⟩ :=
      Library.exists_get_of_contains (CompiledKpi.crossing_of_mem_subReports made asked).2
    have shown := Library.isPrivate_dotted (clear.unreserved.code code found get) attr
    rw [changes.eq_of_not_isPrivate shown,
      (h.computes.solves valid).1.reports compiled member code asked,
      (h'.computes.solves valid').1.reports compiled' member' code asked', reported, reported,
      h.answers_eq h' member member' asked asked']

/-- KPIs with `good` names, which read no KPIs but such, are found alike by both evaluations. -/
theorem mirrors {good : String → Prop} (clear : Clear sources template k)
    (valid : (template.reword k text).validate = .ok ())
    (valid' : (template.reword k text').validate = .ok ()) (apart : ¬ good k)
    (closed : ∀ compiled ∈ queue, good compiled.kpi.name → ∀ e, compiled.expression = .ok e →
      ∀ x ∈ e.names, x ∈ template.kpis.map Kpi.name → good x) :
    Mirrors (registry.crossover registry') good queue queue' findings.scope findings'.scope where
  changes := Registry.changesPrivate_crossover registry registry'
  renamed := fun compiled member own =>
    h.renamed h' clear member fun same => apart (same ▸ own)
  reads := by
    intro compiled member own e parsed x read
    by_cases named : x ∈ template.kpis.map Kpi.name
    · obtain ⟨other, inside, rfl⟩ := h.exists_named_iff.2 named
      have fixed := (Registry.changesPrivate_crossover registry registry').eq_of_not_isPrivate
        (h.shown_name valid inside)
      exact .inl ⟨other, inside, rfl, closed compiled member own e parsed _ read named, fixed⟩
    · exact .inr (h.reads h' clear valid valid' member (fun same => apart (same ▸ own)) parsed read
        named)

/-- If the names of KPIs are closed under reading in one evaluation, they are in the other. -/
theorem closed_swap {good : String → Prop} (clear : Clear sources template k)
    (valid : (template.reword k text).validate = .ok ()) (apart : ¬ good k)
    (closed : ∀ compiled ∈ queue, good compiled.kpi.name → ∀ e, compiled.expression = .ok e →
      ∀ x ∈ e.names, x ∈ template.kpis.map Kpi.name → good x) :
    ∀ compiled' ∈ queue', good compiled'.kpi.name → ∀ e', compiled'.expression = .ok e' →
      ∀ x ∈ e'.names, x ∈ template.kpis.map Kpi.name → good x := by
  intro compiled' member' own e' parsed' x read named
  obtain ⟨compiled, member, renamed⟩ :=
    h'.renamed h clear member' fun same => apart (same ▸ own)
  obtain ⟨other, inside, rfl⟩ := h.exists_named_iff.2 named
  have fixed := (Registry.changesPrivate_crossover registry' registry).eq_of_not_isPrivate
    (h.shown_name valid inside)
  refine closed compiled member (renamed.kpi ▸ own) _ (renamed.expression e' parsed') _ ?_ named
  rw [Expr.names_rename, ← fixed]
  exact List.mem_map_of_mem read

/-- What the one evaluation binds to a KPI with a `good` name, so does the other. -/
theorem settled {good : String → Prop} (clear : Clear sources template k)
    (valid : (template.reword k text).validate = .ok ())
    (valid' : (template.reword k text').validate = .ok ())
    (mirrors : Mirrors (registry.crossover registry') good queue queue' findings.scope
      findings'.scope) :
    ∀ compiled ∈ queue, good compiled.kpi.name → ∀ value,
      findings.scope.get? compiled.kpi.name = some value →
        findings'.scope.get? compiled.kpi.name = some value := by
  obtain ⟨t, t', scope⟩ := h.computes.scope
  have unbound : ∀ compiled ∈ queue, base.get? compiled.kpi.name = none := by
    intro compiled member
    obtain ⟨kpi, stands, made⟩ := exists_of_mem_mapM h.computes.compile member
    rw [CompiledKpi.kpi_of_ofKpi made]
    exact unbound_of_firstScope valid scope (mem_sortedKpis.1 stands)
  exact Findings.passes_mirrored (wellNamed_of_compile valid h.computes.compile)
    (congrArg Prod.fst h.computes.passes) (h.computes.settles valid) (h'.computes.settles valid')
    mirrors (h.findings_public clear) unbound

/-- KPIs with `good` names, which read no KPIs but such, have results that look alike. -/
theorem isolated (good : String → Prop) (clear : Clear sources template k)
    (valid : (template.reword k text).validate = .ok ())
    (valid' : (template.reword k text').validate = .ok ()) (apart : ¬ good k)
    (closed : ∀ compiled ∈ queue, good compiled.kpi.name → ∀ e, compiled.expression = .ok e →
      ∀ x ∈ e.names, x ∈ template.kpis.map Kpi.name → good x)
    {kpi : Kpi} (member : kpi ∈ template.kpis) (own : good kpi.name) :
    ∃ result result', found.get? kpi.name = some result ∧ found'.get? kpi.name = some result' ∧
      result'.value = result.value ∧ result'.display = result.display ∧
        result'.drilldown = result.drilldown := by
  have other : kpi.name ≠ k := fun same => apart (same ▸ own)
  have mirrors := h.mirrors h' clear valid valid' apart closed
  have mirrors' := h'.mirrors h clear valid' valid apart (h.closed_swap h' clear valid apart closed)
  obtain ⟨compiled, inside, made⟩ := h.exists_compiled member other
  obtain rfl := CompiledKpi.kpi_of_ofKpi made
  obtain ⟨compiled', inside', renamed⟩ := h.renamed h' clear inside other
  obtain ⟨compiled'', again, renamed'⟩ := h'.renamed h clear inside' (renamed.kpi ▸ other)
  have named := wellNamed_of_compile valid h.computes.compile
  have same : compiled''.kpi.name = compiled.kpi.name := by rw [renamed'.kpi, renamed.kpi]
  obtain rfl := named.eq_of_name again inside same
  have alike := mirrors.alike mirrors' (h.findings_public clear) (h'.findings_public clear)
    (h.settled h' clear valid valid' mirrors) (h'.settled h clear valid' valid mirrors') inside
    inside' own renamed renamed'
  obtain ⟨-, style, kept⟩ := (h.computes.settles valid).shows _ inside
  obtain ⟨-, style', kept'⟩ := (h'.computes.settles valid').shows compiled' inside'
  rw [← h.computes.results] at kept
  rw [← h'.computes.results, renamed.kpi] at kept'
  refine ⟨_, _, kept, kept', alike.value, ?_, ?_⟩
  · dsimp only [CompiledKpi.result]
    rw [renamed.kpi]
    exact alike.display _ _
  · dsimp only [CompiledKpi.result, CompiledKpi.isDrillable]
    rw [renamed.kpi, renamed.subReports, alike.isValue]

end YieldsBy

theorem YieldsBy.reads_of_mem (h : YieldsBy sources self column template registry base queue answers
      findings found others founds) {compiled : CompiledKpi} (member : compiled ∈ queue) {e : Expr}
    (parsed : compiled.expression = .ok e) {x : String} (read : x ∈ e.names) :
    sources.library.Reads template compiled.kpi.name x := by
  obtain ⟨t, run⟩ := h.tokens {}
  obtain ⟨registered, chart, tokens, -, looked⟩ := newRegistry_inv run
  have same : registry.tokens = registered.tokens := by rw [looked]
  obtain ⟨kpi, stands, made⟩ := exists_of_mem_mapM h.computes.compile member
  rw [CompiledKpi.ofKpi_congr same] at made
  exact ⟨registered, kpi, compiled, e, tokens, mem_sortedKpis.1 stands,
    congrArg Kpi.name (CompiledKpi.kpi_of_ofKpi made).symm, made, parsed, read⟩

/-- **A formula affects only the KPIs that depend on it.** Let two valid templates differ in the
formula of one KPI `k` only, with acyclic references to other reports and nothing that collides with
the private names of account tokens (`Clear`). If both can be evaluated from an empty cache, every
KPI from which `k` cannot be reached by following the names that the formulas read has the same
value, the same text and the same drill-down flag in both, whatever the formula of `k` is. -/
theorem evaluate_isolated (clear : Clear sources template k)
    (valid : (template.reword k text).validate = .ok ())
    (valid' : (template.reword k text').validate = .ok ())
    (acyclic : sources.library.Acyclic (template.reword k text))
    (acyclic' : sources.library.Acyclic (template.reword k text')) {t t' : Trace} {s s' : Session}
    (run : Runs (sources.evaluate self column (template.reword k text)) { trace := t } found s)
    (run' : Runs (sources.evaluate self column (template.reword k text')) { trace := t' } found' s')
    {kpi : Kpi} (member : kpi ∈ template.kpis)
    (apart : ¬ Relation.ReflTransGen (sources.library.Reads (template.reword k text)) kpi.name k) :
    ∃ result result', found.get? kpi.name = some result ∧ found'.get? kpi.name = some result' ∧
      result'.value = result.value ∧ result'.display = result.display ∧
        result'.drilldown = result.drilldown := by
  have yields := (exists_runs_iff_yields acyclic t).1 ⟨s, run⟩
  have yields' := (exists_runs_iff_yields acyclic' t').1 ⟨s', run'⟩
  obtain ⟨registry, base, queue, answers, findings, others, founds, way⟩ := yields.exists_by
  obtain ⟨registry', base', queue', answers', findings', others', founds', way'⟩ :=
    yields'.exists_by
  refine way.isolated way' (fun x =>
    ¬ Relation.ReflTransGen (sources.library.Reads (template.reword k text)) x k) clear valid valid'
    (not_not_intro .refl) ?_ member apart
  -- what reads a KPI that reaches `k` reaches `k` itself
  intro compiled inside own e parsed x read _ reaches
  exact own (.head (way.reads_of_mem inside parsed read) reaches)

end Sources

/-! ## A formula that loses its syntax -/

namespace Reworded

/-- A formula that will be changed, and a balance. -/
def template : Template where
  code := "r"
  name := "Reworded"
  kpis := [{ name := "changed", expression := "True", sequence := 1 },
    { name := "kept", expression := "bal[0]", sequence := 2 }]

/-- The template before the change. -/
def before : Template := template.reword "changed" "True"

/-- The template with a formula that is cut short, and with a second account token. -/
def after : Template := template.reword "changed" "crd[0] +"

/-- The account token of the balance. -/
def token : AccountToken := ⟨"bal[0]", .balance, .variation, [.code "0"], []⟩

/-- The account token of the new formula. -/
def newToken : AccountToken := ⟨"crd[0]", .credit, .variation, [.code "0"], []⟩

/-- The account token before the change. -/
def registry : Registry := ⟨[token], some [["0"]]⟩

/-- The account tokens after the change, that of the balance being the second. -/
def newRegistry : Registry := ⟨[newToken, token], some [["0"], ["0"]]⟩

/-- The compiled KPIs before the change. -/
def queue : List CompiledKpi :=
  [⟨{ name := "changed", expression := "True", sequence := 1 }, .ok (.bool true), []⟩,
    ⟨{ name := "kept", expression := "bal[0]", sequence := 2 }, .ok (.name "__acc_0"), []⟩]

/-- The compiled KPIs after the change. -/
def newQueue : List CompiledKpi :=
  [⟨{ name := "changed", expression := "crd[0] +", sequence := 1 }, .error .unexpectedEnd, []⟩,
    ⟨{ name := "kept", expression := "bal[0]", sequence := 2 }, .ok (.name "__acc_1"), []⟩]

theorem plain_token : AccountToken.Plain "bal[0]" := by
  have scanned : AccountToken.scan "bal[0]" = .ok [.token token] := by with_unfolding_all rfl
  have cut : Token.ofChars (AccountToken.fill (fun _ => "None") [.token token]) =
      .ok [.name "None"] := by with_unfolding_all rfl
  refine AccountToken.plain_of_scan scanned (AccountToken.setApart_token _) cut ?_
  exact Token.words_nil.cons (by rintro _ ⟨⟩; rfl)

theorem clear : Sources.Clear Sample.sources template "changed" where
  unreserved := ⟨nofun, nofun, nofun⟩
  projects := RecordTables.projects_store {}
  sums := ⟨_, _, Book.sumsPerAccount_ledger _⟩
  shown := nofun
  plain := by
    intro kpi member other
    simp only [template, List.mem_cons, List.not_mem_nil, or_false] at member
    rcases member with rfl | rfl
    · exact absurd rfl other
    · exact plain_token

theorem runs_before :
    ∃ found s, Runs (Sample.sources.evaluate Sample.self Sample.column before) {} found s := by
  have tokens : (Sample.sources.newRegistry Sample.self before).Gives registry :=
    (Sources.steady_newRegistry before).gives (by with_unfolding_all rfl)
  have scope : (Sample.sources.firstScope Sample.self Sample.column before registry).Gives
      ⟨[("__acc_0", .noData)]⟩ := (Sources.steady_firstScope before registry).gives (by rfl)
  have compile : before.sortedKpis.mapM
      (CompiledKpi.ofKpi Sample.sources.library before registry) = .ok queue := by
    rw [Sources.sortedKpis_eq_kpis (by decide)]
    with_unfolding_all rfl
  obtain ⟨s, run⟩ := Sources.evaluate_runs_alone tokens scope compile (by simp [queue]) {}
  exact ⟨_, s, run⟩

theorem runs_after :
    ∃ found s, Runs (Sample.sources.evaluate Sample.self Sample.column after) {} found s := by
  have tokens : (Sample.sources.newRegistry Sample.self after).Gives newRegistry :=
    (Sources.steady_newRegistry after).gives (by with_unfolding_all rfl)
  have scope : (Sample.sources.firstScope Sample.self Sample.column after newRegistry).Gives
      ⟨[("__acc_1", .noData), ("__acc_0", .noData)]⟩ :=
    (Sources.steady_firstScope after newRegistry).gives (by rfl)
  have compile : after.sortedKpis.mapM
      (CompiledKpi.ofKpi Sample.sources.library after newRegistry) = .ok newQueue := by
    rw [Sources.sortedKpis_eq_kpis (by decide)]
    with_unfolding_all rfl
  obtain ⟨s, run⟩ := Sources.evaluate_runs_alone tokens scope compile (by simp [newQueue]) {}
  exact ⟨_, s, run⟩

/-- No formula reads the one that is changed. -/
theorem apart : ¬ Relation.ReflTransGen (Sample.sources.library.Reads before) "kept" "changed" := by
  have tokens : Registry.registerAll {} (before.kpis.map Kpi.expression) = .ok ⟨[token], none⟩ := by
    with_unfolding_all rfl
  have compile : before.kpis.mapM
      (CompiledKpi.ofKpi Sample.sources.library before ⟨[token], none⟩) = .ok queue := by
    with_unfolding_all rfl
  exact Library.apart_of_compiled (by decide) tokens compile (by simp [queue, Expr.names])

end Reworded

/-- The formula of one KPI is cut short and gets an account token of its own: the other KPI, whose
account token is renumbered, shows the same as before. -/
theorem Sources.evaluate_isolated_reworded :
    Reworded.before.validate = .ok () ∧ Reworded.after.validate = .ok () ∧
    ∃ found s found' s' result result',
      Runs (Sample.sources.evaluate Sample.self Sample.column Reworded.before) {} found s ∧
      Runs (Sample.sources.evaluate Sample.self Sample.column Reworded.after) {} found' s' ∧
      found.get? "kept" = some result ∧ found'.get? "kept" = some result' ∧
      result'.value = result.value ∧ result'.display = result.display ∧
        result'.drilldown = result.drilldown := by
  obtain ⟨found, s, run⟩ := Reworded.runs_before
  obtain ⟨found', s', run'⟩ := Reworded.runs_after
  have valid : Reworded.before.validate = .ok () := by rfl
  have valid' : Reworded.after.validate = .ok () := by rfl
  have kept : ({ name := "kept", expression := "bal[0]", sequence := 2 } : Kpi) ∈
      Reworded.template.kpis := by
    simp [Reworded.template]
  obtain ⟨result, result', same⟩ := Sources.evaluate_isolated Reworded.clear valid valid'
    (Library.acyclic_of_subReports_eq_nil (by with_unfolding_all rfl))
    (Library.acyclic_of_subReports_eq_nil (by with_unfolding_all rfl))
    run run' kept Reworded.apart
  exact ⟨valid, valid', found, s, found', s', result, result', run, run', same⟩

/-! ## A report with a private code -/

namespace Colliding

/-- A report whose code is the first private name. -/
def inner : Template where
  code := "__acc_0"
  name := "Inner"
  kpis := [{ name := "x", expression := "True" }]

/-- A formula that will be changed, and an attribute of a balance. -/
def template : Template where
  code := "r"
  name := "Colliding"
  kpis := [{ name := "changed", expression := "True", sequence := 1 },
    { name := "kept", expression := "bal[0].x", sequence := 2 }]

/-- The template before the change. -/
def before : Template := template.reword "changed" "True"

/-- The template with an account token in the formula that is changed. -/
def after : Template := template.reword "changed" "crd[0]"

/-- The library with the report. -/
def sources : Sources :=
  { Sample.sources with library := .ofTemplates [inner] }

/-- The account tokens before the change. -/
def registry : Registry := ⟨[Reworded.token], some [["0"]]⟩

/-- The account tokens after the change. -/
def newRegistry : Registry := ⟨[Reworded.newToken, Reworded.token], some [["0"], ["0"]]⟩

/-- The compiled KPI of the report. -/
def innerQueue : List CompiledKpi :=
  [⟨{ name := "x", expression := "True" }, .ok (.bool true), []⟩]

/-- The compiled KPIs before the change: the attribute of a balance has become a reference to the
report. -/
def queue : List CompiledKpi :=
  [⟨{ name := "changed", expression := "True", sequence := 1 }, .ok (.bool true), []⟩,
    ⟨{ name := "kept", expression := "bal[0].x", sequence := 2 }, .ok (.name "__acc_0.x"),
      ["__acc_0"]⟩]

/-- The compiled KPIs after the change. -/
def newQueue : List CompiledKpi :=
  [⟨{ name := "changed", expression := "crd[0]", sequence := 1 }, .ok (.name "__acc_0"), []⟩,
    ⟨{ name := "kept", expression := "bal[0].x", sequence := 2 },
      .ok (.member (.name "__acc_1") "x"), []⟩]

/-- What passes over a queue report. -/
def ended (base : Scope) (answers : Answers) (queue : List CompiledKpi) : PeriodResults :=
  let passes := Findings.passes "day" sources.settings.locale answers { scope := base } queue
  ⟨passes.1.results, passes.2⟩

/-- What the report yields. -/
def innerFound : PeriodResults := ended .empty (fun _ => none) innerQueue

theorem get_inner : sources.library.get "__acc_0" = .ok inner := by
  rfl

theorem template_of_get {code : String} {other : Template}
    (h : sources.library.get code = .ok other) : code = "__acc_0" ∧ other = inner := by
  have member := Library.code_of_get h
  unfold Library.get Result.ofOption at h
  split at h
  · rename_i found
    cases h
    have stored := Table.mem_of_get? found
    have reports : sources.library.reports = [("__acc_0", inner)] := by rfl
    rw [reports] at stored
    simpa using stored
  · cases h

theorem not_reaches_inner (code : String) : ¬ sources.library.Reaches inner code :=
  Library.not_reaches_of_subReports_eq_nil (by with_unfolding_all rfl) code

theorem acyclic_before : sources.library.Acyclic before where
  root := by
    have asked : sources.library.subReports before = ["__acc_0"] := by with_unfolding_all rfl
    rintro (refer | ⟨refer, get, rest⟩)
    · rw [asked] at refer
      exact absurd (List.mem_singleton.1 refer) (by decide)
    · obtain ⟨-, rfl⟩ := template_of_get get
      exact not_reaches_inner _ rest
  below := by
    intro code other _ get
    obtain ⟨-, rfl⟩ := template_of_get get
    exact not_reaches_inner code

theorem acyclic_after : sources.library.Acyclic after :=
  Library.acyclic_of_subReports_eq_nil (by with_unfolding_all rfl)

theorem yields_inner : Sources.Yields sources Sample.self Sample.column inner innerFound := by
  have tokens : (sources.newRegistry Sample.self inner).Gives ⟨[], some []⟩ :=
    (Sources.steady_newRegistry inner).gives (by with_unfolding_all rfl)
  have scope : (sources.firstScope Sample.self Sample.column inner ⟨[], some []⟩).Gives .empty :=
    (Sources.steady_firstScope inner ⟨[], some []⟩).gives (by rfl)
  have compile : inner.sortedKpis.mapM (CompiledKpi.ofKpi sources.library inner ⟨[], some []⟩) =
      .ok innerQueue := by with_unfolding_all rfl
  exact .intro (fun _ => inner) (fun _ => innerFound) tokens ⟨⟨{}, scope {}⟩, compile, rfl, rfl⟩
    (by simp [innerQueue]) (by simp [innerQueue]) (by simp [innerQueue])

/-- The first scope before the change. -/
def base : Scope := ⟨[("__acc_0", .noData)]⟩

/-- The first scope after the change. -/
def newBase : Scope := ⟨[("__acc_1", .noData), ("__acc_0", .noData)]⟩

/-- The answer of the report. -/
def answers : Answers := fun _ => some innerFound.values

theorem runs_before : ∃ s, Runs (sources.evaluate Sample.self Sample.column before) {}
    (ended base answers queue) s := by
  have tokens : (sources.newRegistry Sample.self before).Gives registry :=
    (Sources.steady_newRegistry before).gives (by with_unfolding_all rfl)
  have scope : (sources.firstScope Sample.self Sample.column before registry).Gives base :=
    (Sources.steady_firstScope before registry).gives (by rfl)
  have compile : before.sortedKpis.mapM (CompiledKpi.ofKpi sources.library before registry) =
      .ok queue := by
    rw [Sources.sortedKpis_eq_kpis (by decide)]
    with_unfolding_all rfl
  have yields : Sources.Yields sources Sample.self Sample.column before
      (ended base answers queue) :=
    .intro (fun _ => inner) (fun _ => innerFound) tokens ⟨⟨{}, scope {}⟩, compile, rfl, rfl⟩
      (by simp [queue, get_inner]) (by simp [queue, yields_inner]) (by simp [answers])
  exact (Sources.exists_runs_iff_yields acyclic_before {}).2 yields

theorem runs_after : ∃ s, Runs (sources.evaluate Sample.self Sample.column after) {}
    (ended newBase (fun _ => none) newQueue) s := by
  have tokens : (sources.newRegistry Sample.self after).Gives newRegistry :=
    (Sources.steady_newRegistry after).gives (by with_unfolding_all rfl)
  have scope : (sources.firstScope Sample.self Sample.column after newRegistry).Gives newBase :=
    (Sources.steady_firstScope after newRegistry).gives (by rfl)
  have compile : after.sortedKpis.mapM (CompiledKpi.ofKpi sources.library after newRegistry) =
      .ok newQueue := by
    rw [Sources.sortedKpis_eq_kpis (by decide)]
    with_unfolding_all rfl
  exact Sources.evaluate_runs_alone tokens scope compile (by simp [newQueue]) {}

theorem value_before : ∃ result, (ended base answers queue).get? "kept" = some result ∧
    result.value = .bool true := by
  have shown : ((ended base answers queue).get? "kept").map KpiResult.value =
      some (.bool true) := by with_unfolding_all rfl
  exact Option.map_eq_some_iff.1 shown

theorem value_after : ∃ result, (ended newBase (fun _ => none) newQueue).get? "kept" = some result ∧
    result.value = .noData := by
  have shown : ((ended newBase (fun _ => none) newQueue).get? "kept").map KpiResult.value =
      some .noData := by with_unfolding_all rfl
  exact Option.map_eq_some_iff.1 shown

/-- The characters of a formula without account tokens. -/
def chars (text : String) : List Piece :=
  text.toList.map .plain

theorem plain_word : AccountToken.Plain "True" := by
  have scanned : AccountToken.scan "True" = .ok (chars "True") := by with_unfolding_all rfl
  have cut : Token.ofChars (AccountToken.fill (fun _ => "None") (chars "True")) =
      .ok [.name "True"] := by with_unfolding_all rfl
  have apart : AccountToken.SetApart (chars "True") :=
    (((AccountToken.setApart_nil.cons_plain _).cons_plain _).cons_plain _).cons_plain _
  exact AccountToken.plain_of_scan scanned apart cut
    (Token.words_nil.cons (by rintro _ ⟨⟩; rfl))

theorem plain_token : AccountToken.Plain "crd[0]" := by
  have scanned : AccountToken.scan "crd[0]" = .ok [.token Reworded.newToken] := by
    with_unfolding_all rfl
  have cut : Token.ofChars (AccountToken.fill (fun _ => "None") [.token Reworded.newToken]) =
      .ok [.name "None"] := by with_unfolding_all rfl
  refine AccountToken.plain_of_scan scanned (AccountToken.setApart_token _) cut ?_
  exact Token.words_nil.cons (by rintro _ ⟨⟩; rfl)

theorem plain_attribute : AccountToken.Plain "bal[0].x" := by
  have scanned : AccountToken.scan "bal[0].x" = .ok (.token Reworded.token :: chars ".x") := by
    with_unfolding_all rfl
  have cut : Token.ofChars (AccountToken.fill (fun _ => "None")
      (.token Reworded.token :: chars ".x")) = .ok [.name "None", .punct .dot, .name "x"] := by
    with_unfolding_all rfl
  have text : chars ".x" = [.plain '.', .plain 'x'] := by rfl
  have apart : AccountToken.SetApart (.token Reworded.token :: chars ".x") := by
    rw [text]
    refine AccountToken.SetApart.cons_token
      ((AccountToken.setApart_nil.cons_plain _).cons_plain _) ?_
    rintro c ⟨rfl⟩
    decide
  have ending : Token.Words (Template.isPrivate · = false) [.punct .dot, .name "x"] :=
    (Token.words_nil.cons (by rintro _ ⟨⟩; rfl)).cons_punct .dot
  exact AccountToken.plain_of_scan scanned apart cut (ending.cons (by rintro _ ⟨⟩; rfl))

/-- No formula reads the one that is changed. -/
theorem apart : ¬ Relation.ReflTransGen (sources.library.Reads before) "kept" "changed" := by
  have tokens : Registry.registerAll {} (before.kpis.map Kpi.expression) =
      .ok ⟨[Reworded.token], none⟩ := by with_unfolding_all rfl
  have compile : before.kpis.mapM
      (CompiledKpi.ofKpi sources.library before ⟨[Reworded.token], none⟩) = .ok queue := by
    with_unfolding_all rfl
  exact Library.apart_of_compiled (by decide) tokens compile (by simp [queue, Expr.names])

end Colliding

/-- A report of the library with a private code can tell private names apart: where account tokens
are renumbered, an attribute of a balance may or may not become a reference to the report. -/
theorem Sources.isolation_fails_for_private_code :
    Colliding.before.validate = .ok () ∧ Colliding.after.validate = .ok () ∧
    Colliding.sources.library.reports.values = [Colliding.inner] ∧
    Colliding.inner.validate = .ok () ∧
    Colliding.sources.library.Acyclic Colliding.before ∧
    Colliding.sources.library.Acyclic Colliding.after ∧
    (∀ kpi ∈ Colliding.before.kpis ++ Colliding.after.kpis, AccountToken.Plain kpi.expression) ∧
    Colliding.template.queries = [] ∧
    ¬ Relation.ReflTransGen (Colliding.sources.library.Reads Colliding.before) "kept" "changed" ∧
    ∃ found s found' s' result result',
      Runs (Colliding.sources.evaluate Sample.self Sample.column Colliding.before) {} found s ∧
      Runs (Colliding.sources.evaluate Sample.self Sample.column Colliding.after) {} found' s' ∧
      found.get? "kept" = some result ∧ found'.get? "kept" = some result' ∧
      result.value = .bool true ∧ result'.value = .noData := by
  have plain : ∀ kpi ∈ Colliding.before.kpis ++ Colliding.after.kpis,
      AccountToken.Plain kpi.expression := by
    have kpis : (Colliding.before.kpis ++ Colliding.after.kpis).map Kpi.expression =
        ["True", "bal[0].x", "crd[0]", "bal[0].x"] := by rfl
    intro kpi member
    have written := List.mem_map_of_mem (f := Kpi.expression) member
    rw [kpis] at written
    simp only [List.mem_cons, List.not_mem_nil, or_false] at written
    rcases written with same | same | same | same <;> rw [same]
    · exact Colliding.plain_word
    · exact Colliding.plain_attribute
    · exact Colliding.plain_token
    · exact Colliding.plain_attribute
  obtain ⟨s, run⟩ := Colliding.runs_before
  obtain ⟨s', run'⟩ := Colliding.runs_after
  obtain ⟨result, stored, value⟩ := Colliding.value_before
  obtain ⟨result', stored', value'⟩ := Colliding.value_after
  have valid : Colliding.before.validate = .ok () := by rfl
  have valid' : Colliding.after.validate = .ok () := by rfl
  have reports : Colliding.sources.library.reports.values = [Colliding.inner] := by rfl
  have inner : Colliding.inner.validate = .ok () := by rfl
  exact ⟨valid, valid', reports, inner, Colliding.acyclic_before, Colliding.acyclic_after, plain,
    rfl, Colliding.apart, _, s, _, s', result, result', run, run', stored, stored', value, value'⟩

end KpiReport
