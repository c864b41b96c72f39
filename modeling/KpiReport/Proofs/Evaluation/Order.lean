import KpiReport.Proofs.Evaluation.Equations
import KpiReport.Proofs.Evaluation.Memo

/-!
# The order of the key figures does not matter

The sequence numbers of the KPIs decide in which order the passes evaluate them. They decide neither
which KPIs get a value nor which value: the main statement, `Sources.evaluate_resequence`, compares the
evaluations of a template under two assignments of sequence numbers.

Both evaluations end with a solution, and each solution is the least one: whatever the passes bind
under one order has its binding in the final scope of the other (`Findings.passes_scope_le`). So
the final scopes bind the same names to the same values.
-/

namespace KpiReport

/-! ## Other sequence numbers -/

/-- The KPI with the sequence number that `f` gives for its name. -/
def Kpi.resequence (f : String → Int) (kpi : Kpi) : Kpi :=
  { kpi with sequence := f kpi.name }

/-- The template with the sequence numbers that `f` gives for the names of its KPIs. -/
def Template.resequence (f : String → Int) (template : Template) : Template :=
  { template with kpis := template.kpis.map (Kpi.resequence f) }

/-- The compiled KPI with the sequence number that `f` gives for its name. -/
def CompiledKpi.resequence (f : String → Int) (compiled : CompiledKpi) : CompiledKpi :=
  { compiled with kpi := compiled.kpi.resequence f }

variable {f g : String → Int}

namespace Template

theorem map_resequence {α : Type} (h : Kpi → α) (same : ∀ kpi, h (kpi.resequence f) = h kpi)
    (template : Template) : (template.resequence f).kpis.map h = template.kpis.map h := by
  rw [resequence, List.map_map]
  congr 1
  funext kpi
  exact same kpi

theorem checkKpis_resequence (context : DefinitionContext) (used : List String) (kpis : List Kpi) :
    checkKpis context used (kpis.map (Kpi.resequence f)) = checkKpis context used kpis := by
  induction kpis generalizing used with
  | nil => rfl
  | cons kpi kpis ih =>
    rw [List.map_cons, checkKpis, checkKpis, ih]
    rfl

theorem isNone_kpi?_resequence (template : Template) (name : String) :
    ((template.resequence f).kpi? name).isNone = (template.kpi? name).isNone := by
  rw [kpi?, kpi?, resequence, List.find?_map, Option.isNone_map]
  rfl

theorem checkPosition_resequence (template : Template) (context : DefinitionContext)
    (periods : List String) :
    (template.resequence f).checkPosition context periods =
      template.checkPosition context periods := by
  funext position
  simp only [checkPosition, isNone_kpi?_resequence]

theorem validate_resequence (template : Template) :
    (template.resequence f).validate = template.validate := by
  simp only [validate, checkPosition_resequence]
  simp only [resequence, checkKpis_resequence]

theorem mem_resequence {template : Template} {kpi : Kpi} (member : kpi ∈ template.kpis) :
    kpi.resequence f ∈ (template.resequence f).sortedKpis :=
  List.mem_mergeSort.2 (List.mem_map_of_mem member)

theorem exists_of_mem_resequence {template : Template} {kpi : Kpi}
    (member : kpi ∈ (template.resequence f).sortedKpis) :
    ∃ origin ∈ template.kpis, kpi = origin.resequence f := by
  obtain ⟨origin, inside, same⟩ := List.mem_map.1 (List.mem_mergeSort.1 member)
  exact ⟨origin, inside, same.symm⟩

end Template

theorem CompiledKpi.ofKpi_resequence (library : Library) (template : Template) (registry : Registry)
    (kpi : Kpi) :
    ofKpi library (template.resequence f) registry (kpi.resequence f) =
      (ofKpi library template registry kpi).map (resequence f) := by
  unfold ofKpi
  dsimp only [Kpi.resequence]
  cases registry.substitute kpi.expression with
  | error e => rfl
  | ok formula =>
    dsimp only
    cases dottedReferences formula with
    | error fault => rfl
    | ok references =>
      dsimp only
      have crossing : library.isCrossReference (template.resequence f) =
          library.isCrossReference template := rfl
      have check : library.checkReference (template.resequence f) (kpi.resequence f) =
          library.checkReference template kpi := rfl
      rw [crossing]
      change Except.map _ ((references.filter _).forM
        (library.checkReference (template.resequence f) (kpi.resequence f))) = _
      rw [check]
      cases (references.filter (library.isCrossReference template)).forM
        (library.checkReference template kpi) <;> rfl

namespace Library

variable {library : Library} {template : Template}

theorem subReports_resequence : library.subReports (template.resequence f) =
    library.subReports template := by
  have expressions : (template.resequence f).kpis.map Kpi.expression =
      template.kpis.map Kpi.expression := template.map_resequence _ fun _ => rfl
  unfold subReports
  rw [expressions]
  cases Registry.registerAll {} (template.kpis.map Kpi.expression) with
  | error e => rfl
  | ok registry =>
    dsimp only
    rw [Template.resequence, List.flatMap_map]
    congr 1
    funext kpi
    have compiled := CompiledKpi.ofKpi_resequence library template registry kpi (f := f)
    rw [Template.resequence] at compiled
    rw [compiled]
    cases CompiledKpi.ofKpi library template registry kpi <;> rfl

theorem reaches_resequence {code : String} :
    library.Reaches (template.resequence f) code ↔ library.Reaches template code := by
  constructor
  · rintro (asked | ⟨asked, get, rest⟩)
    · rw [subReports_resequence] at asked
      exact .refer asked
    · rw [subReports_resequence] at asked
      exact .step asked get rest
  · rintro (asked | ⟨asked, get, rest⟩)
    · rw [← subReports_resequence (f := f)] at asked
      exact .refer asked
    · rw [← subReports_resequence (f := f)] at asked
      exact .step asked get rest

theorem Acyclic.resequence (h : library.Acyclic template) (f : String → Int) :
    library.Acyclic (template.resequence f) where
  root := fun reached => h.root (reaches_resequence.1 reached)
  below := fun code other reached => h.below code other (reaches_resequence.1 reached)

end Library

/-! ## Least solutions -/

/-- The compiled KPIs are the same but for their sequence numbers. -/
def CompiledKpi.Alike (a b : CompiledKpi) : Prop :=
  ∃ f, b = a.resequence f

theorem Outcome.ne_of_binding? {outcome : Outcome} {value : Value}
    (bound : outcome.binding? = some value) (x : String) : outcome ≠ .error (.undefinedName x) := by
  rintro rfl
  cases bound

namespace Findings

variable {period : String} {locale : Locale} {answers : Answers}

theorem exists_of_lookup_dottedEntries {code x : String} (free : Dotless code)
    {values : List (String × Value)} {value : Value}
    (found : List.lookup x (dottedEntries code values) = some value) :
    ∃ kpi, x = Library.dotted code kpi ∧ List.lookup kpi values = some value := by
  by_cases plain : Dotless x
  · rw [lookup_dottedEntries_of_dotless plain] at found
    cases found
  · obtain ⟨code', kpi, free', rfl⟩ := exists_eq_dotted plain
    rw [lookup_dottedEntries free free'] at found
    split at found
    · rename_i same
      subst same
      exact ⟨kpi, rfl, found⟩
    · cases found

theorem bindAnswer_le {findings : Findings} {code : String} {F : Scope} (free : Dotless code)
    (answered : Answered answers F code) (le : findings.scope ≤ F) :
    (findings.bindAnswer answers code).scope ≤ F := by
  unfold bindAnswer
  split
  · exact le
  · cases given : answers code with
    | none => exact le
    | some values =>
      intro x value bound
      rw [get?_bindReport, Option.or_eq_some_iff] at bound
      rcases bound with found | ⟨-, old⟩
      · obtain ⟨kpi, rfl, told⟩ := exists_of_lookup_dottedEntries free found
        rw [answered kpi, reported, given]
        exact told
      · exact le x value old

theorem prepared_le {findings : Findings} {compiled : CompiledKpi} {F : Scope}
    (free : ∀ code ∈ compiled.subReports, Dotless code)
    (answered : ∀ code ∈ compiled.subReports, Answered answers F code)
    (le : findings.scope ≤ F) : (findings.prepared answers compiled).scope ≤ F := by
  refine prepared_keeps (J := fun findings => findings.scope ≤ F) ?_ le
  exact fun code asked findings le => bindAnswer_le (free code asked) (answered code asked) le

/-- The evaluation of a KPI binds nothing that a scope lacks in which its formula has been solved. -/
theorem visited_le {findings : Findings} {compiled : CompiledKpi} {F : Scope}
    (free : ∀ code ∈ compiled.subReports, Dotless code)
    (answered : ∀ code ∈ compiled.subReports, Answered answers F code)
    (solved : F.get? compiled.kpi.name = Outcome.binding? (compiled.eval F))
    (le : findings.scope ≤ F) : (findings.visited period locale answers compiled).scope ≤ F := by
  have prepared := prepared_le free answered le
  intro x value bound
  rcases get?_visited bound with ⟨rfl, given⟩ | old
  · rw [solved, CompiledKpi.eval_of_le prepared (Outcome.ne_of_binding? given), given]
  · exact prepared x value old

theorem results_prepared (findings : Findings) (compiled : CompiledKpi) :
    (findings.prepared answers compiled).results = findings.results := by
  refine prepared_keeps (J := fun after => after.results = findings.results) ?_ rfl
  intro code _ after same
  rw [← same, bindAnswer]
  split
  · rfl
  · cases answers code <;> rfl

theorem sorted_visited {findings : Findings} {compiled : CompiledKpi}
    (sorted : findings.results.Sorted) :
    (findings.visited period locale answers compiled).results.Sorted := by
  obtain ⟨style, kept⟩ := results_settled (findings.prepared answers compiled) compiled
    (compiled.eval (findings.prepared answers compiled).scope) period locale
  rw [visited, kept, results_prepared]
  exact Table.sorted_insert sorted _ _

/-- Every binding that the passes over a queue make is in the final scope of a solution of the same
formulas, in whatever order these stand. -/
theorem passes_scope_le {queue queue' : List CompiledKpi} (named : WellNamed queue)
    (alike : ∀ compiled ∈ queue, ∃ compiled' ∈ queue', compiled.Alike compiled')
    {findings before after : Findings} (settles : Settles period locale answers before after queue')
    (le : findings.scope ≤ after.scope) :
    (findings.passes period locale answers queue).1.scope ≤ after.scope := by
  refine passes_keeps (J := fun findings => findings.scope ≤ after.scope) ?_ le
  intro compiled member findings le
  obtain ⟨_, inside, f, rfl⟩ := alike compiled member
  exact visited_le (named.reports compiled member)
    (settles.answered (compiled.resequence f) inside) (settles.shows (compiled.resequence f) inside).1
    le

end Findings

/-- The results differ at most in their styles. -/
def KpiResult.Alike (a b : KpiResult) : Prop :=
  { a with style := b.style } = b

namespace Sources

variable {sources : Sources} {self : Instance} {column : Column} {template : Template}
  {registry : Registry} {base : Scope} {queue queue' : List CompiledKpi} {answers : Answers}
  {findings findings' : Findings} {found found' : PeriodResults}

theorem alike_of_compile
    (compile : (template.resequence f).sortedKpis.mapM
      (CompiledKpi.ofKpi sources.library (template.resequence f) registry) = .ok queue)
    (compile' : (template.resequence g).sortedKpis.mapM
      (CompiledKpi.ofKpi sources.library (template.resequence g) registry) = .ok queue') :
    ∀ compiled ∈ queue, ∃ compiled' ∈ queue', compiled.Alike compiled' := by
  intro compiled member
  obtain ⟨_, stands, made⟩ := exists_of_mem_mapM compile member
  obtain ⟨kpi, inside, rfl⟩ := Template.exists_of_mem_resequence stands
  obtain ⟨compiled', member', made'⟩ :=
    exists_mem_of_mapM compile' (Template.mem_resequence inside (f := g))
  refine ⟨compiled', member', g, ?_⟩
  rw [CompiledKpi.ofKpi_resequence] at made made'
  obtain ⟨origin, compiles, rfl⟩ := map_eq_ok.1 made
  obtain ⟨origin', compiles', rfl⟩ := map_eq_ok.1 made'
  rw [compiles] at compiles'
  cases compiles'
  rfl

/-- What a template computes under one order is below what it computes under another. -/
theorem Computes.scope_le (valid : template.validate = .ok ())
    (h : Computes sources self column (template.resequence f) registry base queue answers findings
      found)
    (h' : Computes sources self column (template.resequence g) registry base queue' answers findings'
      found') : findings.scope ≤ findings'.scope := by
  have settles := h'.settles ((Template.validate_resequence template).trans valid)
  have le : (Findings.passes column.period.name sources.settings.locale answers { scope := base }
      queue).1.scope ≤ findings'.scope :=
    Findings.passes_scope_le
      (wellNamed_of_compile ((Template.validate_resequence template).trans valid) h.compile)
      (alike_of_compile h.compile h'.compile) settles settles.scope_le
  rw [h.passes] at le
  exact le

theorem Computes.alike (valid : template.validate = .ok ())
    (h : Computes sources self column (template.resequence f) registry base queue answers findings
      found)
    (h' : Computes sources self column (template.resequence g) registry base queue' answers findings'
      found') {kpi : Kpi} (member : kpi ∈ template.kpis) :
    ∃ result result', found.get? kpi.name = some result ∧ found'.get? kpi.name = some result' ∧
      result.Alike result' := by
  have valid₁ := (Template.validate_resequence (f := f) template).trans valid
  have valid₂ := (Template.validate_resequence (f := g) template).trans valid
  obtain ⟨compiled, inside, made⟩ := exists_mem_of_mapM h.compile (Template.mem_resequence member)
  obtain ⟨_, inside', order, rfl⟩ := alike_of_compile h.compile h'.compile compiled inside
  have named := CompiledKpi.kpi_of_ofKpi made
  obtain ⟨-, style, kept⟩ := (h.settles valid₁).shows compiled inside
  obtain ⟨-, style', kept'⟩ := (h'.settles valid₂).shows _ inside'
  have same : compiled.eval findings'.scope = compiled.eval findings.scope := by
    refine CompiledKpi.eval_congr ((wellNamed_of_compile valid₁ h.compile).reads compiled inside)
      fun x _ => ?_
    exact Scope.le_antisymm (h'.scope_le valid h) (h.scope_le valid h') x
  rw [← h.results] at kept
  rw [← h'.results] at kept'
  rw [named] at kept
  rw [show (compiled.resequence order).kpi.name = compiled.kpi.name from rfl, named] at kept'
  refine ⟨_, _, kept, kept', ?_⟩
  rw [show (compiled.resequence order).eval findings'.scope = compiled.eval findings'.scope from rfl,
    same]
  rfl

/-! ## What the template yields -/

theorem newRegistry_resequence (template : Template) :
    sources.newRegistry self (template.resequence f) = sources.newRegistry self template := by
  have expressions : (template.resequence f).kpis.map Kpi.expression =
      template.kpis.map Kpi.expression := template.map_resequence _ fun _ => rfl
  rw [newRegistry, newRegistry, expressions]
  rfl

theorem compile_resequence
    (compile : (template.resequence f).sortedKpis.mapM
      (CompiledKpi.ofKpi sources.library (template.resequence f) registry) = .ok queue)
    (g : String → Int) : ∃ queue', (template.resequence g).sortedKpis.mapM
      (CompiledKpi.ofKpi sources.library (template.resequence g) registry) = .ok queue' := by
  refine exists_mapM_eq_ok fun kpi stands => ?_
  obtain ⟨origin, inside, rfl⟩ := Template.exists_of_mem_resequence stands
  obtain ⟨compiled, -, made⟩ :=
    exists_mem_of_mapM compile (Template.mem_resequence inside (f := f))
  rw [CompiledKpi.ofKpi_resequence] at made ⊢
  obtain ⟨plain, compiles, -⟩ := map_eq_ok.1 made
  exact ⟨_, map_eq_ok.2 ⟨plain, compiles, rfl⟩⟩

theorem Yields.resequence (valid : template.validate = .ok ())
    (h : Yields sources self column (template.resequence f) found) (g : String → Int) :
    ∃ found', Yields sources self column (template.resequence g) found' ∧
      ∀ kpi ∈ template.kpis, ∃ result result', found.get? kpi.name = some result ∧
        found'.get? kpi.name = some result' ∧ result.Alike result' := by
  cases h with
  | @intro _ registry base queue answers findings _ others founds tokens computes get yields
      answer =>
    rw [newRegistry_resequence, ← newRegistry_resequence (f := g)] at tokens
    obtain ⟨queue', compile⟩ := compile_resequence computes.compile g
    have computes' : Computes sources self column (template.resequence g) registry base queue'
        answers _ ⟨_, _⟩ := ⟨computes.scope, compile, rfl, rfl⟩
    have asks : ∀ compiled ∈ queue', ∃ compiled' ∈ queue,
        compiled'.subReports = compiled.subReports := by
      intro compiled member
      obtain ⟨_, inside, order, rfl⟩ :=
        alike_of_compile computes'.compile computes.compile compiled member
      exact ⟨_, inside, rfl⟩
    refine ⟨_, .intro others founds tokens computes' ?_ ?_ ?_,
      fun kpi member => computes.alike valid computes' member⟩
    · intro compiled member code asked
      obtain ⟨compiled', inside, same⟩ := asks compiled member
      exact get compiled' inside code (same ▸ asked)
    · intro compiled member code asked
      obtain ⟨compiled', inside, same⟩ := asks compiled member
      exact yields compiled' inside code (same ▸ asked)
    · intro compiled member code asked
      obtain ⟨compiled', inside, same⟩ := asks compiled member
      exact answer compiled' inside code (same ▸ asked)

/-! ## Values found one after the other -/

/-- The names whose values can be found one after the other, each from values found before: the first
scope, the reports that the formulas refer to, and the formulas themselves. No order of the KPIs is
involved. -/
inductive Derives (sources : Sources) (inst : Instance) (column : Column) (template : Template) :
    String → Value → Prop where
  | first {registry : Registry} {base : Scope} {x : String} {value : Value}
      (tokens : (sources.newRegistry inst template).Gives registry)
      (scope : (sources.firstScope inst column template registry).Gives base)
      (bound : base.get? x = some value) : Derives sources inst column template x value
  | report {code : String} {other : Template} {found : PeriodResults} {kpi : String}
      {result : KpiResult} (asked : code ∈ sources.library.subReports template)
      (get : sources.library.get code = .ok other) (yields : Yields sources inst column other found)
      (stored : found.get? kpi = some result) :
      Derives sources inst column template (Library.dotted code kpi) result.value
  | formula {registry : Registry} {kpi : Kpi} {compiled : CompiledKpi} {S : Scope} {value : Value}
      (tokens : (sources.newRegistry inst template).Gives registry)
      (member : kpi ∈ template.kpis)
      (made : CompiledKpi.ofKpi sources.library template registry kpi = .ok compiled)
      (inputs : ∀ x value, S.get? x = some value → Derives sources inst column template x value)
      (bound : Outcome.binding? (compiled.eval S) = some value) :
      Derives sources inst column template kpi.name value

/-- The formula of a KPI has a value once the names that it reads have values. -/
def Attains (sources : Sources) (inst : Instance) (column : Column) (template : Template) (kpi : Kpi)
    (value : Value) : Prop :=
  ∃ registry compiled, ∃ S : Scope, (sources.newRegistry inst template).Gives registry ∧
    CompiledKpi.ofKpi sources.library template registry kpi = .ok compiled ∧
    (∀ x value, S.get? x = some value → Derives sources inst column template x value) ∧
    compiled.eval S = .ok value

theorem Computes.sorted
    (h : Computes sources self column template registry base queue answers findings found) :
    found.results.Sorted := by
  have sorted : (Findings.passes column.period.name sources.settings.locale answers
      { scope := base } queue).1.results.Sorted := by
    refine Findings.passes_keeps (J := fun findings => findings.results.Sorted) ?_ Table.sorted_nil
    exact fun compiled _ findings sorted => Findings.sorted_visited sorted
  rw [h.passes] at sorted
  rw [h.results]
  exact sorted

theorem Yields.reported {answers : Answers} {code kpi : String} {result : KpiResult}
    (h : Yields sources self column template found) (given : answers code = some found.values)
    (stored : found.get? kpi = some result) : reported answers code kpi = some result.value := by
  cases h with
  | intro others founds tokens computes =>
    rw [PeriodResults.get?] at stored
    rw [KpiReport.reported, given, Option.bind_some, PeriodResults.values,
      (computes.sorted.mapValues _).lookup_reverse, Table.get?_mapValues, stored]
    rfl

theorem mem_of_ofKpi
    (compile : (template.resequence f).sortedKpis.mapM
      (CompiledKpi.ofKpi sources.library (template.resequence f) registry) = .ok queue)
    {kpi : Kpi} (member : kpi ∈ template.kpis) {compiled : CompiledKpi}
    (made : CompiledKpi.ofKpi sources.library template registry kpi = .ok compiled) :
    compiled.resequence f ∈ queue := by
  obtain ⟨_, inside, again⟩ := exists_mem_of_mapM compile (Template.mem_resequence member)
  rw [CompiledKpi.ofKpi_resequence, made] at again
  cases again
  exact inside

/-- What can be found one after the other is bound in the end. -/
theorem Derives.bound (valid : template.validate = .ok ())
    (tokens : (sources.newRegistry self template).Gives registry)
    (computes : Computes sources self column (template.resequence f) registry base queue answers
      findings found)
    (told : ∀ compiled ∈ queue, ∀ code ∈ compiled.subReports, ∃ other given,
      sources.library.get code = .ok other ∧ Yields sources self column other given ∧
        answers code = some given.values)
    {x : String} {value : Value} (h : Derives sources self column template x value) :
    findings.scope.get? x = some value := by
  have settles := computes.settles ((Template.validate_resequence template).trans valid)
  induction h with
  | first tokens' scope bound =>
    obtain rfl := tokens.unique tokens'
    obtain rfl := computes.gives_firstScope.unique scope
    exact settles.scope_le _ _ bound
  | report asked get yields stored =>
    obtain ⟨t, made⟩ := tokens {}
    rw [← newRegistry_resequence (f := f)] at made
    rw [← Library.subReports_resequence (f := f)] at asked
    obtain ⟨compiled, member, asked⟩ :=
      Library.exists_of_mem_subReports made computes.compile asked
    obtain ⟨other, given, get', yields', answer⟩ := told compiled member _ asked
    rw [get] at get'
    cases get'
    obtain rfl := yields.unique yields'
    rw [settles.answered compiled member _ asked]
    exact yields.reported answer stored
  | @formula registry' kpi compiled S value tokens' member made inputs bound ih =>
    obtain rfl := tokens.unique tokens'
    have inside := mem_of_ofKpi computes.compile member made
    have named := CompiledKpi.kpi_of_ofKpi made
    have le : S ≤ findings.scope := fun x value known => ih x value known
    have final : compiled.eval findings.scope = compiled.eval S :=
      CompiledKpi.eval_of_le le (Outcome.ne_of_binding? bound)
    have shown := (settles.shows _ inside).1
    rw [show (compiled.resequence f).eval findings.scope = compiled.eval findings.scope from rfl,
      final, bound] at shown
    rw [← named]
    exact shown

theorem Yields.attains (valid : template.validate = .ok ())
    (h : Yields sources self column (template.resequence f) found) {kpi : Kpi}
    (member : kpi ∈ template.kpis) {value : Value}
    (attains : Attains sources self column template kpi value) :
    ∃ result, found.get? kpi.name = some result ∧ result.value = value ∧
      result.display = kpi.render value sources.settings.locale := by
  obtain ⟨registry', compiled, S, tokens', made, inputs, eval⟩ := attains
  cases h with
  | @intro _ registry base queue answers findings _ others founds tokens computes get yields
      answer =>
    rw [newRegistry_resequence] at tokens
    obtain rfl := tokens.unique tokens'
    have settles := computes.settles ((Template.validate_resequence template).trans valid)
    have le : S ≤ findings.scope := fun x value known =>
      (inputs x value known).bound valid tokens computes fun compiled member code asked =>
        ⟨others code, founds code, get compiled member code asked,
          yields compiled member code asked, answer compiled member code asked⟩
    have final : compiled.eval findings.scope = .ok value := by
      rw [CompiledKpi.eval_of_le le, eval]
      intro x
      rw [eval]
      exact nofun
    obtain ⟨-, style, kept⟩ := settles.shows _ (mem_of_ofKpi computes.compile member made)
    rw [show (compiled.resequence f).eval findings.scope = compiled.eval findings.scope from rfl,
      final, ← computes.results] at kept
    obtain rfl := CompiledKpi.kpi_of_ofKpi made
    exact ⟨_, kept, rfl, rfl⟩

/-! ## Evaluations from an empty cache -/

theorem ready_empty (acyclic : sources.library.Acyclic template) :
    Ready sources self column (sources.library.Reaches template) (sources.library.size + 1) template
      {} where
  room := (Cache.room_size _ _ _).mono (Nat.le_succ _)
  fresh := by
    intro code reached
    rw [Cache.progress?_mark, if_neg]
    · exact nofun
    · rintro ⟨rfl, -⟩
      exact acyclic.root reached
  sound := sound_empty
  tokens := by
    intro registry known
    cases known
  own := fun reached => absurd reached acyclic.root
  within := fun _ => id
  acyclic := acyclic.below

theorem exists_runs_iff_yields (acyclic : sources.library.Acyclic template) (t : Trace) :
    (∃ s', Runs (sources.evaluate self column template) { trace := t } found s') ↔
      Yields sources self column template found := by
  constructor
  · rintro ⟨s', run⟩
    exact (yields_of_runs _ (s := { trace := t }) (ready_empty acyclic) run).1
  · intro yields
    exact runs_of_yields (s := { trace := t }) (ready_empty acyclic) yields

/-- **The order of the KPIs does not matter.** Let the references of a valid template to other
reports be acyclic. With the sequence numbers `g` its evaluation from an empty cache succeeds exactly
when it succeeds with the sequence numbers `f`. The results then differ at most in their styles, and
every KPI whose formula has a value once the names that it reads have values shows this value. -/
theorem evaluate_resequence (valid : template.validate = .ok ())
    (acyclic : sources.library.Acyclic template) (f g : String → Int) (t u : Trace) :
    ((∃ found s', Runs (sources.evaluate self column (template.resequence f)) { trace := t } found
        s') ↔
      ∃ found s', Runs (sources.evaluate self column (template.resequence g)) { trace := u } found
        s') ∧
    ∀ found s', Runs (sources.evaluate self column (template.resequence f)) { trace := t } found s' →
      (∀ found' s', Runs (sources.evaluate self column (template.resequence g)) { trace := u } found'
          s' →
        ∀ kpi ∈ template.kpis, ∃ result result', found.get? kpi.name = some result ∧
          found'.get? kpi.name = some result' ∧ result.Alike result') ∧
      ∀ kpi ∈ template.kpis, ∀ value, Attains sources self column template kpi value →
        ∃ result, found.get? kpi.name = some result ∧ result.value = value ∧
          result.display = kpi.render value sources.settings.locale := by
  have runs_iff (h : String → Int) (t : Trace) (found : PeriodResults) :
      (∃ s', Runs (sources.evaluate self column (template.resequence h)) { trace := t } found s') ↔
        Yields sources self column (template.resequence h) found :=
    exists_runs_iff_yields (acyclic.resequence h) t
  simp only [runs_iff]
  refine ⟨⟨?_, ?_⟩, fun found s' run => ⟨fun found' s'' run' => ?_, fun kpi member value => ?_⟩⟩
  · rintro ⟨found, yields⟩
    obtain ⟨found', yields', -⟩ := yields.resequence valid g
    exact ⟨found', yields'⟩
  · rintro ⟨found, yields⟩
    obtain ⟨found', yields', -⟩ := yields.resequence valid f
    exact ⟨found', yields'⟩
  · obtain ⟨other, yields, alike⟩ := ((runs_iff f t found).1 ⟨s', run⟩).resequence valid g
    obtain rfl := yields.unique ((runs_iff g u found').1 ⟨s'', run'⟩)
    exact alike
  · exact ((runs_iff f t found).1 ⟨s', run⟩).attains valid member

end Sources

/-! ## A small report in two orders -/

namespace Sample

theorem subReports_template : sources.library.subReports template = [] := by
  with_unfolding_all rfl

theorem acyclic_template : sources.library.Acyclic template :=
  Library.acyclic_of_subReports_eq_nil subReports_template

/-- The sequence numbers of the sample. -/
def order (name : String) : Int :=
  if name = "a" then 1 else if name = "b" then 2 else if name = "c" then 3 else 4

theorem resequence_template : template.resequence order = template := by
  rfl

/-- In the sample `b` has a value of its own, from which `a` gets its value. -/
theorem attains_template :
    Sources.Attains sources self column template { name := "a", expression := "b", sequence := 1 }
      (.bool true) := by
  have derives : Sources.Derives sources self column template "b" (.bool true) := by
    have made : CompiledKpi.ofKpi sources.library template registry
        { name := "b", expression := "True", sequence := 2 } =
          .ok ⟨{ name := "b", expression := "True", sequence := 2 }, .ok (.bool true), []⟩ := by
      with_unfolding_all rfl
    have declared : ({ name := "b", expression := "True", sequence := 2 } : Kpi) ∈ template.kpis := by
      simp [template]
    refine .formula (S := .empty) gives_newRegistry declared made ?_ rfl
    intro x value bound
    cases bound
  refine ⟨registry, ⟨_, .ok (.name "b"), []⟩, Scope.empty.insert "b" (.bool true),
    gives_newRegistry, by with_unfolding_all rfl, ?_, rfl⟩
  intro x value bound
  rw [Scope.get?_insert] at bound
  split at bound
  · rename_i same
    cases bound
    rw [same]
    exact derives
  · cases bound

end Sample

/-- The sample in its own order and backwards: both evaluations succeed with the same results, and in
both `a` shows the value of `b`. -/
theorem Sources.evaluate_resequence_sample :
    Sample.template.validate = .ok () ∧ Sample.sources.library.Acyclic Sample.template ∧
    ∃ found s' found' s'',
      Runs (Sample.sources.evaluate Sample.self Sample.column (Sample.template.resequence Sample.order))
        {} found s' ∧
      Runs (Sample.sources.evaluate Sample.self Sample.column
        (Sample.template.resequence fun name => -Sample.order name)) {} found' s'' ∧
      (∀ kpi ∈ Sample.template.kpis, ∃ result result', found.get? kpi.name = some result ∧
        found'.get? kpi.name = some result' ∧ result.Alike result') ∧
      ∃ result, found.get? "a" = some result ∧ result.value = .bool true := by
  obtain ⟨found, s', run⟩ := Sample.runs_evaluate
  rw [← Sample.resequence_template] at run
  obtain ⟨same, results⟩ := Sources.evaluate_resequence Sample.valid_template
    Sample.acyclic_template Sample.order (fun name => -Sample.order name) {} {}
  obtain ⟨found', s'', run'⟩ := same.1 ⟨found, s', run⟩
  obtain ⟨alike, attained⟩ := results found s' run
  obtain ⟨result, stored, value, -⟩ :=
    attained _ (by simp [Sample.template]) _ Sample.attains_template
  exact ⟨Sample.valid_template, Sample.acyclic_template, found, s', found', s'', run, run',
    alike found' s'' run', result, stored, value⟩

end KpiReport
