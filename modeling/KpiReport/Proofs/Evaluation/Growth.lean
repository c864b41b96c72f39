import KpiReport.Proofs.Evaluation.Stages
import KpiReport.Proofs.Formula.Written
import Mathlib.Data.List.Perm.Subperm

/-!
# The growth of caches

While a report is evaluated, the cache only grows (`Sources.evaluateNested_grows`): a mark is never
taken back, and a report that had not been started is either left alone or brought to its end. So
what a report answered once can be read off the cache from then on, and the passes find what the
answers of the last cache say (`Sources.Stages.computes`).

The depth of nesting never runs out, since every report inside another one has been started and
the library holds no more reports than the depth allows (`Cache.Room`). The account tokens in the
cache stay those of the templates (`Sources.LookedUp.evaluateNested`).
-/

namespace KpiReport

theorem Library.mem_of_contains {library : Library} {code : String}
    (h : library.contains code = true) : code ∈ library.reports.map Prod.fst := by
  obtain ⟨template, found⟩ := Option.isSome_iff_exists.1 h
  exact List.mem_map.2 ⟨_, Table.mem_of_get? found, rfl⟩

namespace Cache

variable {period : String}

/-- What the reports answer for a period, as far as the cache tells. -/
def answers (cache : Cache) (period : String) : Answers :=
  fun code => (cache.progress? code period).bind Progress.values?

theorem answers_eq {cache : Cache} {code : String} {answer : Option (Table Value)}
    (h : cache.progress? code period = some (.ofAnswer answer)) :
    cache.answers period code = answer := by
  rw [answers, h]
  exact Progress.values?_ofAnswer answer

/-- Marks and account tokens stay, and no evaluation for the period is left unfinished. -/
structure Grows (period : String) (c c' : Cache) : Prop where
  keeps : ∀ code progress, c.progress? code period = some progress →
    c'.progress? code period = some progress
  closes : ∀ code, c.progress? code period = none → c'.progress? code period ≠ some .started
  registries : ∀ code registry, c.registries.get? code = some registry →
    c'.registries.get? code = some registry

namespace Grows

theorem refl (c : Cache) : Grows period c c where
  keeps := fun _ _ => id
  closes := by
    intro code unstarted
    simp [unstarted]
  registries := fun _ _ => id

theorem trans {a b c : Cache} (h : Grows period a b) (h' : Grows period b c) :
    Grows period a c where
  keeps := fun code progress known => h'.keeps code progress (h.keeps code progress known)
  closes := by
    intro code unknown
    cases middle : b.progress? code period with
    | none => exact h'.closes code middle
    | some progress =>
      rw [h'.keeps code progress middle]
      rw [← middle]
      exact h.closes code unknown
  registries := fun code registry known =>
    h'.registries code registry (h.registries code registry known)

theorem of_eq {c c' : Cache} (h : c' = c) : Grows period c c' := by
  rw [h]
  exact refl c

theorem keepRegistry {c : Cache} {code : String} (unknown : c.registries.get? code = none)
    (registry : Registry) : Grows period c (c.keepRegistry code registry) where
  keeps := fun _ _ => id
  closes := by
    intro code' unstarted
    change c.progress? code' period ≠ some .started
    simp [unstarted]
  registries := by
    intro code' registry' known
    rw [Cache.keepRegistry, Table.get?_insert]
    split
    · rename_i same
      rw [same, unknown] at known
      cases known
    · exact known

/-- An evaluation that is started and brought to its end. -/
theorem finish {c u : Cache} {code : String} (unknown : c.progress? code period = none)
    (h : Grows period (c.mark code period .started) u) (values : Table Value) :
    Grows period c (u.mark code period (.finished values)) where
  keeps := by
    intro code' progress known
    have other : ¬ (code' = code ∧ period = period) := by
      rintro ⟨rfl, -⟩
      rw [unknown] at known
      cases known
    rw [progress?_mark, if_neg other]
    refine h.keeps code' progress ?_
    rw [progress?_mark, if_neg other, known]
  closes := by
    intro code' none
    rw [progress?_mark]
    split
    · simp
    · rename_i other
      refine h.closes code' ?_
      rw [progress?_mark, if_neg other, none]
  registries := h.registries

end Grows

/-- At most `n` reports of the library have not been started for the period. -/
def Room (library : Library) (period : String) (n : Nat) (cache : Cache) : Prop :=
  ∀ codes : List String, codes.Nodup →
    (∀ code ∈ codes, library.contains code = true ∧
      cache.progress? code period ≠ some .started) → codes.length ≤ n

variable {library : Library} {n : Nat}

theorem Room.grows {c c' : Cache} (h : Room library period n c) (grows : Grows period c c') :
    Room library period n c' := by
  intro codes nodup within
  refine h codes nodup fun code member => ⟨(within code member).1, fun started => ?_⟩
  exact (within code member).2 (grows.keeps code .started started)

theorem Room.started {cache : Cache} (h : Room library period 0 cache) {code : String}
    (inside : library.contains code = true) : cache.progress? code period = some .started := by
  by_contra unstarted
  have short := h [code] (by simp) (by simp [inside, unstarted])
  simp at short

theorem Room.enter {cache : Cache} (h : Room library period (n + 1) cache) {code : String}
    (inside : library.contains code = true) (unknown : cache.progress? code period = none) :
    Room library period n (cache.mark code period .started) := by
  intro codes nodup within
  have fresh : code ∉ codes := by
    intro member
    have unstarted := (within code member).2
    rw [progress?_mark, if_pos ⟨rfl, rfl⟩] at unstarted
    exact unstarted rfl
  have more := h (code :: codes) (List.nodup_cons.2 ⟨fresh, nodup⟩) ?_
  · simpa using more
  · refine List.forall_mem_cons.2 ⟨⟨inside, by simp [unknown]⟩, fun other member => ?_⟩
    obtain ⟨known, unstarted⟩ := within other member
    rw [progress?_mark, if_neg] at unstarted
    · exact ⟨known, unstarted⟩
    · rintro ⟨rfl, -⟩
      exact fresh member

theorem room_size (library : Library) (period : String) (cache : Cache) :
    Room library period library.size cache := by
  intro codes nodup within
  have inside : codes ⊆ library.reports.map Prod.fst :=
    fun code member => Library.mem_of_contains (within code member).1
  have short := (List.subperm_of_subset nodup inside).length_le
  simpa [Library.size] using short

theorem Room.mono {cache : Cache} (h : Room library period n cache) {m : Nat} (le : n ≤ m) :
    Room library period m cache :=
  fun codes nodup within => Nat.le_trans (h codes nodup within) le

end Cache

/-! ## Growth -/

/-- The code is that of a report of the library. -/
def Library.Holds (library : Library) (code : String) : Prop :=
  library.contains code = true

namespace Sheet

/-- While there is room, asking for a report of the library lets the cache grow, and the cache tells
the answer afterwards. -/
def Honest (sheet : Sheet) (library : Library) (depth : Nat) : Prop :=
  ∀ ⦃code answer u u'⦄, library.Holds code → u.cache.Room library sheet.period depth →
    Runs (sheet.subReport code) u answer u' →
    u.cache.Grows sheet.period u'.cache ∧
      u'.cache.progress? code sheet.period = some (.ofAnswer answer)

variable {sheet : Sheet} {library : Library} {depth : Nat} {codes : String → Prop}

theorem Honest.grows (honest : sheet.Honest library depth)
    (held : ∀ code, codes code → library.Holds code) {s s' : Session}
    (room : s.cache.Room library sheet.period depth) (trail : sheet.Trail codes s s') :
    s.cache.Grows sheet.period s'.cache := by
  refine trail.keeps (J := fun cache => s.cache.Grows sheet.period cache) ?_ (.refl _)
  intro code answer u u' inside grows run
  exact grows.trans (honest (held code inside) (room.grows grows) run).1

theorem Honest.agrees (honest : sheet.Honest library depth)
    (held : ∀ code, codes code → library.Holds code) {s s' : Session}
    (room : s.cache.Room library sheet.period depth) :
    sheet.Agrees codes (s'.cache.answers sheet.period) s s' := by
  rintro code answer inside ⟨u, u', before, run, after⟩
  have room' := room.grows (honest.grows held room before)
  obtain ⟨grows, told⟩ := honest (held code inside) room' run
  have later := honest.grows held (room'.grows grows) after
  exact (Cache.answers_eq (later.keeps code _ told)).symm

end Sheet

namespace Sources

variable {sources : Sources} {self : Instance} {column : Column}

theorem registry_grows {template : Template} {s s' : Session} {registry : Registry}
    (h : Runs (sources.registry self template) s registry s') (period : String) :
    s.cache.Grows period s'.cache ∧ s'.cache.registries.get? template.code = some registry := by
  rcases registry_inv h with ⟨known, same⟩ | ⟨unknown, -, kept⟩
  · exact ⟨.of_eq same, by rw [same, known]⟩
  · rw [kept]
    refine ⟨.keepRegistry unknown registry, ?_⟩
    rw [Cache.keepRegistry, Table.get?_insert, if_pos rfl]

/-- What a template gives when its account tokens are `registry` and other reports give `answers`:
`base` is the first scope, `queue` the compiled KPIs. -/
structure Computes (sources : Sources) (inst : Instance) (column : Column) (template : Template)
    (registry : Registry) (base : Scope) (queue : List CompiledKpi) (answers : Answers)
    (findings : Findings) (found : PeriodResults) : Prop where
  scope : ∃ t t', Runs (sources.firstScope inst column template registry) t base t'
  compile : template.sortedKpis.mapM (CompiledKpi.ofKpi sources.library template registry) =
    .ok queue
  passes : Findings.passes column.period.name sources.settings.locale answers { scope := base }
    queue = (findings, found.passes)
  results : found.results = findings.results

/-- The reports that compiled KPIs refer to are in the library. -/
theorem holds_of_compile {template : Template} {registry : Registry} {queue : List CompiledKpi}
    (compile : template.sortedKpis.mapM (CompiledKpi.ofKpi sources.library template registry) =
      .ok queue) : ∀ compiled ∈ queue, ∀ code ∈ compiled.subReports,
        sources.library.Holds code := by
  intro compiled member code asked
  obtain ⟨kpi, -, made⟩ := exists_of_mem_mapM compile member
  exact (CompiledKpi.crossing_of_mem_subReports made asked).2

/-- Stages whose sub-reports are honest compute what the answers of the last cache say. -/
theorem Stages.computes {subReport : String → Evaluation (Option (Table Value))}
    {template : Template} {registry : Registry} {base : Scope} {queue : List CompiledKpi}
    {findings : Findings} {found : PeriodResults} {start : Cache} {u v : Session} {depth : Nat}
    (stages : Stages sources self column subReport template registry base queue
      (findings, found.passes) start u v)
    (results : found.results = findings.results)
    (honest : (sources.sheet column subReport template).Honest sources.library depth)
    (room : (start.mark template.code column.period.name .started).Room sources.library
      column.period.name depth) :
    Computes sources self column template registry base queue
        (v.cache.answers column.period.name) findings found ∧
      (start.mark template.code column.period.name .started).Grows column.period.name v.cache ∧
      v.cache.registries.get? template.code = some registry := by
  obtain ⟨s, s', begun, lookUp, same⟩ := stages.lookUp
  obtain ⟨grows, kept⟩ := registry_grows lookUp column.period.name
  rw [begun, same] at grows
  have room' := room.grows grows
  have follows := Sheet.passes_inv stages.passes (holds_of_compile stages.compile)
  have later := honest.grows (fun _ => id) room' follows.trail
  refine ⟨⟨stages.scope, stages.compile, ?_, results⟩, grows.trans later, ?_⟩
  · exact (follows.holds _ (honest.agrees (fun _ => id) room')).symm
  · exact later.registries _ _ (same ▸ kept)

/-- The reports inside a template that is evaluated with some depth left. -/
def inner (sources : Sources) (self : Instance) (column : Column) :
    Nat → String → Evaluation (Option (Table Value))
  | 0 => fun _ => return none
  | depth + 1 => sources.subReportValues column (sources.evaluateNested self column depth)

theorem evaluateNested_eq (depth : Nat) (template : Template) :
    sources.evaluateNested self column depth template =
      sources.evaluateWith self column (sources.inner self column depth) template := by
  cases depth <;> rfl

/-- The outcome of an evaluation: what it computes from the answers of the cache `c` with which the
passes end, and the marks that it leaves. -/
structure Ends (sources : Sources) (inst : Instance) (column : Column) (template : Template)
    (start stop : Cache) (found : PeriodResults) (registry : Registry) (base : Scope)
    (queue : List CompiledKpi) (findings : Findings) (c : Cache) : Prop where
  computes : Computes sources inst column template registry base queue
    (c.answers column.period.name) findings found
  grows : (start.mark template.code column.period.name .started).Grows column.period.name c
  registry : c.registries.get? template.code = some registry
  stop : stop = c.mark template.code column.period.name (.finished found.values)

mutual

theorem honest_inner (depth : Nat) (template : Template) :
    (sources.sheet column (sources.inner self column depth) template).Honest sources.library
      depth := by
  cases depth with
  | zero =>
    intro code answer u u' inside room run
    obtain ⟨rfl, rfl⟩ := runs_pure.1 run
    exact ⟨.refl _, room.started inside⟩
  | succ depth =>
    intro code answer u u' inside room run
    rcases subReportValues_inv run with ⟨told, same⟩ | ⟨unknown, template', found, v, get, same, run',
      rfl⟩
    · exact ⟨.of_eq same, same ▸ told⟩
    · have keyed : template'.code = code := Library.code_of_get get
      subst keyed
      have room' := room.enter inside unknown
      rw [← same] at room' unknown ⊢
      obtain ⟨registry, base, queue, findings, c, ends⟩ := evaluateNested_grows run' room'
      rw [ends.stop]
      refine ⟨ends.grows.finish unknown _, ?_⟩
      rw [Cache.progress?_mark, if_pos ⟨rfl, rfl⟩]
      rfl

/-- **The cache only grows while a report is evaluated**, and the report computes what the answers
of the grown cache say. -/
theorem evaluateNested_grows {depth : Nat} {template : Template} {s s' : Session}
    {found : PeriodResults}
    (h : Runs (sources.evaluateNested self column depth template) s found s')
    (room : (s.cache.mark template.code column.period.name .started).Room sources.library
      column.period.name depth) :
    ∃ registry base queue findings c, Ends sources self column template s.cache s'.cache found
      registry base queue findings c := by
  rw [evaluateNested_eq] at h
  obtain ⟨registry, base, queue, findings, u, v, stages, results, stop⟩ := evaluateWith_inv h
  obtain ⟨computes, grows, kept⟩ := stages.computes results (honest_inner depth template) room
  exact ⟨registry, base, queue, findings, v.cache, computes, grows, kept, stop⟩

end

/-! ## The account tokens of the reports -/

variable {K : String → Prop}

theorem LookedUp.inner {depth : Nat} (nested : ∀ less, depth = less + 1 → ∀ {template s found s'},
      LookedUp sources self K s.cache →
      (K template.code → sources.library.get template.code = .ok template) →
      Runs (sources.evaluateNested self column less template) s found s' →
      LookedUp sources self K s'.cache)
    {code : String} {answer : Option (Table Value)} {u u' : Session}
    (h : LookedUp sources self K u.cache)
    (run : Runs (sources.inner self column depth code) u answer u') :
    LookedUp sources self K u'.cache := by
  cases depth with
  | zero =>
    obtain ⟨-, rfl⟩ := runs_pure.1 run
    exact h
  | succ depth =>
    rcases subReportValues_inv run with ⟨-, same⟩ | ⟨-, other, found, v, get, same, run', -⟩
    · rw [same]
      exact h
    · rw [← same] at h
      obtain rfl := Library.code_of_get get
      exact nested depth rfl h (fun _ => get) run'

/-- An evaluation keeps the account tokens of other reports as they are, and adds its own. -/
theorem LookedUp.evaluateNested {depth : Nat} {template : Template} {s s' : Session}
    {found : PeriodResults} (h : LookedUp sources self K s.cache)
    (own : K template.code → sources.library.get template.code = .ok template)
    (run : Runs (sources.evaluateNested self column depth template) s found s') :
    LookedUp sources self K s'.cache := by
  induction depth using Nat.strongRecOn generalizing template s found s' with
  | _ depth ih =>
    rw [evaluateNested_eq] at run
    obtain ⟨registry, base, queue, findings, u, v, stages, -, stop⟩ := evaluateWith_inv run
    obtain ⟨w, w', begun, lookUp, same⟩ := stages.lookUp
    have marked : LookedUp sources self K w.cache := by
      rw [begun]
      exact h
    have kept := marked.registry own lookUp
    rw [same] at kept
    have follows := Sheet.passes_inv stages.passes (holds_of_compile stages.compile)
    have after := follows.trail.keeps (J := LookedUp sources self K)
      (fun code answer y y' _ before run => before.inner (fun less same => ?_) run) kept
    · rw [stop]
      exact after
    · exact ih less (by omega)

end Sources

end KpiReport
