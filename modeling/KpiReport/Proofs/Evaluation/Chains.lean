import KpiReport.Proofs.Evaluation.Grounded

/-!
# The marks that a failure leaves

When an evaluation fails, the reports on the way from its template to the failure have been started
and not been brought to an end. They form a chain of references (`Sources.Chain`), and no others are
left started (`Sources.traceable_evaluateNested`).
-/

namespace KpiReport

open Evaluation

namespace Cache

/-- From the one cache to the other, the reports `codes` have been started, and every other report
has been left alone or been brought to its end. -/
structure Leaves (period : String) (codes : List String) (c c' : Cache) : Prop where
  opened : ∀ code ∈ codes, c'.progress? code period = some .started
  others : ∀ code, code ∉ codes → c'.progress? code period = c.progress? code period ∨
    c.progress? code period = none ∧ ∃ values, c'.progress? code period = some (.finished values)
  periods : ∀ code period', period' ≠ period →
    c'.progress? code period' = c.progress? code period'

namespace Leaves

variable {period code : String} {codes : List String} {a b c u : Cache}

theorem refl (c : Cache) : Leaves period [] c c where
  opened := by
    intro code member
    cases member
  others := fun _ _ => .inl rfl
  periods := fun _ _ _ => rfl

theorem trans (h : Leaves period [] a b) (h' : Leaves period codes b c) :
    Leaves period codes a c where
  opened := h'.opened
  others := by
    intro code outside
    rcases h'.others code outside with same | ⟨unknown, finished⟩
    · rw [same]
      exact h.others code List.not_mem_nil
    · rcases h.others code List.not_mem_nil with same | ⟨-, values, known⟩
      · exact .inr ⟨same ▸ unknown, finished⟩
      · cases unknown.symm.trans known
  periods := fun code period' other =>
    (h'.periods code period' other).trans (h.periods code period' other)

theorem unknown (h : Leaves period [] a b) (unknown : b.progress? code period = none) :
    a.progress? code period = none := by
  rcases h.others code List.not_mem_nil with same | ⟨none, -⟩
  · exact same ▸ unknown
  · exact none

theorem stock (h : Leaves period codes a b) (report : String) (registry : Registry) :
    Leaves period codes a (b.stock report registry) where
  opened := by
    intro code member
    rw [progress?_stock]
    exact h.opened code member
  others := by
    intro code outside
    rw [progress?_stock]
    exact h.others code outside
  periods := by
    intro code period' other
    rw [progress?_stock]
    exact h.periods code period' other

theorem started_iff (h : Leaves period codes a b) (code period' : String) :
    b.progress? code period' = some .started ↔
      a.progress? code period' = some .started ∨ period' = period ∧ code ∈ codes := by
  by_cases same : period' = period
  · subst same
    by_cases member : code ∈ codes
    · simp [member, h.opened code member]
    · rcases h.others code member with same | ⟨unknown, values, finished⟩
      · simp [member, same]
      · simp [member, unknown, finished]
  · simp [same, h.periods code period' same]

/-- A report that is started and not brought to its end. -/
theorem abandon (h : Leaves period codes (c.mark code period .started) u) :
    Leaves period (code :: codes) c u where
  opened := by
    have started : (c.mark code period .started).progress? code period = some .started := by
      rw [progress?_mark, if_pos ⟨rfl, rfl⟩]
    refine List.forall_mem_cons.2 ⟨?_, h.opened⟩
    by_cases member : code ∈ codes
    · exact h.opened code member
    · rcases h.others code member with same | ⟨unknown, -⟩
      · exact same.trans started
      · cases unknown.symm.trans started
  others := by
    intro other outside
    rw [List.mem_cons, not_or] at outside
    obtain ⟨different, outside⟩ := outside
    have kept := h.others other outside
    rwa [progress?_mark, if_neg fun both => different both.1] at kept
  periods := by
    intro other period' different
    rw [h.periods other period' different, progress?_mark, if_neg fun both => different both.2]

/-- A report that is started and brought to its end. -/
theorem finish (unknown : c.progress? code period = none)
    (h : Leaves period [] (c.mark code period .started) u) (values : Table Value) :
    Leaves period [] c (u.mark code period (.finished values)) where
  opened := by
    intro code member
    cases member
  others := by
    intro other outside
    rw [progress?_mark]
    split
    · rename_i same
      obtain ⟨rfl, -⟩ := same
      exact .inr ⟨unknown, values, rfl⟩
    · rename_i different
      have kept := h.others other outside
      rwa [progress?_mark, if_neg different] at kept
  periods := by
    intro other period' different
    have elsewhere : ¬ (other = code ∧ period' = period) := fun both => different both.2
    rw [progress?_mark, if_neg elsewhere, h.periods other period' different, progress?_mark,
      if_neg elsewhere]

end Leaves

end Cache

namespace Sources

/-- The codes of reports, the first of them that of the template, of which each refers to the
next. -/
inductive Chain (sources : Sources) (inst : Instance) (cache : Cache) :
    Template → List String → Prop where
  | last (template : Template) : Chain sources inst cache template [template.code]
  | refer {template other : Template} {codes : List String}
    (asked : sources.Refers inst cache template other.code)
    (get : sources.library.get other.code = .ok other)
    (rest : Chain sources inst cache other codes) :
    Chain sources inst cache template (template.code :: codes)

variable {sources : Sources} {self : Instance} {column : Column} {base : Cache}
  {root template : Template}

theorem Chain.exists_tail {codes : List String} (h : sources.Chain self base template codes) :
    ∃ rest, codes = template.code :: rest := by
  cases h with
  | last => exact ⟨[], rfl⟩
  | refer asked get rest => exact ⟨_, rfl⟩

/-- What a failed evaluation leaves: the reports of a chain of references are started. All but the
first of them had no mark before. -/
def Abandons (sources : Sources) (inst : Instance) (column : Column) (base : Cache)
    (template : Template) (start stop : Cache) : Prop :=
  ∃ chain, sources.Chain inst base template chain ∧
    (∀ code ∈ chain.tail, start.progress? code column.period.name = none) ∧
    start.Leaves column.period.name chain stop

/-- The cache while the passes of a template run. -/
structure Passing (sources : Sources) (inst : Instance) (column : Column) (base : Cache)
    (root template : Template) (start cache : Cache) : Prop where
  tokens : sources.Stocked inst base root cache
  leaves : (start.mark template.code column.period.name .started).Leaves column.period.name [] cache

theorem Passing.abandons {start cache : Cache}
    (h : sources.Passing self column base root template start cache) :
    sources.Abandons self column base template start cache :=
  ⟨[template.code], .last template, by simp, h.leaves.abandon⟩

/-- A chain below a report that the template refers to. -/
theorem Passing.extend {start cache stop : Cache} {other : Template}
    (h : sources.Passing self column base root template start cache)
    (asked : sources.Refers self base template other.code)
    (get : sources.library.get other.code = .ok other)
    (unknown : cache.progress? other.code column.period.name = none)
    (abandons : sources.Abandons self column base other cache stop) :
    sources.Abandons self column base template start stop := by
  obtain ⟨chain, route, unmarked, leaves⟩ := abandons
  refine ⟨template.code :: chain, .refer asked get route, fun code member => ?_,
    (h.leaves.trans leaves).abandon⟩
  obtain ⟨rest, rfl⟩ := route.exists_tail
  have before : cache.progress? code column.period.name = none := by
    rcases List.mem_cons.1 member with rfl | below
    · exact unknown
    · exact unmarked code below
  have marked := h.leaves.unknown before
  rw [Cache.progress?_mark] at marked
  split at marked
  · cases marked
  · exact marked

/-- What it means that an evaluation leaves only the marks of reports that it was evaluating: none
after a success, those of a chain after a failure. -/
def Traceable (sources : Sources) (inst : Instance) (column : Column) (base : Cache)
    (root : Template) (evaluate : Template → Evaluation PeriodResults) : Prop :=
  ∀ template start, sources.library.Knows root template → sources.Stocked inst base root start →
    Lockstep (fun c d => c = start ∧ d = start)
      (fun found c d => d = c ∧ ∃ u, sources.Passing inst column base root template start u ∧
        c = u.mark template.code column.period.name (.finished found.values))
      (fun c _ => sources.Abandons inst column base template start c)
      (evaluate template)

theorem Traceable.ask {evaluate : Template → Evaluation PeriodResults}
    (nested : sources.Traceable self column base root evaluate) {start : Cache} {code : String}
    (asked : sources.Refers self base template code) :
    Lockstep (fun c d => d = c ∧ sources.Passing self column base root template start c)
      (fun _ c d => d = c ∧ sources.Passing self column base root template start c)
      (fun c _ => sources.Abandons self column base template start c)
      (sources.subReportValues column evaluate code) := by
  rintro s ⟨c, t⟩ ⟨same, passing⟩
  obtain rfl : s.cache = c := same.symm
  cases known : s.cache.progress? code column.period.name with
  | some progress => exact agree_of_known known known ⟨rfl, passing⟩
  | none =>
    obtain ⟨other, get⟩ := asked.holds
    obtain rfl := Library.code_of_get get
    have inside := (nested other s.cache (.inr get) passing.tokens).weaken
      fun c _ => passing.extend asked get known
    refine agree_of_unknown known known get inside ⟨rfl, rfl⟩ ?_
    rintro found _ _ ⟨rfl, w, below, rfl⟩
    exact ⟨rfl, below.tokens, passing.leaves.trans (.finish known below.leaves _)⟩

theorem traceable_evaluateWith
    (own : ∀ stored, sources.library.get root.code = .ok stored → stored = root)
    {subReport : String → Evaluation (Option (Table Value))}
    (ask : ∀ template start code, sources.Refers self base template code →
      Lockstep (fun c d => d = c ∧ sources.Passing self column base root template start c)
        (fun _ c d => d = c ∧ sources.Passing self column base root template start c)
        (fun c _ => sources.Abandons self column base template start c) (subReport code)) :
    sources.Traceable self column base root (sources.evaluateWith self column subReport) := by
  intro template start known stocked
  refine evaluateWith_lockstep base
    (R := fun c d => d = c ∧ sources.Passing self column base root template start c)
    ?_ ?_ ?_ (ask template start) ?_ ?_
  · rintro _ _ ⟨rfl, rfl⟩
    exact ⟨rfl, stocked, .refl _⟩
  · rintro c _ ⟨rfl, passing⟩
    exact ⟨passing.tokens template known, passing.tokens template known⟩
  · rintro c _ registry ⟨rfl, passing⟩ tokens
    exact ⟨rfl, passing.tokens.stock own known tokens, passing.leaves.stock _ _⟩
  · exact fun c d passing => passing.2.abandons
  · rintro found c _ ⟨rfl, passing⟩
    exact ⟨rfl, _, passing, rfl⟩

/-- **A failed evaluation leaves the marks of a chain of references**, and no others. -/
theorem traceable_evaluateNested
    (own : ∀ stored, sources.library.get root.code = .ok stored → stored = root) (depth : Nat) :
    sources.Traceable self column base root (sources.evaluateNested self column depth) := by
  induction depth with
  | zero => exact traceable_evaluateWith own fun _ _ _ _ => lockstep_pure fun _ _ => id
  | succ depth ih => exact traceable_evaluateWith own fun _ _ _ asked => ih.ask asked

end Sources

end KpiReport
