import KpiReport.Proofs.Evaluation.Lockstep
import Mathlib.Data.Fintype.EquivFin
import Mathlib.Data.Fintype.Sets
import Mathlib.Data.Set.Insert

/-!
# Reports whose references come to an end

Where the references of a report come to an end (`Sources.Grounded`), that is, where it reaches no
report that reaches itself (`Sources.grounded_iff`), its evaluation never meets a report that is
being evaluated. So its values are determined by a cache `base` from which it could have been
evaluated at first, and a later cache may hold these values without being told from `base`
(`Sources.Near`). From any two such caches the report is evaluated in lockstep
(`Sources.Grounded.repeats`), and whoever asks for it is answered as from `base`
(`Sources.Repeats.ask`).
-/

namespace KpiReport

open Evaluation

/-! ## References -/

namespace Sources

/-- Evaluated from the cache, the template may ask for the report, or for one from which it is
reached. -/
inductive Reaches (sources : Sources) (inst : Instance) (cache : Cache) :
    Template → String → Prop where
  | refer {template : Template} {code : String} (asked : sources.Refers inst cache template code) :
    Reaches sources inst cache template code
  | step {template other : Template} {code code' : String}
    (asked : sources.Refers inst cache template code) (get : sources.library.get code = .ok other)
    (rest : Reaches sources inst cache other code') : Reaches sources inst cache template code'

/-- Evaluated from the cache, the references of the template come to an end. -/
inductive Grounded (sources : Sources) (inst : Instance) (cache : Cache) : Template → Prop where
  | intro {template : Template} (below : ∀ code other, sources.Refers inst cache template code →
      sources.library.get code = .ok other → Grounded sources inst cache other) :
    Grounded sources inst cache template

/-- The library has a report under the code, and its references come to an end. -/
def GroundedAt (sources : Sources) (inst : Instance) (cache : Cache) (code : String) : Prop :=
  ∃ template, sources.library.get code = .ok template ∧ sources.Grounded inst cache template

variable {sources : Sources} {self : Instance} {column : Column} {base : Cache}
  {template other : Template} {code : String}

theorem Reaches.trans {code' : String} (h : sources.Reaches self base template code)
    (get : sources.library.get code = .ok other) (h' : sources.Reaches self base other code') :
    sources.Reaches self base template code' := by
  induction h with
  | refer asked => exact .step asked get h'
  | step asked found _ ih => exact .step asked found (ih get)

/-- What a report refers to that is reached, is reached as well. -/
theorem Reaches.refers {code' : String} (h : sources.Reaches self base template code)
    (get : sources.library.get code = .ok other) (asked : sources.Refers self base other code') :
    sources.Reaches self base template code' :=
  h.trans get (.refer asked)

theorem Reaches.holds (h : sources.Reaches self base template code) :
    ∃ other, sources.library.get code = .ok other := by
  induction h with
  | refer asked => exact asked.holds
  | step _ _ _ ih => exact ih

theorem Grounded.groundedAt (h : sources.Grounded self base template)
    (reached : sources.Reaches self base template code) : sources.GroundedAt self base code := by
  induction reached with
  | refer asked =>
    obtain ⟨other, get⟩ := asked.holds
    obtain ⟨below⟩ := h
    exact ⟨other, get, below _ other asked get⟩
  | step asked get _ ih =>
    obtain ⟨below⟩ := h
    exact ih (below _ _ asked get)

theorem Grounded.not_reaches (h : sources.Grounded self base template)
    (get : sources.library.get template.code = .ok template) :
    ¬ sources.Reaches self base template template.code := by
  induction h with
  | @intro template below ih =>
    intro reached
    cases reached with
    | refer asked => exact ih _ template asked get get (.refer asked)
    | @step _ other code _ asked stored rest =>
      obtain rfl := Library.code_of_get stored
      exact ih _ other asked stored stored (rest.refers get asked)

/-- The references of a template come to an end if it reaches no report that reaches itself. -/
theorem grounded_iff : sources.Grounded self base template ↔
    ∀ code other, sources.Reaches self base template code → sources.library.get code = .ok other →
      ¬ sources.Reaches self base other code := by
  constructor
  · intro grounded code other reached get
    obtain ⟨other', get', grounded⟩ := grounded.groundedAt reached
    obtain rfl := Except.ok.inj (get.symm.trans get')
    obtain rfl := Library.code_of_get get
    exact grounded.not_reaches get
  · intro acyclic
    -- The library is finite, so the reports below each other are well-founded.
    let below (a b : {code // code ∈ sources.library.reports.map Prod.fst}) : Prop :=
      sources.Reaches self base template b ∧
        ∃ other, sources.library.get b = .ok other ∧ sources.Reaches self base other a
    have trans : IsTrans _ below := by
      refine ⟨?_⟩
      rintro a b c ⟨-, other, get, lower⟩ ⟨reached, other', get', upper⟩
      exact ⟨reached, other', get', upper.trans get lower⟩
    have irrefl : Std.Irrefl below :=
      ⟨fun a ⟨reached, other, get, circle⟩ => acyclic a other reached get circle⟩
    have founded : WellFounded below := Finite.wellFounded_of_trans_of_irrefl below
    have all : ∀ a : {code // code ∈ sources.library.reports.map Prod.fst},
        sources.Reaches self base template a → ∀ other, sources.library.get a = .ok other →
          sources.Grounded self base other := by
      intro a
      induction a using founded.induction with
      | _ a ih =>
        intro reached other get
        refine .intro fun code next asked get' => ?_
        exact ih ⟨code, Library.mem_of_contains (Library.contains_of_get get')⟩
          ⟨reached, other, get, .refer asked⟩ (reached.refers get asked) next get'
    exact .intro fun code other asked get =>
      all ⟨code, Library.mem_of_contains (Library.contains_of_get get)⟩ (.refer asked) other get

end Sources

/-- The template is `root` or a report of the library. -/
def Library.Knows (library : Library) (root template : Template) : Prop :=
  template = root ∨ library.get template.code = .ok template

theorem Library.Knows.eq_of_code {library : Library} {root template other : Template}
    (own : ∀ stored, library.get root.code = .ok stored → stored = root)
    (h : library.Knows root template) (h' : library.Knows root other)
    (same : template.code = other.code) : template = other := by
  rcases h with rfl | get <;> rcases h' with rfl | get'
  · rfl
  · exact (own other (same ▸ get')).symm
  · exact own template (same ▸ get)
  · rw [same] at get
    exact Except.ok.inj (get.symm.trans get')

/-! ## Caches near a cache -/

namespace Sources

/-- The cache tells of a report what the cache `base` tells, or, if that tells nothing, the values
that an evaluation from `base` gives. -/
def Echoes (sources : Sources) (inst : Instance) (column : Column) (base cache : Cache)
    (code : String) : Prop :=
  cache.progress? code column.period.name = base.progress? code column.period.name ∨
    base.progress? code column.period.name = none ∧ ∃ other found,
      sources.library.get code = .ok other ∧
      (∀ t, ((sources.evaluate inst column other).run.run ⟨base, t⟩).1 = .ok found) ∧
      cache.progress? code column.period.name = some (.finished found.values)

/-- With the cache, `root` and the reports of the library have the account tokens that they have
with the cache `base`. -/
def Stocked (sources : Sources) (inst : Instance) (base : Cache) (root : Template) (cache : Cache) :
    Prop :=
  ∀ template, sources.library.Knows root template → sources.SameTokens inst base cache template

/-- The cache differs from the cache `base` in nothing that an evaluation can tell: it has the same
account tokens, and echoes `base` for all reports whose references come to an end, except some in
`S` that are being evaluated. The marks of the other reports are given by `marks`. -/
structure Near (sources : Sources) (inst : Instance) (column : Column) (base : Cache)
    (root : Template) (S : Set String) (marks : String → Option Progress) (cache : Cache) :
    Prop where
  tokens : sources.Stocked inst base root cache
  grounded : ∀ code, sources.GroundedAt inst base code →
    sources.Echoes inst column base cache code ∨
      code ∈ S ∧ cache.progress? code column.period.name = some .started
  others : ∀ code, ¬ sources.GroundedAt inst base code →
    cache.progress? code column.period.name = marks code

variable {sources : Sources} {self : Instance} {column : Column} {base : Cache}
  {root template : Template} {S S' : Set String} {marks marks' : String → Option Progress}
  {cache : Cache}

theorem Echoes.congr {cache' : Cache} {code : String}
    (h : sources.Echoes self column base cache code)
    (same : cache'.progress? code column.period.name =
      cache.progress? code column.period.name) :
    sources.Echoes self column base cache' code := by
  unfold Echoes
  rw [same]
  exact h

theorem Stocked.refl (base : Cache) : sources.Stocked self base root base :=
  fun _ _ _ => Iff.rfl

theorem Stocked.stock (h : sources.Stocked self base root cache)
    (own : ∀ stored, sources.library.get root.code = .ok stored → stored = root)
    (known : sources.library.Knows root template) {registry : Registry}
    (tokens : sources.Tokens self base template registry) :
    sources.Stocked self base root (cache.stock template.code registry) :=
  fun other other' => (h other other').stock tokens fun same => other'.eq_of_code own known same

namespace Near

/-- The cache `base` is near itself. -/
theorem refl (base : Cache) : sources.Near self column base root S
    (fun code => base.progress? code column.period.name) base where
  tokens := .refl base
  grounded := fun _ _ => .inl (.inl rfl)
  others := fun _ _ => rfl

theorem mono (h : sources.Near self column base root S marks cache) (le : S ⊆ S') :
    sources.Near self column base root S' marks cache where
  tokens := h.tokens
  grounded := fun code grounded => (h.grounded code grounded).imp_right (.imp_left (@le code))
  others := h.others

/-- The marks of the other reports may be read off the cache. -/
theorem rebase (h : sources.Near self column base root S marks cache) :
    sources.Near self column base root S (fun code => cache.progress? code column.period.name)
      cache where
  tokens := h.tokens
  grounded := h.grounded
  others := fun _ _ => rfl

theorem stock (h : sources.Near self column base root S marks cache)
    (own : ∀ stored, sources.library.get root.code = .ok stored → stored = root)
    (known : sources.library.Knows root template) {registry : Registry}
    (tokens : sources.Tokens self base template registry) :
    sources.Near self column base root S marks (cache.stock template.code registry) where
  tokens := h.tokens.stock own known tokens
  grounded := by
    intro code grounded
    have same := cache.progress?_stock template.code registry code column.period.name
    rw [same]
    exact (h.grounded code grounded).imp_left fun echo => echo.congr same
  others := fun code ungrounded =>
    (cache.progress?_stock _ _ code _).trans (h.others code ungrounded)

/-- A mark of a report whose references come to an end. -/
theorem mark_grounded (h : sources.Near self column base root S marks cache) {code : String}
    (grounded : sources.GroundedAt self base code) {progress : Progress}
    (told : sources.Echoes self column base (cache.mark code column.period.name progress) code ∨
      code ∈ S' ∧ progress = .started)
    (le : ∀ other ∈ S, other ≠ code → other ∈ S') :
    sources.Near self column base root S' marks (cache.mark code column.period.name progress) where
  tokens := h.tokens
  grounded := by
    intro other grounded'
    by_cases same : other = code
    · subst same
      refine told.imp_right fun started => ⟨started.1, ?_⟩
      rw [Cache.progress?_mark, if_pos ⟨rfl, rfl⟩, started.2]
    · have kept : (cache.mark code column.period.name progress).progress? other
          column.period.name = cache.progress? other column.period.name := by
        rw [Cache.progress?_mark, if_neg fun both => same both.1]
      rw [kept]
      exact (h.grounded other grounded').imp (fun echo => echo.congr kept)
        (.imp_left fun member => le other member same)
  others := by
    intro other ungrounded
    rw [Cache.progress?_mark, if_neg]
    · exact h.others other ungrounded
    · rintro ⟨rfl, -⟩
      exact ungrounded grounded

/-- A mark of another report. -/
theorem mark_other (h : sources.Near self column base root S marks cache) {code : String}
    (ungrounded : ¬ sources.GroundedAt self base code) (progress : Progress) :
    sources.Near self column base root S
      (fun other => (cache.mark code column.period.name progress).progress? other
        column.period.name) (cache.mark code column.period.name progress) where
  tokens := h.tokens
  grounded := by
    intro other grounded
    have kept : (cache.mark code column.period.name progress).progress? other
        column.period.name = cache.progress? other column.period.name := by
      rw [Cache.progress?_mark, if_neg]
      rintro ⟨rfl, -⟩
      exact ungrounded grounded
    rw [kept]
    exact (h.grounded other grounded).imp_left fun echo => echo.congr kept
  others := fun _ _ => rfl

end Near

/-! ## Evaluations from near caches -/

/-- The cache after an evaluation of a template: it was near `base` until the last mark. -/
def Stopped (sources : Sources) (inst : Instance) (column : Column) (base : Cache)
    (root : Template) (S : Set String) (marks : String → Option Progress) (template : Template)
    (found : PeriodResults) (cache : Cache) : Prop :=
  ∃ c, sources.Near inst column base root (insert template.code S) marks c ∧
    cache = c.mark template.code column.period.name (.finished found.values)

/-- A template is evaluated in lockstep from every two caches near `base` in which nothing that it
reaches is being evaluated. -/
def Repeats (sources : Sources) (inst : Instance) (column : Column) (base : Cache)
    (root template : Template) : Prop :=
  ∀ S S' marks marks', (∀ code, sources.Reaches inst base template code → code ∉ S) →
    (∀ code, sources.Reaches inst base template code → code ∉ S') →
    Lockstep
      (fun c d => sources.Near inst column base root S marks c ∧
        sources.Near inst column base root S' marks' d)
      (fun found c d => sources.Stopped inst column base root S marks template found c ∧
        sources.Stopped inst column base root S' marks' template found d)
      (fun c d => sources.Near inst column base root .univ marks c ∧
        sources.Near inst column base root .univ marks' d)
      (sources.evaluate inst column template)

/-- From a near cache a template is evaluated as from `base`, whatever the trace is. -/
theorem Repeats.from_base (h : sources.Repeats self column base root template)
    (apart : ∀ code, sources.Reaches self base template code → code ∉ S) :
    Lockstep (fun c d => sources.Near self column base root S marks c ∧ d = base)
      (fun found c _ => sources.Stopped self column base root S marks template found c ∧
        ∀ t, ((sources.evaluate self column template).run.run ⟨base, t⟩).1 = .ok found)
      (fun c _ => sources.Near self column base root .univ marks c)
      (sources.evaluate self column template) := by
  rintro s ⟨c, t⟩ ⟨near, same⟩
  obtain rfl : base = c := same.symm
  have agree := fun t => h S ∅ marks _ apart (fun _ _ => id) s ⟨base, t⟩ ⟨near, .refl base⟩
  have this := agree t
  generalize (sources.evaluate self column template).run.run s = outcome at agree this
  generalize (sources.evaluate self column template).run.run ⟨base, t⟩ = outcome' at this
  cases this with
  | ok related => exact .ok ⟨related.1, fun t => (agree t).same.symm⟩
  | error related => exact .error related.1

/-- Asked for from a near cache, a report answers as from `base`. -/
theorem Repeats.ask (h : sources.Repeats self column base root template)
    (stored : sources.library.get template.code = .ok template)
    (grounded : sources.GroundedAt self base template.code)
    (apart : ∀ code, sources.Reaches self base template code → code ∉ S)
    (closed : template.code ∉ S) :
    Lockstep (fun c d => sources.Near self column base root S marks c ∧ d = base)
      (fun _ c _ => sources.Near self column base root S marks c)
      (fun c _ => sources.Near self column base root .univ marks c)
      (sources.subReportValues column (sources.evaluate self column) template.code) := by
  rintro s ⟨c, t⟩ ⟨near, same⟩
  obtain rfl : base = c := same.symm
  have echo := (near.grounded _ grounded).resolve_right fun opened => closed opened.1
  rcases echo with same | ⟨unknown, other, found, get, gives, known⟩
  · cases known : base.progress? template.code column.period.name with
    | some progress => exact agree_of_known (same.trans known) known near
    | none =>
      refine agree_of_unknown (same.trans known) known stored (h.from_base apart) ⟨near, rfl⟩ ?_
      rintro found _ _ ⟨⟨c, near, rfl⟩, gives⟩
      refine near.mark_grounded grounded (.inl (.inr ⟨known, template, found, stored, gives, ?_⟩))
        fun code member other => (Set.mem_insert_iff.1 member).resolve_left other
      rw [Cache.progress?_mark, if_pos ⟨rfl, rfl⟩]
  · -- The cache has the values that the evaluation from `base` finds.
    obtain ⟨u, run⟩ : ∃ u, (sources.subReportValues column (sources.evaluate self column)
        template.code).run.run s = _ := run_subReportValues_of_known known
    obtain ⟨v, run'⟩ : ∃ v, (sources.subReportValues column (sources.evaluate self column)
        template.code).run.run ⟨base, t⟩ = _ := run_subReportValues_of_unknown unknown get
    obtain ⟨s', ran⟩ := exists_runs (gives v)
    have answered : Runs (sources.evaluate self column other >>= fun found =>
        (return some found.values : Evaluation _)) ⟨base, v⟩ (some found.values) s' :=
      runs_bind.2 ⟨found, s', ran, rfl⟩
    rw [run, run', answered]
    exact .ok near

/-- Where the references of a template come to an end, it is evaluated in lockstep from any two near
caches. -/
theorem Grounded.repeats
    (own : ∀ stored, sources.library.get root.code = .ok stored → stored = root)
    (grounded : sources.Grounded self base template)
    (stored : sources.library.get template.code = .ok template) :
    sources.Repeats self column base root template := by
  induction grounded with
  | @intro template below ih =>
    intro S S' marks marks' apart apart'
    have grounded : sources.Grounded self base template := .intro below
    have known : sources.library.Knows root template := .inr stored
    have opened {S : Set String} {marks : String → Option Progress} {c : Cache}
        (near : sources.Near self column base root S marks c) :
        sources.Near self column base root (insert template.code S) marks
          (c.mark template.code column.period.name .started) :=
      near.mark_grounded ⟨template, stored, grounded⟩ (.inr ⟨Set.mem_insert _ _, rfl⟩)
        fun code member _ => Set.mem_insert_of_mem _ member
    -- Nothing that the template reaches is being evaluated, nor is the template among it.
    have ask {S : Set String} {marks : String → Option Progress}
        (apart : ∀ code, sources.Reaches self base template code → code ∉ S) {code : String}
        (refers : sources.Refers self base template code) :
        Lockstep
          (fun c d =>
            sources.Near self column base root (insert template.code S) marks c ∧ d = base)
          (fun _ c _ => sources.Near self column base root (insert template.code S) marks c)
          (fun c _ => sources.Near self column base root .univ marks c)
          (sources.subReportValues column (sources.evaluate self column) code) := by
      obtain ⟨other, get⟩ := refers.holds
      obtain rfl := Library.code_of_get get
      have outside : ∀ code, sources.Reaches self base template code →
          code ∉ insert template.code S := by
        rintro code reached (rfl | member)
        · exact grounded.not_reaches stored reached
        · exact apart code reached member
      exact (ih _ other refers get get).ask get ⟨other, get, below _ other refers get⟩
        (fun code rest => outside code (.step refers get rest)) (outside _ (.refer refers))
    rw [evaluate_eq]
    refine evaluateWith_lockstep base
      (R := fun c d => sources.Near self column base root (insert template.code S) marks c ∧
        sources.Near self column base root (insert template.code S') marks' d)
      ?_ ?_ ?_ ?_ ?_ ?_
    · exact fun c d near => ⟨opened near.1, opened near.2⟩
    · exact fun c d near => ⟨near.1.tokens template known, near.2.tokens template known⟩
    · exact fun c d registry near tokens =>
        ⟨near.1.stock own known tokens, near.2.stock own known tokens⟩
    · exact fun code refers => (ask apart refers).both (ask apart' refers)
    · exact fun c d near => ⟨near.1.mono (Set.subset_univ _), near.2.mono (Set.subset_univ _)⟩
    · exact fun found c d near => ⟨⟨c, near.1, rfl⟩, ⟨d, near.2, rfl⟩⟩

end Sources

end KpiReport
