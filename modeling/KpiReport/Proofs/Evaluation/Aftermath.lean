import KpiReport.Proofs.Evaluation.Chains
import KpiReport.Proofs.Evaluation.Equations

/-!
# Evaluations after a failure

A failed evaluation does not take back the marks of the reports that it was evaluating. Whoever
refers to one of them finds no values there from then on, and no failure either. These marks are
all that a failure spoils (`Sources.evaluate_after_failure`): an evaluation that meets none of them
comes to what it would have come to before, be this a success or a failure, in libraries with
circles of references as well. Only the values of a report that refers into a circle are left out,
since they depend on where the circle was entered first.
-/

namespace KpiReport

open Evaluation

namespace Sources

variable {sources : Sources} {self : Instance} {column : Column} {base : Cache}
  {root template other : Template}

/-! ## Even caches -/

/-- Two caches from which the template is evaluated alike: as far as it reaches, they are near
`base`, and the reports whose references do not come to an end are marked alike. -/
structure Even (sources : Sources) (inst : Instance) (column : Column) (base : Cache)
    (root template : Template) (c d : Cache) : Prop where
  left : sources.Near inst column base root {code | ¬ sources.Reaches inst base template code}
    (fun code => c.progress? code column.period.name) c
  right : sources.Near inst column base root {code | ¬ sources.Reaches inst base template code}
    (fun code => d.progress? code column.period.name) d
  same : ∀ code, sources.Reaches inst base template code → ¬ sources.GroundedAt inst base code →
    c.progress? code column.period.name = d.progress? code column.period.name

namespace Even

variable {c d : Cache}

theorem refl (base : Cache) : sources.Even self column base root template base base :=
  ⟨.refl base, .refl base, fun _ _ _ => rfl⟩

theorem mark (h : sources.Even self column base root template c d) {code : String}
    (ungrounded : ¬ sources.GroundedAt self base code) (progress : Progress) :
    sources.Even self column base root template (c.mark code column.period.name progress)
      (d.mark code column.period.name progress) where
  left := h.left.mark_other ungrounded progress
  right := h.right.mark_other ungrounded progress
  same := by
    intro other reached ungrounded'
    rw [Cache.progress?_mark, Cache.progress?_mark, h.same other reached ungrounded']

theorem stock (h : sources.Even self column base root template c d)
    (own : ∀ stored, sources.library.get root.code = .ok stored → stored = root)
    (known : sources.library.Knows root other) {registry : Registry}
    (tokens : sources.Tokens self base other registry) :
    sources.Even self column base root template (c.stock other.code registry)
      (d.stock other.code registry) where
  left := (h.left.stock own known tokens).rebase
  right := (h.right.stock own known tokens).rebase
  same := by
    intro code reached ungrounded
    rw [Cache.progress?_stock, Cache.progress?_stock, h.same code reached ungrounded]

end Even

/-- A cache as a failure leaves it: near `base`, but any report may be marked as started. -/
def Halted (sources : Sources) (inst : Instance) (column : Column) (base : Cache) (root : Template)
    (cache : Cache) : Prop :=
  ∃ marks, sources.Near inst column base root .univ marks cache

/-- A report whose references come to an end answers alike in even caches. -/
theorem Repeats.ask_even (h : sources.Repeats self column base root other)
    (stored : sources.library.get other.code = .ok other)
    (grounded : sources.GroundedAt self base other.code)
    (asked : sources.Reaches self base template other.code) :
    Lockstep (sources.Even self column base root template)
      (fun _ => sources.Even self column base root template)
      (fun c _ => sources.Halted self column base root c)
      (sources.subReportValues column (sources.evaluate self column) other.code) := by
  intro s t even
  have apart : ∀ code, sources.Reaches self base other code →
      code ∉ {code | ¬ sources.Reaches self base template code} :=
    fun code rest outside => outside (asked.trans stored rest)
  have closed : other.code ∉ {code | ¬ sources.Reaches self base template code} :=
    fun outside => outside asked
  have both := ((h.ask stored grounded apart closed).both (h.ask stored grounded apart closed)) s t
    ⟨even.left, even.right⟩
  refine both.imp (fun answer c d near => ⟨near.1.rebase, near.2.rebase, ?_⟩)
    fun c d near => ⟨_, near.1⟩
  intro code reached ungrounded
  rw [near.1.others code ungrounded, near.2.others code ungrounded]
  exact even.same code reached ungrounded

section Own

variable (own : ∀ stored, sources.library.get root.code = .ok stored → stored = root)

include own

/-- Asked for in even caches, a report answers alike if it is evaluated in lockstep. -/
theorem ask_even {J : Cache → Prop} {code : String}
    (asked : sources.Reaches self base template code)
    (nested : ∀ other, sources.library.get code = .ok other →
      ¬ sources.GroundedAt self base code →
      Lockstep (fun c d => sources.Even self column base root template c d ∧ J c ∧
          c.progress? code column.period.name = none)
        (fun _ => sources.Even self column base root template)
        (fun c _ => sources.Halted self column base root c) (sources.evaluate self column other)) :
    Lockstep (fun c d => sources.Even self column base root template c d ∧ J c)
      (fun _ => sources.Even self column base root template)
      (fun c _ => sources.Halted self column base root c)
      (sources.subReportValues column (sources.evaluate self column) code) := by
  rintro s t ⟨even, holds⟩
  by_cases settled : sources.GroundedAt self base code
  · obtain ⟨other, get, grounded⟩ := settled
    obtain rfl := Library.code_of_get get
    exact (grounded.repeats own get).ask_even get ⟨other, get, grounded⟩ asked s t even
  · have same := even.same code asked settled
    cases known : s.cache.progress? code column.period.name with
    | some progress => exact agree_of_known known (same ▸ known) even
    | none =>
      obtain ⟨other, get⟩ := asked.holds
      exact agree_of_unknown known (same ▸ known) get (nested other get settled)
        ⟨even, holds, known⟩ fun _ _ _ => id

theorem evaluate_even_step {n : Nat} (le : n ≤ sources.library.size + 1)
    (known : sources.library.Knows root other)
    (ungrounded : ¬ sources.GroundedAt self base other.code)
    (inside : ∀ code, sources.Refers self base other code → sources.Reaches self base template code)
    (nested : ∀ code below, sources.library.get code = .ok below →
      sources.Reaches self base template code → ¬ sources.GroundedAt self base code →
      Lockstep (fun c d => sources.Even self column base root template c d ∧
          c.Room sources.library column.period.name n ∧
          c.progress? code column.period.name = none)
        (fun _ => sources.Even self column base root template)
        (fun c _ => sources.Halted self column base root c) (sources.evaluate self column below)) :
    Lockstep (fun c d => sources.Even self column base root template c d ∧
        (c.mark other.code column.period.name .started).Room sources.library column.period.name n)
      (fun _ => sources.Even self column base root template)
      (fun c _ => sources.Halted self column base root c) (sources.evaluate self column other) := by
  rw [evaluate_eq]
  refine evaluateWith_lockstep base
    (R := fun c d => sources.Even self column base root template c d ∧
      c.Room sources.library column.period.name n)
    ?_ ?_ ?_ ?_ ?_ ?_
  · exact fun c d start => ⟨start.1.mark ungrounded _, start.2⟩
  · exact fun c d start => ⟨start.1.left.tokens other known, start.1.right.tokens other known⟩
  · exact fun c d registry start tokens => ⟨start.1.stock own known tokens, start.2.stock _ _⟩
  · intro code asked
    refine (ask_even own (inside code asked) fun below get ungrounded => ?_).leads
      (subReportValues_leads _ n le code) fun c d start => start.2
    exact nested code below get (inside code asked) ungrounded
  · exact fun c d start => ⟨_, start.1.left.mono (Set.subset_univ _)⟩
  · exact fun found c d start => start.1.mark ungrounded _

/-- Where its references do not come to an end, a template is evaluated in lockstep from even caches
in which at most `n` reports have not been started. -/
theorem evaluate_even_of_room {n : Nat} (le : n ≤ sources.library.size + 1)
    (known : sources.library.Knows root other)
    (ungrounded : ¬ sources.GroundedAt self base other.code)
    (inside : ∀ code, sources.Refers self base other code →
      sources.Reaches self base template code) :
    Lockstep (fun c d => sources.Even self column base root template c d ∧
        (c.mark other.code column.period.name .started).Room sources.library column.period.name n)
      (fun _ => sources.Even self column base root template)
      (fun c _ => sources.Halted self column base root c) (sources.evaluate self column other) := by
  induction n generalizing other with
  | zero =>
    refine evaluate_even_step own le known ungrounded inside fun code below get _ _ => ?_
    rintro s t ⟨-, room, unknown⟩
    cases unknown.symm.trans (room.started (Library.contains_of_get get))
  | succ n ih =>
    refine evaluate_even_step own le known ungrounded inside
      fun code below get reached ungrounded => ?_
    obtain rfl := Library.code_of_get get
    rintro s t ⟨even, room, unknown⟩
    exact ih (Nat.le_of_succ_le le) (.inr get) ungrounded (fun code => reached.refers get) s t
      ⟨even, room.enter (Library.contains_of_get get) unknown⟩

/-- **From even caches a template is evaluated in lockstep.** -/
theorem evaluate_even (known : sources.library.Knows root template) :
    Lockstep (sources.Even self column base root template) (fun _ _ _ => True)
      (fun c _ => sources.Halted self column base root c)
      (sources.evaluate self column template) := by
  by_cases settled : sources.GroundedAt self base template.code
  · obtain ⟨other, get, grounded⟩ := settled
    have keyed := Library.code_of_get get
    obtain rfl : other = template :=
      Library.Knows.eq_of_code own (.inr (keyed ▸ get)) known keyed
    intro s t even
    have apart : ∀ code, sources.Reaches self base other code →
        code ∉ {code | ¬ sources.Reaches self base other code} :=
      fun code reached outside => outside reached
    have repeats : sources.Repeats self column base root other := grounded.repeats own get
    have both := repeats _ _ _ _ apart apart s t ⟨even.left, even.right⟩
    exact both.imp (fun _ _ _ _ => trivial) fun c d near => ⟨_, near.1⟩
  · intro s t even
    have both := evaluate_even_of_room own (Nat.le_succ _) known settled (fun code => .refer) s t
      ⟨even, Cache.room_size _ _ _⟩
    exact both.imp (fun _ _ _ _ => trivial) fun _ _ => id

end Own

/-! ## After a failure -/

/-- An evaluation of the template meets no mark in the cache `after` that a failure has left: no
report that it reaches has been started since `before`, and the references of those that have been
brought to an end since come to an end themselves. -/
structure Undisturbed (sources : Sources) (inst : Instance) (column : Column) (before after : Cache)
    (template : Template) : Prop where
  marks : ∀ code, sources.Reaches inst before template code →
    after.progress? code column.period.name = some .started →
    before.progress? code column.period.name = some .started
  values : ∀ code values, sources.Reaches inst before template code →
    before.progress? code column.period.name = none →
    after.progress? code column.period.name = some (.finished values) →
    sources.GroundedAt inst before code

theorem Undisturbed.even {later : Column} {before after : Cache} {codes : List String}
    (h : sources.Undisturbed self later before after other)
    (halted : sources.Halted self column before root after)
    (leaves : before.Leaves column.period.name codes after)
    (periods : later = column ∨ later.period.name ≠ column.period.name) :
    sources.Even self later before root other after before := by
  obtain ⟨marks, near⟩ := halted
  refine ⟨⟨near.tokens, fun code grounded => ?_, fun _ _ => rfl⟩, .refl before,
    fun code reached ungrounded => ?_⟩
  · rcases periods with rfl | different
    · rcases near.grounded code grounded with echo | ⟨-, started⟩
      · exact .inl echo
      · by_cases reached : sources.Reaches self before other code
        · exact .inl (.inl (started.trans (h.marks code reached started).symm))
        · exact .inr ⟨reached, started⟩
    · exact .inl (.inl (leaves.periods code _ different))
  · rcases periods with rfl | different
    · by_cases inside : code ∈ codes
      · have started := leaves.opened code inside
        exact started.trans (h.marks code reached started).symm
      · rcases leaves.others code inside with same | ⟨unknown, values, finished⟩
        · exact same
        · exact absurd (h.values code values reached unknown finished) ungrounded
    · exact leaves.periods code _ different

/-- **What a failed evaluation spoils.** A failed evaluation leaves the marks of a chain of reports,
the first of them its template, that it was evaluating; all other marks stay as they were. Whatever
meets none of these marks is evaluated as before, to the same results or the same failure. -/
theorem evaluate_after_failure {template : Template}
    (own : ∀ stored, sources.library.get template.code = .ok stored → stored = template)
    {s s' : Session} {e : ReportError}
    (failed : (sources.evaluate self column template).run.run s = (.error e, s')) :
    (∃ chain, sources.Chain self s.cache template chain ∧
      (∀ code ∈ chain.tail, s.cache.progress? code column.period.name = none) ∧
      ∀ code period, s'.cache.progress? code period = some .started ↔
        s.cache.progress? code period = some .started ∨
          period = column.period.name ∧ code ∈ chain) ∧
    ∀ (later : Column) (other : Template), sources.library.Knows template other →
      (later = column ∨ later.period.name ≠ column.period.name) →
      sources.Undisturbed self later s.cache s'.cache other →
      ((sources.evaluate self later other).run.run s').1 =
        ((sources.evaluate self later other).run.run s).1 := by
  have traceable : sources.Traceable self column s.cache template (sources.evaluate self column) :=
    traceable_evaluateNested own _
  have traced := traceable template s.cache (.inl rfl) (.refl _) s s ⟨rfl, rfl⟩
  have start : sources.Even self column s.cache template template s.cache s.cache := .refl s.cache
  have compared := evaluate_even own (.inl rfl) s s start
  rw [failed] at traced compared
  cases traced with
  | error abandons =>
    cases compared with
    | error halted =>
      obtain ⟨chain, route, unmarked, leaves⟩ := abandons
      refine ⟨⟨chain, route, unmarked, leaves.started_iff⟩,
        fun later other known periods calm => ?_⟩
      exact (evaluate_even own known s' s (calm.even halted leaves periods)).same

end Sources

/-! ## A failure below a report -/

namespace Spoiled

/-- A report that can be evaluated. -/
def sound : Template where
  code := "a"
  name := "Sound"
  kpis := [{ name := "k", expression := "True" }]

/-- A report that asks for the records of a model that the store does not know. -/
def faulty : Template where
  code := "s"
  name := "Faulty"
  kpis := [{ name := "k", expression := "True" }]
  queries := [⟨"q", "gone", ["f"], none, "d", []⟩]

/-- A report that refers to both. -/
def outer : Template where
  code := "r"
  name := "Outer"
  kpis := [{ name := "y", expression := "a.k" }, { name := "x", expression := "s.k" }]

/-- A report that refers to the first. -/
def beside : Template where
  code := "t"
  name := "Beside"
  kpis := [{ name := "z", expression := "a.k" }]

/-- The four reports. -/
def sources : Sources :=
  { Sample.sources with library := .ofTemplates [sound, faulty, outer, beside] }

/-- None of the reports has account tokens. -/
def registry : Registry := ⟨[], some []⟩

/-- How the evaluation of the outer report fails. -/
def fault : ReportError := .source (.unknownModel "gone")

/-- The session after the failure. -/
def spoiled : Session := ((sources.evaluate Sample.self Sample.column outer).run.run {}).2

/-- How the evaluation of the outer report fails, and what the cache holds then. -/
theorem outcome_outer :
    let outcome := (sources.evaluate Sample.self Sample.column outer).run.run {}
    outcome.1 = .error fault ∧
      (outcome.2.cache.progress? "r" "day").map Progress.isFinished = some false ∧
      (outcome.2.cache.progress? "s" "day").map Progress.isFinished = some false ∧
      (outcome.2.cache.progress? "a" "day").map Progress.isFinished = some true ∧
      (outcome.2.cache.registries.get? "r").map
        (fun kept => (kept.tokens.isEmpty, kept.accounts)) = some (true, some []) := by
  rw [Sources.evaluate_eq, Sources.evaluateWith, Sources.sortedKpis_eq_kpis (by decide)]
  decide +kernel

theorem fails_outer :
    (sources.evaluate Sample.self Sample.column outer).run.run {} = (.error fault, spoiled) :=
  Prod.ext outcome_outer.1 rfl

theorem isFinished_spoiled :
    (spoiled.cache.progress? "r" "day").map Progress.isFinished = some false ∧
      (spoiled.cache.progress? "s" "day").map Progress.isFinished = some false ∧
      (spoiled.cache.progress? "a" "day").map Progress.isFinished = some true :=
  ⟨outcome_outer.2.1, outcome_outer.2.2.1, outcome_outer.2.2.2.1⟩

/-- The failure leaves the marks of the two reports that it did not come to the end of. -/
theorem started_spoiled :
    spoiled.cache.progress? "r" "day" = some .started ∧
      spoiled.cache.progress? "s" "day" = some .started := by
  have unfinished : ∀ {p : Option Progress}, p.map Progress.isFinished = some false →
      p = some .started := by
    rintro (_ | _ | _) ⟨⟩
    rfl
  exact ⟨unfinished isFinished_spoiled.1, unfinished isFinished_spoiled.2.1⟩

theorem keeps_registry : spoiled.cache.registries.get? "r" = some registry := by
  obtain ⟨⟨tokens, accounts⟩, kept, same⟩ := Option.map_eq_some_iff.1 outcome_outer.2.2.2.2
  obtain ⟨empty, rfl⟩ := Prod.mk.inj same
  obtain rfl : tokens = [] := List.isEmpty_iff.1 empty
  exact kept

theorem get_outer : sources.library.get "r" = .ok outer := by
  rfl

theorem get_beside : sources.library.get "t" = .ok beside := by
  rfl

theorem get_sound : sources.library.get "a" = .ok sound := by
  rfl

/-- The compiled KPIs of the outer report. -/
def outerQueue : List CompiledKpi :=
  [⟨{ name := "y", expression := "a.k" }, .ok (.name "a.k"), ["a"]⟩,
    ⟨{ name := "x", expression := "s.k" }, .ok (.name "s.k"), ["s"]⟩]

/-- What the reports answer after the failure. -/
def answers : Answers := fun code => (spoiled.cache.progress? code "day").bind Progress.values?

/-- With the marks that the failure has left, the outer report is evaluated without a failure. -/
theorem runs_again :
    ∃ found s', Runs (sources.evaluate Sample.self Sample.column outer) spoiled found s' := by
  have gives : (sources.newRegistry Sample.self outer).Gives registry :=
    (Sources.steady_newRegistry outer).gives (by with_unfolding_all rfl)
  have scope : (sources.firstScope Sample.self Sample.column outer registry).Gives .empty :=
    (Sources.steady_firstScope outer registry).gives (by rfl)
  have compile : outer.sortedKpis.mapM (CompiledKpi.ofKpi sources.library outer registry) =
      .ok outerQueue := by
    rw [Sources.sortedKpis_eq_kpis (by decide)]
    with_unfolding_all rfl
  let told (cache : Cache) : Prop := ∀ code ∈ ["a", "s"],
    cache.progress? code "day" = some (.ofAnswer (answers code))
  have replies : (sources.sheet Sample.column (sources.subReportValues Sample.column
      (sources.evaluate Sample.self Sample.column)) outer).Replies (· ∈ ["a", "s"]) answers
      told := by
    intro code member s holds
    obtain ⟨t, run⟩ : ∃ t, (sources.subReportValues Sample.column
        (sources.evaluate Sample.self Sample.column) code).run.run s = _ :=
      Sources.run_subReportValues_of_known (holds code member)
    rw [Progress.values?_ofAnswer] at run
    exact ⟨_, run, holds⟩
  have known {code : String} {finished : Bool}
      (h : (spoiled.cache.progress? code "day").map Progress.isFinished = some finished)
      (other : code ≠ "r") : (spoiled.cache.mark "r" "day" .started).progress? code "day" =
        some (.ofAnswer (answers code)) := by
    obtain ⟨progress, marked, -⟩ := Option.map_eq_some_iff.1 h
    rw [Cache.progress?_mark, if_neg (by simpa using other), answers, marked]
    cases progress <;> rfl
  have start : told (spoiled.cache.mark "r" "day" .started) := by
    simp only [told, List.forall_mem_cons]
    exact ⟨known isFinished_spoiled.2.2 (by decide), known isFinished_spoiled.2.1 (by decide),
      nofun⟩
  rw [Sources.evaluate_eq]
  obtain ⟨s', run⟩ := Sources.evaluateWith_runs_of_replies gives
    (fun other kept => Option.some.inj (kept.symm.trans keeps_registry)) scope compile
    (fun u lookUp code member =>
      (Sources.registry_grows lookUp "day").1.keeps code _ (start code member))
    replies (by simp [outerQueue])
  exact ⟨_, s', run⟩

theorem queue_of_refers {template : Template} (queue : List CompiledKpi) {code : String}
    (gives : (sources.newRegistry Sample.self template).Gives registry)
    (compile : template.sortedKpis.mapM (CompiledKpi.ofKpi sources.library template registry) =
      .ok queue) (h : sources.Refers Sample.self {} template code) :
    ∃ compiled ∈ queue, code ∈ compiled.subReports := by
  obtain ⟨registry', queue', tokens, compile', referred⟩ := h
  obtain rfl := ((Sources.tokens_iff_of_get?_eq_none rfl registry').1 tokens).unique gives
  cases compile.symm.trans compile'
  exact referred

theorem not_refers_sound (code : String) : ¬ sources.Refers Sample.self {} sound code := by
  intro h
  have referred := queue_of_refers
    [⟨{ name := "k", expression := "True" }, .ok (.bool true), []⟩]
    ((Sources.steady_newRegistry sound).gives (by with_unfolding_all rfl))
    (by with_unfolding_all rfl) h
  simp at referred

theorem eq_of_refers_beside {code : String} (h : sources.Refers Sample.self {} beside code) :
    code = "a" := by
  have referred := queue_of_refers
    [⟨{ name := "z", expression := "a.k" }, .ok (.name "a.k"), ["a"]⟩]
    ((Sources.steady_newRegistry beside).gives (by with_unfolding_all rfl))
    (by with_unfolding_all rfl) h
  simpa using referred

theorem eq_of_reaches_beside {code : String} (h : sources.Reaches Sample.self {} beside code) :
    code = "a" := by
  cases h with
  | refer asked => exact eq_of_refers_beside asked
  | step asked get rest =>
    obtain rfl := eq_of_refers_beside asked
    cases get_sound.symm.trans get
    cases rest with
    | refer asked => exact absurd asked (not_refers_sound _)
    | step asked get rest => exact absurd asked (not_refers_sound _)

theorem undisturbed_beside :
    sources.Undisturbed Sample.self Sample.column {} spoiled.cache beside where
  marks := by
    intro code reached started
    obtain rfl := eq_of_reaches_beside reached
    have finished := isFinished_spoiled.2.2
    rw [show spoiled.cache.progress? "a" "day" = some .started from started] at finished
    cases finished
  values := by
    intro code values reached _ _
    obtain rfl := eq_of_reaches_beside reached
    exact ⟨sound, get_sound, .intro fun code other asked => absurd asked (not_refers_sound code)⟩

end Spoiled

/-- After the outer report has failed, the report beside it, which shares a report with it, is
evaluated as before. -/
theorem Sources.evaluate_after_failure_beside :
    (∀ stored, Spoiled.sources.library.get Spoiled.outer.code = .ok stored →
      stored = Spoiled.outer) ∧
    (Spoiled.sources.evaluate Sample.self Sample.column Spoiled.outer).run.run {} =
      (.error Spoiled.fault, Spoiled.spoiled) ∧
    (∃ chain, Spoiled.sources.Chain Sample.self {} Spoiled.outer chain) ∧
    ((Spoiled.sources.evaluate Sample.self Sample.column Spoiled.beside).run.run
        Spoiled.spoiled).1 =
      ((Spoiled.sources.evaluate Sample.self Sample.column Spoiled.beside).run.run {}).1 := by
  have own : ∀ stored, Spoiled.sources.library.get Spoiled.outer.code = .ok stored →
      stored = Spoiled.outer :=
    fun stored get => (Except.ok.inj (Spoiled.get_outer.symm.trans get)).symm
  obtain ⟨⟨chain, route, -⟩, same⟩ := Sources.evaluate_after_failure own Spoiled.fails_outer
  exact ⟨own, Spoiled.fails_outer, ⟨chain, route⟩, same Sample.column Spoiled.beside
    (.inr Spoiled.get_beside) (.inl rfl) Spoiled.undisturbed_beside⟩

/-- The outer report fails and leaves its mark and that of the faulty report. Evaluated again, it
does not fail any more: the faulty report is taken for one that is being evaluated. -/
theorem Sources.failure_is_forgotten :
    (Spoiled.sources.evaluate Sample.self Sample.column Spoiled.outer).run.run {} =
      (.error Spoiled.fault, Spoiled.spoiled) ∧
    (∀ code, ({} : Cache).progress? code "day" = none) ∧
    Spoiled.spoiled.cache.progress? "r" "day" = some .started ∧
    Spoiled.spoiled.cache.progress? "s" "day" = some .started ∧
    ∃ found s', Runs (Spoiled.sources.evaluate Sample.self Sample.column Spoiled.outer)
      Spoiled.spoiled found s' :=
  ⟨Spoiled.fails_outer, fun _ => rfl, Spoiled.started_spoiled.1, Spoiled.started_spoiled.2,
    Spoiled.runs_again⟩

end KpiReport
