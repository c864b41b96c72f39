import KpiReport.Proofs.Evaluation.Order
import KpiReport.Proofs.Evaluation.Publicity

/-!
# Two evaluations with some formulas in common

Let two evaluations have some KPIs in common, up to the private names in their formulas, and let
these read nothing else that tells the evaluations apart (`Mirrors`). Then whatever the passes of
the one bind to such a KPI, the other has bound in the end (`Findings.passes_mirrored`). If this
holds in both directions, the outcomes of such a KPI look alike (`Mirrors.alike`).
-/

namespace KpiReport

/-! ## Outcomes that look alike -/

/-- The outcomes are the same, or failures of formulas that cannot be told apart by what is
shown. -/
def Outcome.Alike (a b : Outcome) : Prop :=
  b = a ∨ ∃ e e', a = .error e ∧ b = .error e' ∧ e ≠ .divisionByZero ∧ e' ≠ .divisionByZero

theorem Extends.alike {a b : Outcome} (h : Extends a b) (h' : Extends b a) : a.Alike b := by
  cases h with
  | refl => exact .inl rfl
  | fault old new => exact .inr ⟨_, _, rfl, rfl, old, new⟩
  | wants x =>
    cases h' with
    | refl => exact .inl rfl
    | fault old new => exact .inr ⟨_, _, rfl, rfl, new, old⟩
    | wants y => exact .inr ⟨_, _, rfl, rfl, nofun, nofun⟩

namespace Outcome

theorem binding?_of_ne {e : EvalError} (other : e ≠ .divisionByZero) :
    binding? (.error e) = none := by
  cases e with
  | divisionByZero => exact absurd rfl other
  | _ => rfl

theorem display_of_ne {e : EvalError} (other : e ≠ .divisionByZero) (kpi : Kpi) (locale : Locale) :
    display (.error e) kpi locale = failureSign := by
  cases e with
  | divisionByZero => exact absurd rfl other
  | _ => rfl

/-- A value that an outcome binds, every outcome binds that extends it. -/
theorem binding?_of_extends {a b : Outcome} (h : Extends a b) {value : Value}
    (bound : a.binding? = some value) : b.binding? = some value := by
  cases h with
  | refl => exact bound
  | fault old new =>
    rw [binding?_of_ne old] at bound
    cases bound
  | wants x => cases bound

variable {a b : Outcome}

theorem Alike.value (h : a.Alike b) : b.value = a.value := by
  rcases h with rfl | ⟨e, e', rfl, rfl, -, -⟩ <;> rfl

theorem Alike.isValue (h : a.Alike b) : b.isValue = a.isValue := by
  rcases h with rfl | ⟨e, e', rfl, rfl, -, -⟩ <;> rfl

theorem Alike.display (h : a.Alike b) (kpi : Kpi) (locale : Locale) :
    b.display kpi locale = a.display kpi locale := by
  rcases h with rfl | ⟨e, e', rfl, rfl, other, other'⟩
  · rfl
  · rw [display_of_ne other, display_of_ne other']

end Outcome

/-! ## KPIs in common -/

/-- The KPIs of a queue whose names are `good` stand in another queue as well, but for the names `f`
in their formulas. Besides each other they read only names whose bindings in the scope `F` are found
in the scope `F'`. -/
structure Mirrors (f : String → String) (good : String → Prop) (queue queue' : List CompiledKpi)
    (F F' : Scope) : Prop where
  changes : ChangesPrivate f
  renamed : ∀ compiled ∈ queue, good compiled.kpi.name →
    ∃ compiled' ∈ queue', compiled.Renamed f compiled'
  reads : ∀ compiled ∈ queue, good compiled.kpi.name → ∀ e, compiled.expression = .ok e →
    ∀ x ∈ e.names,
      (∃ other ∈ queue, other.kpi.name = x ∧ good x ∧ f x = x) ∨ F'.get? (f x) = F.get? x

namespace Mirrors

variable {f : String → String} {good : String → Prop} {queue queue' : List CompiledKpi}
  {F F' S : Scope}

/-- In a scope below `F`, a KPI in common gives nothing that it does not give in `F'`. -/
theorem eval_extends (mirrors : Mirrors f good queue queue' F F') (clean : S.Public) (le : S ≤ F)
    (settled : ∀ other ∈ queue, good other.kpi.name → ∀ value,
      S.get? other.kpi.name = some value → F'.get? other.kpi.name = some value)
    {compiled compiled' : CompiledKpi} (member : compiled ∈ queue) (own : good compiled.kpi.name)
    (renamed : compiled.Renamed f compiled') {e : Expr} (parsed : compiled.expression = .ok e) :
    Extends (compiled.eval S) (compiled'.eval F') := by
  have keeps : ∀ x, x ∈ e.names → ∀ value, S.get? x = some value →
      F'.get? (f x) = some value := by
    intro x read value bound
    rcases mirrors.reads compiled member own e parsed x read with
      ⟨other, inside, rfl, shared, fixed⟩ | same
    · rw [fixed]
      exact settled other inside shared value bound
    · rw [same]
      exact le x value bound
  unfold CompiledKpi.eval
  rw [parsed, renamed.expression e parsed]
  exact Expr.eval_extends mirrors.changes clean keeps e fun x read => read

/-- Where each evaluation mirrors the other, the outcomes of a KPI in common look alike. -/
theorem alike {g : String → String} (mirrors : Mirrors f good queue queue' F F')
    (mirrors' : Mirrors g good queue' queue F' F) (clean : F.Public) (clean' : F'.Public)
    (settled : ∀ other ∈ queue, good other.kpi.name → ∀ value,
      F.get? other.kpi.name = some value → F'.get? other.kpi.name = some value)
    (settled' : ∀ other ∈ queue', good other.kpi.name → ∀ value,
      F'.get? other.kpi.name = some value → F.get? other.kpi.name = some value)
    {compiled compiled' : CompiledKpi} (member : compiled ∈ queue) (member' : compiled' ∈ queue')
    (own : good compiled.kpi.name) (renamed : compiled.Renamed f compiled')
    (renamed' : compiled'.Renamed g compiled) :
    Outcome.Alike (compiled.eval F) (compiled'.eval F') := by
  have own' : good compiled'.kpi.name := by rwa [renamed.kpi]
  cases parsed : compiled.expression with
  | ok e =>
    have forth := mirrors.eval_extends clean (Scope.le_refl F) settled member own renamed parsed
    have back := mirrors'.eval_extends clean' (Scope.le_refl F') settled' member' own' renamed'
      (renamed.expression e parsed)
    exact forth.alike back
  | error fault =>
    cases parsed' : compiled'.expression with
    | ok e' =>
      rw [renamed'.expression e' parsed'] at parsed
      cases parsed
    | error fault' =>
      unfold CompiledKpi.eval
      rw [parsed, parsed']
      exact .inr ⟨_, _, rfl, rfl, nofun, nofun⟩

end Mirrors

/-! ## Passes -/

namespace Findings

variable {period period' : String} {locale locale' : Locale} {answers answers' : Answers}

theorem get?_prepared_of_dotless {x : String} (free : Dotless x) (findings : Findings)
    (compiled : CompiledKpi) :
    (findings.prepared answers compiled).scope.get? x = findings.scope.get? x := by
  refine prepared_keeps (J := fun after => after.scope.get? x = findings.scope.get? x) ?_ rfl
  intro code _ after same
  rw [← same, bindAnswer]
  split
  · rfl
  · split
    · rw [get?_bindReport, lookup_dottedEntries_of_dotless free, Option.none_or]
    · rfl

/-- Whatever the passes bind to a KPI in common, the other evaluation has bound in the end. -/
theorem passes_mirrored {f : String → String} {good : String → Prop}
    {queue queue' : List CompiledKpi} {before after before' after' : Findings}
    (named : WellNamed queue)
    (found : (passes period locale answers before queue).1 = after)
    (settles : Settles period locale answers before after queue)
    (settles' : Settles period' locale' answers' before' after' queue')
    (mirrors : Mirrors f good queue queue' after.scope after'.scope) (clean : after.scope.Public)
    (unbound : ∀ compiled ∈ queue, before.scope.get? compiled.kpi.name = none) :
    ∀ compiled ∈ queue, good compiled.kpi.name → ∀ value,
      after.scope.get? compiled.kpi.name = some value →
        after'.scope.get? compiled.kpi.name = some value := by
  have all : (passes period locale answers before queue).1.scope ≤ after.scope ∧
      ∀ compiled ∈ queue, good compiled.kpi.name → ∀ value,
        (passes period locale answers before queue).1.scope.get? compiled.kpi.name = some value →
          after'.scope.get? compiled.kpi.name = some value := by
    refine passes_keeps (J := fun findings => findings.scope ≤ after.scope ∧
      ∀ compiled ∈ queue, good compiled.kpi.name → ∀ value,
        findings.scope.get? compiled.kpi.name = some value →
          after'.scope.get? compiled.kpi.name = some value) ?_ ⟨settles.scope_le, ?_⟩
    · rintro compiled member findings ⟨le, settled⟩
      have frees := named.reports compiled member
      have answered := settles.answered compiled member
      have prepared := prepared_le frees answered le
      refine ⟨visited_le frees answered (settles.shows compiled member).1 le, ?_⟩
      intro other inside own value bound
      rcases get?_visited bound with ⟨same, outcome⟩ | old
      · obtain rfl := named.eq_of_name inside member same
        obtain ⟨compiled', member', renamed⟩ := mirrors.renamed other inside own
        cases parsed : other.expression with
        | error fault =>
          rw [CompiledKpi.eval, parsed] at outcome
          cases outcome
        | ok e =>
          have below : ∀ another ∈ queue, good another.kpi.name → ∀ value,
              (findings.prepared answers other).scope.get? another.kpi.name = some value →
                after'.scope.get? another.kpi.name = some value := by
            intro another stands shared value bound
            rw [get?_prepared_of_dotless (named.dotless another stands)] at bound
            exact settled another stands shared value bound
          have extends_ := mirrors.eval_extends (fun x value bound => clean x value
            (prepared x value bound)) prepared below inside own renamed parsed
          rw [← renamed.kpi, (settles'.shows compiled' member').1]
          exact Outcome.binding?_of_extends extends_ outcome
      · rw [get?_prepared_of_dotless (named.dotless other inside)] at old
        exact settled other inside own value old
    · intro compiled member _ value bound
      rw [unbound compiled member] at bound
      cases bound
  rw [found] at all
  exact all.2

end Findings

end KpiReport
