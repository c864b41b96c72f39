import KpiReport.Proofs.Evaluation.References
import KpiReport.Report

/-!
# Validation accepts formulas that can be compiled

Validation cuts formulas into tokens as they are written, while compiling first replaces the account
tokens. For formulas whose account tokens can be told apart as they are written
(`AccountToken.LegibleIn`) the two find the same references, those to balances apart, and a report
is never refused for the syntax of formulas that can be compiled
(`Sources.report_accepts_compilable`). Inline filters have an operator that formulas lack, so a
formula with one can be refused although it could be compiled.
-/

namespace KpiReport

/-- A definition is refused because a formula is ill-formed. -/
def ReportError.isSyntactic : ReportError → Bool
  | invalidDefinition _ (.formula _) => true
  | _ => false

/-- The failure is not syntactic, unless it has the property. -/
def Tolerable (R : ReportError → Prop) (e : ReportError) : Prop :=
  e.isSyntactic = true → R e

variable {R : ReportError → Prop}

theorem tolerable_of_eq_false {e : ReportError} (h : e.isSyntactic = false) : Tolerable R e := by
  intro syntactic
  rw [h] at syntactic
  cases syntactic

open Result

/-! ## Definitions -/

/-- A failure that is not syntactic is tolerable. -/
theorem Result.failsOnly_refuse {α : Type} {e : ReportError} (h : e.isSyntactic = false) :
    FailsOnly (Tolerable R) (.error e : Result α) :=
  failsOnly_error (tolerable_of_eq_false h)

namespace Template

variable (context : DefinitionContext)

theorem failsOnly_checkName (name : String) :
    Result.FailsOnly (Tolerable R) (checkName context name) := by
  unfold checkName
  split
  · exact failsOnly_refuse rfl
  · split
    · exact failsOnly_refuse rfl
    · split
      · exact failsOnly_refuse rfl
      · exact failsOnly_ok _

theorem failsOnly_checkKpis (used : List String) (kpis : List Kpi) :
    Result.FailsOnly (Tolerable R) (checkKpis context used kpis) := by
  induction kpis generalizing used with
  | nil => exact failsOnly_ok _
  | cons kpi kpis ih =>
    rw [checkKpis]
    refine (failsOnly_checkName context kpi.name).bind fun _ _ => ?_
    split
    · exact failsOnly_refuse rfl
    · split
      · exact failsOnly_refuse rfl
      · exact ih _

theorem failsOnly_checkQueries (used : List String) (queries : List Query) :
    Result.FailsOnly (Tolerable R) (checkQueries context used queries) := by
  induction queries generalizing used with
  | nil => exact failsOnly_ok _
  | cons query queries ih =>
    rw [checkQueries]
    refine (failsOnly_checkName context query.name).bind fun _ _ => ?_
    split
    · exact failsOnly_refuse rfl
    · split
      · exact failsOnly_refuse rfl
      · split
        · exact failsOnly_refuse rfl
        · exact ih _

theorem failsOnly_checkPeriods (used : List String) (periods : List PeriodTemplate) :
    Result.FailsOnly (Tolerable R) (checkPeriods context used periods) := by
  induction periods generalizing used with
  | nil => exact failsOnly_ok _
  | cons period periods ih =>
    rw [checkPeriods]
    split
    · exact failsOnly_refuse rfl
    · split
      · exact failsOnly_refuse rfl
      · exact ih _

theorem failsOnly_checkPosition (template : Template) (periods : List String)
    (position : Position) :
    Result.FailsOnly (Tolerable R) (checkPosition template context periods position) := by
  have ofPeriod (period : String) : Result.FailsOnly (Tolerable R)
      (if (!periods.contains period) = true then
        .error (.invalidDefinition context (.positionOfUnknownPeriod period))
      else .ok ()) := by
    split
    · exact failsOnly_refuse rfl
    · exact failsOnly_ok _
  unfold checkPosition
  dsimp only
  split
  · exact failsOnly_refuse rfl
  · split
    · split
      · exact failsOnly_refuse rfl
      · split
        · exact ofPeriod _
        · exact failsOnly_ok _
    · split
      · exact ofPeriod _
      · exact failsOnly_ok _

theorem failsOnly_validate (template : Template) :
    Result.FailsOnly (Tolerable R) template.validate := by
  unfold validate
  dsimp only
  split
  · exact failsOnly_refuse rfl
  · refine (failsOnly_checkKpis _ _ _).bind fun used _ => ?_
    refine (failsOnly_checkQueries _ _ _).bind fun _ _ => ?_
    refine (failsOnly_checkPeriods _ _ _).bind fun periods _ => ?_
    exact Result.FailsOnly.forM fun position _ => failsOnly_checkPosition _ _ _ position

end Template

namespace Instance

theorem failsOnly_checkPeriods (context : DefinitionContext) (used : List String)
    (periods : List Period) :
    Result.FailsOnly (Tolerable R) (checkPeriods context used periods) := by
  induction periods generalizing used with
  | nil => exact failsOnly_ok _
  | cons period periods ih =>
    rw [checkPeriods]
    split
    · exact failsOnly_refuse rfl
    · split
      · exact failsOnly_refuse rfl
      · split
        · exact failsOnly_refuse rfl
        · exact ih _

theorem failsOnly_validate (self : Instance) :
    Result.FailsOnly (Tolerable R) self.validate := by
  refine (failsOnly_checkPeriods _ _ _).bind fun names _ => ?_
  unfold checkComparisons
  split
  · exact failsOnly_refuse rfl
  · exact failsOnly_ok _

end Instance

namespace Library

variable {library : Library}

theorem failsOnly_get (code : String) : Result.FailsOnly (Tolerable R) (library.get code) :=
  failsOnly_ofOption (tolerable_of_eq_false rfl) _

theorem failsOnly_checkReference (template : Template) (kpi : Kpi)
    (reference : String × String) :
    Result.FailsOnly (Tolerable R) (library.checkReference template kpi reference) := by
  unfold checkReference
  split
  · exact failsOnly_ok _
  · split
    · rename_i e failed
      exact failsOnly_error (failsOnly_get _ e failed)
    · split
      · exact failsOnly_ok _
      · exact failsOnly_refuse rfl

/-- A library is refused for the syntax of a formula only if references cannot be looked for in
it. -/
theorem failsOnly_validate (blamed : ∀ entry ∈ library.reports, ∀ kpi ∈ entry.2.kpis,
    ∀ fault, dottedReferences kpi.expression = .error fault →
      R (.invalidDefinition (.kpi entry.2.code kpi.name) (.formula fault))) :
    Result.FailsOnly (Tolerable R) library.validate := by
  refine Result.FailsOnly.forM fun template stored => ?_
  obtain ⟨entry, inside, rfl⟩ := List.mem_map.1 stored
  refine (Template.failsOnly_validate _).bind fun _ _ => Result.FailsOnly.forM fun kpi member => ?_
  unfold checkReferences
  split
  · rename_i fault failed
    exact failsOnly_error fun _ => blamed entry inside kpi member fault failed
  · exact Result.FailsOnly.forM fun reference _ => failsOnly_checkReference _ _ reference

end Library

/-! ## Layouts -/

theorem failsOnly_formatDate (date : Calendar.Date) (text : String) :
    Result.FailsOnly (Tolerable R) (formatDate date text) := by
  unfold formatDate
  split
  · rename_i e failed
    exact failsOnly_error (failsOnly_ofOption (tolerable_of_eq_false rfl) _ e failed)
  · exact failsOnly_ofOption (tolerable_of_eq_false rfl) _

theorem Column.failsOnly_dateCaption (column : Column) (locale : Locale) :
    Result.FailsOnly (Tolerable R) (column.dateCaption locale) := by
  unfold dateCaption
  dsimp only
  split
  · split <;> exact failsOnly_ok _
  · refine (failsOnly_formatDate _ _).bind fun _ _ => (failsOnly_formatDate _ _).bind fun _ _ =>
      (failsOnly_ok _).bind fun _ _ => ?_
    split <;> exact failsOnly_ok _

theorem Template.failsOnly_layOut (template : Template) (locale : Locale)
    (columns : List FilledColumn) :
    Result.FailsOnly (Tolerable R) (template.layOut locale columns) := by
  refine ((Result.FailsOnly.mapM fun column _ => ?_).map _).map _
  exact (column.failsOnly_dateCaption locale).map _

/-! ## Reports -/

namespace Sources

variable {sources : Sources} (raised : ∀ e, sources.Raises e → R e)

include raised

theorem usual_tolerable : sources.Usual (Tolerable R) where
  raised := fun e h _ => raised e h
  token := fun _ _ => tolerable_of_eq_false rfl
  date := fun _ => tolerable_of_eq_false rfl
  aggregation := fun _ _ _ _ => tolerable_of_eq_false rfl

/-- Compiling is never refused for the syntax of a formula: such a KPI fails when it is
evaluated. -/
theorem compiles_tolerable (template : Template) : sources.Compiles (Tolerable R) template := by
  intro kpi _ registry
  exact CompiledKpi.failsOnly_ofKpi (usual_tolerable raised) fun _ _ _ _ reference _ _ =>
    Library.failsOnly_checkReference _ _ reference

theorem failsOnly_bounds (period : Period) (company : String) (pivot : Calendar.Date) :
    Result.FailsOnly (Tolerable R) (period.bounds sources.ledger company pivot) := by
  have days (date : Calendar.Date) (offset days : Int) :
      Result.FailsOnly (Tolerable R) (Bounds.ofDays date offset days) := by
    have shift := failsOnly_shiftDays (usual_tolerable raised).date
    unfold Bounds.ofDays
    split
    · rename_i e failed
      exact failsOnly_error (shift _ _ e failed)
    · split
      · rename_i e failed
        exact failsOnly_error (shift _ _ e failed)
      · exact failsOnly_ok _
  have asked : Result.FailsOnly (Tolerable R) (sources.ledger.fiscalPeriods company) :=
    fun e failed _ => raised e (.fiscalPeriods failed)
  unfold Period.bounds
  split
  · exact (days _ _ _).map _
  · exact (days _ _ _).map _
  · exact asked.map _

theorem failsOnly_columns (self : Instance) (pivot : Calendar.Date) (periods : List Period) :
    FailsOnly (Tolerable R) (sources.columns self pivot periods) := by
  induction periods with
  | nil => exact failsOnly_pure _
  | cons period periods ih =>
    have resolved : FailsOnly (Tolerable R)
        (period.resolve sources.ledger self.company pivot) := by
      refine (Traced.failsOnly_ofResult (failsOnly_bounds raised _ _ _)).next fun bounds => ?_
      split
      · exact failsOnly_pure _
      · exact (Traced.failsOnly_log _ _).next fun _ => failsOnly_pure _
    exact resolved.next fun _ => ih.next fun _ => failsOnly_pure _

theorem failsOnly_fill (self : Instance) (template : Template) (column : Column) :
    FailsOnly (Tolerable R) (sources.fill self template column) := by
  have evaluated : FailsOnly (Tolerable R) (sources.evaluate self column template) :=
    failsOnly_evaluate (usual_tolerable raised) self column (compiles_tolerable raised template)
      fun _ other _ => compiles_tolerable raised other
  exact (Evaluation.failsOnly_log _ _).next fun _ => evaluated.next fun _ => failsOnly_pure _

theorem failsOnly_compute (self : Instance) :
    FailsOnly (Tolerable R) (sources.compute self) := by
  have pivot : Result.FailsOnly (Tolerable R) (sources.pivotDate self) :=
    (failsOnly_offset (usual_tolerable raised)).map _
  have filled (template : Template) :
      FailsOnly (Tolerable R) (sources.filledColumns self template) :=
    (Traced.failsOnly_ofResult pivot).next fun pivot => (failsOnly_columns raised self pivot _).next
      fun columns => (Traced.failsOnly_log _ _).next fun _ => Evaluation.failsOnly_onNewCache
        (FailsOnly.mapM (failsOnly_fill raised self template) columns)
  exact (Traced.failsOnly_ofResult self.failsOnly_validate).next fun _ =>
    (Traced.failsOnly_ofResult (Library.failsOnly_get _)).next fun template =>
    (Traced.failsOnly_ofResult template.failsOnly_validate).next fun _ => (filled template).next
    fun columns => Traced.failsOnly_ofResult (template.failsOnly_layOut _ columns)

end Sources

/-- The account tokens of the formula can be told apart as it is written. -/
def AccountToken.LegibleIn (formula : String) : Prop :=
  ∀ pieces, scan formula = .ok pieces → Legible pieces

/-- With names for its account tokens, all of them registered, the formula can be read. -/
def Registry.Compilable (formula : String) : Prop :=
  ∃ (registry : Registry) (text : String) (e : Expr),
    registry.substitute formula = .ok text ∧ Expr.parse text = .ok e

/-- The failure is for the syntax of a KPI of the library whose formula cannot be compiled, or whose
account tokens cannot be told apart. -/
def Library.Blames (library : Library) (e : ReportError) : Prop :=
  ∃ entry ∈ library.reports, ∃ kpi ∈ entry.2.kpis, ∃ fault,
    e = .invalidDefinition (.kpi entry.2.code kpi.name) (.formula fault) ∧
      (AccountToken.LegibleIn kpi.expression → ¬ Registry.Compilable kpi.expression)

theorem Registry.Compilable.exists_references {formula : String} (h : Compilable formula)
    (legible : AccountToken.LegibleIn formula) :
    ∃ references, dottedReferences formula = .ok references := by
  obtain ⟨registry, text, e, replaced, read⟩ := h
  obtain ⟨tokens, cut, -⟩ := bind_eq_ok.1 read
  have found : dottedReferences text = .ok (Token.references false tokens) := by
    rw [dottedReferences, cut]
    rfl
  exact ⟨_, registry.references_eq replaced found legible⟩

/-- **Validation accepts formulas that can be compiled.** If the account tokens of a formula can be
told apart as it is written and its substituted text can be cut into tokens, the formula holds the
references of that text, but for those to balances. So a report is never refused for the syntax of
such a formula that can be compiled, unless the ledger or the record store do so. -/
theorem Sources.report_accepts_compilable (sources : Sources) (self : Instance) :
    (∀ formula, AccountToken.LegibleIn formula → ∀ (registry : Registry) text tokens,
      registry.substitute formula = .ok text → Token.ofText text = .ok tokens →
      ∃ references, dottedReferences text = .ok references ∧
        dottedReferences formula = .ok (references.filter Lexeme.shown)) ∧
    ∀ trace e trace', (sources.report self).run.run trace = (.error e, trace') →
      e.isSyntactic = true → sources.Raises e ∨ sources.library.Blames e := by
  constructor
  · intro formula legible registry text tokens replaced cut
    have found : dottedReferences text = .ok (Token.references false tokens) := by
      rw [dottedReferences, cut]
      rfl
    exact ⟨_, found, registry.references_eq replaced found legible⟩
  · -- Validation reads the formulas as they are written; whatever comes after it looks at none.
    have validated : Result.FailsOnly
        (Tolerable fun e => sources.Raises e ∨ sources.library.Blames e)
        sources.library.validate := by
      refine Library.failsOnly_validate fun entry stored kpi member fault failed => ?_
      refine .inr ⟨entry, stored, kpi, member, fault, rfl, fun legible compilable => ?_⟩
      obtain ⟨references, found⟩ := compilable.exists_references legible
      cases found.symm.trans failed
    exact (Traced.failsOnly_ofResult validated).next fun _ => (Traced.failsOnly_log _ _).next
      fun _ => failsOnly_compute (fun _ => .inl) self

namespace Filtering

/-- A report whose KPI has an inline filter with a single equals sign. -/
def template : Template where
  code := "r"
  name := "Filtering"
  kpis := [{ name := "k", expression := "bal[0][x = 'a']" }]

/-- The sources with this report. -/
def sources : Sources :=
  { Sample.sources with library := .ofTemplates [template] }

/-- The account tokens of the report. -/
def registry : Registry :=
  ⟨[⟨"bal[0][x = 'a']", .balance, .variation, [.code "0"], [.field "x" .eq (.text "a")]⟩], none⟩

/-- The KPI is refused for the equals sign. -/
def fault : ReportError :=
  .invalidDefinition (.kpi "r" "k") (.formula (.unexpectedCharacter '='))

theorem refused : sources.library.validate = .error fault := by
  have reports : sources.library.reports = [("r", template)] := by rfl
  have valid : template.validate = .ok () := by rfl
  have written : dottedReferences "bal[0][x = 'a']" = .error (.unexpectedCharacter '=') := by
    with_unfolding_all rfl
  have checked : template.kpis.forM (sources.library.checkReferences template) =
      .error fault := by
    change sources.library.checkReferences template _ >>= _ = _
    rw [Library.checkReferences, written]
    rfl
  unfold Library.validate
  rw [reports]
  change (template.validate >>= fun _ => _) >>= _ = _
  rw [valid]
  change template.kpis.forM (sources.library.checkReferences template) >>= _ = _
  rw [checked]
  rfl

theorem compilable : Registry.Compilable "bal[0][x = 'a']" := by
  have replaced : registry.substitute "bal[0][x = 'a']" = .ok "__acc_0" := by with_unfolding_all rfl
  have read : Expr.parse "__acc_0" = .ok (.name "__acc_0") := by with_unfolding_all rfl
  exact ⟨registry, _, _, replaced, read⟩

theorem report_fails (trace : Trace) :
    (sources.report Sample.self).run.run trace = (.error fault, trace) := by
  unfold Sources.report
  rw [refused]
  rfl

end Filtering

theorem Referring.legibleIn : AccountToken.LegibleIn "s.x - bal[0]" := by
  intro pieces scanned
  have own : AccountToken.scan "s.x - bal[0]" = .ok Referring.pieces := by with_unfolding_all rfl
  cases own.symm.trans scanned
  refine ⟨separate_pieces.apart, by decide, by decide, fun ts cut => ?_, ?_⟩
  · have filled : Token.ofChars (AccountToken.fill (fun _ => "None") Referring.pieces) =
        .ok [.name "s", .punct .dot, .name "x", .punct .minus, .name "None"] := by
      with_unfolding_all rfl
    cases filled.symm.trans cut
    intro name member
    have shown : name = "s" ∨ name = "x" ∨ name = "None" := by simpa using member
    rcases shown with rfl | rfl | rfl <;> decide
  · intro t member filtered
    obtain rfl : t = token := by simpa [Referring.pieces] using member
    exact absurd rfl filtered

/-- A reference beside an account token is found before and after the token is replaced, and a
report that is refused for a sign has a formula to blame for it. -/
theorem Sources.report_accepts_compilable_linked :
    (AccountToken.LegibleIn "s.x - bal[0]" ∧
      Leaking.registry.substitute "s.x - bal[0]" = .ok "s.x - __acc_0" ∧
      ∃ references, dottedReferences "s.x - __acc_0" = .ok references ∧
        dottedReferences "s.x - bal[0]" = .ok (references.filter Lexeme.shown)) ∧
    (Filtering.sources.report Sample.self).run.run {} = (.error Filtering.fault, {}) ∧
      (Filtering.sources.Raises Filtering.fault ∨
        Filtering.sources.library.Blames Filtering.fault) := by
  have replaced : Leaking.registry.substitute "s.x - bal[0]" = .ok "s.x - __acc_0" := by
    with_unfolding_all rfl
  have cut : Token.ofText "s.x - __acc_0" =
      .ok [.name "s", .punct .dot, .name "x", .punct .minus, .name "__acc_0"] := by
    with_unfolding_all rfl
  have fails := Filtering.report_fails {}
  obtain ⟨agree, refused⟩ := Sources.report_accepts_compilable Filtering.sources Sample.self
  exact ⟨⟨Referring.legibleIn, replaced, agree _ Referring.legibleIn _ _ _ replaced cut⟩, fails,
    refused _ _ _ fails rfl⟩

/-- A formula with an inline filter that can be compiled, for whose syntax the report is refused. -/
theorem Sources.report_refuses_inline_filter :
    Registry.Compilable "bal[0][x = 'a']" ∧
      dottedReferences "bal[0][x = 'a']" = .error (.unexpectedCharacter '=') ∧
      ((Filtering.sources.report Sample.self).run.run {}).1 =
        .error (.invalidDefinition (.kpi "r" "k") (.formula (.unexpectedCharacter '='))) := by
  have written : dottedReferences "bal[0][x = 'a']" = .error (.unexpectedCharacter '=') := by
    with_unfolding_all rfl
  exact ⟨Filtering.compilable, written, congrArg Prod.fst (Filtering.report_fails {})⟩

end KpiReport
