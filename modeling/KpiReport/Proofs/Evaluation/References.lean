import KpiReport.Proofs.Account.CrossReferences
import KpiReport.Proofs.Definition.Validation
import KpiReport.Proofs.Evaluation.Equations
import KpiReport.Proofs.Evaluation.Failures

/-!
# References of valid libraries

Validation looks for references between reports in the formulas as they are written, evaluation in
the formulas with names for their account tokens. Where account tokens are no part of references,
evaluation finds no reference that validation has not checked, so it never misses a report or a KPI
(`Sources.evaluate_finds_reports`). A token after a dot is such a part: with a name in its place the
reference is to a KPI that nobody has.
-/

namespace KpiReport

/-- A report, or a KPI of a report, is missing. -/
def ReportError.isStructural : ReportError → Bool
  | reportNotFound _ | missingSubReportKpi _ _ _ => true
  | _ => false

/-- No report of the library has a code of the form of the names of account tokens, and no account
token is part of a reference. -/
structure Library.Separate (library : Library) : Prop where
  code : ∀ code template, library.get code = .ok template → Registry.isAccountName code = false
  kpi : ∀ code template, library.get code = .ok template → ∀ kpi ∈ template.kpis,
    ∀ pieces, AccountToken.scan kpi.expression = .ok pieces → AccountToken.Separate pieces

namespace Library

variable {library : Library}

theorem mem_of_get {code : String} {template : Template} (h : library.get code = .ok template) :
    (code, template) ∈ library.reports := by
  unfold get Result.ofOption at h
  split at h
  · rename_i found
    cases h
    exact Table.mem_of_get? found
  · cases h

/-- Every reference to another report that evaluation finds is to a KPI of a report. -/
theorem Separate.checked (separate : library.Separate) (valid : library.validate = .ok ())
    {code : String} {template : Template} (stored : library.get code = .ok template) {kpi : Kpi}
    (member : kpi ∈ template.kpis) {registry : Registry} {text : String}
    (replaced : registry.substitute kpi.expression = .ok text)
    {references : List (String × String)} (found : dottedReferences text = .ok references)
    {reference : String × String} (inside : reference ∈ references)
    (crosses : library.isCrossReference template reference = true) :
    library.checkReference template kpi reference = .ok () := by
  obtain ⟨written, raw, kept⟩ :=
    Registry.references_sublist replaced found (separate.kpi code template stored kpi member)
  obtain ⟨written', raw', checked⟩ := checkReferences_eq_ok.1
    ((validate_eq_ok.1 valid _ (mem_of_get stored)).2 kpi member)
  cases raw.symm.trans raw'
  obtain ⟨referenced, get⟩ := exists_get_of_contains (Bool.and_eq_true_iff.1 crosses).2
  have shown : Lexeme.shown reference = true := by
    rw [Lexeme.shown, separate.code _ _ get]
    rfl
  exact checked reference (kept.subset (List.mem_filter.2 ⟨inside, shown⟩))

end Library

namespace Sources

variable {sources : Sources}

/-- All failures but the structural ones, which only the ledger or the record store may report. -/
theorem usual_isStructural :
    sources.Usual fun e => e.isStructural = true → sources.Raises e where
  raised := fun _ h _ => h
  token := fun _ _ structural => by cases structural
  date := fun _ structural => by cases structural
  aggregation := fun _ _ _ _ structural => by cases structural

/-- **A valid library never fails structurally.** If no report has a code of the form of the names
of account tokens and no account token is part of a reference, every reference to another report
that evaluation finds names a report and one of its KPIs, and no report or KPI is ever missing,
whatever has been evaluated before. -/
theorem evaluate_finds_reports (valid : sources.library.validate = .ok ())
    (separate : sources.library.Separate) {code : String} {template : Template}
    (stored : sources.library.get code = .ok template) (self : Instance) (column : Column) :
    (∀ kpi ∈ template.kpis, ∀ (registry : Registry) text references,
      registry.substitute kpi.expression = .ok text →
      dottedReferences text = .ok references →
      ∀ reference ∈ references,
        sources.library.isCrossReference template reference = true →
        ∃ referenced, sources.library.get reference.1 = .ok referenced ∧
          (referenced.kpi? reference.2).isSome = true) ∧
    ∀ session e session', (sources.evaluate self column template).run.run session =
      (.error e, session') → e.isStructural = true → sources.Raises e := by
  constructor
  · intro kpi member registry text references replaced found reference inside crosses
    have checked := separate.checked valid stored member replaced found inside crosses
    rcases Library.checkReference_eq_ok.1 checked with own | known
    · rw [Option.isNone_iff_eq_none.1 (Bool.and_eq_true_iff.1 crosses).1] at own
      cases own
    · exact known
  · -- Compiling finds every report and KPI, and no other failure is structural.
    have compiles (code : String) (template : Template)
        (stored : sources.library.get code = .ok template) :
        sources.Compiles (fun e => e.isStructural = true → sources.Raises e) template := by
      intro kpi member registry
      refine CompiledKpi.failsOnly_ofKpi usual_isStructural
        fun text references replaced found reference inside crosses => ?_
      rw [separate.checked valid stored member replaced found inside crosses]
      exact Result.failsOnly_ok ()
    exact failsOnly_evaluate usual_isStructural self column (compiles code template stored) compiles

end Sources

namespace Referring

/-- A report with one KPI. -/
def inner : Template where
  code := "s"
  name := "Inner"
  kpis := [{ name := "x", expression := "True" }]

/-- A report that refers to it, next to an account token. -/
def outer : Template where
  code := "r"
  name := "Outer"
  kpis := [{ name := "k", expression := "s.x - bal[0]" }]

/-- A report with a KPI that is written like an account token. -/
def short : Template where
  code := "s"
  name := "Short"
  kpis := [{ name := "bal_0", expression := "True" }]

/-- A report that refers to it, with a blank after the dot. -/
def spaced : Template where
  code := "r"
  name := "Spaced"
  kpis := [{ name := "k", expression := "s. bal_0" }]

/-- The sources with two reports. -/
def sources (inner outer : Template) : Sources :=
  { Sample.sources with library := .ofTemplates [inner, outer] }

/-- The account token of the formula. -/
def token : AccountToken := ⟨"bal[0]", .balance, .variation, [.code "0"], []⟩

/-- The pieces of the formula. -/
def pieces : List Piece :=
  [.plain 's', .plain '.', .plain 'x', .plain ' ', .plain '-', .plain ' ', .token token]

theorem separate_pieces : AccountToken.Separate pieces where
  apart := by
    have last := ((AccountToken.setApart_token token).cons_plain ' ').cons_plain '-'
    exact (((last.cons_plain ' ').cons_plain 'x').cons_plain '.').cons_plain 's'
  noneAfterDot := by decide
  filters := by
    intro t member filtered
    obtain rfl : t = token := by simpa [pieces] using member
    exact absurd rfl filtered

/-- A library of two reports, one KPI of which refers to the other report, is valid if the reports
are and the reference is to a KPI. -/
theorem valid_of_reference {inner outer : Template} {x k : Kpi} {reference : String × String}
    (reports : (sources inner outer).library.reports = [("r", outer), ("s", inner)])
    (valid : inner.validate = .ok () ∧ outer.validate = .ok ())
    (kpis : inner.kpis = [x] ∧ outer.kpis = [k])
    (plain : dottedReferences x.expression = .ok [])
    (refers : dottedReferences k.expression = .ok [reference])
    (checked : (sources inner outer).library.checkReference outer k reference = .ok ()) :
    (sources inner outer).library.validate = .ok () := by
  refine Library.validate_eq_ok.2 fun entry stored => ?_
  rw [reports] at stored
  rcases List.mem_cons.1 stored with rfl | stored
  · refine ⟨valid.2, fun kpi member => ?_⟩
    rw [kpis.2] at member
    obtain rfl := List.mem_singleton.1 member
    exact Library.checkReferences_eq_ok.2
      ⟨_, refers, fun other inside => List.mem_singleton.1 inside ▸ checked⟩
  · obtain rfl := List.mem_singleton.1 stored
    refine ⟨valid.1, fun kpi member => ?_⟩
    rw [kpis.1] at member
    obtain rfl := List.mem_singleton.1 member
    exact Library.checkReferences_eq_ok.2 ⟨[], plain, fun _ none => by cases none⟩

theorem valid : (sources inner outer).library.validate = .ok () := by
  have plain : dottedReferences "True" = .ok [] := by with_unfolding_all rfl
  have refers : dottedReferences "s.x - bal[0]" = .ok [("s", "x")] := by with_unfolding_all rfl
  have checked : (sources inner outer).library.checkReference outer
      { name := "k", expression := "s.x - bal[0]" } ("s", "x") = .ok () := by rfl
  exact valid_of_reference (by rfl) ⟨by rfl, by rfl⟩ ⟨rfl, rfl⟩ plain refers checked

theorem valid_spaced : (sources short spaced).library.validate = .ok () := by
  have plain : dottedReferences "True" = .ok [] := by with_unfolding_all rfl
  have refers : dottedReferences "s. bal_0" = .ok [("s", "bal_0")] := by with_unfolding_all rfl
  have checked : (sources short spaced).library.checkReference spaced
      { name := "k", expression := "s. bal_0" } ("s", "bal_0") = .ok () := by rfl
  exact valid_of_reference (by rfl) ⟨by rfl, by rfl⟩ ⟨rfl, rfl⟩ plain refers checked

theorem separate : (sources inner outer).library.Separate := by
  have reports : (sources inner outer).library.reports = [("r", outer), ("s", inner)] := by rfl
  refine ⟨fun code template get => ?_, fun code template get kpi member pieces' scanned => ?_⟩
  · have stored := Library.mem_of_get get
    rw [reports] at stored
    rcases List.mem_cons.1 stored with same | stored
    · cases same
      decide
    · cases List.mem_singleton.1 stored
      decide
  · have stored := Library.mem_of_get get
    rw [reports] at stored
    rcases List.mem_cons.1 stored with same | stored
    · cases same
      obtain rfl := List.mem_singleton.1 member
      have own : AccountToken.scan "s.x - bal[0]" = .ok pieces := by with_unfolding_all rfl
      cases own.symm.trans scanned
      exact separate_pieces
    · cases List.mem_singleton.1 stored
      obtain rfl := List.mem_singleton.1 member
      have own : AccountToken.scan "True" = .ok (['T', 'r', 'u', 'e'].map .plain) := by
        with_unfolding_all rfl
      cases own.symm.trans scanned
      exact AccountToken.separate_plain _

end Referring

/-- A valid report with a reference and an account token fails only for what its sources raise. -/
theorem Sources.evaluate_finds_reports_linked :
    (Referring.sources Referring.inner Referring.outer).library.validate = .ok () ∧
      (Referring.sources Referring.inner Referring.outer).library.Separate ∧
      (Referring.sources Referring.inner Referring.outer).library.get "r" = .ok Referring.outer ∧
      ∀ session e session',
        ((Referring.sources Referring.inner Referring.outer).evaluate Sample.self Sample.column
          Referring.outer).run.run session = (.error e, session') → e.isStructural = true →
        (Referring.sources Referring.inner Referring.outer).Raises e := by
  have stored : (Referring.sources Referring.inner Referring.outer).library.get "r" =
      .ok Referring.outer := by rfl
  exact ⟨Referring.valid, Referring.separate, stored,
    (Sources.evaluate_finds_reports Referring.valid Referring.separate stored Sample.self
      Sample.column).2⟩

/-- A valid library with a KPI that is written like an account token: a reference to it with a blank
after the dot is missed by evaluation. -/
theorem Sources.evaluate_misses_spaced_reference :
    (Referring.sources Referring.short Referring.spaced).library.validate = .ok () ∧
      (Referring.sources Referring.short Referring.spaced).library.get "r" =
        .ok Referring.spaced ∧
      (((Referring.sources Referring.short Referring.spaced).evaluate Sample.self Sample.column
        Referring.spaced).run.run {}).1 = .error (.missingSubReportKpi "r.k" "s" "__acc_0") := by
  have stored : (Referring.sources Referring.short Referring.spaced).library.get "r" =
      .ok Referring.spaced := by rfl
  have missed : (((Referring.sources Referring.short Referring.spaced).evaluate Sample.self
      Sample.column Referring.spaced).run.run {}).1 =
      .error (.missingSubReportKpi "r.k" "s" "__acc_0") := by decide +kernel
  exact ⟨Referring.valid_spaced, stored, missed⟩

end KpiReport
