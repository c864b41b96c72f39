import KpiReport.Definition.Template
import KpiReport.Formula.References

/-!
# Report libraries

A library holds templates by code. `Library.validate` also checks every reference `report.kpi`
between reports; a reference whose base is a query of the referring report is no such reference.
-/

namespace KpiReport

/-- Templates by code. -/
structure Library where
  reports : Table Template := []
  /-- Every template is stored under its own code. Adding templates keeps this (`Library.insert`). A
  table that is read as it stands, such as one from JSON, need not have it: a template with the code
  `b` that is stored as `a` and refers to `a` is never marked as `a`, and evaluated without end. -/
  keyed : ∀ entry ∈ reports, entry.2.code = entry.1 := by simp

namespace Library

/-- The library without templates. -/
def empty : Library := {}

/-- Adds a template, in place of the one with its code. -/
def insert (library : Library) (template : Template) : Library where
  reports := library.reports.insert template.code template
  keyed := fun entry stored => by
    rcases Table.mem_insert stored with rfl | stored
    · rfl
    · exact library.keyed entry stored

/-- The library of some templates; of two with one code the later one counts. -/
def ofTemplates (templates : List Template) : Library :=
  templates.foldl insert empty

/-- The template with a code. -/
def get (library : Library) (code : String) : Result Template :=
  Result.ofOption (.reportNotFound code) (library.reports.get? code)

theorem code_of_get {library : Library} {code : String} {template : Template}
    (h : library.get code = .ok template) : template.code = code := by
  unfold get Result.ofOption at h
  split at h
  · rename_i found
    cases h
    exact library.keyed _ (Table.mem_of_get? found)
  · cases h

/-- Whether there is a template with a code. -/
def contains (library : Library) (code : String) : Bool :=
  library.reports.contains code

theorem exists_get_of_contains {library : Library} {code : String}
    (h : library.contains code = true) : ∃ template, library.get code = .ok template := by
  obtain ⟨template, found⟩ := Option.isSome_iff_exists.1 h
  exact ⟨template, by rw [get, found]; rfl⟩

theorem contains_of_get {library : Library} {code : String} {template : Template}
    (h : library.get code = .ok template) : library.contains code = true := by
  unfold get Result.ofOption at h
  split at h
  · rename_i found
    exact Option.isSome_iff_exists.2 ⟨_, found⟩
  · cases h

/-- The number of templates. -/
def size (library : Library) : Nat :=
  library.reports.length

/-- How a KPI of a report is written in references and messages. -/
def dotted (report kpi : String) : String :=
  report ++ "." ++ kpi

/-- Checks that a reference of a KPI is to a query of its template or to a KPI of a report. -/
def checkReference (library : Library) (template : Template) (kpi : Kpi)
    (reference : String × String) : Result Unit :=
  if (template.query? reference.1).isSome then .ok ()
  else
    match library.get reference.1 with
    | .error e => .error e
    | .ok referenced =>
      if (referenced.kpi? reference.2).isSome then .ok ()
      else .error (.missingSubReportKpi (dotted template.code kpi.name) reference.1 reference.2)

/-- Checks the references of a KPI. -/
def checkReferences (library : Library) (template : Template) (kpi : Kpi) : Result Unit :=
  match dottedReferences kpi.expression with
  | .error fault => .error (.invalidDefinition (.kpi template.code kpi.name) (.formula fault))
  | .ok references => references.forM (library.checkReference template kpi)

/-- Checks every template, in the order of their codes. -/
def validate (library : Library) : Result Unit :=
  library.reports.values.forM fun template => do
    template.validate
    template.kpis.forM (library.checkReferences template)

end Library

end KpiReport
