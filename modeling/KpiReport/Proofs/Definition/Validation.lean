import KpiReport.Definition.Instance
import KpiReport.Definition.Library
import KpiReport.Proofs.Results
import Mathlib.Data.List.Nodup

/-!
# What validation promises

A template that passes `Template.validate` has KPIs and queries with names of their own: all are
different identifiers that are neither private nor reserved (`Template.names_of_validate`). The
periods of a valid instance have different names, so each is found by its name
(`Instance.period?_of_validate`). A valid library holds valid templates, and every reference that
one of their formulas writes is to a query of its template or to a KPI of a report
(`Library.validate_eq_ok`, `Library.checkReference_eq_ok`).
-/

namespace KpiReport

namespace Template

open KpiReport.Text

variable {context : DefinitionContext}

/-- Formulas can refer to the name. -/
structure Nameable (name : String) : Prop where
  isIdentifier : isIdentifier name = true
  notPrivate : isPrivate name = false
  notReserved : isReserved name = false

theorem nameable_of_checkName {name : String} (h : checkName context name = .ok ()) :
    Nameable name := by
  unfold checkName at h
  split at h
  · cases h
  · split at h
    · cases h
    · split at h
      · cases h
      · rename_i identifier notPrivate notReserved
        simp only [Bool.not_eq_true', Bool.not_eq_false] at identifier
        exact ⟨identifier, Bool.eq_false_iff.2 notPrivate, Bool.eq_false_iff.2 notReserved⟩

/-- The checked names are new, different from each other and nameable, and are added to those in
use. -/
structure Adds (used names after : List String) : Prop where
  nodup : names.Nodup
  new : ∀ name ∈ names, name ∉ used
  nameable : ∀ name ∈ names, Nameable name
  mem_after : ∀ name, name ∈ after ↔ name ∈ names ∨ name ∈ used

theorem Adds.nil (used : List String) : Adds used [] used where
  nodup := List.nodup_nil
  new := fun name member => nomatch member
  nameable := fun name member => nomatch member
  mem_after := by simp

theorem Adds.cons {used names after : List String} {name : String} (nameable : Nameable name)
    (fresh : name ∉ used) (h : Adds (name :: used) names after) :
    Adds used (name :: names) after where
  nodup := List.nodup_cons.2 ⟨fun member => h.new name member List.mem_cons_self, h.nodup⟩
  new := by
    intro other member inUse
    rcases List.mem_cons.1 member with rfl | member
    · exact fresh inUse
    · exact h.new other member (List.mem_cons_of_mem _ inUse)
  nameable := List.forall_mem_cons.2 ⟨nameable, h.nameable⟩
  mem_after := by
    intro other
    rw [h.mem_after, List.mem_cons, List.mem_cons]
    tauto

theorem adds_of_checkKpis {kpis : List Kpi} {used after : List String}
    (h : checkKpis context used kpis = .ok after) : Adds used (kpis.map Kpi.name) after := by
  induction kpis generalizing used with
  | nil =>
    cases h
    exact Adds.nil _
  | cons kpi kpis ih =>
    obtain ⟨⟨⟩, named, h⟩ := bind_eq_ok.1 h
    split at h
    · cases h
    · rename_i fresh
      split at h
      · cases h
      · exact Adds.cons (nameable_of_checkName named) (by simpa using fresh) (ih h)

theorem adds_of_checkQueries {queries : List Query} {used after : List String}
    (h : checkQueries context used queries = .ok after) :
    Adds used (queries.map Query.name) after := by
  induction queries generalizing used with
  | nil =>
    cases h
    exact Adds.nil _
  | cons query queries ih =>
    obtain ⟨⟨⟩, named, h⟩ := bind_eq_ok.1 h
    split at h
    · cases h
    · rename_i fresh
      split at h
      · cases h
      · split at h
        · cases h
        · exact Adds.cons (nameable_of_checkName named) (by simpa using fresh) (ih h)

/-- The names of the KPIs and the queries of a template, all different. -/
structure DistinctNames (template : Template) : Prop where
  nodup_kpis : (template.kpis.map Kpi.name).Nodup
  nameable_kpi : ∀ kpi ∈ template.kpis, Nameable kpi.name
  nameable_query : ∀ query ∈ template.queries, Nameable query.name
  query_ne_kpi : ∀ query ∈ template.queries, ∀ kpi ∈ template.kpis, query.name ≠ kpi.name

/-- A valid template has distinct names, to all of which formulas can refer. -/
theorem names_of_validate {template : Template} (h : template.validate = .ok ()) :
    DistinctNames template := by
  unfold validate at h
  dsimp only at h
  split at h
  · cases h
  · obtain ⟨used, kpis, h⟩ := bind_eq_ok.1 h
    obtain ⟨after, queries, -⟩ := bind_eq_ok.1 h
    have kpis := adds_of_checkKpis kpis
    have queries := adds_of_checkQueries queries
    refine ⟨kpis.nodup, ?_, ?_, ?_⟩
    · intro kpi member
      exact kpis.nameable _ (List.mem_map_of_mem member)
    · intro query member
      exact queries.nameable _ (List.mem_map_of_mem member)
    · intro query asked kpi member same
      refine queries.new _ (List.mem_map_of_mem asked) ((kpis.mem_after _).2 (Or.inl ?_))
      rw [same]
      exact List.mem_map_of_mem member

/-- The queries of a valid template have different names. -/
theorem nodup_queries_of_validate {template : Template} (h : template.validate = .ok ()) :
    (template.queries.map Query.name).Nodup := by
  unfold validate at h
  dsimp only at h
  split at h
  · cases h
  · obtain ⟨used, -, h⟩ := bind_eq_ok.1 h
    obtain ⟨after, queries, -⟩ := bind_eq_ok.1 h
    exact (adds_of_checkQueries queries).nodup

/-- A valid template has valid periods, and each position passes its check. -/
theorem layout_of_validate {template : Template} (h : template.validate = .ok ()) :
    ∃ names, checkPeriods (.report template.code) [] template.periods = .ok names ∧
      ∀ position ∈ template.positions,
        checkPosition template (.report template.code) names position = .ok () := by
  unfold validate at h
  dsimp only at h
  split at h
  · cases h
  · obtain ⟨used, -, h⟩ := bind_eq_ok.1 h
    obtain ⟨after, -, h⟩ := bind_eq_ok.1 h
    obtain ⟨names, periods, h⟩ := bind_eq_ok.1 h
    exact ⟨names, periods, forM_eq_ok.1 h⟩

/-- A position that passes its check names a KPI of the template, or none. -/
theorem exists_kpi_of_checkPosition {template : Template} {names : List String}
    {position : Position} (h : checkPosition template context names position = .ok ())
    {name : String} (named : position.kpi = some name) : ∃ kpi ∈ template.kpis, kpi.name = name := by
  cases known : template.kpi? name with
  | some kpi =>
    exact ⟨kpi, List.mem_of_find?_eq_some known, by simpa using List.find?_some known⟩
  | none =>
    unfold checkPosition at h
    simp only [named, known] at h
    split at h <;> cases h

end Template

namespace Instance

theorem nodup_of_checkPeriods {context : DefinitionContext} {periods : List Period}
    {used after : List String} (h : checkPeriods context used periods = .ok after) :
    (periods.map Period.name).Nodup ∧ ∀ name ∈ used, name ∉ periods.map Period.name := by
  induction periods generalizing used with
  | nil => exact ⟨List.nodup_nil, fun _ _ => List.not_mem_nil⟩
  | cons period periods ih =>
    rw [checkPeriods] at h
    split at h
    · cases h
    · split at h
      · cases h
      · split at h
        · cases h
        · rename_i fresh
          obtain ⟨nodup, new⟩ := ih h
          obtain ⟨own, others⟩ := List.forall_mem_cons.1 new
          refine ⟨List.nodup_cons.2 ⟨own, nodup⟩, fun name inUse member => ?_⟩
          rcases List.mem_cons.1 member with rfl | member
          · exact fresh (List.contains_iff_mem.2 inUse)
          · exact others name inUse member

/-- In a valid instance every period is found by its name. -/
theorem period?_of_validate {inst : Instance} (h : inst.validate = .ok ()) {period : Period}
    (member : period ∈ inst.periods) : inst.period? period.name = some period := by
  obtain ⟨names, checked, -⟩ := bind_eq_ok.1 h
  have nodup := (nodup_of_checkPeriods checked).1
  cases found : inst.period? period.name with
  | none =>
    have differ := List.find?_eq_none.1 found period member
    simp at differ
  | some other =>
    have same := List.find?_some found
    rw [beq_iff_eq] at same
    rw [List.inj_on_of_nodup_map nodup (List.mem_of_find?_eq_some found) member same]

theorem checkPeriods_ofTemplate {context context' : DefinitionContext}
    {periods : List PeriodTemplate} {used after : List String}
    (h : Template.checkPeriods context used periods = .ok after) :
    checkPeriods context' used (periods.map Period.ofTemplate) = .ok after := by
  induction periods generalizing used with
  | nil => exact h
  | cons period periods ih =>
    rw [Template.checkPeriods] at h
    split at h
    · cases h
    · rename_i lasting
      split at h
      · cases h
      · rename_i fresh
        rw [List.map_cons, checkPeriods]
        exact (if_neg lasting).trans ((if_neg Nat.one_ne_zero).trans ((if_neg fresh).trans (ih h)))

/-- The periods that a valid template suggests make a valid instance. -/
theorem validate_withTemplatePeriods {template : Template} (h : template.validate = .ok ())
    (inst : Instance) : (inst.withTemplatePeriods template).validate = .ok () := by
  obtain ⟨names, periods, -⟩ := Template.layout_of_validate h
  have alone : (inst.withTemplatePeriods template).periods.flatMap Period.compareWith = [] := by
    simp [withTemplatePeriods, Period.ofTemplate]
  refine bind_eq_ok.2 ⟨names, checkPeriods_ofTemplate periods, ?_⟩
  rw [alone]
  rfl

end Instance

namespace Library

variable {library : Library} {template : Template} {kpi : Kpi}

theorem checkReference_eq_ok {reference : String × String} :
    library.checkReference template kpi reference = .ok () ↔
      (template.query? reference.1).isSome = true ∨
        ∃ referenced, library.get reference.1 = .ok referenced ∧
          (referenced.kpi? reference.2).isSome = true := by
  unfold checkReference
  by_cases own : (template.query? reference.1).isSome = true
  · simp [own]
  · cases get : library.get reference.1 with
    | error e => simp [own]
    | ok referenced => simp [own, Option.isSome_iff_ne_none]

theorem checkReferences_eq_ok :
    library.checkReferences template kpi = .ok () ↔
      ∃ references, dottedReferences kpi.expression = .ok references ∧
        ∀ reference ∈ references, library.checkReference template kpi reference = .ok () := by
  unfold checkReferences
  cases dottedReferences kpi.expression with
  | error fault => simp
  | ok references =>
    rw [forM_eq_ok]
    simp

/-- A library is valid iff its templates are, with all references that their formulas write. -/
theorem validate_eq_ok :
    library.validate = .ok () ↔ ∀ entry ∈ library.reports, entry.2.validate = .ok () ∧
      ∀ kpi ∈ entry.2.kpis, library.checkReferences entry.2 kpi = .ok () := by
  unfold validate Table.values
  rw [forM_eq_ok, List.forall_mem_map]
  refine forall₂_congr fun entry _ => ?_
  rw [← forM_eq_ok (f := library.checkReferences entry.2)]
  constructor
  · intro h
    obtain ⟨⟨⟩, valid, checked⟩ := bind_eq_ok.1 h
    exact ⟨valid, checked⟩
  · rintro ⟨valid, checked⟩
    exact bind_eq_ok.2 ⟨(), valid, checked⟩

end Library

end KpiReport
