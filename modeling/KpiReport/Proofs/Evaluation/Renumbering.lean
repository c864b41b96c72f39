import KpiReport.Proofs.Account.Crossover

/-!
# Compiling with another registry

The registry of a template decides which private names its account tokens get. Compiled with another
registry, a KPI refers to the same reports, and its formula is the same up to the private names
(`CompiledKpi.renamed_of_ofKpi`), as long as no report of the library uses a private name as its
code or for one of its KPIs.
-/

namespace KpiReport

/-- The query asks for no private field. -/
def Query.Shown (query : Query) : Prop :=
  ∀ field ∈ query.fields, Template.isPrivate field = false

/-- No report of the library has a private code, a KPI with a private name or a query with a private
field. -/
structure Library.Unreserved (library : Library) : Prop where
  code : ∀ code template, library.get code = .ok template → Template.isPrivate code = false
  kpi : ∀ code template, library.get code = .ok template →
    ∀ kpi ∈ template.kpis, Template.isPrivate kpi.name = false
  field : ∀ code template, library.get code = .ok template →
    ∀ query ∈ template.queries, query.Shown

/-! ## References to other reports -/

namespace Library

variable {library : Library} {template : Template} {f : String → String}

theorem isPrivate_dotted {code : String} (shown : Template.isPrivate code = false) (kpi : String) :
    Template.isPrivate (dotted code kpi) = false := by
  unfold Template.isPrivate at shown ⊢
  have chars : (dotted code kpi).toList = code.toList ++ '.' :: kpi.toList := by
    simp [dotted]
  rw [chars]
  split at shown
  · cases shown
  · rename_i other
    split
    · rename_i rest same
      rcases first : code.toList with _ | ⟨c, _ | ⟨d, cs⟩⟩
      · simp [first] at same
      · simp [first] at same
      · rw [first] at same other
        cases same
        exact absurd rfl (other cs)
    · rfl

namespace Unreserved

variable (h : library.Unreserved)

include h

theorem not_contains {code : String} (hidden : Template.isPrivate code = true) :
    library.contains code = false := by
  rw [Bool.eq_false_iff]
  intro inside
  obtain ⟨template, get⟩ := exists_get_of_contains inside
  rw [h.code code template get] at hidden
  cases hidden

theorem isCrossReference (changes : ChangesPrivate f) (reference : String × String) :
    library.isCrossReference template (f reference.1, f reference.2) =
      library.isCrossReference template reference := by
  unfold Library.isCrossReference
  dsimp only
  rcases changes reference.1 with same | ⟨hidden, hidden'⟩
  · rw [same]
  · rw [h.not_contains hidden, h.not_contains hidden', Bool.and_false, Bool.and_false]

/-- A reference to another report that has been checked holds no private name. -/
theorem shown_of_checked {kpi : Kpi} {reference : String × String}
    (crosses : library.isCrossReference template reference = true)
    (checked : library.checkReference template kpi reference = .ok ()) :
    Template.isPrivate reference.1 = false ∧ Template.isPrivate reference.2 = false := by
  obtain ⟨foreign, -⟩ := Bool.and_eq_true_iff.1 crosses
  unfold checkReference at checked
  split at checked
  · rename_i own
    rw [Option.isNone_iff_eq_none.1 foreign] at own
    cases own
  · split at checked
    · cases checked
    · rename_i referenced get
      split at checked
      · rename_i found
        obtain ⟨kpi, named⟩ := Option.isSome_iff_exists.1 found
        have same := List.find?_some named
        rw [beq_iff_eq] at same
        refine ⟨h.code _ _ get, ?_⟩
        rw [← same]
        exact h.kpi _ _ get kpi (List.mem_of_find?_eq_some named)
      · cases checked

theorem filter_references (changes : ChangesPrivate f) {kpi : Kpi}
    {references : List (String × String)}
    (checked : ∀ reference ∈ references.filter (library.isCrossReference template),
      library.checkReference template kpi reference = .ok ()) :
    (references.map fun reference => (f reference.1, f reference.2)).filter
        (library.isCrossReference template) =
      references.filter (library.isCrossReference template) := by
  have same : library.isCrossReference template ∘
      (fun reference => (f reference.1, f reference.2)) = library.isCrossReference template :=
    funext fun reference => h.isCrossReference changes reference
  rw [List.filter_map, same]
  refine (List.map_congr_left fun reference member => ?_).trans (List.map_id _)
  obtain ⟨base, attr⟩ := h.shown_of_checked (List.mem_filter.1 member).2 (checked reference member)
  rw [changes.eq_of_not_isPrivate base, changes.eq_of_not_isPrivate attr]
  rfl

end Unreserved

end Library

theorem Expr.dottedName_changes {f : String → String} (changes : ChangesPrivate f)
    {crossing : List (String × String)}
    (shown : ∀ reference ∈ crossing,
      Template.isPrivate reference.1 = false ∧ Template.isPrivate reference.2 = false)
    (base attr : String) :
    dottedName crossing (f base) (f attr) = (dottedName crossing base attr).map f := by
  unfold dottedName
  by_cases inside : (base, attr) ∈ crossing
  · obtain ⟨plain, plain'⟩ := shown _ inside
    rw [changes.eq_of_not_isPrivate plain, changes.eq_of_not_isPrivate plain',
      if_pos (List.contains_iff_mem.2 inside)]
    exact congrArg some (changes.eq_of_not_isPrivate (Library.isPrivate_dotted plain attr)).symm
  · have outside : (f base, f attr) ∉ crossing := by
      intro crosses
      obtain ⟨plain, plain'⟩ := shown _ crosses
      rw [changes.eq_of_not_isPrivate_apply plain,
        changes.eq_of_not_isPrivate_apply plain'] at crosses
      exact inside crosses
    rw [if_neg (List.contains_iff_mem.not.2 outside),
      if_neg (List.contains_iff_mem.not.2 inside)]
    rfl

/-! ## Compiled KPIs -/

namespace CompiledKpi

/-- The second KPI is compiled as the first one, but for other names in its formula. -/
structure Renamed (f : String → String) (compiled compiled' : CompiledKpi) : Prop where
  kpi : compiled'.kpi = compiled.kpi
  subReports : compiled'.subReports = compiled.subReports
  expression : ∀ e, compiled.expression = .ok e → compiled'.expression = .ok (e.rename f)

variable {library : Library} {template : Template} {registry registry' : Registry} {kpi : Kpi}
  {compiled compiled' : CompiledKpi}

/-- Another registry changes the private names of a compiled KPI, and nothing else. -/
theorem renamed_of_ofKpi (unreserved : library.Unreserved)
    (plain : AccountToken.Plain kpi.expression)
    (known : ∀ tokens, AccountToken.tokensOf kpi.expression = .ok tokens →
      ∀ token ∈ tokens, token ∈ registry.tokens)
    (h : ofKpi library template registry kpi = .ok compiled)
    (h' : ofKpi library template registry' kpi = .ok compiled') :
    Renamed (registry.crossover registry') compiled compiled' := by
  have changes := Registry.changesPrivate_crossover registry registry'
  obtain ⟨text, replaced, shape⟩ := ofKpi_eq_ok h
  obtain ⟨text', replaced', shape'⟩ := ofKpi_eq_ok h'
  have cut := Registry.ofText_crossover plain replaced known replaced'
  generalize registry.crossover registry' = f at changes cut
  rcases shape with ⟨fault, failed, rfl⟩ | ⟨references, found, checked, rfl⟩
  · rcases shape' with ⟨fault', failed', rfl⟩ | ⟨references', found', -, -⟩
    · exact ⟨rfl, rfl, nofun⟩
    · obtain ⟨ts', lexed', -⟩ := map_eq_ok.1 found'
      obtain ⟨ts, lexed, -⟩ := map_eq_ok.1 (cut.symm.trans lexed')
      rw [dottedReferences, lexed] at failed
      cases failed
  · obtain ⟨ts, lexed, rfl⟩ := map_eq_ok.1 found
    rw [lexed] at cut
    have found' : dottedReferences text' = .ok ((Token.references false ts).map fun reference =>
        (f reference.1, f reference.2)) := by
      rw [dottedReferences, cut, ← Token.references_rename]
      rfl
    rcases shape' with ⟨fault', failed', -⟩ | ⟨references', other, -, rfl⟩
    · rw [found'] at failed'
      cases failed'
    · cases found'.symm.trans other
      rw [unreserved.filter_references changes checked]
      refine ⟨rfl, rfl, fun e parsed => ?_⟩
      obtain ⟨raw, read, rfl⟩ := map_eq_ok.1 parsed
      obtain ⟨ts', lexed', formed⟩ := bind_eq_ok.1 read
      cases lexed.symm.trans lexed'
      have formed' : Expr.parse text' = .ok (raw.rename f) :=
        bind_eq_ok.2 ⟨_, cut, Expr.ofTokens_rename changes.keepsKeywords formed⟩
      have shown : ∀ reference ∈ (Token.references false ts).filter
          (library.isCrossReference template),
          Template.isPrivate reference.1 = false ∧ Template.isPrivate reference.2 = false :=
        fun reference member =>
          unreserved.shown_of_checked (List.mem_filter.1 member).2 (checked reference member)
      have same := Expr.dottedName_changes changes shown
      rw [ofFormula, formed', ← Expr.renameReferences_rename same raw]
      rfl

/-- A compiled formula reads no private names but those of its account tokens. -/
theorem reads_wrote_of_ofKpi (unreserved : library.Unreserved)
    (plain : AccountToken.Plain kpi.expression)
    (h : ofKpi library template registry kpi = .ok compiled) {e : Expr}
    (parsed : compiled.expression = .ok e) : e.Reads (registry.Wrote kpi.expression) := by
  obtain ⟨text, replaced, ⟨fault, -, rfl⟩ | ⟨references, -, checked, rfl⟩⟩ := ofKpi_eq_ok h
  · cases parsed
  · obtain ⟨raw, read, rfl⟩ := map_eq_ok.1 parsed
    obtain ⟨ts, lexed, formed⟩ := bind_eq_ok.1 read
    have words := Registry.words_of_substitute plain replaced lexed
    refine Expr.Reads.rename ?_ raw (Expr.reads_of_ofTokens formed words)
    intro base attr s found
    unfold Expr.dottedName at found
    split at found
    · rename_i crosses
      cases found
      have member := List.contains_iff_mem.1 crosses
      have shown := unreserved.shown_of_checked (List.mem_filter.1 member).2 (checked _ member)
      exact .inl (Library.isPrivate_dotted shown.1 attr)
    · cases found

end CompiledKpi

end KpiReport
