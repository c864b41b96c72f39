import KpiReport.Proofs.Grid.Assembly
import KpiReport.Proofs.Grid.Layouts
import Mathlib.Data.List.GetD

/-!
# Matrices

A matrix has a row for each column of a report and a column for each of its rows. The transposition
fills up with empty cells where a row is too short, so nothing is lost only because the rows of an
assembled grid reach below every header (`Grid.Shows.transposes`). The main statement,
`Sources.compute_matrix`, compares the computations of a report and of the matrix of it.
-/

namespace KpiReport

namespace Grid

/-- The cell in a row and a column. -/
def cell? (grid : Grid) (row column : Nat) : Option Cell :=
  grid.rows[row]?.bind fun line => line.cells[column]?

theorem exists_cell?_iff {grid : Grid} {cell : Cell} :
    (∃ row column, grid.cell? row column = some cell) ↔ ∃ row ∈ grid.rows, cell ∈ row.cells := by
  constructor
  · rintro ⟨row, column, found⟩
    obtain ⟨line, listed, found⟩ := Option.bind_eq_some_iff.1 found
    exact ⟨line, List.mem_of_getElem? listed, List.mem_of_getElem? found⟩
  · rintro ⟨line, listed, inside⟩
    obtain ⟨row, listed⟩ := List.mem_iff_getElem?.1 listed
    obtain ⟨column, inside⟩ := List.mem_iff_getElem?.1 inside
    exact ⟨row, column, Option.bind_eq_some_iff.2 ⟨line, listed, inside⟩⟩

/-- The second grid is the first one with rows and columns swapped, and has a cell everywhere. -/
structure Transposes (grid matrix : Grid) : Prop where
  headers : matrix.header.columns.map HeaderColumn.name = grid.rows.map GridRow.caption
  names : matrix.rows.map GridRow.name = grid.header.columns.map HeaderColumn.name
  captions : matrix.rows.map GridRow.caption = grid.header.columns.map HeaderColumn.name
  cells : ∀ row column, matrix.cell? row column = grid.cell? column row
  rectangular : ∀ row ∈ matrix.rows, row.cells.length = matrix.header.columns.length
  full : ∀ row ∈ matrix.rows, ∀ cell ∈ row.cells, cell ≠ .empty

variable {locale : Locale} {columns : List FilledColumn} {group : List Kpi} {grid : Grid}

theorem cell?_transpose
    (rectangular : ∀ row ∈ grid.rows, row.cells.length = grid.header.columns.length)
    (row column : Nat) : grid.transpose.cell? row column = grid.cell? column row := by
  unfold cell? transpose
  dsimp only
  rw [List.getElem?_mapIdx]
  by_cases inside : row < grid.header.columns.length
  · rw [List.getElem?_eq_getElem inside, Option.map_some, Option.bind_some, List.getElem?_map]
    cases found : grid.rows[column]? with
    | none => rfl
    | some line =>
      have reaches : row < line.cells.length := by
        rw [rectangular line (List.mem_of_getElem? found)]
        exact inside
      simp [List.getElem?_eq_getElem reaches]
  · rw [List.getElem?_eq_none (Nat.not_lt.1 inside), Option.map_none, Option.bind_none]
    cases found : grid.rows[column]? with
    | none => rfl
    | some line =>
      have short : line.cells.length ≤ row := by
        rw [rectangular line (List.mem_of_getElem? found)]
        exact Nat.not_lt.1 inside
      rw [Option.bind_some, List.getElem?_eq_none short]

theorem Shows.cell_ne_empty (h : Shows locale columns group grid) {row : GridRow}
    (member : row ∈ grid.rows) {cell : Cell} (inside : cell ∈ row.cells) : cell ≠ .empty := by
  obtain ⟨kpi, -, shown⟩ := exists_of_mem_forall₂ h.rows member
  obtain ⟨slot, -, shows⟩ := exists_of_mem_forall₂ shown.cells inside
  cases shows <;> nofun

/-- The transpose of an assembled grid loses nothing and needs no empty cells. -/
theorem Shows.transposes (h : Shows locale columns group grid) :
    grid.Transposes grid.transpose := by
  have rectangular : ∀ row ∈ grid.rows, row.cells.length = grid.header.columns.length :=
    fun row => h.rectangular
  have lines :
      grid.transpose.rows.map GridRow.name = grid.header.columns.map HeaderColumn.name := by
    apply List.ext_getElem
    · simp [transpose]
    · intro index _ _
      simp [transpose]
  refine ⟨?_, lines, ?_, cell?_transpose rectangular, ?_, ?_⟩
  · simp [transpose]
  · rw [← lines]
    apply List.ext_getElem
    · simp
    · intro index _ _
      simp [transpose]
  · intro row member
    obtain ⟨index, inside, rfl⟩ := List.mem_mapIdx.1 member
    simp [transpose]
  · intro row member cell listed
    obtain ⟨index, inside, rfl⟩ := List.mem_mapIdx.1 member
    obtain ⟨line, shown, rfl⟩ := List.mem_map.1 listed
    have reaches : index < line.cells.length := by
      rw [rectangular line shown]
      exact inside
    rw [List.getD_eq_getElem _ _ reaches]
    exact h.cell_ne_empty shown (List.getElem_mem reaches)

end Grid

/-- The matrices of assembled grids are the transposes of those that have rows. -/
theorem Assembled.transposes {locale : Locale} {columns : List FilledColumn} {kpis : List Kpi}
    {grids : List Grid} (h : Assembled locale columns kpis grids) :
    List.Forall₂ Grid.Transposes (grids.filter fun grid => !grid.rows.isEmpty)
      (matrices grids) := by
  rw [matrices, List.forall₂_map_right_iff, List.forall₂_same]
  intro grid member
  obtain ⟨group, -, shown⟩ := exists_of_mem_forall₂ h.groups (List.mem_of_mem_filter member)
  exact shown.transposes

theorem Template.layOut_matrix {template : Template} (free : template.manualPosition = false)
    (locale : Locale) (columns : List FilledColumn) :
    ({ template with isMatrix := true } : Template).layOut locale columns =
      (({ template with isMatrix := false } : Template).layOut locale columns).map matrices := by
  unfold layOut
  rw [free]
  cases headerColumns locale columns <;> rfl

namespace Sources

variable {sources : Sources} {self : Instance} {template : Template}

theorem prepare_inv {columns : List FilledColumn} {t u : Trace}
    (h : Runs (sources.prepare self template) t columns u) :
    self.validate = .ok () ∧ template.validate = .ok () ∧
      ∃ pivot, Filled sources self template pivot columns := by
  obtain ⟨⟨⟩, u₁, valid, h⟩ := runs_bind.1 h
  obtain ⟨⟨⟩, u₂, validTemplate, h⟩ := runs_bind.1 h
  obtain ⟨valid, -⟩ := Traced.runs_ofResult.1 valid
  obtain ⟨validTemplate, -⟩ := Traced.runs_ofResult.1 validTemplate
  exact ⟨valid, validTemplate, filled_of_runs valid validTemplate h⟩

/-- **A matrix is the transposed report.** A report without manual positions and the matrix of it
are both computed or both fail, with one trace; there is a matrix for each grid of the report that
has rows, with rows and columns swapped. -/
theorem compute_matrix (sources : Sources) (self : Instance) (template : Template)
    (own : self.report = template.code) (free : template.manualPosition = false) (t : Trace) :
    let plain := (sources.withReport { template with isMatrix := false }).compute self
    let matrix := (sources.withReport { template with isMatrix := true }).compute self
    (∃ grids transposed u, Runs plain t grids u ∧ Runs matrix t transposed u ∧
      List.Forall₂ Grid.Transposes (grids.filter fun grid => !grid.rows.isEmpty) transposed) ∨
    ∃ e u, plain.run.run t = (.error e, u) ∧ matrix.run.run t = (.error e, u) := by
  let flat : Template := { template with isMatrix := false }
  let tall : Template := { template with isMatrix := true }
  have same := sources.prepare_congr self tall flat rfl
  rcases prepared : ((sources.withReport flat).prepare self flat).run.run t with ⟨result, u⟩
  have plain := sources.run_compute_withReport flat own prepared
  rw [← same] at prepared
  have matrix := sources.run_compute_withReport tall own prepared
  cases result with
  | error e => exact Or.inr ⟨e, u, plain, matrix⟩
  | ok columns =>
    have swapped : tall.layOut sources.settings.locale columns =
        (flat.layOut sources.settings.locale columns).map matrices :=
      Template.layOut_matrix free _ _
    cases made : flat.layOut sources.settings.locale columns with
    | error e =>
      rw [made] at swapped
      refine Or.inr ⟨e, u, plain.trans ?_, matrix.trans ?_⟩
      · exact congrArg (·, u) made
      · exact congrArg (·, u) swapped
    | ok grids =>
      rw [made] at swapped
      rw [same] at prepared
      obtain ⟨-, valid, pivot, filled⟩ := prepare_inv prepared
      refine Or.inl ⟨grids, matrices grids, u, plain.trans ?_, matrix.trans ?_, ?_⟩
      · exact congrArg (·, u) made
      · exact congrArg (·, u) swapped
      · exact (filled.assembled_of_layOut valid rfl free made).transposes

end Sources

theorem Grid.names_of_transposes {grids transposed : List Grid}
    (h : List.Forall₂ Grid.Transposes grids transposed) :
    transposed.map (fun matrix => matrix.rows.map GridRow.name) =
      grids.map fun grid => grid.header.columns.map HeaderColumn.name :=
  map_eq_map_of_forall₂ h.flip fun _ _ swapped => swapped.names

/-- The matrix of the report over two days has a row for each day and one for their comparison. -/
theorem Sources.compute_matrix_two_days :
    ∃ grids transposed u,
      Runs ((TwoDays.sources false false).compute (TwoDays.self TwoDays.days)) {} grids u ∧
      Runs ((TwoDays.sources true false).compute (TwoDays.self TwoDays.days)) {} transposed u ∧
      List.Forall₂ Grid.Transposes (grids.filter fun grid => !grid.rows.isEmpty) transposed ∧
      transposed.map (fun matrix => matrix.rows.map GridRow.name) =
        [["today", "tomorrow", "tomorrow vs today"],
          ["today", "tomorrow", "tomorrow vs today"]] := by
  have both := compute_matrix (TwoDays.sources false false) (TwoDays.self TwoDays.days)
    (TwoDays.template false false) rfl rfl {}
  obtain ⟨t, run⟩ := TwoDays.runs_compute
  rcases both with ⟨grids, transposed, u, plain, matrix, swapped⟩ | ⟨e, u, plain, -⟩
  · obtain ⟨rfl, rfl⟩ := run.unique plain
    refine ⟨_, transposed, _, run, matrix, swapped, ?_⟩
    rw [Grid.names_of_transposes swapped, TwoDays.sortedKpis_template]
    with_unfolding_all rfl
  · cases run.symm.trans plain

end KpiReport
