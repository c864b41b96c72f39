import KpiReport.Proofs.Grid.Matrix

/-!
# Manual layouts

A template can lay its results out by hand: a list of positions, in any order and possibly several
at one place, says which captions and which results stand where. `Grid.LaidByHand` says what the
grid holds at each line and column. The main statement, `Sources.compute_manual`, says that a
manual report is laid out in this way, and that the results it shows are those that the same
instance shows without manual positions.
-/

namespace KpiReport

/-! ## Positions -/

namespace Position

/-- A position names a KPI and the period of a column. -/
def IsShown (columns : List FilledColumn) (position : Position) : Prop :=
  (∃ kpi, position.kpi = some kpi) ∧
    ∃ column ∈ columns, position.period = some column.period.name

/-- A caption is that of the last position at a line and a column, or empty where there is none. -/
inductive HasCaption (positions : List Position) (line column : Int) : String → Prop where
  | position {position : Position}
      (last : IsLast (fun position => position.line = line ∧ position.column = column) positions
        position) :
      HasCaption positions line column (position.name.getD "")
  | empty (none : ∀ position ∈ positions, ¬ (position.line = line ∧ position.column = column)) :
      HasCaption positions line column ""

/-- A cell shows the result that the last position at a line and a column names, of those that name
a KPI and the period of a column, or is empty where there is none. -/
inductive HasCell (columns : List FilledColumn) (positions : List Position) (line column : Int) :
    Cell → Prop where
  | result {position : Position} {found : FilledColumn} {result : KpiResult}
      (last : IsLast (fun position => (position.line = line ∧ position.column = column) ∧
        position.IsShown columns) positions position)
      (kpi : position.kpi = some result.kpi) (period : position.period = some found.period.name)
      (inside : found ∈ columns) (given : found.found.get? result.kpi = some result) :
      HasCell columns positions line column (.kpi result)
  | empty (none : ∀ position ∈ positions, ¬ ((position.line = line ∧ position.column = column) ∧
        position.IsShown columns)) :
      HasCell columns positions line column .empty

theorem isAt_iff {position : Position} {line column : Int} :
    position.isAt line column = true ↔ position.line = line ∧ position.column = column := by
  simp [isAt]

theorem hasCaption_captionAt (positions : List Position) (line column : Int) :
    HasCaption positions line column (captionAt positions line column) := by
  unfold captionAt
  cases found : positions.reverse.find? fun position => position.isAt line column with
  | none =>
    refine .empty fun position member => ?_
    rw [← isAt_iff]
    exact List.find?_eq_none.1 found position (List.mem_reverse.2 member)
  | some position =>
    have last := isLast_of_find?_reverse found
    exact .position (last.congr fun other _ => isAt_iff)

/-- Positions can be resolved in some columns: a suggested period is known by the name of its
column, and every KPI that a position names has a result in every column. -/
structure Resolvable (positions : List Position) (columns : List FilledColumn) : Prop where
  keyed : ∀ column ∈ columns, column.period.templateKey = column.period.name
  complete : ∀ position ∈ positions, ∀ kpi, position.kpi = some kpi → ∀ column ∈ columns,
    ∃ result, column.found.get? kpi = some result ∧ result.kpi = kpi

variable {positions : List Position} {columns : List FilledColumn} {position : Position}

theorem result?_eq_some {result : KpiResult} (resolvable : Resolvable positions columns)
    (member : position ∈ positions) (h : position.result? columns = some result) :
    position.kpi = some result.kpi ∧ ∃ found ∈ columns,
      position.period = some found.period.name ∧ found.found.get? result.kpi = some result := by
  obtain ⟨kpi, named, h⟩ := Option.bind_eq_some_iff.1 h
  obtain ⟨period, meant, h⟩ := Option.bind_eq_some_iff.1 h
  obtain ⟨found, listed, given⟩ := List.exists_of_findSome?_eq_some h
  obtain ⟨inside, key⟩ := List.mem_filter.1 listed
  obtain ⟨own, stored, same⟩ := resolvable.complete position member kpi named found inside
  obtain rfl : result = own := Option.some.inj (given.symm.trans stored)
  subst same
  refine ⟨named, found, inside, ?_, given⟩
  rw [meant, ← resolvable.keyed found inside, eq_of_beq key]

theorem isSome_result?_iff (resolvable : Resolvable positions columns)
    (member : position ∈ positions) :
    (position.result? columns).isSome = true ↔ position.IsShown columns := by
  constructor
  · intro some
    obtain ⟨result, given⟩ := Option.isSome_iff_exists.1 some
    obtain ⟨kpi, found, inside, period, -⟩ := result?_eq_some resolvable member given
    exact ⟨⟨_, kpi⟩, found, inside, period⟩
  · rintro ⟨⟨kpi, named⟩, column, inside, period⟩
    obtain ⟨result, given, -⟩ := resolvable.complete position member kpi named column inside
    unfold result?
    rw [named, period]
    simp only [Option.bind_some, Option.bind_eq_bind]
    rw [List.findSome?_isSome_iff]
    refine ⟨column, List.mem_filter.2 ⟨inside, ?_⟩, ?_⟩
    · rw [resolvable.keyed column inside]
      exact beq_self_eq_true _
    · rw [given]
      rfl

theorem hasCell_cellAt (resolvable : Resolvable positions columns) (line column : Int) :
    HasCell columns positions line column (cellAt columns positions line column) := by
  have shown : ∀ position ∈ positions,
      (if position.isAt line column then position.result? columns else none).isSome = true ↔
        (position.line = line ∧ position.column = column) ∧ position.IsShown columns := by
    intro position member
    rw [← isAt_iff, ← isSome_result?_iff resolvable member]
    cases position.isAt line column <;> simp
  unfold cellAt
  dsimp only
  rw [findSome?_filter]
  cases found : positions.reverse.findSome?
      fun position => if position.isAt line column then position.result? columns else none with
  | none =>
    refine .empty fun position member => ?_
    rw [← shown position member,
      List.findSome?_eq_none_iff.1 found position (List.mem_reverse.2 member)]
    exact Bool.false_ne_true
  | some result =>
    obtain ⟨position, last, given⟩ := isLast_of_findSome?_reverse found
    split at given
    · obtain ⟨kpi, other, inside, period, stored⟩ := result?_eq_some resolvable last.mem given
      exact .result (last.congr shown) kpi period inside stored
    · cases given

end Position

/-! ## Grids laid out by hand -/

/-- A grid is laid out by positions: it reaches to the greatest line and the greatest column, the
captions stand in line and column zero, and every other place has a cell. -/
structure Grid.LaidByHand (positions : List Position) (columns : List FilledColumn)
    (grid : Grid) : Prop where
  down : IsExtent (positions.map Position.line) grid.rows.length
  across : IsExtent (positions.map Position.column) grid.header.columns.length
  rectangular : ∀ row ∈ grid.rows, row.cells.length = grid.header.columns.length
  titles : ∀ (column : Nat) (head : HeaderColumn), grid.header.columns[column]? = some head →
    Position.HasCaption positions 0 (column + 1) head.name
  labels : ∀ (line : Nat) (row : GridRow), grid.rows[line]? = some row →
    row.name = row.caption ∧ Position.HasCaption positions (line + 1) 0 row.caption
  cells : ∀ (line column : Nat) (cell : Cell), grid.cell? line column = some cell →
    Position.HasCell columns positions (line + 1) (column + 1) cell

theorem getElem?_upToGreatest {numbers : List Int} {index : Nat} {k : Int}
    (h : (upToGreatest numbers)[index]? = some k) : k = index + 1 := by
  rw [upToGreatest, List.getElem?_map] at h
  obtain ⟨n, listed, rfl⟩ := Option.map_eq_some_iff.1 h
  obtain ⟨inside, same⟩ := List.getElem?_eq_some_iff.1 listed
  rw [List.getElem_range] at same
  rw [← same]
  rfl

theorem laidByHand_manualGrid {template : Template} {columns : List FilledColumn}
    (resolvable : Position.Resolvable template.positions columns) :
    (manualGrid template columns).LaidByHand template.positions columns := by
  have down : (manualGrid template columns).rows.length =
      ((template.positions.map Position.line).foldl max 0).toNat := by
    simp [manualGrid, upToGreatest]
  have across : (manualGrid template columns).header.columns.length =
      ((template.positions.map Position.column).foldl max 0).toNat := by
    simp [manualGrid, upToGreatest]
  refine ⟨?_, ?_, ?_, ?_, ?_, ?_⟩
  · rw [down]
    exact isExtent_foldl_max _
  · rw [across]
    exact isExtent_foldl_max _
  · intro row member
    obtain ⟨line, -, rfl⟩ := List.mem_map.1 member
    simp [manualGrid]
  · intro column head listed
    rw [manualGrid, List.getElem?_map] at listed
    obtain ⟨k, here, rfl⟩ := Option.map_eq_some_iff.1 listed
    rw [← getElem?_upToGreatest here]
    exact Position.hasCaption_captionAt template.positions 0 k
  · intro line row listed
    rw [manualGrid, List.getElem?_map] at listed
    obtain ⟨k, here, rfl⟩ := Option.map_eq_some_iff.1 listed
    rw [← getElem?_upToGreatest here]
    exact ⟨rfl, Position.hasCaption_captionAt template.positions k 0⟩
  · intro line column cell listed
    obtain ⟨row, there, listed⟩ := Option.bind_eq_some_iff.1 listed
    rw [manualGrid, List.getElem?_map] at there
    obtain ⟨k, here, rfl⟩ := Option.map_eq_some_iff.1 there
    rw [List.getElem?_map] at listed
    obtain ⟨k', here', rfl⟩ := Option.map_eq_some_iff.1 listed
    rw [← getElem?_upToGreatest here, ← getElem?_upToGreatest here']
    exact Position.hasCell_cellAt resolvable k k'

/-! ## The results that grids show -/

/-- A result stands in a cell of one of some grids. -/
def Displays (grids : List Grid) (result : KpiResult) : Prop :=
  ∃ grid ∈ grids, ∃ row column, grid.cell? row column = some (.kpi result)

variable {locale : Locale} {columns : List FilledColumn} {result : KpiResult}

theorem Grid.Shows.displays_iff {group : List Kpi} {grid : Grid}
    (h : Grid.Shows locale columns group grid) :
    (∃ row column, grid.cell? row column = some (.kpi result)) ↔
      ∃ kpi ∈ group, kpi.isHidden = false ∧
        ∃ column ∈ columns, column.found.get? kpi.name = some result := by
  rw [Grid.exists_cell?_iff]
  constructor
  · rintro ⟨row, listed, inside⟩
    obtain ⟨kpi, visible, shown⟩ := exists_of_mem_forall₂ h.rows listed
    obtain ⟨slot, member, shows⟩ := exists_of_mem_forall₂ shown.cells inside
    obtain ⟨own, visible⟩ := List.mem_filter.1 visible
    cases shows with
    | own found => exact ⟨kpi, own, by simpa using visible, _, Slot.own_mem_all.1 member, found⟩
  · rintro ⟨kpi, own, visible, column, member, found⟩
    have listed : kpi ∈ group.filter fun kpi => !kpi.isHidden :=
      List.mem_filter.2 ⟨own, by simpa using visible⟩
    obtain ⟨row, there, shown⟩ := exists_mem_of_forall₂ h.rows listed
    obtain ⟨cell, inside, shows⟩ := exists_mem_of_forall₂ shown.cells (Slot.own_mem_all.2 member)
    cases shows with
    | own found' =>
      obtain rfl := Option.some.inj (found.symm.trans found')
      exact ⟨row, there, inside⟩

/-- Assembled grids display the results of the visible KPIs. -/
theorem Assembled.displays_iff {kpis : List Kpi} {grids : List Grid}
    (h : Assembled locale columns kpis grids) :
    Displays grids result ↔ ∃ kpi ∈ kpis, kpi.isHidden = false ∧
      ∃ column ∈ columns, column.found.get? kpi.name = some result := by
  constructor
  · rintro ⟨grid, listed, displayed⟩
    obtain ⟨group, own, shown⟩ := exists_of_mem_forall₂ h.groups listed
    obtain ⟨kpi, member, visible, found⟩ := shown.displays_iff.1 displayed
    refine ⟨kpi, ?_, visible, found⟩
    rw [← Kpi.flatten_groups kpis]
    exact List.mem_flatten_of_mem own member
  · rintro ⟨kpi, member, visible, found⟩
    rw [← Kpi.flatten_groups kpis] at member
    obtain ⟨group, own, member⟩ := List.mem_flatten.1 member
    obtain ⟨grid, listed, shown⟩ := exists_mem_of_forall₂ h.groups own
    exact ⟨grid, listed, shown.displays_iff.2 ⟨kpi, member, visible, found⟩⟩

/-- Transposed grids display the same results. -/
theorem displays_of_transposes {grids transposed : List Grid}
    (h : List.Forall₂ Grid.Transposes (grids.filter fun grid => !grid.rows.isEmpty) transposed) :
    Displays transposed result ↔ Displays grids result := by
  constructor
  · rintro ⟨matrix, listed, row, column, found⟩
    obtain ⟨grid, own, swapped⟩ := exists_of_mem_forall₂ h listed
    rw [swapped.cells] at found
    exact ⟨grid, List.mem_of_mem_filter own, column, row, found⟩
  · rintro ⟨grid, listed, row, column, found⟩
    have nonempty : (!grid.rows.isEmpty) = true := by
      obtain ⟨line, inside, -⟩ := Grid.exists_cell?_iff.1 ⟨row, column, found⟩
      rw [Bool.not_eq_true', List.isEmpty_eq_false_iff]
      exact List.ne_nil_of_mem inside
    obtain ⟨matrix, own, swapped⟩ := exists_mem_of_forall₂ h (List.mem_filter.2 ⟨listed, nonempty⟩)
    refine ⟨matrix, own, column, row, ?_⟩
    rw [swapped.cells]
    exact found

namespace Sources

variable {sources : Sources} {base self : Instance} {template : Template} {pivot : Calendar.Date}

theorem Filled.period_mem (h : Filled sources self template pivot columns) {column : FilledColumn}
    (member : column ∈ columns) : column.period ∈ self.periods := by
  have planned : column.toColumn ∈ sources.columnsOf self pivot self.sortedPeriods := by
    rw [← h.toColumn]
    exact List.mem_map_of_mem member
  obtain ⟨period, listed, made⟩ := List.mem_filterMap.1 planned
  obtain ⟨bounds, -, same⟩ := Option.map_eq_some_iff.1 made
  rw [← same]
  exact List.mem_mergeSort.1 listed

/-- A visible KPI has a result in a column exactly if the grids of the report display it, for the
KPI and the period of the column. -/
theorem Filled.get?_iff_displays (h : Filled sources self template pivot columns)
    {grids : List Grid} (displays : ∀ result, Displays grids result ↔ ∃ kpi ∈ template.sortedKpis,
      kpi.isHidden = false ∧ ∃ column ∈ columns, column.found.get? kpi.name = some result)
    {kpi : Kpi} (member : kpi ∈ template.kpis) (visible : kpi.isHidden = false)
    {column : FilledColumn} (inside : column ∈ columns) :
    column.found.get? kpi.name = some result ↔
      Displays grids result ∧ result.kpi = kpi.name ∧ result.period = column.period.name := by
  constructor
  · intro found
    obtain ⟨own, stored, name, -, period⟩ := h.complete column inside kpi member
    obtain rfl := Option.some.inj (found.symm.trans stored)
    have displayed := (displays result).2
      ⟨kpi, mem_sortedKpis.2 member, visible, column, inside, found⟩
    exact ⟨displayed, name, period⟩
  · rintro ⟨displayed, name, period⟩
    obtain ⟨other, listed, -, own, inside', found⟩ := (displays result).1 displayed
    obtain ⟨stored, kept, name', -, period'⟩ :=
      h.complete own inside' other (mem_sortedKpis.1 listed)
    obtain rfl := Option.some.inj (found.symm.trans kept)
    have same : column = own := by
      have distinct : (columns.map fun column => column.period.name).Nodup :=
        List.pairwise_map.2 h.distinct
      exact List.inj_on_of_nodup_map distinct inside inside' (period.symm.trans period')
    rw [same, ← name, name']
    exact found

/-- The columns of the suggested periods resolve the positions of a valid template. -/
theorem Filled.resolvable
    (h : Filled sources (base.withTemplatePeriods template) template pivot columns)
    (valid : template.validate = .ok ()) : Position.Resolvable template.positions columns := by
  obtain ⟨names, -, checked⟩ := Template.layout_of_validate valid
  refine ⟨fun column inside => ?_, fun position member kpi named column inside => ?_⟩
  · obtain ⟨period, -, same⟩ := List.mem_map.1 (h.period_mem inside)
    rw [← same]
    rfl
  · obtain ⟨own, listed, rfl⟩ :=
      Template.exists_kpi_of_checkPosition (checked position member) named
    obtain ⟨result, found, name, -⟩ := h.complete column inside own listed
    exact ⟨result, found, name⟩

/-- Laid out without positions, the same columns display the results of the visible KPIs. -/
theorem Filled.exists_displays (h : Filled sources self template pivot columns)
    (valid : template.validate = .ok ()) {headers : List HeaderColumn}
    (heads : headerColumns locale columns = .ok headers) :
    ∃ shown, ({ template with manualPosition := false } : Template).layOut locale columns =
        .ok shown ∧
      ∀ result, Displays shown result ↔ ∃ kpi ∈ template.sortedKpis, kpi.isHidden = false ∧
        ∃ column ∈ columns, column.found.get? kpi.name = some result := by
  have assembled := h.assembled valid heads
  refine ⟨_, map_eq_ok.2 ⟨headers, heads, rfl⟩, fun result => ?_⟩
  rw [if_neg Bool.false_ne_true]
  dsimp only
  split
  · exact (displays_of_transposes assembled.transposes).trans assembled.displays_iff
  · exact assembled.displays_iff

/-- **A manual report shows the computed results where they are positioned.** An instance with the
periods that a valid manual template suggests is valid. If it is computed, it has one grid, which
the positions lay out. The same instance is also computed without manual positions, and displays
the results of all visible KPIs of these columns; those of the others are shown by positions
alone. -/
theorem compute_manual (sources : Sources) (base : Instance) (template : Template)
    (valid : template.validate = .ok ()) (manual : template.manualPosition = true)
    (own : base.report = template.code) :
    let self := base.withTemplatePeriods template
    self.validate = .ok () ∧
      ∀ t grids u, Runs ((sources.withReport template).compute self) t grids u →
        ∃ pivot columns grid shown, grids = [grid] ∧
          Filled (sources.withReport template) self template pivot columns ∧
          grid.LaidByHand template.positions columns ∧
          Runs ((sources.withReport { template with manualPosition := false }).compute self) t shown
            u ∧
          ∀ kpi ∈ template.kpis, kpi.isHidden = false → ∀ column ∈ columns, ∀ result,
            column.found.get? kpi.name = some result ↔
              Displays shown result ∧ result.kpi = kpi.name ∧
                result.period = column.period.name := by
  intro self
  refine ⟨Instance.validate_withTemplatePeriods valid base, fun t grids u run => ?_⟩
  have own : self.report = template.code := own
  obtain ⟨columns, prepared, made⟩ := (sources.runs_compute_withReport template own).1 run
  obtain ⟨-, -, pivot, filled⟩ := prepare_inv prepared
  obtain ⟨headers, heads, made⟩ := map_eq_ok.1 made
  rw [if_pos manual] at made
  obtain ⟨shown, laidOut, displays⟩ := filled.exists_displays valid heads
  refine ⟨pivot, columns, _, shown, made.symm, filled, ?_, ?_, ?_⟩
  · exact laidByHand_manualGrid (filled.resolvable valid)
  · let free : Template := { template with manualPosition := false }
    rw [← sources.prepare_congr self free template rfl] at prepared
    exact (sources.runs_compute_withReport free own).2 ⟨columns, prepared, laidOut⟩
  · intro kpi member visible column inside result
    exact filled.get?_iff_displays displays member visible inside

end Sources

namespace TwoDays

/-- The instance with the suggested period, which is the first day. -/
def suggested : Instance := (self days).withTemplatePeriods (template false true)

theorem runs_compute_suggested :
    ∃ grids t, Runs ((sources false true).compute suggested) {} grids t := by
  have sorted : suggested.sortedPeriods = [Period.ofTemplate ⟨"today", .day, 0, 1, 1⟩] := by
    with_unfolding_all rfl
  have resolved : ∀ period ∈ suggested.sortedPeriods, ∃ found,
      period.bounds (sources false true).ledger "" firstDate = .ok found := by
    rw [sorted, List.forall_mem_singleton]
    exact ⟨some ⟨firstDate, firstDate, none⟩, by rfl⟩
  have columns := gives_filledColumns false true suggested.periods resolved
  have headers : headerColumns (sources false true).settings.locale
      (((sources false true).columnsOf suggested firstDate suggested.sortedPeriods).map
        ((sources false true).filledAlone .empty queue)) = .ok [⟨"today", "01/02/0001"⟩] := by
    with_unfolding_all rfl
  exact ⟨_, Sources.gives_compute (by rfl) rfl rfl columns (map_eq_ok.2 ⟨_, headers, rfl⟩) {}⟩

end TwoDays

/-- The manual report of the first day has two lines below one caption. -/
theorem Sources.compute_manual_two_days :
    (TwoDays.template false true).validate = .ok () ∧
      ∃ pivot columns grid shown u,
        Runs ((TwoDays.sources false true).compute TwoDays.suggested) {} [grid] u ∧
        Runs ((TwoDays.sources false false).compute TwoDays.suggested) {} shown u ∧
        Filled (TwoDays.sources false true) TwoDays.suggested (TwoDays.template false true) pivot
          columns ∧
        grid.LaidByHand (TwoDays.template false true).positions columns ∧
        grid.header.columns.length = 1 ∧ grid.rows.length = 2 := by
  have valid : (TwoDays.template false true).validate = .ok () := rfl
  obtain ⟨grids, u, run⟩ := TwoDays.runs_compute_suggested
  obtain ⟨-, each⟩ := compute_manual (TwoDays.sources false true) (TwoDays.self TwoDays.days)
    (TwoDays.template false true) valid rfl rfl
  obtain ⟨pivot, columns, grid, shown, rfl, filled, laid, off, -⟩ := each {} grids u run
  refine ⟨valid, pivot, columns, grid, shown, u, run, off, filled, laid, ?_, ?_⟩
  · have across : IsExtent [1, 1, 1, 1] grid.header.columns.length := laid.across
    have least := across.upper 1 (by simp)
    have attained := across.attained
    simp only [List.mem_cons, List.not_mem_nil, or_false] at attained
    omega
  · have down : IsExtent [0, 1, 1, 2] grid.rows.length := laid.down
    have least := down.upper 2 (by simp)
    have attained := down.attained
    simp only [List.mem_cons, List.not_mem_nil, or_false] at attained
    omega

end KpiReport
