import KpiReport.Evaluation.Template
import KpiReport.Grid.Basic
import KpiReport.Render

/-!
# Laying out grids

The results of a report are laid out with a row for each KPI and a column for each period, followed
by its comparisons; column breaks divide the rows into several grids. A matrix swaps rows and
columns. A manual layout puts results at the positions that the template gives.
-/

namespace KpiReport

/-- A column with the results of the report. -/
structure FilledColumn extends Column where
  found : PeriodResults

namespace FilledColumn

/-- The columns that a column is compared with. -/
def others (columns : List FilledColumn) (self : FilledColumn) : List FilledColumn :=
  self.period.compareWith.filterMap fun name =>
    columns.find? fun other => other.period.name == name

end FilledColumn

/-! ## Headers -/

/-- The dates of a column as its header shows them; both ends for weeks and for more than one day or
fiscal period. -/
def Column.dateCaption (column : Column) (locale : Locale) : Result String := do
  let (start, stop) ←
    match column.bounds.fiscal with
    | some span => pure (span.first, span.last)
    | none => do
      let start ← formatDate column.bounds.start locale.dateFormat
      let stop ← formatDate column.bounds.stop locale.dateFormat
      pure (start, stop)
  if 1 < column.period.duration ∨ column.period.periodType = .week then
    return "from " ++ start ++ " to " ++ stop
  else return start

/-- The headers of a column and of its comparisons. -/
def FilledColumn.headers (locale : Locale) (columns : List FilledColumn) (self : FilledColumn) :
    Result (List HeaderColumn) :=
  (self.dateCaption locale).map fun date =>
    ⟨self.period.name, date⟩ ::
      (self.others columns).map fun other =>
        ⟨self.period.name ++ " vs " ++ other.period.name, ""⟩

/-- The headers of all columns. -/
def headerColumns (locale : Locale) (columns : List FilledColumn) : Result (List HeaderColumn) :=
  (columns.mapM (FilledColumn.headers locale columns)).map List.flatten

/-! ## Rows -/

/-- The comparison of a KPI between two columns. -/
def Kpi.compare (kpi : Kpi) (locale : Locale) (current other : FilledColumn) : Cell :=
  match current.found.get? kpi.name, other.found.get? kpi.name with
  | some result, some base =>
    .comparison (kpi.renderComparison result.value base.value current.period.normalizeFactor
      other.period.normalizeFactor locale)
  | _, _ => .comparison ""

/-- The cells of a KPI in a column and in its comparisons. -/
def Kpi.cellsIn (kpi : Kpi) (locale : Locale) (columns : List FilledColumn)
    (current : FilledColumn) : List Cell :=
  ((current.found.get? kpi.name).map Cell.kpi).toList ++
    (current.others columns).map (kpi.compare locale current)

/-- Whether a KPI has no row. -/
def Kpi.isHidden (kpi : Kpi) : Bool :=
  kpi.columnTitle || kpi.invisible

/-- A KPI with the number of column breaks up to it and the title of its grid. -/
structure PlacedKpi where
  kpi : Kpi
  column : Nat
  title : String

/-- Counts the column breaks in a list of KPIs; a KPI that breaks and is a title gives the title of
its grid. -/
def placeKpis (column : Nat) (title : String) : List Kpi → List PlacedKpi
  | [] => []
  | kpi :: kpis =>
    if kpi.columnBreak then
      let title := if kpi.columnTitle then kpi.description else ""
      ⟨kpi, column + 1, title⟩ :: placeKpis (column + 1) title kpis
    else ⟨kpi, column, title⟩ :: placeKpis column title kpis

/-- The row of a KPI. -/
def PlacedKpi.row (placed : PlacedKpi) (locale : Locale) (columns : List FilledColumn) : GridRow :=
  { caption := placed.kpi.caption
    name := placed.kpi.name
    cells := columns.flatMap (placed.kpi.cellsIn locale columns)
    defaultStyle := placed.kpi.defaultStyle
    column := placed.column }

/-- The grid of the KPIs that follow the same column breaks. -/
def gridOf (locale : Locale) (columns : List FilledColumn) (headers : List HeaderColumn)
    (placed : List PlacedKpi) : Grid :=
  { header := ⟨(placed.head?.map PlacedKpi.title).getD "", headers⟩
    rows := (placed.filter fun p => !p.kpi.isHidden).map fun p => p.row locale columns }

/-- The grids of a report, one for each group of KPIs between column breaks. -/
def grids (locale : Locale) (columns : List FilledColumn) (headers : List HeaderColumn)
    (kpis : List Kpi) : List Grid :=
  let placed := placeKpis 0 "" kpis
  (placed.map PlacedKpi.column).eraseDups.map fun column =>
    gridOf locale columns headers (placed.filter fun p => p.column == column)

/-! ## Matrices -/

/-- Makes a row of each column and a column of each row. -/
def Grid.transpose (grid : Grid) : Grid :=
  let first := grid.rows.head?
  { header := ⟨"", grid.rows.map fun row => ⟨row.caption, ""⟩⟩
    rows := grid.header.columns.mapIdx fun index line =>
      { caption := line.name
        name := line.name
        cells := grid.rows.map fun row => row.cells.getD index .empty
        defaultStyle := first.bind GridRow.defaultStyle
        column := (first.map GridRow.column).getD 0 } }

/-- The transposes of the grids that have rows. -/
def matrices (grids : List Grid) : List Grid :=
  (grids.filter fun grid => !grid.rows.isEmpty).map Grid.transpose

/-! ## Manual layouts -/

namespace Position

/-- Whether a position is that of a line and a column. -/
def isAt (position : Position) (line column : Int) : Bool :=
  position.line == line && position.column == column

/-- The result that a position shows: that of its KPI in the first column of its period that has
one. -/
def result? (columns : List FilledColumn) (position : Position) : Option KpiResult := do
  let kpi ← position.kpi
  let period ← position.period
  (columns.filter fun column => column.period.templateKey == period).findSome? fun column =>
    column.found.get? kpi

end Position

/-- The caption at a line and a column; the last position there counts. -/
def captionAt (positions : List Position) (line column : Int) : String :=
  (((positions.reverse.find? fun position => position.isAt line column).bind Position.name)).getD ""

/-- The cell at a line and a column; the last position there that shows a result counts. -/
def cellAt (columns : List FilledColumn) (positions : List Position) (line column : Int) : Cell :=
  let here := positions.reverse.filter fun position => position.isAt line column
  match here.findSome? (Position.result? columns) with
  | some result => .kpi result
  | none => .empty

/-- The numbers from one to the greatest of some numbers. -/
def upToGreatest (numbers : List Int) : List Int :=
  (List.range (numbers.foldl max 0).toNat).map fun n => Int.ofNat (n + 1)

/-- The grid of a manual layout: line 0 holds the captions of the columns and column 0 those of the
rows. -/
def manualGrid (template : Template) (columns : List FilledColumn) : Grid :=
  let positions := template.positions
  let across := upToGreatest (positions.map Position.column)
  let down := upToGreatest (positions.map Position.line)
  { header := ⟨"", across.map fun column => ⟨captionAt positions 0 column, ""⟩⟩
    rows := down.map fun line =>
      { caption := captionAt positions line 0
        name := captionAt positions line 0
        cells := across.map (cellAt columns positions line)
        defaultStyle := template.sortedKpis.head?.bind Kpi.defaultStyle
        column := 0 } }

/-! ## Reports -/

/-- The grids of a report. -/
def Template.layOut (template : Template) (locale : Locale) (columns : List FilledColumn) :
    Result (List Grid) :=
  (headerColumns locale columns).map fun headers =>
    if template.manualPosition then [manualGrid template columns]
    else
      let plain := grids locale columns headers template.sortedKpis
      if template.isMatrix then matrices plain else plain

end KpiReport
