import KpiReport.Evaluation.Result

/-!
# Grids

A grid is what is shown of a report: a header, and rows of cells.
-/

namespace KpiReport

/-- The header of a column. -/
structure HeaderColumn where
  name : String
  /-- The dates of the column; empty for a comparison. -/
  date : String
  deriving DecidableEq, Repr

/-- The header of a grid. -/
structure Header where
  title : String
  columns : List HeaderColumn
  deriving DecidableEq, Repr

/-- A cell of a grid. -/
inductive Cell where
  | kpi (result : KpiResult)
  | comparison (display : String)
  | empty

/-- What is shown in a cell. -/
def Cell.display : Cell → String
  | kpi result => result.display
  | comparison display => display
  | empty => ""

/-- The result behind a cell. -/
def Cell.result? : Cell → Option KpiResult
  | kpi result => some result
  | _ => none

/-- A row of a grid. -/
structure GridRow where
  caption : String
  name : String
  cells : List Cell
  defaultStyle : Option String
  /-- The number of column breaks before the row. -/
  column : Nat

/-- A grid. -/
structure Grid where
  header : Header
  rows : List GridRow

namespace Grid

/-- The first row with a name. -/
def row? (grid : Grid) (name : String) : Option GridRow :=
  grid.rows.find? fun row => row.name == name

/-- The position of the first column with a name. -/
def columnIndex? (grid : Grid) (name : String) : Option Nat :=
  grid.header.columns.findIdx? fun column => column.name == name

end Grid

/-! ## JSON form -/

/-- The JSON form of a header of a column. -/
def HeaderColumn.toJson (column : HeaderColumn) : Json :=
  .object [("name", .text column.name), ("date", .text column.date)]

/-- The JSON form of a header. -/
def Header.toJson (header : Header) : Json :=
  .object [("kpi_name", .text header.title),
    ("cols", .list (header.columns.map HeaderColumn.toJson))]

/-- The JSON form of a cell. -/
def Cell.toJson : Cell → Json
  | kpi result => result.toJson
  | comparison display => .object [("val_r", .text display)]
  | empty => .null

/-- The JSON form of a row. -/
def GridRow.toJson (row : GridRow) : Json :=
  .object [("kpi_name", .text row.caption), ("kpi_unique_name", .text row.name),
    ("cols", .list (row.cells.map Cell.toJson)),
    ("default_style", Json.ofText? row.defaultStyle), ("column", .integer row.column)]

/-- The JSON form of a grid. -/
def Grid.toJson (grid : Grid) : Json :=
  .object [("header", .list [grid.header.toJson]),
    ("content", .list (grid.rows.map GridRow.toJson))]

end KpiReport
