import KpiReport.Ledger.Book
import KpiReport.Proofs.Grid.Columns
import KpiReport.Store.Tables
import Mathlib.Data.List.Perm.Basic
import Mathlib.Data.List.SplitBy

/-!
# The grids of a report

A report that is neither a matrix nor laid out by hand has a row for each visible KPI and a slot for
each column, followed by one for each of its comparisons. `Assembled` says which header and which
cell stands in each slot, and how column breaks divide the rows into grids. The main statement,
`Sources.compute_assembles`, says that a report which is computed is assembled in this way from its
columns.
-/

namespace KpiReport

/-! ## Slots -/

/-- What stands below a header: the results of a column, or the changes of a column against
another one. -/
inductive Slot where
  | own (column : FilledColumn)
  | change (current base : FilledColumn)

namespace Slot

/-- The slots of a grid: each column is followed by its comparisons. -/
def all (columns : List FilledColumn) : List Slot :=
  columns.flatMap fun column => own column :: (column.others columns).map (change column)

/-- The header of a slot. -/
inductive Heads (locale : Locale) : Slot → HeaderColumn → Prop where
  | own {column : FilledColumn} {date : String} (caption : column.dateCaption locale = .ok date) :
      Heads locale (own column) ⟨column.period.name, date⟩
  | change {current base : FilledColumn} :
      Heads locale (change current base) ⟨current.period.name ++ " vs " ++ base.period.name, ""⟩

/-- The cell of a KPI in a slot. -/
inductive Shows (locale : Locale) (kpi : Kpi) : Slot → Cell → Prop where
  | own {column : FilledColumn} {result : KpiResult}
      (found : column.found.get? kpi.name = some result) :
      Shows locale kpi (own column) (.kpi result)
  | change {current base : FilledColumn} {result other : KpiResult}
      (found : current.found.get? kpi.name = some result)
      (compared : base.found.get? kpi.name = some other) :
      Shows locale kpi (change current base)
        (.comparison (kpi.renderComparison result.value other.value current.period.normalizeFactor
          base.period.normalizeFactor locale))

variable {locale : Locale} {columns : List FilledColumn}

theorem own_mem_all {column : FilledColumn} : own column ∈ all columns ↔ column ∈ columns := by
  simp [all]

theorem mem_of_mem_others {column other : FilledColumn} (h : other ∈ column.others columns) :
    other ∈ columns := by
  obtain ⟨name, -, found⟩ := List.mem_filterMap.1 h
  exact List.mem_of_find?_eq_some found

theorem heads_headers {column : FilledColumn} {headers : List HeaderColumn}
    (h : column.headers locale columns = .ok headers) :
    List.Forall₂ (Heads locale) (own column :: (column.others columns).map (change column))
      headers := by
  obtain ⟨date, caption, rfl⟩ := map_eq_ok.1 h
  refine .cons (.own caption) ?_
  rw [List.forall₂_map_left_iff, List.forall₂_map_right_iff, List.forall₂_same]
  exact fun _ _ => .change

theorem heads_headerColumns {headers : List HeaderColumn}
    (h : headerColumns locale columns = .ok headers) :
    List.Forall₂ (Heads locale) (all columns) headers := by
  obtain ⟨parts, made, rfl⟩ := map_eq_ok.1 h
  refine List.rel_flatten (List.forall₂_map_left_iff.2 ?_)
  exact (mapM_eq_ok.1 made).imp fun column part => heads_headers

/-- A KPI with a result in every column has a cell in every slot. -/
theorem shows_cells {kpi : Kpi}
    (complete : ∀ column ∈ columns, ∃ result, column.found.get? kpi.name = some result) :
    List.Forall₂ (Shows locale kpi) (all columns)
      (columns.flatMap (kpi.cellsIn locale columns)) := by
  refine List.rel_flatten ?_
  rw [List.forall₂_map_left_iff, List.forall₂_map_right_iff, List.forall₂_same]
  intro column member
  obtain ⟨result, found⟩ := complete column member
  rw [Kpi.cellsIn, found]
  refine .cons (.own found) (List.forall₂_map_left_iff.2 (List.forall₂_map_right_iff.2 ?_))
  refine List.forall₂_same.2 ?_
  intro base compared
  obtain ⟨other, known⟩ := complete base (mem_of_mem_others compared)
  rw [Kpi.compare, found, known]
  exact .change found known

end Slot

/-! ## Groups of KPIs -/

namespace Kpi

/-- The KPIs between column breaks; a break starts a group. -/
def groups (kpis : List Kpi) : List (List Kpi) :=
  kpis.splitBy fun _ next => !next.columnBreak

/-- The title that a group gets from its first KPI. -/
def groupTitle (group : List Kpi) : String :=
  match group.head? with
  | some first => if first.columnBreak && first.columnTitle then first.description else ""
  | none => ""

/-- Groups are not empty, and none of their KPIs but the first breaks. -/
def Unbroken (group : List Kpi) : Prop :=
  group ≠ [] ∧ ∀ kpi ∈ group.tail, kpi.columnBreak = false

/-- A group starts with a break. -/
def StartsWithBreak (group : List Kpi) : Prop :=
  ∀ kpi ∈ group.head?, kpi.columnBreak = true

theorem flatten_groups (kpis : List Kpi) : (groups kpis).flatten = kpis :=
  List.flatten_splitBy _ kpis

theorem unbroken_of_mem_groups {kpis group : List Kpi} (h : group ∈ groups kpis) :
    Unbroken group := by
  have nonempty := List.ne_nil_of_mem_splitBy h
  obtain ⟨first, rest, rfl⟩ := List.exists_cons_of_ne_nil nonempty
  have chain := List.isChain_of_mem_splitBy h
  have unbroken : ∀ kpi ∈ rest, (!kpi.columnBreak) = true := by
    have : IsTrans Kpi fun _ next => (!next.columnBreak) = true := ⟨fun _ _ _ _ later => later⟩
    exact (List.pairwise_cons.1 (List.isChain_iff_pairwise.1 chain)).1
  exact ⟨nonempty, fun kpi member => by simpa using unbroken kpi member⟩

theorem groups_pairwise (kpis : List Kpi) :
    (groups kpis).Pairwise fun _ later => StartsWithBreak later := by
  have chain := List.isChain_getLast_head_splitBy (fun _ next : Kpi => !next.columnBreak) kpis
  have : IsTrans (List Kpi) fun _ later => StartsWithBreak later := ⟨fun _ _ _ _ later => later⟩
  refine List.isChain_iff_pairwise.1 (chain.imp ?_)
  rintro _ later ⟨-, nonempty, breaks⟩ kpi first
  rw [List.head?_eq_some_head nonempty, Option.mem_some_iff] at first
  subst first
  simpa using breaks

end Kpi

/-! ## Placed KPIs -/

namespace Kpi

/-- The number of column breaks up to a KPI. -/
def columnFrom (kpi : Kpi) (column : Nat) : Nat :=
  if kpi.columnBreak then column + 1 else column

/-- The title that is in force at a KPI. -/
def titleFrom (kpi : Kpi) (title : String) : String :=
  if kpi.columnBreak then if kpi.columnTitle then kpi.description else "" else title

end Kpi

theorem placeKpis_cons (column : Nat) (title : String) (kpi : Kpi) (kpis : List Kpi) :
    placeKpis column title (kpi :: kpis) =
      ⟨kpi, kpi.columnFrom column, kpi.titleFrom title⟩ ::
        placeKpis (kpi.columnFrom column) (kpi.titleFrom title) kpis := by
  rw [placeKpis, Kpi.columnFrom, Kpi.titleFrom]
  cases kpi.columnBreak <;> rfl

theorem placeKpis_append {block : List Kpi} (unbroken : ∀ kpi ∈ block, kpi.columnBreak = false)
    (column : Nat) (title : String) (more : List Kpi) :
    placeKpis column title (block ++ more) =
      block.map (⟨·, column, title⟩) ++ placeKpis column title more := by
  induction block with
  | nil => rfl
  | cons kpi block ih =>
    obtain ⟨own, unbroken⟩ := List.forall_mem_cons.1 unbroken
    rw [List.cons_append, placeKpis, own, ih unbroken]
    rfl

theorem le_column_of_mem_placeKpis {column : Nat} {title : String} {kpis : List Kpi}
    {placed : PlacedKpi} (h : placed ∈ placeKpis column title kpis) : column ≤ placed.column := by
  induction kpis generalizing column title with
  | nil => cases h
  | cons kpi kpis ih =>
    have own : column ≤ kpi.columnFrom column := by
      unfold Kpi.columnFrom
      split <;> omega
    rw [placeKpis_cons] at h
    rcases List.mem_cons.1 h with rfl | h
    · exact own
    · exact own.trans (ih h)

theorem lt_column_of_mem_placeKpis {column : Nat} {title : String} {kpis : List Kpi}
    {placed : PlacedKpi} (breaks : Kpi.StartsWithBreak kpis)
    (h : placed ∈ placeKpis column title kpis) : column < placed.column := by
  cases kpis with
  | nil => cases h
  | cons kpi kpis =>
    have own : kpi.columnFrom column = column + 1 := if_pos (breaks kpi rfl)
    rw [placeKpis_cons, own] at h
    rcases List.mem_cons.1 h with rfl | h
    · exact Nat.lt_succ_self column
    · exact le_column_of_mem_placeKpis h

/-- The placed KPIs are those of a group, all with its title and with one number of breaks. -/
def PlacedKpi.Fill (group : List Kpi) (placed : List PlacedKpi) : Prop :=
  ∃ column, placed = group.map (⟨·, column, Kpi.groupTitle group⟩)

theorem startsWithBreak_flatten {groups : List (List Kpi)}
    (unbroken : ∀ group ∈ groups, Kpi.Unbroken group)
    (breaks : ∀ group ∈ groups, Kpi.StartsWithBreak group) :
    Kpi.StartsWithBreak groups.flatten := by
  cases groups with
  | nil => exact fun kpi first => nomatch first
  | cons group groups =>
    obtain ⟨kpi, rest, rfl⟩ := List.exists_cons_of_ne_nil (unbroken group List.mem_cons_self).1
    exact breaks (kpi :: rest) List.mem_cons_self

/-- The first KPI of a group gives the title, if the group starts with a break or there is no title
before it. -/
theorem titleFrom_eq_groupTitle {kpi : Kpi} {rest : List Kpi} {title : String}
    (start : title = "" ∨ Kpi.StartsWithBreak (kpi :: rest)) :
    kpi.titleFrom title = Kpi.groupTitle (kpi :: rest) := by
  unfold Kpi.titleFrom Kpi.groupTitle
  rw [List.head?_cons]
  dsimp only
  cases broken : kpi.columnBreak with
  | true => rw [if_pos rfl, Bool.true_and]
  | false =>
    rcases start with rfl | breaks
    · simp
    · have own : kpi.columnBreak = true := breaks kpi rfl
      rw [broken] at own
      cases own

/-- The KPIs of the groups are placed with a number for each group. -/
theorem forall₂_groupsBy_placeKpis {groups : List (List Kpi)}
    (unbroken : ∀ group ∈ groups, Kpi.Unbroken group)
    (later : groups.Pairwise fun _ group => Kpi.StartsWithBreak group) {title : String}
    (start : title = "" ∨ ∀ group ∈ groups, Kpi.StartsWithBreak group) (column : Nat) :
    List.Forall₂ PlacedKpi.Fill groups
      (groupsBy PlacedKpi.column (placeKpis column title groups.flatten)) := by
  induction groups generalizing column title with
  | nil => exact .nil
  | cons group groups ih =>
    obtain ⟨own, unbroken'⟩ := List.forall_mem_cons.1 unbroken
    obtain ⟨breaks, later'⟩ := List.pairwise_cons.1 later
    obtain ⟨kpi, rest, rfl⟩ := List.exists_cons_of_ne_nil own.1
    have titled : kpi.titleFrom title = Kpi.groupTitle (kpi :: rest) :=
      titleFrom_eq_groupTitle (start.imp_right fun breaks => breaks _ List.mem_cons_self)
    have placed : placeKpis column title ((kpi :: rest) :: groups).flatten =
        (kpi :: rest).map (⟨·, kpi.columnFrom column, Kpi.groupTitle (kpi :: rest)⟩) ++
          placeKpis (kpi.columnFrom column) (Kpi.groupTitle (kpi :: rest)) groups.flatten := by
      rw [List.flatten_cons, List.cons_append, placeKpis_cons, titled, List.map_cons,
        List.cons_append]
      exact congrArg _ (placeKpis_append own.2 _ _ _)
    rw [placed, groupsBy_append (k := kpi.columnFrom column)]
    · exact .cons ⟨_, rfl⟩ (ih unbroken' later' (Or.inr breaks) _)
    · exact List.cons_ne_nil _ _
    · exact List.forall_mem_map.2 fun _ _ => rfl
    · intro placed member same
      have after := lt_column_of_mem_placeKpis (startsWithBreak_flatten unbroken' breaks) member
      omega

/-! ## Assembled grids -/

/-- The row of a KPI: it has a cell in every slot. -/
structure GridRow.Shows (locale : Locale) (columns : List FilledColumn) (kpi : Kpi)
    (row : GridRow) : Prop where
  name : row.name = kpi.name
  caption : row.caption = kpi.caption
  style : row.defaultStyle = kpi.defaultStyle
  cells : List.Forall₂ (Slot.Shows locale kpi) (Slot.all columns) row.cells

/-- The grid of a group: it has a header for every slot and a row for every visible KPI. -/
structure Grid.Shows (locale : Locale) (columns : List FilledColumn) (group : List Kpi)
    (grid : Grid) : Prop where
  title : grid.header.title = Kpi.groupTitle group
  headers : List.Forall₂ (Slot.Heads locale) (Slot.all columns) grid.header.columns
  rows : List.Forall₂ (GridRow.Shows locale columns) (group.filter fun kpi => !kpi.isHidden)
    grid.rows

/-- Grids are assembled from KPIs and columns: there is one for each group, all have the same
headers, every visible KPI has one row, and every row has a cell below each header. -/
structure Assembled (locale : Locale) (columns : List FilledColumn) (kpis : List Kpi)
    (grids : List Grid) : Prop where
  groups : List.Forall₂ (Grid.Shows locale columns) (Kpi.groups kpis) grids
  headers : ∀ grid ∈ grids, ∀ other ∈ grids, grid.header.columns = other.header.columns
  names : (grids.flatMap Grid.rows).map GridRow.name =
    (kpis.filter fun kpi => !kpi.isHidden).map Kpi.name
  nodup : ((grids.flatMap Grid.rows).map GridRow.name).Nodup
  rectangular : ∀ grid ∈ grids, ∀ row ∈ grid.rows, row.cells.length = grid.header.columns.length

variable {locale : Locale} {columns : List FilledColumn} {kpis : List Kpi}

theorem grids_eq (headers : List HeaderColumn) :
    grids locale columns headers kpis =
      (groupsBy PlacedKpi.column (placeKpis 0 "" kpis)).map (gridOf locale columns headers) := by
  rw [grids, groupsBy, List.map_map]
  rfl

theorem shows_gridOf {headers : List HeaderColumn} {group : List Kpi} {placed : List PlacedKpi}
    (heads : List.Forall₂ (Slot.Heads locale) (Slot.all columns) headers)
    (complete : ∀ kpi ∈ group, ∀ column ∈ columns,
      ∃ result, column.found.get? kpi.name = some result)
    (nonempty : group ≠ []) (fill : PlacedKpi.Fill group placed) :
    Grid.Shows locale columns group (gridOf locale columns headers placed) := by
  obtain ⟨column, rfl⟩ := fill
  refine ⟨?_, heads, ?_⟩
  · obtain ⟨kpi, rest, rfl⟩ := List.exists_cons_of_ne_nil nonempty
    rfl
  · have visible : (group.map fun kpi => PlacedKpi.mk kpi column (Kpi.groupTitle group)).filter
        (fun placed => !placed.kpi.isHidden) =
        (group.filter fun kpi => !kpi.isHidden).map (⟨·, column, Kpi.groupTitle group⟩) :=
      List.filter_map
    rw [gridOf, visible, List.map_map, List.forall₂_map_right_iff, List.forall₂_same]
    intro kpi member
    exact ⟨rfl, rfl, rfl, Slot.shows_cells (complete kpi (List.mem_of_mem_filter member))⟩

theorem Grid.Shows.names {group : List Kpi} {grid : Grid}
    (h : Grid.Shows locale columns group grid) :
    grid.rows.map GridRow.name = (group.filter fun kpi => !kpi.isHidden).map Kpi.name :=
  map_eq_map_of_forall₂ h.rows.flip fun _ _ shown => shown.name

theorem Grid.Shows.rectangular {group : List Kpi} {grid : Grid}
    (h : Grid.Shows locale columns group grid) {row : GridRow} (member : row ∈ grid.rows) :
    row.cells.length = grid.header.columns.length := by
  obtain ⟨kpi, -, shown⟩ := exists_of_mem_forall₂ h.rows member
  rw [← shown.cells.length_eq, h.headers.length_eq]

/-- The rows of all grids are those of the visible KPIs. -/
theorem names_of_groups {groups : List (List Kpi)} {grids : List Grid}
    (h : List.Forall₂ (Grid.Shows locale columns) groups grids) :
    (grids.flatMap Grid.rows).map GridRow.name =
      (groups.flatten.filter fun kpi => !kpi.isHidden).map Kpi.name := by
  induction h with
  | nil => rfl
  | cons first _ ih =>
    rw [List.flatMap_cons, List.map_append, first.names, ih, List.flatten_cons, List.filter_append,
      List.map_append]

/-- The plain grids of KPIs are assembled from columns that have a result for each of them. -/
theorem assembled_grids {headers : List HeaderColumn}
    (heads : headerColumns locale columns = .ok headers) (nodup : (kpis.map Kpi.name).Nodup)
    (complete : ∀ kpi ∈ kpis, ∀ column ∈ columns,
      ∃ result, column.found.get? kpi.name = some result) :
    Assembled locale columns kpis (grids locale columns headers kpis) := by
  have heads := Slot.heads_headerColumns heads
  have inside : ∀ group ∈ Kpi.groups kpis, ∀ kpi ∈ group, kpi ∈ kpis := by
    intro group listed kpi member
    rw [← Kpi.flatten_groups kpis]
    exact List.mem_flatten_of_mem listed member
  have fills := forall₂_groupsBy_placeKpis (fun group => Kpi.unbroken_of_mem_groups)
    (Kpi.groups_pairwise kpis) (Or.inl rfl) 0
  rw [Kpi.flatten_groups] at fills
  have groups : List.Forall₂ (Grid.Shows locale columns) (Kpi.groups kpis)
      (grids locale columns headers kpis) := by
    rw [grids_eq, List.forall₂_map_right_iff]
    refine forall₂_imp_of_mem fills fun group placed listed fill => ?_
    exact shows_gridOf heads (fun kpi member => complete kpi (inside group listed kpi member))
      (Kpi.unbroken_of_mem_groups listed).1 fill
  have names := names_of_groups groups
  rw [Kpi.flatten_groups] at names
  refine ⟨groups, ?_, names, ?_, ?_⟩
  · have same : ∀ grid ∈ grids locale columns headers kpis, grid.header.columns = headers := by
      rw [grids_eq, List.forall_mem_map]
      exact fun _ _ => rfl
    intro grid member other member'
    rw [same grid member, same other member']
  · rw [names]
    exact nodup.sublist ((List.filter_sublist).map Kpi.name)
  · intro grid member row inside
    obtain ⟨group, -, shown⟩ := exists_of_mem_forall₂ groups member
    exact shown.rectangular inside

namespace Sources

variable {sources : Sources} {self : Instance} {template : Template}

/-- Laid out plainly, the columns of a valid template make assembled grids. -/
theorem Filled.assembled {pivot : Calendar.Date} {columns : List FilledColumn}
    (h : Filled sources self template pivot columns) (valid : template.validate = .ok ())
    {headers : List HeaderColumn} (heads : headerColumns locale columns = .ok headers) :
    Assembled locale columns template.sortedKpis
      (grids locale columns headers template.sortedKpis) := by
  have same := (List.mergeSort_perm template.kpis fun a b => decide (a.sequence ≤ b.sequence)).symm
  refine assembled_grids heads ?_ fun kpi member column inside => ?_
  · exact (same.map Kpi.name).nodup_iff.1 (Template.names_of_validate valid).nodup_kpis
  · obtain ⟨result, found, -⟩ := h.complete column inside kpi (mem_sortedKpis.1 member)
    exact ⟨result, found⟩

theorem Filled.assembled_of_layOut {pivot : Calendar.Date} {columns : List FilledColumn}
    {grids : List Grid} (h : Filled sources self template pivot columns)
    (valid : template.validate = .ok ()) (plain : template.isMatrix = false)
    (free : template.manualPosition = false) (made : template.layOut locale columns = .ok grids) :
    Assembled locale columns template.sortedKpis grids := by
  obtain ⟨headers, heads, made⟩ := map_eq_ok.1 made
  rw [free, plain] at made
  cases made
  exact h.assembled valid heads

end Sources

/-! ## A report over two days -/

namespace TwoDays

open Calendar

/-- The first day. -/
def firstDate : Date := ⟨2, by decide, by decide⟩

/-- The day after. -/
def secondDate : Date := ⟨3, by decide, by decide⟩

/-- Two KPIs that are shown, each in a grid of its own, and one that is not. By hand, the second is
shown in place of the first, above the hidden one. -/
def template (isMatrix manual : Bool) : Template where
  code := "days"
  name := "Days"
  kpis := [{ name := "open", expression := "True", sequence := 1 },
    { name := "closed", expression := "not open", sequence := 2, columnBreak := true },
    { name := "secret", expression := "closed", sequence := 3, invisible := true }]
  isMatrix := isMatrix
  manualPosition := manual
  periods := [⟨"today", .day, 0, 1, 1⟩]
  positions := [{ line := 0, column := 1, name := some "Today" },
    { line := 1, column := 1, kpi := some "open", period := some "today" },
    { line := 1, column := 1, kpi := some "closed", period := some "today" },
    { line := 2, column := 1, kpi := some "secret", period := some "today" }]

/-- One account without move lines, no records and no other reports. -/
def sources (isMatrix manual : Bool) : Sources where
  library := Library.empty.insert (template isMatrix manual)
  ledger := Book.ledger { accounts := [⟨"0", "", none⟩] }
  store := RecordTables.store {}
  settings := {}
  today := fun _ => firstDate

/-- The column of the first day. -/
def today : Period where
  name := "today"
  periodType := .day
  offset := 0
  duration := 1
  sequence := 1

/-- The column of the day after, compared with the first. -/
def tomorrow : Period where
  name := "tomorrow"
  periodType := .day
  offset := 1
  duration := 1
  sequence := 2
  compareWith := ["today"]

/-- A period without bounds, since there are no fiscal periods. -/
def never : Period where
  name := "never"
  periodType := .fiscalPeriod
  offset := 0
  duration := 1

/-- An instance of the report. -/
def self (periods : List Period) : Instance where
  name := "days"
  report := "days"
  rootAccount := "0"
  periods := periods

/-- The report has no account tokens. -/
def registry : Registry := ⟨[], some []⟩

/-- The compiled KPIs. -/
def queue : List CompiledKpi :=
  [⟨{ name := "open", expression := "True", sequence := 1 }, .ok (.bool true), []⟩,
    ⟨{ name := "closed", expression := "not open", sequence := 2, columnBreak := true },
      .ok (.not (.name "open")), []⟩,
    ⟨{ name := "secret", expression := "closed", sequence := 3, invisible := true },
      .ok (.name "closed"), []⟩]

variable (isMatrix manual : Bool) (periods : List Period)

theorem gives_newRegistry :
    ((sources isMatrix manual).newRegistry (self periods) (template isMatrix manual)).Gives
      registry :=
  (Sources.steady_newRegistry (template isMatrix manual)).gives (by with_unfolding_all rfl)

theorem gives_firstScope (column : Column) :
    ((sources isMatrix manual).firstScope (self periods) column (template isMatrix manual)
      registry).Gives .empty :=
  (Sources.steady_firstScope (template isMatrix manual) registry).gives (by rfl)

theorem sortedKpis_template :
    (template isMatrix manual).sortedKpis = (template isMatrix manual).kpis :=
  Sources.sortedKpis_eq_kpis (by decide +revert)

theorem compile_template :
    (template isMatrix manual).sortedKpis.mapM
      (CompiledKpi.ofKpi (sources isMatrix manual).library (template isMatrix manual) registry) =
      .ok queue := by
  rw [sortedKpis_template]
  with_unfolding_all rfl

/-- The columns of some periods are filled. -/
theorem gives_filledColumns
    (resolved : ∀ period ∈ (self periods).sortedPeriods, ∃ found,
      period.bounds (sources isMatrix manual).ledger "" firstDate = .ok found) :
    ((sources isMatrix manual).filledColumns (self periods) (template isMatrix manual)).Gives
      (((sources isMatrix manual).columnsOf (self periods) firstDate
        (self periods).sortedPeriods).map
          ((sources isMatrix manual).filledAlone .empty queue)) :=
  Sources.gives_filledColumns (by rfl) resolved rfl (gives_newRegistry isMatrix manual periods)
    (compile_template isMatrix manual) (by simp [queue])
    fun column _ => gives_firstScope isMatrix manual periods column

/-- The two days, out of order, and the period without bounds. -/
def days : List Period := [never, tomorrow, today]

theorem sortedPeriods_days : (self days).sortedPeriods = [today, tomorrow, never] := by
  simp [Instance.sortedPeriods, self, days, List.mergeSort, List.MergeSort.Internal.splitInTwo,
    today, tomorrow, never]

theorem resolved_days : ∀ period ∈ (self days).sortedPeriods, ∃ found,
    period.bounds (sources isMatrix manual).ledger "" firstDate = .ok found := by
  rw [sortedPeriods_days]
  simp only [List.forall_mem_cons]
  refine ⟨⟨some ⟨firstDate, firstDate, none⟩, by rfl⟩,
    ⟨some ⟨secondDate, secondDate, none⟩, by with_unfolding_all rfl⟩,
    ⟨none, by with_unfolding_all rfl⟩, nofun⟩

theorem columnsOf_days :
    (sources isMatrix manual).columnsOf (self days) firstDate (self days).sortedPeriods =
      [⟨today, ⟨firstDate, firstDate, none⟩⟩, ⟨tomorrow, ⟨secondDate, secondDate, none⟩⟩] := by
  rw [sortedPeriods_days]
  with_unfolding_all rfl

/-- The columns of the two days. -/
def filled : List FilledColumn :=
  [⟨today, ⟨firstDate, firstDate, none⟩⟩, ⟨tomorrow, ⟨secondDate, secondDate, none⟩⟩].map
    ((sources false false).filledAlone .empty queue)

/-- The headers of the grids. -/
def headers : List HeaderColumn :=
  [⟨"today", "01/02/0001"⟩, ⟨"tomorrow", "01/03/0001"⟩, ⟨"tomorrow vs today", ""⟩]

theorem headers_filled :
    headerColumns (sources false false).settings.locale filled = .ok headers := by
  rfl

theorem runs_compute :
    ∃ t, Runs ((sources false false).compute (self days)) {}
      (grids (sources false false).settings.locale filled headers (template false false).sortedKpis)
      t := by
  have columns := gives_filledColumns false false days (resolved_days false false)
  rw [columnsOf_days] at columns
  exact Sources.gives_compute (by rfl) rfl rfl columns (map_eq_ok.2 ⟨_, headers_filled, rfl⟩) {}

end TwoDays

end KpiReport
