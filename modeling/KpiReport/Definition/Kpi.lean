import KpiReport.Json.Fields

/-!
# Key figures

A KPI is a named formula with the settings of its display.
-/

namespace KpiReport

/-- How the value of a KPI is displayed. -/
inductive KpiType where
  | numeric
  | percentage
  | text
  deriving DecidableEq, Repr

/-- How the types are written. -/
def KpiType.names : List (String × KpiType) :=
  [("Numeric", numeric), ("Percentage", percentage), ("Text", text)]

/-- The unit in which a number is displayed. -/
inductive Divider where
  | micro
  | milli
  | unit
  | thousand
  | million
  deriving DecidableEq, Repr

namespace Divider

/-- How the dividers are written. -/
def names : List (String × Divider) :=
  [("Micro", micro), ("Milli", milli), ("Unit", unit), ("Thousand", thousand),
    ("Million", million)]

/-- What a displayed number is divided by. -/
def factor : Divider → Float
  | micro => 1e-6
  | milli => 1e-3
  | unit => 1
  | thousand => 1e3
  | million => 1e6

/-- The letter written after a divided number. -/
def label : Divider → String
  | micro => "µ"
  | milli => "m"
  | unit => ""
  | thousand => "k"
  | million => "M"

end Divider

/-- How the change between two periods is displayed. -/
inductive CompareMethod where
  | difference
  | percentage
  | disabled
  deriving DecidableEq, Repr

/-- How the methods are written. -/
def CompareMethod.names : List (String × CompareMethod) :=
  [("Difference", difference), ("Percentage", percentage), ("None", disabled)]

/-- A named formula and how its value is displayed. -/
structure Kpi where
  name : String
  description : String := ""
  expression : String
  kpiType : KpiType := .numeric
  divider : Divider := .unit
  decimals : Nat := 0
  prefixText : Option String := none
  suffixText : Option String := none
  compareMethod : CompareMethod := .percentage
  styleExpression : Option String := none
  defaultStyle : Option String := none
  sequence : Int := 100
  columnBreak : Bool := false
  columnTitle : Bool := false
  invisible : Bool := false
  deriving DecidableEq, Repr

namespace Kpi

/-- The comparison that suits a type. -/
def compareMethodFor : KpiType → CompareMethod
  | .numeric => .percentage
  | .percentage => .difference
  | .text => .disabled

/-- Changes the type of a KPI and resets the settings that depend on it. -/
def withType (kpi : Kpi) (kpiType : KpiType) : Kpi :=
  { kpi with
    kpiType := kpiType
    divider := .unit
    decimals := 0
    compareMethod := compareMethodFor kpiType }

/-- The label of the row of a KPI. -/
def caption (kpi : Kpi) : String :=
  if kpi.description.isEmpty then kpi.name else kpi.description

/-- The names of the fields of the JSON form. -/
def fieldNames : List String :=
  ["name", "description", "expression", "kpi_type", "divider", "decimals", "prefix", "suffix",
    "compare_method", "style_expression", "default_style", "sequence", "column_break",
    "column_title", "invisible"]

/-- The JSON form of a KPI. -/
def toJson (kpi : Kpi) : Json :=
  .object [("name", .text kpi.name), ("description", .text kpi.description),
    ("expression", .text kpi.expression), ("kpi_type", Json.ofChoice KpiType.names kpi.kpiType),
    ("divider", Json.ofChoice Divider.names kpi.divider), ("decimals", .integer kpi.decimals),
    ("prefix", Json.ofText? kpi.prefixText), ("suffix", Json.ofText? kpi.suffixText),
    ("compare_method", Json.ofChoice CompareMethod.names kpi.compareMethod),
    ("style_expression", Json.ofText? kpi.styleExpression),
    ("default_style", Json.ofText? kpi.defaultStyle), ("sequence", .integer kpi.sequence),
    ("column_break", .bool kpi.columnBreak), ("column_title", .bool kpi.columnTitle),
    ("invisible", .bool kpi.invisible)]

/-- Reads a KPI from its JSON form. -/
def ofJson? (json : Json) : Option Kpi := do
  let fields ← Json.fields? fieldNames json
  return {
    name := ← Json.required fields "name" Json.text?
    description := ← Json.withDefault fields "description" "" Json.text?
    expression := ← Json.required fields "expression" Json.text?
    kpiType := ← Json.withDefault fields "kpi_type" .numeric (Json.choice? KpiType.names)
    divider := ← Json.withDefault fields "divider" .unit (Json.choice? Divider.names)
    decimals := ← Json.withDefault fields "decimals" 0 Json.nat32?
    prefixText := ← Json.nullable fields "prefix" Json.text?
    suffixText := ← Json.nullable fields "suffix" Json.text?
    compareMethod :=
      ← Json.withDefault fields "compare_method" .percentage (Json.choice? CompareMethod.names)
    styleExpression := ← Json.nullable fields "style_expression" Json.text?
    defaultStyle := ← Json.nullable fields "default_style" Json.text?
    sequence := ← Json.withDefault fields "sequence" 100 Json.int32?
    columnBreak := ← Json.withDefault fields "column_break" false Json.bool?
    columnTitle := ← Json.withDefault fields "column_title" false Json.bool?
    invisible := ← Json.withDefault fields "invisible" false Json.bool? }

end Kpi

end KpiReport
