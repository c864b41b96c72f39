import KpiReport.Decimal.Fixed
import KpiReport.Decimal.Rounding
import KpiReport.Definition.Kpi
import KpiReport.Settings
import KpiReport.Value.Basic

/-!
# Displaying values

Numbers are rounded, cut into groups of digits, and written with the marks of a locale; KPIs add
their unit, and comparisons the sign of the change. A comparison that shows as no change is left
empty.
-/

namespace KpiReport

open KpiReport.Decimal

/-- The digits after the first group, in groups of `size`. -/
def digitGroups (size : Nat) (ds : List Char) : List (List Char) :=
  match ds with
  | [] => []
  | d :: rest =>
    (d :: rest).take (size + 1) :: digitGroups size ((d :: rest).drop (size + 1))
termination_by ds.length
decreasing_by simp only [List.length_drop, List.length_cons]; omega

/-- Cuts digits into groups from the right and joins the groups by a separator; a grouping of 0
keeps the digits together. -/
def groupDigits (separator : List Char) (grouping : Nat) (ds : List Char) : List Char :=
  match grouping with
  | 0 => ds
  | size + 1 =>
    let head := ds.length % (size + 1)
    let groups := digitGroups size (ds.drop head)
    let groups := if head = 0 then groups else ds.take head :: groups
    (groups.intersperse separator).flatten

/-- Writes a number with decimal places and the marks of a locale; `explicitSign` puts a plus sign
before numbers that are not negative. -/
def formatNumber (x : Float) (places : Nat) (locale : Locale) (explicitSign : Bool) : String :=
  let rounded := roundTo places x
  let parts := fixed places rounded
  let mark := if rounded < 0 then ['-'] else if explicitSign then ['+'] else []
  let whole := groupDigits locale.thousandsSeparator.toList locale.grouping parts.1
  let fraction :=
    match parts.2 with
    | some ds => locale.decimalPoint.toList ++ ds
    | none => []
  String.ofList (mark ++ whole ++ fraction)

/-- How a number is displayed: its unit and what stands around it. -/
structure NumberStyle where
  divider : Float
  label : String
  decimals : Nat
  before : String
  after : String

namespace NumberStyle

/-- The narrow space between what stands before a number and the number. -/
def narrowSpace : Char := '\u202f'

/-- The space between a number and its unit. -/
def hardSpace : Char := '\u00a0'

/-- The hyphen at which no line is broken. -/
def hardHyphen : Char := '\u2011'

/-- The display of a number; no line is broken inside it. -/
def render (style : NumberStyle) (x : Float) (locale : Locale) (explicitSign : Bool) : String :=
  let number := formatNumber (x / style.divider) style.decimals locale explicitSign
  let cs := style.before.toList ++ narrowSpace :: number.toList ++ hardSpace :: style.label.toList ++
    style.after.toList
  String.ofList (cs.map fun c => if c = '-' then hardHyphen else c)

/-- Whether a number shows as zero. -/
def isZero (style : NumberStyle) (x : Float) : Bool :=
  roundTo style.decimals (x / style.divider) == 0

/-- The style of a percentage or of percentage points. -/
def percent (decimals : Nat) (after : String) : NumberStyle :=
  { divider := 0.01, label := "", decimals := decimals, before := "", after := after }

/-- The display of a change, empty where it shows as zero. -/
def renderChange (style : NumberStyle) (change : Float) (locale : Locale) : String :=
  if style.isZero change then "" else style.render change locale true

end NumberStyle

namespace Kpi

/-- The style of the numbers of a KPI. -/
def style (kpi : Kpi) : NumberStyle :=
  { divider := kpi.divider.factor
    label := kpi.divider.label
    decimals := kpi.decimals
    before := kpi.prefixText.getD ""
    after := kpi.suffixText.getD "" }

/-- The display of a value; no data is empty. -/
def render (kpi : Kpi) (value : Value) (locale : Locale) : String :=
  match value with
  | .noData => ""
  | .number x =>
    match kpi.kpiType with
    | .numeric => kpi.style.render x locale false
    | .percentage => (NumberStyle.percent kpi.decimals "%").render x locale false
    | .text => shortest x
  | other => other.toText

/-- The display of the change from one number to another, each already normalized. -/
def renderNumericChange (kpi : Kpi) (value base : Float) (locale : Locale) : String :=
  match kpi.compareMethod with
  | .difference => kpi.style.renderChange (value - base) locale
  | .percentage =>
    if roundTo kpi.decimals base == 0 then ""
    else (NumberStyle.percent kpi.decimals "%").renderChange ((value - base) / base.abs) locale
  | .disabled => ""

/-- The display of the change from `base` to `value`, each divided by the factor of its period
first; empty unless both are numbers. -/
def renderComparison (kpi : Kpi) (value base : Value) (factor baseFactor : Nat) (locale : Locale) :
    String :=
  match value, base with
  | .number value, .number base =>
    match kpi.kpiType with
    | .percentage => (NumberStyle.percent kpi.decimals "pp").renderChange (value - base) locale
    | .numeric =>
      kpi.renderNumericChange (value / Float.ofNat (max factor 1))
        (base / Float.ofNat (max baseFactor 1)) locale
    | .text => ""
  | _, _ => ""

end Kpi

end KpiReport
