import KpiReport.Calendar.Pattern
import KpiReport.Error
import KpiReport.Json.Fields
import KpiReport.Json.Reader

/-!
# Settings

How numbers and dates are written for a reader, and the distance of local time from universal time.
-/

namespace KpiReport

open KpiReport.Calendar

/-- The conventions of a language. -/
structure Locale where
  code : String := "en_US"
  decimalPoint : String := "."
  thousandsSeparator : String := ","
  /-- The number of digits between separators; 0 for none. -/
  grouping : Nat := 3
  /-- The pattern of dates in column headers. -/
  dateFormat : String := "%m/%d/%Y"
  deriving DecidableEq, Repr

/-- The settings of a computation. -/
structure Settings where
  locale : Locale := {}
  utcOffsetMinutes : Int := 0
  deriving DecidableEq, Repr

namespace Locale

/-- The JSON form of a locale. -/
def toJson (locale : Locale) : Json :=
  .object [("code", .text locale.code), ("decimal_point", .text locale.decimalPoint),
    ("thousands_separator", .text locale.thousandsSeparator),
    ("grouping", .integer locale.grouping), ("date_format", .text locale.dateFormat)]

/-- Reads a locale from its JSON form. -/
def ofJson? (json : Json) : Option Locale := do
  let fields ← Json.fields?
    ["code", "decimal_point", "thousands_separator", "grouping", "date_format"] json
  let default : Locale := {}
  return {
    code := ← Json.withDefault fields "code" default.code Json.text?
    decimalPoint := ← Json.withDefault fields "decimal_point" default.decimalPoint Json.text?
    thousandsSeparator :=
      ← Json.withDefault fields "thousands_separator" default.thousandsSeparator Json.text?
    grouping := ← Json.withDefault fields "grouping" default.grouping Json.nat64?
    dateFormat := ← Json.withDefault fields "date_format" default.dateFormat Json.text? }

end Locale

/-- Reads a date pattern. -/
def readPattern (text : String) : Result Pattern :=
  Result.ofOption (.date (.invalidPattern text)) (Pattern.read? text)

/-- Writes a date after a pattern. -/
def formatDate (date : Date) (text : String) : Result String :=
  match readPattern text with
  | .error e => .error e
  | .ok pattern => Result.ofOption (.date (.invalidPattern text)) (pattern.write? date)

/-- The distance of local time from universal time. -/
def utcOffset (minutes : Int) : Result UtcOffset :=
  Result.ofOption (.date (.invalidOffset minutes)) (UtcOffset.ofMinutes? minutes)

namespace Settings

/-- The JSON form of settings. -/
def toJson (settings : Settings) : Json :=
  .object [("locale", settings.locale.toJson),
    ("utc_offset_minutes", .integer settings.utcOffsetMinutes)]

/-- Reads settings from their JSON form. -/
def ofJson? (json : Json) : Option Settings := do
  let fields ← Json.fields? ["locale", "utc_offset_minutes"] json
  return {
    locale := ← Json.withDefault fields "locale" {} Locale.ofJson?
    utcOffsetMinutes := ← Json.withDefault fields "utc_offset_minutes" 0 Json.int32? }

/-- Reads settings from a JSON text and checks them. -/
def ofText (text : String) : Result Settings := do
  let settings ← Result.ofOption .unreadable ((Json.read? text).bind ofJson?)
  let _ ← utcOffset settings.utcOffsetMinutes
  let _ ← readPattern settings.locale.dateFormat
  return settings

end Settings

end KpiReport
