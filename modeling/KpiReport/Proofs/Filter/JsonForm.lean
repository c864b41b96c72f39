import KpiReport.Filter.Basic
import KpiReport.Proofs.Calendar.RoundTrip
import KpiReport.Proofs.Json.RoundTrip

/-!
# Filters and their JSON form

Texts, dates and points in time are all written as JSON texts, and a condition is told from a group
of alternatives by its fields alone. What is read back is the filter with each of its texts taken as
a date or a point in time where it is written as one (`Filter.ofJson?_toJson`). So a filter is read
back from its JSON form as it was if and only if it has no such text, and from a text if it is not
nested too deeply either (`Filter.ofText?_toText_eq_self_iff`).

How JSON values are written and read is left to the codec, of which it is assumed that it keeps
finite numbers, texts, lists and objects up to the greatest depth (`Json.Codec.Faithful`).
-/

namespace KpiReport

open KpiReport.Calendar KpiReport.Decimal

/-! ## Values -/

namespace FieldValue

mutual

/-- Whether `p` holds of a value, of each of its items if it is a list. -/
def Each (p : FieldValue → Prop) : FieldValue → Prop
  | list items => EachItem p items
  | value => p value

/-- Whether `p` holds of some values, a list among them being taken apart. -/
def EachItem (p : FieldValue → Prop) : List FieldValue → Prop
  | [] => True
  | item :: items => item.Each p ∧ EachItem p items

end

mutual

/-- The value with its texts as they are read. -/
def readTexts : FieldValue → FieldValue
  | text s => ofText s
  | list items => list (readItemTexts items)
  | value => value

/-- Some values with their texts as they are read. -/
def readItemTexts : List FieldValue → List FieldValue
  | [] => []
  | item :: items => item.readTexts :: readItemTexts items

end

/-- A number is finite. -/
def NumberFinite : FieldValue → Prop
  | number x => isFinite x = true
  | _ => True

/-- A text is neither written as a date nor as a point in time. -/
def Unmistakable : FieldValue → Prop
  | text s => Date.read? s = none ∧ DateTime.read? s = none
  | _ => True

theorem ofText_eq_text_iff (s : String) : ofText s = text s ↔ (text s).Unmistakable := by
  cases date : Date.read? s with
  | some d => simp [ofText, Unmistakable, date]
  | none =>
    cases time : DateTime.read? s with
    | some t => simp [ofText, Unmistakable, date, time]
    | none => simp [ofText, Unmistakable, date, time]

theorem ofText_date (d : Date) : ofText d.toText = date d := by
  rw [ofText, Date.read?_toText]

theorem ofText_dateTime (t : DateTime) : ofText t.toText = dateTime t := by
  rw [ofText, Date.read?_dateTime, DateTime.read?_toText]

mutual

/-- A value is read from its JSON form with its texts read. -/
theorem ofJson?_toJson (v : FieldValue) : ofJson? v.toJson = some v.readTexts := by
  cases v with
  | null => rfl
  | bool b => rfl
  | number x => rfl
  | date d => exact congrArg some (ofText_date d)
  | dateTime t => exact congrArg some (ofText_dateTime t)
  | text s => rfl
  | list items => exact congrArg (Option.map list) (itemsOfJson?_itemsToJson items)

theorem itemsOfJson?_itemsToJson (items : List FieldValue) :
    itemsOfJson? (itemsToJson items) = some (readItemTexts items) := by
  cases items with
  | nil => rfl
  | cons item items =>
    rw [itemsToJson, itemsOfJson?, ofJson?_toJson, itemsOfJson?_itemsToJson]
    rfl

end

mutual

theorem readTexts_eq_self_iff (v : FieldValue) : v.readTexts = v ↔ v.Each Unmistakable := by
  cases v with
  | text s => exact ofText_eq_text_iff s
  | list items => rw [readTexts, list.injEq, readItemTexts_eq_self_iff, Each]
  | _ => exact iff_of_true rfl trivial

theorem readItemTexts_eq_self_iff (items : List FieldValue) :
    readItemTexts items = items ↔ EachItem Unmistakable items := by
  cases items with
  | nil => exact iff_of_true rfl trivial
  | cons item items =>
    rw [readItemTexts, List.cons.injEq, readTexts_eq_self_iff, readItemTexts_eq_self_iff, EachItem]

end

mutual

theorem plain_toJson {v : FieldValue} (finite : v.Each NumberFinite) : v.toJson.Plain := by
  cases v with
  | number x => exact finite
  | list items => exact plainItems_itemsToJson finite
  | _ => trivial

theorem plainItems_itemsToJson {items : List FieldValue} (finite : EachItem NumberFinite items) :
    Json.PlainItems (itemsToJson items) := by
  cases items with
  | nil => trivial
  | cons item items => exact ⟨plain_toJson finite.1, plainItems_itemsToJson finite.2⟩

end

end FieldValue

/-! ## Conditions -/

namespace FilterOp

theorem choice?_ofChoice (op : FilterOp) :
    Json.choice? symbols (Json.ofChoice symbols op) = some op := by
  cases op <;> rfl

theorem plain_ofChoice (op : FilterOp) : (Json.ofChoice symbols op).Plain := by
  cases op <;> trivial

end FilterOp

mutual

/-- Whether `p` holds of the values that a condition compares with. -/
def Condition.Each (p : FieldValue → Prop) : Condition → Prop
  | .field _ _ value => value.Each p
  | .any alternatives => Filter.EachAlternative p alternatives

/-- Whether `p` holds of the values that the conditions of a filter compare with. -/
def Filter.Each (p : FieldValue → Prop) : List Condition → Prop
  | [] => True
  | condition :: conditions => condition.Each p ∧ Filter.Each p conditions

/-- Whether `p` holds of the values that the conditions of some filters compare with. -/
def Filter.EachAlternative (p : FieldValue → Prop) : List (List Condition) → Prop
  | [] => True
  | filter :: filters => Filter.Each p filter ∧ Filter.EachAlternative p filters

end

mutual

/-- The condition with its texts as they are read. -/
def Condition.readTexts : Condition → Condition
  | .field name op value => .field name op value.readTexts
  | .any alternatives => .any (Filter.readAlternativeTexts alternatives)

/-- The filter with its texts as they are read. -/
def Filter.readTexts : List Condition → List Condition
  | [] => []
  | condition :: conditions => condition.readTexts :: Filter.readTexts conditions

/-- Some filters with their texts as they are read. -/
def Filter.readAlternativeTexts : List (List Condition) → List (List Condition)
  | [] => []
  | filter :: filters => Filter.readTexts filter :: Filter.readAlternativeTexts filters

end

namespace Filter

open FieldValue (NumberFinite Unmistakable)

/-- A condition with a field, an operator and a value is read as a comparison. -/
theorem conditionOfJson?_field (name : String) (op : FilterOp) {j : Json} {value : FieldValue}
    (read : FieldValue.ofJson? j = some value) :
    conditionOfJson? (.object [("field", .text name), ("op", Json.ofChoice FilterOp.symbols op),
      ("value", j)]) = some (.field name op value) := by
  have comparison : fieldConditionOfJson? [("field", .text name),
      ("op", Json.ofChoice FilterOp.symbols op), ("value", j)] = some (.field name op value) := by
    have first : Json.required [("field", .text name), ("op", Json.ofChoice FilterOp.symbols op),
      ("value", j)] "field" Json.text? = some name := rfl
    have second : Json.required [("field", .text name), ("op", Json.ofChoice FilterOp.symbols op),
      ("value", j)] "op" (Json.choice? FilterOp.symbols) = some op := op.choice?_ofChoice
    have third : Json.required [("field", .text name), ("op", Json.ofChoice FilterOp.symbols op),
      ("value", j)] "value" FieldValue.ofJson? = some value := read
    rw [fieldConditionOfJson?, first, second, third]
    rfl
  rw [conditionOfJson?, comparison]

/-- A group of alternatives has no field to compare, so it is read as alternatives. -/
theorem conditionOfJson?_any (filters : List Json) :
    conditionOfJson? (.object [("any", .list filters)]) =
      (alternativesOfJson? filters).map .any := by
  have other : fieldConditionOfJson? [("any", .list filters)] = none := rfl
  rw [conditionOfJson?, other]
  dsimp only
  rw [alternativesOfFields?, if_pos rfl]

mutual

theorem conditionOfJson?_conditionToJson (condition : Condition) :
    conditionOfJson? (conditionToJson condition) = some condition.readTexts := by
  cases condition with
  | field name op value =>
    rw [conditionToJson, conditionOfJson?_field name op value.ofJson?_toJson, Condition.readTexts]
  | any alternatives =>
    rw [conditionToJson, conditionOfJson?_any, alternativesOfJson?_alternativesToJson]
    rfl

theorem conditionsOfJson?_conditionsToJson (conditions : List Condition) :
    conditionsOfJson? (conditionsToJson conditions) = some (readTexts conditions) := by
  cases conditions with
  | nil => rfl
  | cons condition conditions =>
    rw [conditionsToJson, conditionsOfJson?, conditionOfJson?_conditionToJson,
      conditionsOfJson?_conditionsToJson]
    rfl

theorem alternativesOfJson?_alternativesToJson (filters : List (List Condition)) :
    alternativesOfJson? (alternativesToJson filters) = some (readAlternativeTexts filters) := by
  cases filters with
  | nil => rfl
  | cons filter filters =>
    rw [alternativesToJson, alternativesOfJson?, conditionsOfJson?_conditionsToJson,
      alternativesOfJson?_alternativesToJson]
    rfl

end

mutual

theorem condition_readTexts_eq_self_iff (condition : Condition) :
    condition.readTexts = condition ↔ condition.Each Unmistakable := by
  cases condition with
  | field name op value =>
    rw [Condition.readTexts, Condition.field.injEq, FieldValue.readTexts_eq_self_iff,
      Condition.Each]
    exact ⟨fun same => same.2.2, fun plain => ⟨rfl, rfl, plain⟩⟩
  | any alternatives =>
    rw [Condition.readTexts, Condition.any.injEq, readAlternativeTexts_eq_self_iff, Condition.Each]

/-- Reading its texts leaves a filter as it is if and only if none of them is mistaken. -/
theorem readTexts_eq_self_iff (conditions : List Condition) :
    readTexts conditions = conditions ↔ Filter.Each Unmistakable conditions := by
  cases conditions with
  | nil => exact iff_of_true rfl trivial
  | cons condition conditions =>
    rw [readTexts, List.cons.injEq, condition_readTexts_eq_self_iff, readTexts_eq_self_iff,
      Filter.Each]

theorem readAlternativeTexts_eq_self_iff (filters : List (List Condition)) :
    readAlternativeTexts filters = filters ↔ EachAlternative Unmistakable filters := by
  cases filters with
  | nil => exact iff_of_true rfl trivial
  | cons filter filters =>
    rw [readAlternativeTexts, List.cons.injEq, readTexts_eq_self_iff,
      readAlternativeTexts_eq_self_iff, EachAlternative]

end

mutual

theorem plain_conditionToJson {condition : Condition} (finite : condition.Each NumberFinite) :
    (conditionToJson condition).Plain := by
  cases condition with
  | field name op value =>
    have names : ["field", "op", "value"].Nodup := by decide
    exact ⟨names, trivial, op.plain_ofChoice, FieldValue.plain_toJson finite, trivial⟩
  | any alternatives =>
    have names : ["any"].Nodup := by decide
    exact ⟨names, plainItems_alternativesToJson finite, trivial⟩

theorem plainItems_conditionsToJson {conditions : List Condition}
    (finite : Filter.Each NumberFinite conditions) :
    Json.PlainItems (conditionsToJson conditions) := by
  cases conditions with
  | nil => trivial
  | cons condition conditions =>
    exact ⟨plain_conditionToJson finite.1, plainItems_conditionsToJson finite.2⟩

theorem plainItems_alternativesToJson {filters : List (List Condition)}
    (finite : EachAlternative NumberFinite filters) :
    Json.PlainItems (alternativesToJson filters) := by
  cases filters with
  | nil => trivial
  | cons filter filters =>
    exact ⟨plainItems_conditionsToJson finite.1, plainItems_alternativesToJson finite.2⟩

end

/-! ## Filters -/

/-- A filter is read from its JSON form with its texts read. -/
theorem ofJson?_toJson (filter : Filter) : ofJson? filter.toJson = some (readTexts filter) :=
  conditionsOfJson?_conditionsToJson filter

theorem ofJson?_toJson_eq_self_iff (filter : Filter) :
    ofJson? filter.toJson = some filter ↔ Each Unmistakable filter := by
  rw [ofJson?_toJson, Option.some.injEq, readTexts_eq_self_iff]

section Codec

variable {codec : Json.Codec} (faithful : codec.Faithful) {filter : Filter}
  (finite : Each NumberFinite filter)

include faithful finite

theorem ofText?_toText_of_le (shallow : filter.toJson.depth ≤ Json.deepest) :
    ofText? codec (toText codec filter) = ofJson? filter.toJson := by
  have plain : filter.toJson.Plain := plainItems_conditionsToJson finite
  rw [ofText?, toText, faithful.read?_print _ plain shallow, Option.bind_some]

theorem ofText?_toText_of_lt (deep : Json.deepest < filter.toJson.depth) :
    ofText? codec (toText codec filter) = none := by
  have plain : filter.toJson.Plain := plainItems_conditionsToJson finite
  rw [ofText?, toText, faithful.read?_deeper _ plain deep, Option.bind_none]

/-- **A filter is read back from its JSON form as it was if and only if no text in it is written as
a date or a point in time, and from a text if and only if it is not nested too deeply either.** -/
theorem ofText?_toText_eq_self_iff :
    (ofJson? filter.toJson = some filter ↔ Each Unmistakable filter) ∧
      (ofText? codec (toText codec filter) = some filter ↔
        Each Unmistakable filter ∧ filter.toJson.depth ≤ Json.deepest) := by
  refine ⟨ofJson?_toJson_eq_self_iff filter, ?_⟩
  rcases Nat.lt_or_ge Json.deepest filter.toJson.depth with deep | shallow
  · rw [ofText?_toText_of_lt faithful finite deep]
    exact ⟨nofun, fun both => absurd both.2 (Nat.not_le.2 deep)⟩
  · rw [ofText?_toText_of_le faithful finite shallow, ofJson?_toJson_eq_self_iff]
    exact ⟨fun plain => ⟨plain, shallow⟩, fun both => both.1⟩

end Codec

/-! ## A filter of every kind of value -/

namespace Posted

/-- 14 March 2024. -/
def day : Date :=
  ⟨738959, by decide, by decide⟩

/-- A filter with groups in a group, lists in a list, a text with marks and a leap second. -/
def filter : Filter :=
  [.field "amount" .gt (.number (-0.5)),
    .any [[.field "date" .ge (.date day),
        .field "state" .memberOf (.list [.text "a\"\n\\2024-", .list [.number 10, .null]])],
      [.any [[], [.field "at" .ne (.dateTime ⟨day, 86399, 1001500000, by decide, by decide⟩)]],
        .field "open" .notMemberOf (.list [.bool true])]]]

end Posted

/-- A filter of every kind of value is written to a text and read from it as it was. -/
theorem ofText?_toText_posted :
    Json.codec.Faithful ∧ Each NumberFinite Posted.filter ∧ Each Unmistakable Posted.filter ∧
      ofText? Json.codec (toText Json.codec Posted.filter) = some Posted.filter := by
  have finite : Each NumberFinite Posted.filter := by
    have half : isFinite (-0.5) = true := by decide +kernel
    have ten : isFinite 10 = true := by decide +kernel
    simp [Posted.filter, Each, EachAlternative, Condition.Each, FieldValue.Each,
      FieldValue.EachItem, NumberFinite, half, ten]
  have text : Date.read? "a\"\n\\2024-" = none ∧ DateTime.read? "a\"\n\\2024-" = none := by
    decide
  have plain : Each Unmistakable Posted.filter := by
    simp [Posted.filter, Each, EachAlternative, Condition.Each, FieldValue.Each,
      FieldValue.EachItem, Unmistakable, text]
  have shallow : (toJson Posted.filter).depth ≤ Json.deepest := by decide
  exact ⟨Json.faithful_codec, finite, plain,
    (ofText?_toText_eq_self_iff Json.faithful_codec finite).2.2 ⟨plain, shallow⟩⟩

/-! ## Filters that are not read back -/

/-- The filter with one comparison of the day. -/
def Posted.on (value : FieldValue) : Filter :=
  [.field "day" .eq value]

/-- A filter of groups inside one another. -/
def nested : ℕ → Filter
  | 0 => []
  | count + 1 => [.any [nested count]]

/-- A group nests the filter in it by three levels more. -/
theorem depth_nested (count : ℕ) : (nested count).toJson.depth = 3 * count + 1 := by
  induction count with
  | zero => rfl
  | succ count ih =>
    have written : (nested (count + 1)).toJson =
        .list [.object [("any", .list [(nested count).toJson])]] := rfl
    rw [written]
    simp only [Json.depth, Json.itemsDepth, Json.fieldsDepth, ih]
    omega

theorem each_nested (p : FieldValue → Prop) (count : ℕ) : Each p (nested count) := by
  induction count with
  | zero => trivial
  | succ count ih => exact ⟨⟨ih, trivial⟩, trivial⟩

/-- A text that is written as a date comes back as that date, and no record that has the text is
selected any more; and of groups inside one another, forty-three are too many for a text. -/
theorem ofText?_toText_dateText :
    Each NumberFinite (Posted.on (.text "2024-03-14")) ∧
      ofText? Json.codec (toText Json.codec (Posted.on (.text "2024-03-14"))) =
        some (Posted.on (.date Posted.day)) ∧
      Posted.on (.date Posted.day) ≠ Posted.on (.text "2024-03-14") ∧
      Filter.matches (fun _ => .text "2024-03-14") (Posted.on (.text "2024-03-14")) = true ∧
      Filter.matches (fun _ => .text "2024-03-14") (Posted.on (.date Posted.day)) = false ∧
      Each NumberFinite (nested 43) ∧ ofText? Json.codec (toText Json.codec (nested 43)) = none := by
  have finite : Each NumberFinite (Posted.on (.text "2024-03-14")) := ⟨trivial, trivial⟩
  have date : FieldValue.ofText "2024-03-14" = .date Posted.day := by rfl
  have read : readTexts (Posted.on (.text "2024-03-14")) = Posted.on (.date Posted.day) := by
    rw [Posted.on, readTexts, Condition.readTexts, FieldValue.readTexts, date]
    rfl
  have other : Posted.on (.date Posted.day) ≠ Posted.on (.text "2024-03-14") := by
    simp [Posted.on]
  have shallow : (toJson (Posted.on (.text "2024-03-14"))).depth ≤ Json.deepest := by decide
  have deep : Json.deepest < (toJson (nested 43)).depth := by
    rw [depth_nested]
    decide
  rw [ofText?_toText_of_le Json.faithful_codec finite shallow, ofJson?_toJson, read]
  exact ⟨finite, rfl, other, by decide, by decide, each_nested _ 43,
    ofText?_toText_of_lt Json.faithful_codec (each_nested _ 43) deep⟩

end Filter

end KpiReport
