import KpiReport.Proofs.Filter.Same
import KpiReport.Proofs.Results
import KpiReport.Proofs.Runs
import KpiReport.Store.Fetch
import KpiReport.Store.Tables

/-!
# Sums by the store and sums of the records

Where all fields of a query are stored, their sums are left to the store; otherwise the records are
read and summed. The two start their sums at different zeros and sort values out differently: what
the store sums are numbers alone, and a field that holds anything else has no sum there, while truth
counts as one among records that are read. So tables that differ only in which fields are stored
give the same record, except for a field that holds a truth value (`Query.fetch_sum_agrees`).
-/

namespace KpiReport

open KpiReport.Calendar

/-! ## Sums that start at different zeros -/

section Numbers

open Float.Model (UnpackedFloat)

/-- The numbers are identical, or both are zero. -/
def SameNumber (x y : Float) : Prop :=
  x = y ∨ ∃ s t, x.toModel.unpack = .zero s ∧ y.toModel.unpack = .zero t

variable {x y z : Float}

theorem unpack_add_of_zeros {s t : UnpackedFloat.Sign} (hx : x.toModel.unpack = .zero s)
    (hz : z.toModel.unpack = .zero t) : ∃ u, (x + z).toModel.unpack = .zero u := by
  change ∃ u, (Float.Model.pack
    (UnpackedFloat.add .binary64 x.toModel.unpack z.toModel.unpack)).unpack = .zero u
  rw [hx, hz]
  cases s <;> cases t <;> exact ⟨_, rfl⟩

/-- A zero, whatever its sign, does not change a number that is not zero. -/
theorem zero_add_eq_zero_add {s t : UnpackedFloat.Sign} (hx : x.toModel.unpack = .zero s)
    (hy : y.toModel.unpack = .zero t) (other : ∀ u, z.toModel.unpack ≠ .zero u) :
    x + z = y + z := by
  change Float.ofModel (Float.Model.pack (UnpackedFloat.add .binary64 x.toModel.unpack
    z.toModel.unpack)) = Float.ofModel (Float.Model.pack (UnpackedFloat.add .binary64
      y.toModel.unpack z.toModel.unpack))
  rw [hx, hy]
  cases unpacked : z.toModel.unpack with
  | zero u => exact absurd unpacked (other u)
  | _ => rfl

theorem SameNumber.add_right (h : SameNumber x y) (z : Float) : SameNumber (x + z) (y + z) := by
  obtain rfl | ⟨s, t, hx, hy⟩ := h
  · exact .inl rfl
  by_cases zero : ∃ u, z.toModel.unpack = .zero u
  · obtain ⟨u, hz⟩ := zero
    obtain ⟨s', left⟩ := unpack_add_of_zeros hx hz
    obtain ⟨t', right⟩ := unpack_add_of_zeros hy hz
    exact .inr ⟨s', t', left, right⟩
  · exact .inl (zero_add_eq_zero_add hx hy (not_exists.1 zero))

theorem SameNumber.foldl_add (h : SameNumber x y) (zs : List Float) :
    SameNumber (zs.foldl (· + ·) x) (zs.foldl (· + ·) y) := by
  induction zs generalizing x y with
  | nil => exact h
  | cons z zs ih => exact ih (h.add_right z)

theorem sameNumber_zeros : SameNumber 0 (-0.0) :=
  .inr ⟨.positive, .negative, rfl, rfl⟩

theorem SameNumber.eq_or_beq (h : SameNumber x y) : x = y ∨ (x == y) = true := by
  obtain rfl | ⟨s, t, hx, hy⟩ := h
  · exact .inl rfl
  · refine .inr ?_
    change (x.toModel.unpack.compare y.toModel.unpack == some .eq) = true
    rw [hx, hy]
    rfl

end Numbers

/-! ## Values that agree -/

/-- The values are identical, or numbers that compare as equal. -/
def Value.Agrees (v w : Value) : Prop :=
  v = w ∨ ∃ x y, v = .number x ∧ w = .number y ∧ (x == y) = true

theorem SameNumber.agrees {x y : Float} (h : SameNumber x y) :
    (Value.number x).Agrees (.number y) := by
  obtain rfl | equal := h.eq_or_beq
  · exact .inl rfl
  · exact .inr ⟨x, y, rfl, rfl, equal⟩

theorem beq_symm {x y : Float} (h : (x == y) = true) : (y == x) = true := by
  have compared := compare_of_beq h
  change (y.toModel.unpack.compare x.toModel.unpack == some .eq) = true
  rw [beq_iff_eq]
  rcases eq_or_zero_of_compare compared with same | ⟨s, t, hx, hy⟩
  · rwa [same] at compared ⊢
  · rw [hx, hy]
    rfl

theorem Value.Agrees.symm {v w : Value} (h : v.Agrees w) : w.Agrees v := by
  obtain rfl | ⟨x, y, rfl, rfl, equal⟩ := h
  · exact .inl rfl
  · exact .inr ⟨y, x, rfl, rfl, beq_symm equal⟩

/-! ## Tables of entries made alike -/

namespace Table

variable {α β : Type}

theorem lookup_eq_of_mem {f : String → Option α} {entries : List (String × α)} {name : String}
    (each : ∀ entry ∈ entries, f entry.1 = some entry.2)
    (all : ∀ v, f name = some v → (name, v) ∈ entries) : List.lookup name entries = f name := by
  cases given : f name with
  | none =>
    rw [List.lookup_eq_none_iff]
    intro entry member
    rw [bne_iff_ne]
    rintro rfl
    rw [each entry member] at given
    cases given
  | some v =>
    have found : (List.lookup name entries).isSome = true :=
      List.lookup_isSome_iff.2 ⟨_, all v given, beq_self_eq_true name⟩
    obtain ⟨w, stored⟩ := Option.isSome_iff_exists.1 found
    rw [stored, ← given, ← each _ (mem_of_get? stored)]

/-- In the table of the values of some names, a name has its value. -/
theorem get?_ofEntries_filterMap (f : String → Option α) {names : List String} {name : String}
    (member : name ∈ names) :
    (ofEntries (names.filterMap fun n => (f n).map fun v => (n, v))).get? name = f name := by
  rw [get?_ofEntries]
  apply lookup_eq_of_mem
  · intro entry inside
    obtain ⟨n, -, made⟩ := List.mem_filterMap.1 (List.mem_reverse.1 inside)
    obtain ⟨v, given, rfl⟩ := Option.map_eq_some_iff.1 made
    exact given
  · intro v given
    refine List.mem_reverse.2 (List.mem_filterMap.2 ⟨name, member, ?_⟩)
    rw [given, Option.map_some]

theorem forall₂_insert {R : String → α → β → Prop} {xs : Table α} {ys : Table β}
    (h : List.Forall₂ (fun p q => p.1 = q.1 ∧ R p.1 p.2 q.2) xs ys) {name : String} {v : α} {w : β}
    (related : R name v w) :
    List.Forall₂ (fun p q => p.1 = q.1 ∧ R p.1 p.2 q.2) (xs.insert name v) (ys.insert name w) := by
  induction h with
  | nil => exact .cons ⟨rfl, related⟩ .nil
  | cons first rest ih =>
    rename_i p q xs ys
    obtain ⟨m, a⟩ := p
    obtain ⟨n, b⟩ := q
    obtain ⟨rfl, same⟩ := first
    unfold insert
    dsimp only
    split_ifs
    · exact .cons ⟨rfl, related⟩ (.cons ⟨rfl, same⟩ rest)
    · exact .cons ⟨rfl, related⟩ rest
    · exact .cons ⟨rfl, same⟩ ih

theorem forall₂_ofEntries {R : String → α → β → Prop} {xs : List (String × α)}
    {ys : List (String × β)} (h : List.Forall₂ (fun p q => p.1 = q.1 ∧ R p.1 p.2 q.2) xs ys) :
    List.Forall₂ (fun p q => p.1 = q.1 ∧ R p.1 p.2 q.2) (ofEntries xs) (ofEntries ys) := by
  have all : ∀ (table : Table α) (table' : Table β),
      List.Forall₂ (fun p q => p.1 = q.1 ∧ R p.1 p.2 q.2) table table' →
      List.Forall₂ (fun p q => p.1 = q.1 ∧ R p.1 p.2 q.2)
        (xs.foldl (fun table entry => Table.insert table entry.1 entry.2) table)
        (ys.foldl (fun table entry => Table.insert table entry.1 entry.2) table') := by
    induction h with
    | nil => exact fun _ _ tables => tables
    | cons first _ ih =>
      intro table table' tables
      obtain ⟨same, related⟩ := first
      rw [List.foldl_cons, List.foldl_cons, ← same]
      exact ih _ _ (forall₂_insert tables related)
  exact all [] [] .nil

end Table

/-! ## The sum of a field -/

namespace FieldValue

/-- What can be summed: numbers, truth values, and nothing. -/
def Addable : FieldValue → Prop
  | null | number _ | bool _ => True
  | _ => False

end FieldValue

theorem Aggregate.numbers_of_addable (aggregate : Aggregate) {column : List FieldValue}
    (addable : ∀ v ∈ column, v.Addable) : aggregate.numbers (column.map FieldValue.toValue) =
      .ok (column.filterMap fun v => v.toValue.toFloat?) := by
  induction column with
  | nil => rfl
  | cons v column ih =>
    obtain ⟨first, rest⟩ := List.forall_mem_cons.1 addable
    cases v with
    | null => exact ih rest
    | number x | bool x =>
      rw [List.map_cons, FieldValue.toValue, Aggregate.numbers, ih rest]
      rfl
    | _ => cases first

/-- The sum of the numbers among some values, where truth counts as one; no data without a
number. -/
def sumOfColumn (column : List FieldValue) : Value :=
  match column.filterMap fun v => v.toValue.toFloat? with
  | [] => .noData
  | x :: xs => .number (Aggregate.total (x :: xs))

theorem Aggregate.apply_sum_of_addable {column : List FieldValue}
    (addable : ∀ v ∈ column, v.Addable) :
    Aggregate.sum.apply (column.map FieldValue.toValue) = .ok (sumOfColumn column) := by
  rw [Aggregate.apply, Aggregate.numbers_of_addable _ addable]
  unfold sumOfColumn
  cases column.filterMap fun v => v.toValue.toFloat? <;> rfl

namespace RecordTables

/-- What formulas see of the sum of a field that the store gives. -/
def storedSum (records : List Record) (field : String) : Value :=
  ((sumOf? field records).map FieldValue.toValue).getD .noData

variable {records : List Record} {field : String}

/-- A field that holds a truth value has no sum in the store. -/
theorem storedSum_of_bool {record : Record} {b : Bool} (member : record ∈ records)
    (holds : record.field field = .bool b) : storedSum records field = .noData := by
  have mixed : sumOf? field records = none := by
    unfold sumOf?
    refine if_neg fun all => ?_
    have this := List.all_eq_true.1 all _ (List.mem_map.2 ⟨record, member, holds⟩)
    cases this
  rw [storedSum, mixed]
  rfl

/-- A field that holds numbers alone has the same sum in the store as among the records. -/
theorem storedSum_agrees (addable : ∀ record ∈ records, (record.field field).Addable)
    (numeric : ∀ record ∈ records, ∀ b, record.field field ≠ .bool b) :
    (storedSum records field).Agrees
      (sumOfColumn (records.map fun record => record.field field)) := by
  have each : ∀ v ∈ records.map (fun record => record.field field),
      v = .null ∨ ∃ x, v = .number x := by
    intro v member
    obtain ⟨record, inside, rfl⟩ := List.mem_map.1 member
    have addable := addable record inside
    have numeric := numeric record inside
    cases holds : record.field field with
    | null => exact .inl rfl
    | number x => exact .inr ⟨x, rfl⟩
    | bool b => exact absurd holds (numeric b)
    | _ =>
      rw [holds] at addable
      cases addable
  have numbers : (records.map fun record => record.field field).filterMap FieldValue.toFloat? =
      (records.map fun record => record.field field).filterMap fun v => v.toValue.toFloat? := by
    refine List.filterMap_congr fun v member => ?_
    obtain rfl | ⟨x, rfl⟩ := each v member <;> rfl
  unfold storedSum sumOf? sumOfColumn
  dsimp only
  rw [if_pos, numbers]
  · cases (records.map fun record => record.field field).filterMap
      fun v => v.toValue.toFloat? with
    | nil => exact .inl rfl
    | cons x xs => exact (sameNumber_zeros.foldl_add (x :: xs)).agrees
  · refine List.all_eq_true.2 fun v member => ?_
    obtain rfl | ⟨x, rfl⟩ := each v member <;> rfl

end RecordTables

/-! ## Tables that differ in which fields are stored -/

namespace RecordTables

/-- The tables have the same records, and fields of the same kinds. -/
structure Alike (a b : RecordTables) : Prop where
  records : ∀ model,
    (a.models.get? model).map Model.records = (b.models.get? model).map Model.records
  kinds : ∀ model field,
    (a.fieldInfo model field).map FieldInfo.kind = (b.fieldInfo model field).map FieldInfo.kind

variable {a b : RecordTables}

theorem matching_eq_map (tables : RecordTables) (model : String) (filter : Filter) :
    tables.matching model filter =
      (Result.ofOption (.source (.unknownModel model))
        ((tables.models.get? model).map Model.records)).map
          (List.filter fun record => Filter.matches record.field filter) := by
  unfold matching RecordTables.model
  cases tables.models.get? model <;> rfl

theorem Alike.matching_eq (h : a.Alike b) (model : String) (filter : Filter) :
    a.matching model filter = b.matching model filter := by
  rw [matching_eq_map, matching_eq_map, h.records]

/-- The tables know the same fields. -/
theorem Alike.fieldInfo (h : a.Alike b) (model field : String) :
    (∃ e, a.fieldInfo model field = .error e ∧ b.fieldInfo model field = .error e) ∨
      ∃ info info', a.fieldInfo model field = .ok info ∧ b.fieldInfo model field = .ok info' ∧
        info.kind = info'.kind := by
  have same := h.kinds model field
  cases left : a.fieldInfo model field with
  | error e =>
    cases right : b.fieldInfo model field with
    | error e' =>
      rw [left, right] at same
      cases same
      exact .inl ⟨e, rfl, rfl⟩
    | ok info' =>
      rw [left, right] at same
      cases same
  | ok info =>
    cases right : b.fieldInfo model field with
    | error e' =>
      rw [left, right] at same
      cases same
    | ok info' =>
      rw [left, right] at same
      exact .inr ⟨info, info', rfl, rfl, Except.ok.inj same⟩

end RecordTables

namespace Query

open RecordTables

section Fetch

variable {a b : RecordTables} {query : Query} {offset : UtcOffset} {bounds : Bounds}
  {extra : Option Filter} {filter : Filter}

theorem boundedFilter_of_alike (alike : a.Alike b) :
    query.boundedFilter a.store offset bounds extra =
      query.boundedFilter b.store offset bounds extra := by
  unfold boundedFilter RecordTables.store
  dsimp only
  rcases alike.fieldInfo query.model query.dateField with
    ⟨e, left, right⟩ | ⟨info, info', left, right, kind⟩
  · rw [left, right]
  · rw [left, right]
    dsimp only
    rw [kind]

/-- Either the tables miss the same field of a query, or they know all of them. -/
theorem allStored_of_alike (alike : a.Alike b) (model : String) (fields : List String) :
    (∃ e, allStored a.store model fields = .error e ∧ allStored b.store model fields = .error e ∧
        ∃ field ∈ fields, a.fieldInfo model field = .error e) ∨
      ∃ p q, allStored a.store model fields = .ok p ∧ allStored b.store model fields = .ok q := by
  induction fields with
  | nil => exact .inr ⟨_, _, rfl, rfl⟩
  | cons field fields ih =>
    rw [allStored, allStored, show a.store.fieldInfo = a.fieldInfo from rfl,
      show b.store.fieldInfo = b.fieldInfo from rfl]
    rcases alike.fieldInfo model field with ⟨e, left, right⟩ | ⟨info, info', left, right, -⟩
    · rw [left, right]
      exact .inl ⟨e, rfl, rfl, field, List.mem_cons_self, left⟩
    · rw [left, right]
      dsimp only
      rcases ih with ⟨e, failed, failed', missed, member, unknown⟩ | ⟨p, q, known, known'⟩
      · rw [failed, failed']
        exact .inl ⟨e, rfl, rfl, missed, List.mem_cons_of_mem _ member, unknown⟩
      · rw [known, known']
        exact .inr ⟨info.stored && p, info'.stored && q, rfl, rfl⟩

/-- The sum of a field, by the store or of the records. -/
def sumBy (stored : Bool) (records : List Record) (field : String) : Value :=
  if stored then storedSum records field
  else sumOfColumn (records.map fun record => record.field field)

/-- The sums of a field over some records agree; or the field holds a truth value in some record,
and one of them is no data and the other the sum in which truth counts. -/
def SumsAgree (records : List Record) (field : String) (v w : Value) : Prop :=
  v.Agrees w ∨ (∃ record ∈ records, ∃ t, record.field field = .bool t) ∧
    (v = .noData ∧ w = sumOfColumn (records.map fun record => record.field field) ∨
      w = .noData ∧ v = sumOfColumn (records.map fun record => record.field field))

theorem sumBy_agrees {records : List Record} {field : String}
    (addable : ∀ record ∈ records, (record.field field).Addable) (p q : Bool) :
    SumsAgree records field (sumBy p records field) (sumBy q records field) := by
  by_cases truth : ∃ record ∈ records, ∃ t, record.field field = .bool t
  · obtain ⟨record, member, t, holds⟩ := truth
    have none : sumBy true records field = .noData := storedSum_of_bool member holds
    cases p <;> cases q
    · exact .inl (.inl rfl)
    · exact .inr ⟨⟨record, member, t, holds⟩, .inr ⟨none, rfl⟩⟩
    · exact .inr ⟨⟨record, member, t, holds⟩, .inl ⟨none, rfl⟩⟩
    · exact .inl (.inl rfl)
  · have numeric : ∀ record ∈ records, ∀ t, record.field field ≠ .bool t :=
      fun record member t holds => truth ⟨record, member, t, holds⟩
    have agrees : (sumBy true records field).Agrees (sumBy false records field) :=
      storedSum_agrees addable numeric
    refine .inl ?_
    cases p <;> cases q
    · exact .inl rfl
    · exact agrees.symm
    · exact agrees
    · exact .inl rfl

/-- Where the filter of a query can be built, the model of the query is known. -/
theorem matching_of_boundedFilter
    (built : query.boundedFilter a.store offset bounds extra = .ok filter) :
    ∃ records, a.matching query.model filter = .ok records := by
  unfold boundedFilter RecordTables.store at built
  dsimp only at built
  split at built
  · cases built
  · rename_i info known
    unfold RecordTables.fieldInfo at known
    split at known
    · cases known
    · rename_i m found
      exact ⟨_, map_eq_ok.2 ⟨m, found, rfl⟩⟩

theorem sumValue_gives {records : List Record} {fields : List String} {field : String}
    (member : field ∈ fields) (count : Nat) :
    (query.sumValue ⟨count, sums fields records⟩ field).Gives (storedSum records field) := by
  have found : (sums fields records).get? field = sumOf? field records :=
    Table.get?_ofEntries_filterMap (fun field => sumOf? field records) member
  unfold sumValue storedSum
  dsimp only
  rw [found]
  cases sumOf? field records with
  | some sum => exact .pure _
  | none => exact (Traced.Gives.log _ _).bind (.pure _)

theorem field_project {record : Record} {fields : List String} {field : String}
    (member : field ∈ fields) : (project record fields).field field = record.field field := by
  have found := Table.get?_ofEntries_filterMap (fun field => some (record.field field)) member
  simp only [Option.map_some, List.filterMap_eq_map'] at found
  rw [Record.field, project, found]
  rfl

theorem aggregateValue_sum {records : List Record} {fields : List String} {field : String}
    (member : field ∈ fields) (addable : ∀ record ∈ records, (record.field field).Addable) :
    query.aggregateValue .sum (records.map fun record => project record fields) field =
      .ok (sumOfColumn (records.map fun record => record.field field)) := by
  have column : ((records.map fun record => project record fields).map fun record =>
      (record.field field).toValue) =
      (records.map fun record => record.field field).map FieldValue.toValue := by
    rw [List.map_map, List.map_map]
    refine List.map_congr_left fun record _ => ?_
    rw [Function.comp_apply, field_project member, Function.comp_apply]
  rw [aggregateValue, column, Aggregate.apply_sum_of_addable]
  intro v inside
  obtain ⟨record, known, rfl⟩ := List.mem_map.1 inside
  exact addable record known

/-- A query for sums gives the number of the records, and the sum of each of its fields. -/
theorem fetch_sum_gives {stored : Bool} {records : List Record}
    (sum : query.aggregate = some .sum)
    (built : query.boundedFilter a.store offset bounds extra = .ok filter)
    (known : allStored a.store query.model query.fields = .ok stored)
    (selected : a.matching query.model filter = .ok records)
    (addable : ∀ record ∈ records, ∀ field ∈ query.fields, (record.field field).Addable) :
    (query.fetch a.store offset bounds extra).Gives
      (aggregateRecord records.length
        (query.fields.map fun field => (field, sumBy stored records field))) := by
  refine (Traced.Gives.ofResult built).bind ?_
  rw [sum]
  refine (Traced.Gives.ofResult known).bind ?_
  cases stored with
  | true =>
    have read : a.store.readGroup query.model filter query.fields =
        .ok ⟨records.length, sums query.fields records⟩ := map_eq_ok.2 ⟨records, selected, rfl⟩
    rw [if_pos ⟨rfl, rfl⟩]
    refine Traced.Gives.countGroupedRead.bind ?_
    refine (Traced.Gives.ofResult read).bind (Traced.Gives.bind (Traced.Gives.mapM ?_) (.pure _))
    exact fun field member => (sumValue_gives member _).bind (.pure _)
  | false =>
    have read : a.store.searchRead query.model filter query.fields =
        .ok (records.map fun record => project record query.fields) :=
      map_eq_ok.2 ⟨records, selected, rfl⟩
    rw [if_neg fun h => Bool.false_ne_true h.2]
    refine (Traced.Gives.ofResult read).bind ?_
    rw [List.length_map]
    refine Traced.Gives.bind (Traced.Gives.mapM ?_) (.pure _)
    intro field member
    refine (Traced.Gives.ofResult (aggregateValue_sum member ?_)).bind (.pure _)
    exact fun record inside => addable record inside field member

theorem fetch_sum_fails {e : ReportError} (sum : query.aggregate = some .sum)
    (built : query.boundedFilter a.store offset bounds extra = .ok filter)
    (failed : allStored a.store query.model query.fields = .error e) :
    (query.fetch a.store offset bounds extra).Fails e := by
  refine (Traced.Gives.ofResult built).fails ?_
  rw [sum]
  exact (Traced.Fails.ofResult failed).bind

/-- **A sum does not depend on where it is computed.** Tables that differ only in which fields are
stored give the same record for a query for sums over numbers, truth values and nothing: the number
of the records, and a sum for each field that agrees. Only where a field holds a truth value do they
differ, when the store of one of them sums the fields: it has no data there. They fail if the filter
cannot be built or a field of the query is not known, and then for the same reason. -/
theorem fetch_sum_agrees (alike : a.Alike b) (sum : query.aggregate = some .sum)
    (addable : ∀ filter records, query.boundedFilter a.store offset bounds extra = .ok filter →
      a.matching query.model filter = .ok records →
      ∀ record ∈ records, ∀ field ∈ query.fields, (record.field field).Addable) :
    (∃ e, (query.fetch a.store offset bounds extra).Fails e ∧
        (query.fetch b.store offset bounds extra).Fails e ∧
        (query.boundedFilter a.store offset bounds extra = .error e ∨
          ∃ field ∈ query.fields, a.fieldInfo query.model field = .error e)) ∨
      ∃ filter records x y, query.boundedFilter a.store offset bounds extra = .ok filter ∧
        a.matching query.model filter = .ok records ∧
        (query.fetch a.store offset bounds extra).Gives (.record x) ∧
        (query.fetch b.store offset bounds extra).Gives (.record y) ∧
        List.Forall₂ (fun p q => p.1 = q.1 ∧ SumsAgree records p.1 p.2 q.2) x y := by
  cases built : query.boundedFilter a.store offset bounds extra with
  | error e =>
    have built' := (boundedFilter_of_alike alike).symm.trans built
    exact .inl ⟨e, (Traced.Fails.ofResult built).bind, (Traced.Fails.ofResult built').bind,
      .inl rfl⟩
  | ok filter =>
    have built' := (boundedFilter_of_alike alike).symm.trans built
    obtain ⟨records, selected⟩ := matching_of_boundedFilter built
    have selected' := (alike.matching_eq query.model filter).symm.trans selected
    have addable := addable filter records built selected
    rcases allStored_of_alike alike query.model query.fields with
      ⟨e, failed, failed', unknown⟩ | ⟨p, q, known, known'⟩
    · exact .inl ⟨e, fetch_sum_fails sum built failed, fetch_sum_fails sum built' failed',
        .inr unknown⟩
    · refine .inr ⟨filter, records, _, _, rfl, selected,
        fetch_sum_gives sum built known selected addable,
        fetch_sum_gives sum built' known' selected' addable, ?_⟩
      refine Table.forall₂_ofEntries (R := SumsAgree records) (.cons ⟨rfl, .inl (.inl rfl)⟩ ?_)
      rw [List.forall₂_map_left_iff, List.forall₂_map_right_iff, List.forall₂_same]
      exact fun field member =>
        ⟨rfl, sumBy_agrees (fun record inside => addable record inside field member) p q⟩

end Fetch

/-! ## A model of sales -/

namespace Sales

def day : Date := ⟨0, firstDay_le_zero, zero_le_lastDay⟩

def offset : UtcOffset := ⟨0, by decide, by decide⟩

def bounds : Bounds := ⟨day, day, none⟩

/-- The sum of the amounts of a day. -/
def query : Query where
  name := "sales"
  model := "sale"
  fields := ["amount"]
  aggregate := some .sum
  dateField := "day"
  filter := []

/-- Sales, the amounts of which are stored or not. -/
def tables (stored : Bool) (records : List Record) : RecordTables where
  models := [("sale", ⟨[("amount", ⟨.other, stored⟩), ("day", ⟨.date, true⟩)], records⟩)]

def filter : Filter :=
  [.field "day" .ge (.date day), .field "day" .le (.date day)]

/-- A sale with an amount, and one without. -/
def priced : List Record :=
  [[("amount", .number 2), ("day", .date day)], [("day", .date day)]]

/-- A sale with a truth value for its amount. -/
def ticked : List Record :=
  [[("amount", .bool true), ("day", .date day)]]

theorem alike (records : List Record) : (tables true records).Alike (tables false records) where
  records model := by
    unfold tables Table.get?
    rw [Table.lookup_cons_eq, Table.lookup_cons_eq]
    split <;> rfl
  kinds model field := by
    by_cases sale : model = "sale"
    · subst sale
      by_cases amount : field = "amount"
      · subst amount
        rfl
      · have other (stored : Bool) : (tables stored records).fieldInfo "sale" field =
            Result.ofOption (.unknownField "sale" field)
              (List.lookup field [("day", ⟨.date, true⟩)]) := by
          change Result.ofOption _ (List.lookup field (("amount", _) :: _)) = _
          rw [Table.lookup_cons_eq, if_neg amount]
        rw [other, other]
    · have unknown (stored : Bool) : (tables stored records).models.get? model = none := by
        unfold tables Table.get?
        rw [Table.lookup_cons_eq, if_neg sale]
        rfl
      unfold RecordTables.fieldInfo RecordTables.model
      rw [unknown, unknown]

theorem built (stored : Bool) (records : List Record) :
    query.boundedFilter (tables stored records).store offset bounds none = .ok filter := by
  rfl

theorem selected_ticked (stored : Bool) :
    (tables stored ticked).matching query.model filter = .ok ticked := by
  rfl

theorem priced_numeric (record : Record) (member : record ∈ priced) (field : String) (t : Bool) :
    record.field field ≠ .bool t := by
  intro holds
  unfold Record.field at holds
  cases found : Table.get? record field with
  | none =>
    rw [found] at holds
    cases holds
  | some v =>
    rw [found] at holds
    have inside := Table.mem_of_get? found
    rw [show v = .bool t from holds] at inside
    rcases List.mem_cons.1 member with rfl | member
    · simp at inside
    · obtain rfl := List.mem_singleton.1 member
      simp at inside

theorem selected_priced (stored : Bool) :
    (tables stored priced).matching query.model filter = .ok priced := by
  rfl

end Sales

/-- The amounts of sales are summed alike, whether they are stored or not, and where one is
missing. -/
theorem fetch_sum_agrees_priced :
    ∃ x y, (Sales.query.fetch (Sales.tables true Sales.priced).store Sales.offset Sales.bounds
        none).Gives (.record x) ∧
      (Sales.query.fetch (Sales.tables false Sales.priced).store Sales.offset Sales.bounds
        none).Gives (.record y) ∧
      List.Forall₂ (fun p q => p.1 = q.1 ∧ p.2.Agrees q.2) x y := by
  have addable : ∀ filter records,
      Sales.query.boundedFilter (Sales.tables true Sales.priced).store Sales.offset Sales.bounds
        none = .ok filter →
      (Sales.tables true Sales.priced).matching Sales.query.model filter = .ok records →
      ∀ record ∈ records, ∀ field ∈ Sales.query.fields, (record.field field).Addable := by
    intro filter records built selected record member field inside
    cases (Sales.built true Sales.priced).symm.trans built
    cases (Sales.selected_priced true).symm.trans selected
    obtain rfl := List.mem_singleton.1 inside
    rcases List.mem_cons.1 member with rfl | member
    · trivial
    · obtain rfl := List.mem_singleton.1 member
      trivial
  rcases fetch_sum_agrees (Sales.alike Sales.priced) rfl addable with
    ⟨e, -, -, failed | ⟨field, inside, unknown⟩⟩ |
      ⟨filter, records, x, y, built, selected, left, right, agree⟩
  · cases (Sales.built true Sales.priced).symm.trans failed
  · obtain rfl := List.mem_singleton.1 inside
    have known : (Except.ok ⟨.other, true⟩ : Result FieldInfo) = .error e := unknown
    cases known
  · refine ⟨x, y, left, right, agree.imp fun p q same => ⟨same.1, same.2.resolve_right ?_⟩⟩
    rintro ⟨⟨record, member, t, holds⟩, -⟩
    cases (Sales.built true Sales.priced).symm.trans built
    cases (Sales.selected_priced true).symm.trans selected
    exact Sales.priced_numeric record member p.1 t holds

/-- With a truth value among the amounts, the sum depends on where it is computed. -/
theorem fetch_sum_differs_for_truth :
    (Sales.tables true Sales.ticked).Alike (Sales.tables false Sales.ticked) ∧
      (Sales.query.fetch (Sales.tables true Sales.ticked).store Sales.offset Sales.bounds
        none).Gives (.record [("amount", .noData), ("count", .number 1)]) ∧
      (Sales.query.fetch (Sales.tables false Sales.ticked).store Sales.offset Sales.bounds
        none).Gives (.record [("amount", .number 1), ("count", .number 1)]) := by
  have addable : ∀ record ∈ Sales.ticked, ∀ field ∈ Sales.query.fields,
      (record.field field).Addable := by
    intro record member field inside
    obtain rfl := List.mem_singleton.1 member
    obtain rfl := List.mem_singleton.1 inside
    trivial
  refine ⟨Sales.alike _, ?_, ?_⟩
  · exact fetch_sum_gives rfl (Sales.built true _) (by rfl) (Sales.selected_ticked true) addable
  · exact fetch_sum_gives rfl (Sales.built false _) (by rfl) (Sales.selected_ticked false) addable

end Query

end KpiReport
