import KpiReport.Calendar.Text
import KpiReport.Proofs.Decimal.Digits
import Mathlib.Data.List.TakeWhile

/-!
# Dates are read as they are written

The text of a date is read as that date (`Calendar.Date.read?_toText`), and the text of a point in
time as that point in time (`Calendar.DateTime.read?_toText`), which is no date
(`Calendar.Date.read?_dateTime`).
-/

namespace KpiReport

open KpiReport.Calendar KpiReport.Decimal KpiReport.Text

/-! ## Digits -/

namespace Decimal

theorem ofDigits_padded (width n : Nat) : ofDigits (padded width n) = n := by
  rw [padded, ofDigits_zeros, ofDigits_digits]

theorem isDigit_of_mem_padded {width n : Nat} {c : Char} (h : c ∈ padded width n) :
    c.isDigit = true := by
  rcases List.mem_append.1 h with zero | digit
  · rw [List.eq_of_mem_replicate zero]
    decide
  · exact isDigit_of_mem_digits digit

theorem padded_ne_nil (width n : Nat) : padded width n ≠ [] :=
  List.append_ne_nil_of_right_ne_nil _ (digits_ne_nil n)

theorem length_padded {width n : Nat} (positive : 0 < width) (fits : n < 10 ^ width) :
    (padded width n).length = width := by
  have short : (digits n).length ≤ width := Nat.toDigits_length 10 n width positive fits
  rw [padded, List.length_append, List.length_replicate]
  omega

end Decimal

namespace Calendar

/-! ## Numbers in dates -/

theorem takeNumber?_append {width : Nat} {ds rest : List Char} (nonempty : ds ≠ [])
    (ends : ((ds ++ rest).take width).takeWhile Char.isDigit = ds) :
    takeNumber? width (ds ++ rest) = some (ofDigits ds, rest) := by
  unfold takeNumber?
  dsimp only
  rw [ends, List.isEmpty_eq_false_iff.2 nonempty, if_neg Bool.false_ne_true, List.drop_left]

/-- A number in the places that it has room in is read whatever follows. -/
theorem takeNumber?_padded {width n : Nat} (positive : 0 < width) (fits : n < 10 ^ width)
    (rest : List Char) : takeNumber? width (padded width n ++ rest) = some (n, rest) := by
  have all : ∀ c ∈ padded width n, c.isDigit = true := fun c => isDigit_of_mem_padded
  rw [takeNumber?_append (padded_ne_nil width n), ofDigits_padded]
  rw [List.take_left' (length_padded positive fits), List.takeWhile_eq_self_iff.2 all]

/-- A number without room for more places is read up to the first character that is no digit. -/
theorem takeNumber?_of_stop {width n room : Nat} {rest : List Char}
    (stops : ∀ c ∈ rest.head?, c.isDigit = false) (long : (padded width n).length ≤ room) :
    takeNumber? room (padded width n ++ rest) = some (n, rest) := by
  have all : ∀ c ∈ padded width n, c.isDigit = true := fun c => isDigit_of_mem_padded
  rw [takeNumber?_append (padded_ne_nil width n), ofDigits_padded]
  rw [List.take_append, List.take_of_length_le long, List.takeWhile_append_of_pos all]
  cases rest with
  | nil => simp
  | cons c rest =>
    have other := stops c rfl
    cases room - (padded width n).length with
    | zero => simp
    | succ more => simp [other]

theorem isBlank_of_isDigit {c : Char} (h : c.isDigit = true) : isBlank c = false := by
  have bounds : 48 ≤ c.toNat ∧ c.toNat ≤ 57 := by
    have value : c.toNat = c.val.toNat := rfl
    simp [Char.isDigit, UInt32.le_iff_toNat_le] at h
    omega
  rw [isBlank, List.any_eq_false]
  simp only [blankRanges, List.forall_mem_cons, Bool.and_eq_true, decide_eq_true_eq,
    List.not_mem_nil, false_imp_iff, implies_true, and_true]
  omega

theorem trimStart_cons {c : Char} (solid : isBlank c = false) (cs : List Char) :
    trimStart (c :: cs) = c :: cs :=
  List.dropWhile_cons_of_neg (Bool.eq_false_iff.1 solid)

theorem exists_padded (width n : Nat) :
    ∃ d ds, padded width n = d :: ds ∧ d.isDigit = true := by
  obtain ⟨d, ds, same⟩ := List.exists_cons_of_ne_nil (padded_ne_nil width n)
  have member : d ∈ padded width n := by
    rw [same]
    exact List.mem_cons_self
  exact ⟨d, ds, same, isDigit_of_mem_padded member⟩

theorem trimStart_padded (width n : Nat) (rest : List Char) :
    trimStart (padded width n ++ rest) = padded width n ++ rest := by
  obtain ⟨d, ds, same, digit⟩ := exists_padded width n
  rw [same, List.cons_append, trimStart_cons (isBlank_of_isDigit digit)]

theorem takeTwo?_padded {n : Nat} (fits : n < 100) (rest : List Char) :
    takeTwo? (padded 2 n ++ rest) = some (n, rest) := by
  rw [takeTwo?, trimStart_padded]
  exact takeNumber?_padded (by decide) fits rest

theorem takeMark?_cons {mark : Char} (solid : isBlank mark = false) (cs : List Char) :
    takeMark? mark (mark :: cs) = some cs := by
  rw [takeMark?, trimStart_cons solid]
  exact if_pos rfl

theorem takeYear?_yearText (year : Int) (rest : List Char) :
    takeYear? (yearText year ++ '-' :: rest) = some (year, '-' :: rest) := by
  have stops : ∀ c ∈ ('-' :: rest).head?, c.isDigit = false := by
    rintro c ⟨⟩
    decide
  have long (n : Nat) : (padded 4 n).length ≤ (padded 4 n ++ '-' :: rest).length := by
    rw [List.length_append]
    omega
  unfold takeYear?
  by_cases plain : 0 ≤ year ∧ year ≤ 9999
  · obtain ⟨d, ds, same, digit⟩ := exists_padded 4 year.toNat
    have number : takeNumber? 4 (padded 4 year.toNat ++ '-' :: rest) =
        some (year.toNat, '-' :: rest) :=
      takeNumber?_padded (by decide) (by omega) _
    rw [yearText, if_pos plain, trimStart_padded]
    split
    · rename_i signed
      rw [same] at signed
      cases signed
      cases digit
    · rename_i signed
      rw [same] at signed
      cases signed
      cases digit
    · rw [number]
      exact congrArg (fun n => some (n, '-' :: rest)) (Int.toNat_of_nonneg plain.1)
  · rw [yearText, if_neg plain]
    by_cases negative : year < 0
    · rw [if_pos negative, List.cons_append, trimStart_cons (by decide)]
      change (takeNumber? _ _).map (fun found => (-(found.1 : Int), found.2)) = _
      rw [takeNumber?_of_stop stops (long _)]
      exact congrArg (fun n => some (n, '-' :: rest)) (by omega)
    · rw [if_neg negative, List.cons_append, trimStart_cons (by decide)]
      change (takeNumber? _ _).map (fun found => ((found.1 : Int), found.2)) = _
      rw [takeNumber?_of_stop stops (long _)]
      exact congrArg (fun n => some (n, '-' :: rest)) (by omega)

/-! ## The parts of a date -/

/-- A day of the year is a day of one of its months, after the days of the earlier months. -/
theorem monthAndDay_spec (month : Nat) {dayOfYear : Nat} {lengths : List Nat}
    (first : 1 ≤ dayOfYear) (last : dayOfYear ≤ lengths.sum) : ∃ index < lengths.length,
      (monthAndDay month lengths dayOfYear).1 = month + index ∧
      1 ≤ (monthAndDay month lengths dayOfYear).2 ∧
      (monthAndDay month lengths dayOfYear).2 ≤ lengths.getD index 0 ∧
      (lengths.take index).sum + (monthAndDay month lengths dayOfYear).2 = dayOfYear := by
  induction lengths generalizing month dayOfYear with
  | nil =>
    rw [List.sum_nil] at last
    omega
  | cons length lengths ih =>
    rw [List.sum_cons] at last
    by_cases within : dayOfYear ≤ length
    · rw [monthAndDay, if_pos within]
      exact ⟨0, Nat.succ_pos _, rfl, first, within, by simp⟩
    · have first' : 1 ≤ dayOfYear - length := by omega
      obtain ⟨index, inside, found, low, high, total⟩ := ih (month + 1) first' (by omega)
      rw [monthAndDay, if_neg within]
      refine ⟨index + 1, by simpa using inside, by omega, low, high, ?_⟩
      rw [List.take_succ_cons, List.sum_cons]
      omega

theorem sum_monthLengths (leap : Bool) : (monthLengths leap).sum = if leap then 366 else 365 := by
  cases leap <;> rfl

theorem getD_monthLengths_le (leap : Bool) (index : Nat) :
    (monthLengths leap).getD index 0 ≤ 31 := by
  have all : ∀ length ∈ monthLengths leap, length ≤ 31 := by cases leap <;> decide
  rw [List.getD_eq_getElem?_getD]
  cases found : (monthLengths leap)[index]? with
  | none => exact Nat.zero_le 31
  | some length => exact all length (List.mem_of_getElem? found)

namespace Date

theorem dayOfYear_bounds (date : Date) : 1 ≤ date.dayOfYear ∧
    date.dayOfYear ≤ (monthLengths (isLeapYear date.year)).sum ∧
    daysBeforeYear date.year + date.dayOfYear = date.number := by
  have low : daysBeforeYear date.year < date.number := daysBeforeYear_yearOfDay_lt _
  have high : date.number ≤ daysBeforeYear (date.year + 1) := le_daysBeforeYear_yearOfDay_succ _
  rw [daysBeforeYear_succ] at high
  rw [sum_monthLengths, dayOfYear]
  split at high <;> rename_i leap
  · rw [if_pos leap]
    omega
  · rw [if_neg leap]
    omega

/-- A date is the one with its year, month and day of the month. -/
theorem ofYearMonthDay?_parts (date : Date) :
    ofYearMonthDay? date.year date.month date.dayOfMonth = some date ∧ date.month < 100 ∧
      date.dayOfMonth < 100 := by
  obtain ⟨first, last, number⟩ := date.dayOfYear_bounds
  obtain ⟨index, inside, month, low, high, total⟩ := monthAndDay_spec 1 first last
  have months : (monthLengths (isLeapYear date.year)).length = 12 := rfl
  have days := getD_monthLengths_le (isLeapYear date.year) index
  have foundMonth : date.month = 1 + index := month
  change 1 ≤ date.dayOfMonth at low
  change date.dayOfMonth ≤ _ at high
  change _ + date.dayOfMonth = _ at total
  have earlier : date.month - 1 = index := by omega
  refine ⟨?_, by omega, by omega⟩
  unfold ofYearMonthDay?
  dsimp only
  rw [earlier, if_pos ⟨by omega, low, high⟩, ← List.sum_eq_foldl, Int.add_assoc, ← Int.natCast_add,
    total, number, ofNumber?, dif_pos ⟨date.firstDay_le, date.le_lastDay⟩]

end Date

/-! ## Dates -/

theorem takeDate?_chars (date : Date) (rest : List Char) :
    takeDate? (date.chars ++ rest) = some (date, trimStart rest) := by
  obtain ⟨parts, month, day⟩ := date.ofYearMonthDay?_parts
  have hyphen : isBlank '-' = false := by decide
  have year (cs : List Char) := takeYear?_yearText date.year cs
  unfold takeDate? Date.chars
  simp only [List.append_assoc, List.cons_append, year, takeMark?_cons hyphen,
    takeTwo?_padded month, takeTwo?_padded day, parts, Option.bind_eq_bind, Option.bind_some,
    Option.pure_def]

theorem Date.read?_toText (date : Date) : Date.read? date.toText = some date := by
  have taken := takeDate?_chars date []
  rw [List.append_nil] at taken
  rw [Date.read?, Date.toText, String.toList_ofList, taken]
  rfl

/-! ## Points in time -/

namespace DateTime

variable (time : DateTime)

/-- The text of a point in time is that of its date with the time of day after it. -/
theorem toList_toText : time.toText.toList =
    time.date.chars ++ 'T' :: (time.clockChars ++ time.fractionChars) := by
  rw [toText, String.toList_ofList]
  simp

theorem takeDate?_toText : takeDate? time.toText.toList =
    some (time.date, 'T' :: (time.clockChars ++ time.fractionChars)) := by
  rw [toList_toText, takeDate?_chars, trimStart_cons (by decide)]

/-- The fraction of a second in some places that hold it is read as its nanoseconds. -/
theorem takeFraction?_padded {places n : Nat} (positive : 0 < places) (most : places ≤ 9)
    (fits : n < 10 ^ places) :
    takeFraction? ('.' :: padded places n) = some (n * 10 ^ (9 - places), []) := by
  have length := length_padded positive fits
  have number : takeNumber? 9 (padded places n) = some (n, []) := by
    rw [← List.append_nil (padded places n)]
    exact takeNumber?_of_stop nofun (length.trans_le most)
  unfold takeFraction?
  simp only [number, Option.bind_eq_bind, Option.bind_some, List.length_nil, Nat.sub_zero, length,
    List.dropWhile_nil, Option.pure_def]
  rfl

theorem nanosecond_lt : time.nanosecond < 1000000000 :=
  Nat.mod_lt _ (by decide)

theorem takeFraction?_fractionChars :
    takeFraction? time.fractionChars = some (time.nanosecond, []) := by
  have bound := time.nanosecond_lt
  have fraction {places n : Nat} (positive : 0 < places) (most : places ≤ 9)
      (fits : n < 10 ^ places) (whole : n * 10 ^ (9 - places) = time.nanosecond) :
      takeFraction? ('.' :: padded places n) = some (time.nanosecond, []) := by
    rw [takeFraction?_padded positive most fits, whole]
  unfold fractionChars
  dsimp only
  split
  · rename_i zero
    rw [zero]
    rfl
  · split
    · exact fraction (by decide) (by decide) (by omega) (by omega)
    · split
      · exact fraction (by decide) (by decide) (by omega) (by omega)
      · exact fraction (by decide) (by decide) (by omega) (by omega)

theorem clock_bounds : time.hour < 24 ∧ time.minute < 60 ∧ time.second ≤ 60 := by
  have bound := time.secondOfDay_lt
  have nanos := time.nanos_lt
  unfold nanosOfSecond nanosPerSecond at nanos
  unfold secondsPerDay at bound
  unfold hour minute second nanosPerSecond
  refine ⟨by omega, by omega, ?_⟩
  split at nanos <;> omega

/-- A point in time is the one with its hour, minute, second and nanosecond. -/
theorem ofClock?_parts : ofClock? time.date time.hour time.minute time.second time.nanosecond =
    some time := by
  obtain ⟨hour, minute, second⟩ := time.clock_bounds
  have nanos := time.nanos_lt
  have clock : 3600 * time.hour + 60 * time.minute + (time.second - time.second / 60) =
      time.secondOfDay ∧ time.second / 60 = time.nanos / nanosPerSecond := by
    unfold nanosOfSecond nanosPerSecond at nanos
    unfold DateTime.hour DateTime.minute DateTime.second nanosPerSecond
    split at nanos <;> omega
  have parts : time.second / 60 * nanosPerSecond + time.nanosecond = time.nanos := by
    rw [clock.2, nanosecond]
    exact Nat.div_add_mod' time.nanos nanosPerSecond
  unfold ofClock?
  dsimp only
  rw [dif_pos ⟨hour, minute, second, time.nanosecond_lt⟩]
  simp only [clock.1, parts]

theorem read?_toText : DateTime.read? time.toText = some time := by
  obtain ⟨hour, minute, second⟩ := time.clock_bounds
  have letter : isBlank 'T' = false := by decide
  have colon : isBlank ':' = false := by decide
  have hour' : time.hour < 100 := by omega
  have minute' : time.minute < 100 := by omega
  have second' : time.second < 100 := by omega
  unfold read?
  simp only [time.takeDate?_toText, clockChars, List.append_assoc, List.cons_append,
    takeMark?_cons letter, takeMark?_cons colon, takeTwo?_padded hour', takeTwo?_padded minute',
    takeTwo?_padded second', takeFraction?_fractionChars, ofClock?_parts, Option.bind_eq_bind,
    Option.bind_some]
  rfl

end DateTime

theorem Date.read?_dateTime (time : DateTime) : Date.read? time.toText = none := by
  rw [Date.read?, time.takeDate?_toText]

end Calendar

end KpiReport
