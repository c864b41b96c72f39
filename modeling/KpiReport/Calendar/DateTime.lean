import KpiReport.Calendar.Date

/-!
# Points in time

A point in time is a day, a second of the day and the nanoseconds since that second began. A leap
second is counted with the last second of its minute. `UtcOffset.midnight?` is the start of a local
day as a point in universal time.
-/

namespace KpiReport.Calendar

/-- The nanoseconds of a second. -/
def nanosPerSecond : Nat := 1000000000

/-- The seconds of a day. -/
def secondsPerDay : Nat := 86400

/-- The nanoseconds of a second of the day; the last second of a minute has room for a leap second
after it. -/
def nanosOfSecond (secondOfDay : Nat) : Nat :=
  if secondOfDay % 60 = 59 then 2 * nanosPerSecond else nanosPerSecond

theorem nanosOfSecond_pos (secondOfDay : Nat) : 0 < nanosOfSecond secondOfDay := by
  unfold nanosOfSecond
  split <;> decide

theorem nanosOfSecond_le (secondOfDay : Nat) : nanosOfSecond secondOfDay ≤ 2 * nanosPerSecond := by
  unfold nanosOfSecond
  split <;> decide

/-- A day and a time of day. -/
structure DateTime where
  date : Date
  secondOfDay : Nat
  nanos : Nat
  secondOfDay_lt : secondOfDay < secondsPerDay
  nanos_lt : nanos < nanosOfSecond secondOfDay
  deriving DecidableEq

/-- The start of a day. -/
def Date.midnight (date : Date) : DateTime where
  date := date
  secondOfDay := 0
  nanos := 0
  secondOfDay_lt := by decide
  nanos_lt := by decide

namespace DateTime

/-- The seconds since the start of day 0, leap seconds left out. -/
def seconds (time : DateTime) : Int :=
  time.date.number * secondsPerDay + time.secondOfDay

/-- The place of a point in time among all of them: every second is given room for a leap second. -/
def instant (time : DateTime) : Int :=
  time.seconds * (2 * nanosPerSecond : Nat) + time.nanos

theorem nanos_lt_two_seconds (time : DateTime) : time.nanos < 2 * nanosPerSecond :=
  Nat.lt_of_lt_of_le time.nanos_lt (nanosOfSecond_le _)

/-- Earlier points come first. -/
instance : LE DateTime := ⟨fun a b => a.instant ≤ b.instant⟩

/-- Earlier points come first. -/
instance : LT DateTime := ⟨fun a b => a.instant < b.instant⟩

instance (a b : DateTime) : Decidable (a ≤ b) := inferInstanceAs (Decidable (a.instant ≤ b.instant))

instance (a b : DateTime) : Decidable (a < b) := inferInstanceAs (Decidable (a.instant < b.instant))

/-- The point with an hour, minute, second and nanosecond on a day; a leap second is the second 60
of its minute. -/
def ofClock? (date : Date) (hour minute second nano : Nat) : Option DateTime :=
  let leap := second / 60
  let secondOfDay := 3600 * hour + 60 * minute + (second - leap)
  let nanos := leap * nanosPerSecond + nano
  if h : hour < 24 ∧ minute < 60 ∧ second ≤ 60 ∧ nano < nanosPerSecond then
    some
      { date, secondOfDay, nanos
        secondOfDay_lt := by simp only [secondOfDay, leap, secondsPerDay]; omega
        nanos_lt := by
          simp only [nanos, secondOfDay, leap, nanosOfSecond, nanosPerSecond] at h ⊢
          rcases Nat.lt_or_eq_of_le h.2.2.1 with early | last <;> split <;> omega }
  else none

/-- The hour of the day. -/
def hour (time : DateTime) : Nat :=
  time.secondOfDay / 3600

/-- The minute of the hour. -/
def minute (time : DateTime) : Nat :=
  time.secondOfDay / 60 % 60

/-- The second of the minute, 60 for a leap second. -/
def second (time : DateTime) : Nat :=
  time.secondOfDay % 60 + time.nanos / nanosPerSecond

/-- The nanosecond of the second. -/
def nanosecond (time : DateTime) : Nat :=
  time.nanos % nanosPerSecond

end DateTime

/-- A fixed distance of local time from universal time, shorter than a day. -/
structure UtcOffset where
  seconds : Int
  neg_lt : -86400 < seconds
  lt : seconds < 86400
  deriving DecidableEq

namespace UtcOffset

/-- The offset of some minutes, if it is shorter than a day. -/
def ofMinutes? (minutes : Int) : Option UtcOffset :=
  if h : -86400 < minutes * 60 ∧ minutes * 60 < 86400 then some ⟨minutes * 60, h.1, h.2⟩ else none

/-- The start of a local day as a point in universal time, if the calendar reaches it. -/
def midnight? (offset : UtcOffset) (date : Date) : Option DateTime :=
  (date.shift? ((-offset.seconds) / (secondsPerDay : Int))).map fun date =>
    { date := date
      secondOfDay := ((-offset.seconds) % (secondsPerDay : Int)).toNat
      nanos := 0
      secondOfDay_lt := by simp only [secondsPerDay]; omega
      nanos_lt := nanosOfSecond_pos _ }

end UtcOffset

end KpiReport.Calendar
