import Mathlib.Order.Monotone.Basic

/-!
# The Gregorian calendar

Instants of the proleptic Gregorian calendar from the year 0 on, to the
millisecond, and their number, counted with the lengths of the months and the
rule of leap years.

* `daysOfYears_add`: the days before a year in closed form.
* `Instant.number_lt_number`: counting keeps the order of the calendar.
-/

namespace WireMesh.Calendar

def IsLeap (year : ℕ) : Prop := year % 4 = 0 ∧ (year % 100 ≠ 0 ∨ year % 400 = 0)

instance decidableIsLeap : DecidablePred IsLeap := fun year =>
  inferInstanceAs (Decidable (year % 4 = 0 ∧ (year % 100 ≠ 0 ∨ year % 400 = 0)))

def monthLength (year : ℕ) : ℕ → ℕ
  | 2 => if IsLeap year then 29 else 28
  | 4 | 6 | 9 | 11 => 30
  | _ => 31

theorem monthLength_le (year month : ℕ) : monthLength year month ≤ 31 := by
  unfold monthLength
  split <;> grind

/-- The days of the first months of a year. -/
def daysOfMonths (year : ℕ) : ℕ → ℕ
  | 0 => 0
  | month + 1 => daysOfMonths year month + monthLength year (month + 1)

/-- The days of the years before a year. -/
def daysOfYears : ℕ → ℕ
  | 0 => 0
  | year + 1 => daysOfYears year + daysOfMonths year 12

theorem daysOfMonths_mono (year : ℕ) : Monotone (daysOfMonths year) :=
  monotone_nat_of_le_succ fun _ => Nat.le_add_right _ _

theorem daysOfYears_mono : Monotone daysOfYears :=
  monotone_nat_of_le_succ fun _ => Nat.le_add_right _ _

theorem daysOfMonths_twelve (year : ℕ) :
    daysOfMonths year 12 = if IsLeap year then 366 else 365 := by
  simp only [daysOfMonths, monthLength]
  split <;> rfl

/-- A day every four years, none every hundred, and one every four hundred. -/
theorem daysOfYears_add (year : ℕ) :
    daysOfYears year + (year + 99) / 100 = 365 * year + (year + 3) / 4 + (year + 399) / 400 := by
  induction year with
  | zero => rfl
  | succ year ih =>
    rw [daysOfYears, daysOfMonths_twelve]
    split <;> simp only [IsLeap] at * <;> omega

/-- A date and a time of its day. -/
structure Instant where
  year : ℕ
  month : ℕ
  day : ℕ
  hour : ℕ
  minute : ℕ
  second : ℕ
  millis : ℕ
  one_le_month : 1 ≤ month
  month_le : month ≤ 12
  one_le_day : 1 ≤ day
  day_le : day ≤ monthLength year month
  hour_lt : hour < 24
  minute_lt : minute < 60
  second_lt : second < 60
  millis_lt : millis < 1000

namespace Instant

/-- The fields of an instant, which the order of the calendar compares from the year on. -/
def fields (i : Instant) : List ℕ :=
  [i.year, i.month, i.day, i.hour, i.minute, i.second, i.millis]

/-- The days before an instant's. -/
def dayNumber (i : Instant) : ℕ :=
  daysOfYears i.year + daysOfMonths i.year (i.month - 1) + (i.day - 1)

def millisOfDay (i : Instant) : ℕ :=
  ((i.hour * 60 + i.minute) * 60 + i.second) * 1000 + i.millis

/-- The milliseconds from the start of the year 0 to an instant. -/
def number (i : Instant) : ℕ := i.dayNumber * 86400000 + i.millisOfDay

/-- The start of the year 1970. -/
def epoch : Instant where
  year := 1970
  month := 1
  day := 1
  hour := 0
  minute := 0
  second := 0
  millis := 0
  one_le_month := by decide
  month_le := by decide
  one_le_day := by decide
  day_le := by decide
  hour_lt := by decide
  minute_lt := by decide
  second_lt := by decide
  millis_lt := by decide

theorem number_epoch : epoch.number = daysOfYears 1970 * 86400000 := by
  simp [number, dayNumber, millisOfDay, epoch, daysOfMonths]

theorem millisOfDay_lt (i : Instant) : i.millisOfDay < 86400000 := by
  have := i.hour_lt; have := i.minute_lt; have := i.second_lt; have := i.millis_lt
  rw [millisOfDay]
  omega

/-- A day is before the first of the next month. -/
theorem dayNumber_lt (i : Instant) :
    i.dayNumber < daysOfYears i.year + daysOfMonths i.year i.month := by
  have hmonth : daysOfMonths i.year i.month =
      daysOfMonths i.year (i.month - 1) + monthLength i.year i.month := by
    obtain ⟨m, hm⟩ := Nat.exists_eq_add_of_le' i.one_le_month
    rw [hm, daysOfMonths, Nat.add_sub_cancel]
  have := i.one_le_day; have := i.day_le
  rw [dayNumber]
  omega

theorem number_lt_number {i j : Instant} (h : i.fields < j.fields) : i.number < j.number := by
  -- an earlier day is earlier by all of its milliseconds
  have hday : i.dayNumber < j.dayNumber → i.number < j.number := fun hlt => by
    have := i.millisOfDay_lt
    rw [number, number]
    omega
  simp only [fields, List.cons_lt_cons_iff, List.lt_irrefl, and_false, or_false] at h
  rcases h with hyear | ⟨hyear, hmonth | ⟨hmonth, hd | ⟨hd, htime⟩⟩⟩
  · have hi := i.dayNumber_lt
    have hm := daysOfMonths_mono i.year i.month_le
    have hy : daysOfYears i.year + daysOfMonths i.year 12 ≤ daysOfYears j.year :=
      daysOfYears_mono hyear
    exact hday (by rw [dayNumber.eq_def j]; omega)
  · have hi := i.dayNumber_lt
    have hm : daysOfMonths j.year i.month ≤ daysOfMonths j.year (j.month - 1) :=
      daysOfMonths_mono j.year (Nat.le_sub_one_of_lt hmonth)
    rw [hyear] at hi
    exact hday (by rw [dayNumber.eq_def j]; omega)
  · have := i.one_le_day
    exact hday (by rw [dayNumber, dayNumber, hyear, hmonth]; omega)
  · have := j.minute_lt; have := j.second_lt; have := j.millis_lt
    have := i.minute_lt; have := i.second_lt; have := i.millis_lt
    rw [number, number, dayNumber, dayNumber, millisOfDay, millisOfDay, hyear, hmonth, hd]
    omega

end Instant

end WireMesh.Calendar
