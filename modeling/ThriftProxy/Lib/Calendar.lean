import Mathlib.Data.Int.Notation
import Mathlib.Tactic.Ring

/-!
# The calendar

Dates of the Gregorian calendar and the numbers of their days, counted from
1 January 1970. The number of a date grows by one from each day to the next, which
makes differences of numbers differences in days.
-/

namespace Calendar

/-- A leap year. -/
def IsLeap (y : ℤ) : Prop := y % 4 = 0 ∧ (y % 100 ≠ 0 ∨ y % 400 = 0)

instance (y : ℤ) : Decidable (IsLeap y) := by
  unfold IsLeap
  infer_instance

/-- The number of days of a month. -/
def monthLength (y : ℤ) : ℕ → ℕ
  | 2 => if IsLeap y then 29 else 28
  | 4 => 30
  | 6 => 30
  | 9 => 30
  | 11 => 30
  | _ => 31

/-- Every month has a first day, and none has more than 31. -/
theorem monthLength_bounds (y : ℤ) (m : ℕ) : 1 ≤ monthLength y m ∧ monthLength y m ≤ 31 := by
  unfold monthLength
  split
  · split
    · decide
    · decide
  all_goals decide

/-- A date. -/
@[ext] structure Date where
  /-- The year. -/
  year : ℤ
  /-- The month, from 1 on. -/
  month : ℕ
  /-- The day of the month, from 1 on. -/
  day : ℕ
  month_pos : 1 ≤ month
  month_le : month ≤ 12
  day_pos : 1 ≤ day
  day_le : day ≤ monthLength year month

/-- The first day of a month. -/
def Date.first (y : ℤ) (m : ℕ) (hpos : 1 ≤ m) (hle : m ≤ 12) : Date :=
  { year := y, month := m, day := 1, month_pos := hpos, month_le := hle, day_pos := le_rfl
    day_le := (monthLength_bounds y m).1 }

/-- The next day. -/
def Date.next (d : Date) : Date :=
  if hday : d.day < monthLength d.year d.month then
    { d with day := d.day + 1, day_pos := by omega, day_le := hday }
  else if hmonth : d.month < 12 then Date.first d.year (d.month + 1) (by omega) hmonth
  else Date.first (d.year + 1) 1 le_rfl (by decide)

/-! ## Day numbers -/

/-- The number of the first day of a year. -/
def daysBeforeYear (y : ℤ) : ℤ :=
  365 * (y - 1970) + ((y - 1) / 4 - (y - 1) / 100 + (y - 1) / 400 - 477)

/-- The days of a year before a month. -/
def daysBeforeMonth (y : ℤ) : ℕ → ℕ
  | 0 => 0
  | 1 => 0
  | m + 2 => daysBeforeMonth y (m + 1) + monthLength y (m + 1)

/-- The number of the day. -/
def Date.dayNumber (d : Date) : ℤ :=
  daysBeforeYear d.year + daysBeforeMonth d.year d.month + (d.day - 1)

/-- The days before a month are at most 31 for each one before it. -/
theorem daysBeforeMonth_le (y : ℤ) (m : ℕ) : daysBeforeMonth y m ≤ 31 * m := by
  induction m with
  | zero => exact Nat.zero_le _
  | succ m ih =>
    cases m with
    | zero => exact Nat.zero_le _
    | succ m =>
      have := (monthLength_bounds y (m + 1)).2
      rw [daysBeforeMonth]
      omega

/-- A year has 365 days, or 366 if it is a leap year. -/
theorem daysBeforeYear_succ (y : ℤ) :
    daysBeforeYear (y + 1) = daysBeforeYear y + 365 + if IsLeap y then 1 else 0 := by
  by_cases hleap : IsLeap y
  · rw [if_pos hleap]
    unfold IsLeap at hleap
    unfold daysBeforeYear
    omega
  · rw [if_neg hleap]
    unfold IsLeap at hleap
    unfold daysBeforeYear
    omega

/-- The months of a year have as many days as the year. -/
theorem daysBeforeMonth_twelve (y : ℤ) :
    daysBeforeMonth y 12 + monthLength y 12 = 365 + if IsLeap y then 1 else 0 := by
  simp only [daysBeforeMonth, monthLength]
  split
  · rfl
  · rfl

/-- The day number grows by one from each day to the next. -/
theorem Date.dayNumber_next (d : Date) : d.next.dayNumber = d.dayNumber + 1 := by
  have hpos := d.month_pos
  have hlast := d.day_le
  unfold Date.next
  by_cases hday : d.day < monthLength d.year d.month
  · rw [dif_pos hday]
    simp only [dayNumber]
    push_cast
    ring
  · have hend : d.day = monthLength d.year d.month := by omega
    rw [dif_neg hday]
    by_cases hmonth : d.month < 12
    · obtain ⟨m, hm⟩ : ∃ m, d.month = m + 1 := ⟨d.month - 1, by omega⟩
      rw [dif_pos hmonth]
      simp only [dayNumber, first, hm, daysBeforeMonth]
      rw [hm] at hend
      rw [hend]
      push_cast
      ring
    · have htwelve : d.month = 12 := by
        have := d.month_le
        omega
      have hyear := daysBeforeYear_succ d.year
      have hmonths := daysBeforeMonth_twelve d.year
      have hfirst : daysBeforeMonth (d.year + 1) 1 = 0 := rfl
      rw [dif_neg hmonth]
      rw [htwelve] at hend
      simp only [dayNumber, first, htwelve, hend, hyear, hfirst]
      by_cases hleap : IsLeap d.year
      · rw [if_pos hleap] at hmonths ⊢
        omega
      · rw [if_neg hleap] at hmonths ⊢
        omega

/-- The day some days later. -/
def Date.after (d : Date) : ℕ → Date
  | 0 => d
  | n + 1 => (d.after n).next

/-- Day numbers count days. -/
theorem Date.dayNumber_after (d : Date) (n : ℕ) : (d.after n).dayNumber = d.dayNumber + n := by
  induction n with
  | zero => simp [after]
  | succ n ih =>
    rw [after, dayNumber_next, ih]
    push_cast
    ring

/-- The number of 1 January 1600. -/
def startNumber : ℤ := -135140

/-- The first day of a year. -/
def Date.newYear (year : ℤ) : Date := Date.first year 1 le_rfl (by decide)

/-- The date with a number, from 1600 on. -/
def ofDayNumber (n : ℤ) : Date :=
  (Date.newYear 1600).after (n - startNumber).toNat

/-- The date with a number has it. -/
theorem dayNumber_ofDayNumber {n : ℤ} (h : startNumber ≤ n) : (ofDayNumber n).dayNumber = n := by
  have hstart : (Date.newYear 1600).dayNumber = startNumber := by decide
  rw [ofDayNumber, Date.dayNumber_after, hstart, Int.toNat_of_nonneg (by omega)]
  ring

/-- The count starts on 1 January 1970. -/
example : (Date.newYear 1970).dayNumber = 0 := by decide

end Calendar
