import Mathlib.Algebra.Order.Ring.Int
import Mathlib.Tactic.IntervalCases

/-!
# The proleptic Gregorian calendar

Years, months and days as people write them, and the number of days between them and 1970-01-01. A
`Date` is one that exists: there is no thirteenth month and no 29th of February 1900.

Years can also be counted from a first of March. The day that a leap year has more is then the last
one of its year, and the months begin at the same distances from the beginning of every year.

The number of days before a year is a polynomial with the corrections for leap years, and
everything else is stated relative to it. The March count and the January count are connected by
one lemma, so that an algorithm may use either.
-/

namespace Civil

/-- A year with a 29th of February. -/
def isLeap (year : Int) : Bool := (year % 4 = 0 ∧ year % 100 ≠ 0) ∨ year % 400 = 0

/-- The lengths of the months of a year. -/
def monthLengths (year : Int) : List Int :=
  [31, if isLeap year then 29 else 28, 31, 30, 31, 30, 31, 31, 30, 31, 30, 31]

def monthLength (year month : Int) : Int := (monthLengths year).getD (month - 1).toNat 0

def yearLength (year : Int) : Int := (monthLengths year).sum

/-- The days of a year that come before a month of it. -/
def daysBeforeMonth (year month : Int) : Int := ((monthLengths year).take (month - 1).toNat).sum

/-- The days from the beginning of the year 1 to the beginning of another one. -/
def daysBeforeYear (year : Int) : Int :=
  365 * (year - 1) + (year - 1) / 4 - (year - 1) / 100 + (year - 1) / 400

theorem yearLength_eq (year : Int) : yearLength year = if isLeap year then 366 else 365 := by
  cases h : isLeap year <;> simp [yearLength, monthLengths, h]

theorem yearLength_le (year : Int) : yearLength year ≤ 366 := by
  rw [yearLength_eq]
  split <;> decide

theorem monthLength_le (year month : Int) : monthLength year month ≤ 31 := by
  have hall : ∀ n ∈ monthLengths year, n ≤ 31 := by
    cases h : isLeap year <;> simp [monthLengths, h]
  rw [monthLength, List.getD_eq_getElem?_getD]
  cases hget : (monthLengths year)[(month - 1).toNat]? with
  | none => decide
  | some n => exact hall n (List.mem_of_getElem? hget)

/-- One year after the other. -/
theorem daysBeforeYear_succ (year : Int) :
    daysBeforeYear (year + 1) = daysBeforeYear year + yearLength year := by
  rw [yearLength_eq, daysBeforeYear, daysBeforeYear]
  split
  · rename_i h
    simp only [isLeap, decide_eq_true_eq] at h
    omega
  · rename_i h
    simp only [isLeap, decide_eq_true_eq] at h
    omega

/-- A day of the calendar. -/
structure Date where
  year : Int
  month : Int
  day : Int
  month_mem : 1 ≤ month ∧ month ≤ 12
  day_mem : 1 ≤ day ∧ day ≤ monthLength year month

/-- The days from 1970-01-01. -/
def Date.number (d : Date) : Int :=
  daysBeforeYear d.year - daysBeforeYear 1970 + daysBeforeMonth d.year d.month + (d.day - 1)

/-- A second of the calendar. -/
structure Moment extends Date where
  hour : Int
  minute : Int
  second : Int
  hour_mem : 0 ≤ hour ∧ hour < 24
  minute_mem : 0 ≤ minute ∧ minute < 60
  second_mem : 0 ≤ second ∧ second < 60

/-- The seconds from 1970-01-01. -/
def Moment.seconds (m : Moment) : Int :=
  m.number * 86400 + m.hour * 3600 + m.minute * 60 + m.second

/-! ### Counting from March -/

/-- The months from March on, and how many days after the first of March each begins. -/
def monthStart (mp : Int) : Int := (153 * mp + 2) / 5

/-- The month of a year that begins in March. -/
def marchMonth (mp : Int) : Int := if mp < 10 then mp + 3 else mp - 9

/-- Its January and its February are in the next year. -/
def marchYear (year mp : Int) : Int := if marchMonth mp ≤ 2 then year + 1 else year

theorem marchMonth_mem {mp : Int} (h : 0 ≤ mp ∧ mp < 12) :
    1 ≤ marchMonth mp ∧ marchMonth mp ≤ 12 := by
  unfold marchMonth
  split <;> omega

/-- The first of March is 306 days before the end of the year. -/
theorem daysBefore_march (year : Int) {mp : Int} (h : 0 ≤ mp ∧ mp < 12) :
    daysBeforeYear (marchYear year mp) + daysBeforeMonth (marchYear year mp) (marchMonth mp) =
      daysBeforeYear (year + 1) - 306 + monthStart mp := by
  obtain ⟨hlow, hhigh⟩ := h
  have hyear := daysBeforeYear_succ year
  rw [yearLength] at hyear
  cases hleap : isLeap year <;> interval_cases mp <;>
    simp [daysBeforeMonth, monthLengths, monthStart, marchYear, marchMonth, hleap] at hyear ⊢ <;>
      omega

/-- The days of the year go by month after month; only the last month can be cut short. -/
theorem march_lt_monthLength {year mp doy : Int} (h : 0 ≤ mp ∧ mp < 12)
    (hmonth : doy < monthStart (mp + 1)) (hyear : doy < yearLength (year + 1)) :
    doy - monthStart mp < monthLength (marchYear year mp) (marchMonth mp) := by
  obtain ⟨hlow, hhigh⟩ := h
  rw [yearLength] at hyear
  cases hleap : isLeap (year + 1) <;> interval_cases mp <;>
    simp [monthLength, monthLengths, monthStart, marchYear, marchMonth, hleap] at hmonth hyear ⊢ <;>
      omega

/-- The calendar repeats itself after 400 years. -/
theorem daysBeforeYear_cycle (year era : Int) :
    daysBeforeYear (year + era * 400) = daysBeforeYear year + era * 146097 := by
  unfold daysBeforeYear
  omega

theorem yearLength_cycle (year era : Int) : yearLength (year + era * 400) = yearLength year := by
  have hfirst := daysBeforeYear_succ year
  have hlater := daysBeforeYear_succ (year + era * 400)
  have hnext : year + era * 400 + 1 = year + 1 + era * 400 := by omega
  rw [hnext, daysBeforeYear_cycle, daysBeforeYear_cycle] at hlater
  omega

end Civil
