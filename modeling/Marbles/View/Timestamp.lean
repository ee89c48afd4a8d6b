import Marbles.Lib.Civil
import Marbles.Lib.Numeral
import Marbles.Types

/-!
# The timestamp of a view

`observed_at` of the viewer, which writes an epoch second as a date without a library for clocks.
Division truncates in the source, so it is `tdiv` and `tmod` here. `observedAt_exact` says that the
text shows the second it was made from, and `observedAt_fits` that nothing is computed on the way
that 64 bits do not hold.

The arithmetic works on eras of four hundred years that begin in March, which puts the leap day at
the end. Each of its steps has a lemma that says what it finds (the era, the year, the month, the
day), and the calendar it is compared with is that of the library module, which counts days.
-/

namespace Marbles.View

open Civil (Date Moment daysBeforeYear daysBeforeMonth monthStart marchYear marchMonth)
open Numeral (padded)

/-! ### The arithmetic -/

namespace ObservedAt

/-- The days from the first of March of the year 0. -/
def z (epoch : Int) : Int := epoch / 86400 + 719468

/-- The seconds of the day; `rem_euclid`, so that they are not negative before 1970. -/
def seconds (epoch : Int) : Int := epoch % 86400

/-- The 400 years a day falls in. -/
def era (z : Int) : Int := (if z ≥ 0 then z else z - 146096).tdiv 146097

/-- The day of the era. -/
def doe (z : Int) : Int := z - era z * 146097

/-- The year of the era. -/
def yoe (doe : Int) : Int :=
  (doe - doe.tdiv 1460 + doe.tdiv 36524 - doe.tdiv 146096).tdiv 365

/-- The day of the year, the first of March being the first one. -/
def doy (doe : Int) : Int := doe - (365 * yoe doe + (yoe doe).tdiv 4 - (yoe doe).tdiv 100)

/-- The month, March being the first one. -/
def mp (doy : Int) : Int := (5 * doy + 2).tdiv 153

/-- The day of the month, from 1. -/
def day (doy : Int) : Int := doy - (153 * mp doy + 2).tdiv 5 + 1

/-- The month counted from January. -/
def month (mp : Int) : Int := if mp < 10 then mp + 3 else mp - 9

/-- January and February belong to the next year. -/
def year (y month : Int) : Int := if month ≤ 2 then y + 1 else y

end ObservedAt

/-- Civil UTC timestamp of an epoch second. -/
def observedAt (epoch : Int) : String :=
  let z := ObservedAt.z epoch
  let seconds := ObservedAt.seconds epoch
  let era := ObservedAt.era z
  let doe := ObservedAt.doe z
  let y := ObservedAt.yoe doe + era * 400
  let doy := ObservedAt.doy doe
  let mp := ObservedAt.mp doy
  let day := ObservedAt.day doy
  let month := ObservedAt.month mp
  let year := ObservedAt.year y month
  let hour := seconds.tdiv 3600
  let minute := (seconds.tmod 3600).tdiv 60
  let second := seconds.tmod 60
  padded 4 year ++ "-" ++ padded 2 month ++ "-" ++ padded 2 day ++ "T" ++ padded 2 hour ++ ":" ++
    padded 2 minute ++ ":" ++ padded 2 second ++ "+00:00"

namespace ObservedAt

/-! ### The day of the era -/

theorem era_eq (z : Int) : era z = z / 146097 := by
  unfold era
  split
  · rename_i h
    exact Int.tdiv_eq_ediv_of_nonneg h
  · rename_i h
    have hsign : Int.sign 146097 = 1 := rfl
    rw [Int.tdiv_eq_ediv, hsign]
    split <;> omega

theorem doe_mem (z : Int) : 0 ≤ doe z ∧ doe z < 146097 := by
  rw [doe, era_eq]
  omega

variable {d : Int}

theorem yoe_eq (h : 0 ≤ d ∧ d < 146097) :
    yoe d = (d - d / 1460 + d / 36524 - d / 146096) / 365 := by
  obtain ⟨hlow, hhigh⟩ := h
  rw [yoe, Int.tdiv_eq_ediv_of_nonneg hlow, Int.tdiv_eq_ediv_of_nonneg hlow,
    Int.tdiv_eq_ediv_of_nonneg hlow, Int.tdiv_eq_ediv_of_nonneg (by omega)]

/-- The correction by the days of the leap years finds the year of the era. -/
theorem yoe_spec (h : 0 ≤ d ∧ d < 146097) : (0 ≤ yoe d ∧ yoe d < 400) ∧
    daysBeforeYear (yoe d + 1) ≤ d ∧ d < daysBeforeYear (yoe d + 2) := by
  have hyoe := yoe_eq h
  obtain ⟨hlow, hhigh⟩ := h
  generalize yoe d = n at hyoe ⊢
  have hcentury : 0 ≤ d / 36524 ∧ d / 36524 ≤ 4 := by omega
  have hlast : 0 ≤ d / 146096 ∧ d / 146096 ≤ 1 := by omega
  have hcycle : 0 ≤ d / 1460 ∧ d / 1460 ≤ 100 := by omega
  obtain ⟨c, hc⟩ : ∃ c, d / 36524 = c := ⟨_, rfl⟩
  obtain ⟨e, he⟩ : ∃ e, d / 146096 = e := ⟨_, rfl⟩
  obtain ⟨q, hq⟩ : ∃ q, d / 1460 = q := ⟨_, rfl⟩
  rw [hc] at hcentury hyoe
  rw [he] at hlast hyoe
  rw [hq] at hcycle hyoe
  have hn : 0 ≤ n ∧ n < 400 := by omega
  -- four years have a day more than the divisor, which can seem to begin a cycle early
  obtain ⟨k, m, hnk, hm⟩ : ∃ k m, n = 4 * k + m ∧ 0 ≤ m ∧ m ≤ 3 :=
    ⟨n / 4, n % 4, by omega, by omega, by omega⟩
  have hleap : q = k ∨ q = k + 1 := by omega
  have hfour : n / 4 = k := by omega
  have hfour' : (n + 1) / 4 = k ∨ m = 3 ∧ (n + 1) / 4 = k + 1 := by omega
  obtain ⟨hc₀, hc₄⟩ := hcentury
  have hhundred : n / 100 = c ∨ n / 100 + 1 = c ∧ e = 1 := by interval_cases c <;> omega
  have hhundred' : (n + 1) / 100 = n / 100 ∨
      (n + 1) / 100 = n / 100 + 1 ∧ m = 3 ∧ n = 100 * (n / 100) + 99 := by omega
  have hend : c ≤ 3 ∨ c = 4 ∧ e = 1 := by omega
  have hprevious : daysBeforeYear (n + 1) = 365 * n + n / 4 - n / 100 + n / 400 := by
    rw [daysBeforeYear, Int.add_sub_cancel]
  have hnext : daysBeforeYear (n + 2) =
      365 * (n + 1) + (n + 1) / 4 - (n + 1) / 100 + (n + 1) / 400 := by
    have hpred : n + 2 - 1 = n + 1 := by omega
    rw [daysBeforeYear, hpred]
  rw [hprevious, hnext]
  refine ⟨hn, ?_, ?_⟩
  · rcases hleap with rfl | rfl
    · omega
    · omega
  · rcases hleap with rfl | rfl
    · interval_cases c <;> omega
    · interval_cases c <;> omega

theorem doy_eq (h : 0 ≤ d ∧ d < 146097) : doy d = d - daysBeforeYear (yoe d + 1) := by
  obtain ⟨hlow, hhigh⟩ := (yoe_spec h).1
  rw [doy, daysBeforeYear, Int.add_sub_cancel, Int.tdiv_eq_ediv_of_nonneg hlow,
    Int.tdiv_eq_ediv_of_nonneg hlow]
  omega

theorem doy_mem (h : 0 ≤ d ∧ d < 146097) :
    0 ≤ doy d ∧ doy d < Civil.yearLength (yoe d + 1) := by
  have hdoy := doy_eq h
  obtain ⟨-, hlow, hhigh⟩ := yoe_spec h
  have hsucc := Civil.daysBeforeYear_succ (yoe d + 1)
  have htwo : yoe d + 1 + 1 = yoe d + 2 := by omega
  rw [htwo] at hsucc
  omega

/-! ### The month and the day -/

variable {n : Int}

theorem mp_eq (h : 0 ≤ n) : mp n = (5 * n + 2) / 153 := Int.tdiv_eq_ediv_of_nonneg (by omega)

theorem mp_mem (h : 0 ≤ n ∧ n < 366) : 0 ≤ mp n ∧ mp n < 12 := by
  rw [mp_eq h.1]
  omega

/-- A day lies between the beginnings of two months. -/
theorem mp_spec (h : 0 ≤ n ∧ n < 366) : monthStart (mp n) ≤ n ∧ n < monthStart (mp n + 1) := by
  have hmp := mp_eq h.1
  unfold monthStart
  omega

theorem day_eq (h : 0 ≤ n ∧ n < 366) : day n = n - monthStart (mp n) + 1 := by
  have hmp := (mp_mem h).1
  rw [day, monthStart, Int.tdiv_eq_ediv_of_nonneg (by omega)]

/-! ### The moment -/

theorem doy_lt (h : 0 ≤ d ∧ d < 146097) : 0 ≤ doy d ∧ doy d < 366 := by
  obtain ⟨hlow, hhigh⟩ := doy_mem h
  have hlength := Civil.yearLength_le (yoe d + 1)
  omega

/-- The date of the day that a number of days after the first of March of the year 0 begins. -/
def dateAt (z : Int) : Date where
  year := marchYear (yoe (doe z) + era z * 400) (mp (doy (doe z)))
  month := marchMonth (mp (doy (doe z)))
  day := day (doy (doe z))
  month_mem := Civil.marchMonth_mem (mp_mem (doy_lt (doe_mem z)))
  day_mem := by
    have hdoe := doe_mem z
    have hmp := mp_mem (doy_lt hdoe)
    obtain ⟨hlow, hhigh⟩ := mp_spec (doy_lt hdoe)
    have hyear := (doy_mem hdoe).2
    rw [← Civil.yearLength_cycle (yoe (doe z) + 1) (era z), Int.add_right_comm] at hyear
    have hlength := Civil.march_lt_monthLength hmp hhigh hyear
    rw [day_eq (doy_lt hdoe)]
    omega

@[simp] theorem number_dateAt (z : Int) : (dateAt z).number = z - 719468 := by
  have hdoe := doe_mem z
  have hmarch := Civil.daysBefore_march (yoe (doe z) + era z * 400) (mp_mem (doy_lt hdoe))
  have hcycle := Civil.daysBeforeYear_cycle (yoe (doe z) + 1) (era z)
  rw [Int.add_right_comm] at hcycle
  rw [hcycle] at hmarch
  have hday := day_eq (doy_lt hdoe)
  have hdoy := doy_eq hdoe
  have hz : doe z = z - era z * 146097 := rfl
  have hepoch : daysBeforeYear 1970 = 719162 := by decide
  change daysBeforeYear (marchYear _ _) - daysBeforeYear 1970 +
    daysBeforeMonth (marchYear _ _) (marchMonth _) + (day _ - 1) = _
  omega

theorem seconds_mem (epoch : Int) : 0 ≤ seconds epoch ∧ seconds epoch < 86400 := by
  unfold seconds
  omega

/-- The moment a timestamp shows. -/
def momentAt (epoch : Int) : Moment where
  toDate := dateAt (z epoch)
  hour := (seconds epoch).tdiv 3600
  minute := ((seconds epoch).tmod 3600).tdiv 60
  second := (seconds epoch).tmod 60
  hour_mem := by
    have hseconds := seconds_mem epoch
    rw [Int.tdiv_eq_ediv_of_nonneg hseconds.1]
    omega
  minute_mem := by
    have hseconds := seconds_mem epoch
    rw [Int.tmod_eq_emod_of_nonneg hseconds.1, Int.tdiv_eq_ediv_of_nonneg (by omega)]
    omega
  second_mem := by
    have hseconds := seconds_mem epoch
    rw [Int.tmod_eq_emod_of_nonneg hseconds.1]
    omega

@[simp] theorem seconds_momentAt (epoch : Int) : (momentAt epoch).seconds = epoch := by
  have hseconds := seconds_mem epoch
  have hnumber := number_dateAt (z epoch)
  have hz : z epoch = epoch / 86400 + 719468 := rfl
  have htime : seconds epoch = epoch % 86400 := rfl
  change (dateAt (z epoch)).number * 86400 + (seconds epoch).tdiv 3600 * 3600 +
    ((seconds epoch).tmod 3600).tdiv 60 * 60 + (seconds epoch).tmod 60 = epoch
  rw [Int.tmod_eq_emod_of_nonneg hseconds.1, Int.tmod_eq_emod_of_nonneg hseconds.1,
    Int.tdiv_eq_ediv_of_nonneg hseconds.1, Int.tdiv_eq_ediv_of_nonneg (by omega)]
  omega

/-- What is computed on the way to a date stays within 64 bits. -/
theorem observedAt_fits {epoch : Int} (h : IsI64 epoch) : ∀ n ∈ [z epoch, z epoch - 146096,
    era (z epoch) * 146097, doe (z epoch), era (z epoch) * 400, 365 * yoe (doe (z epoch)),
    yoe (doe (z epoch)) + era (z epoch) * 400, 5 * doy (doe (z epoch)) + 2,
    153 * mp (doy (doe (z epoch))) + 2, yoe (doe (z epoch)) + era (z epoch) * 400 + 1],
    IsI64 n := by
  obtain ⟨hlow, hhigh⟩ := h
  have hdoe := doe_mem (z epoch)
  obtain ⟨hyoe, hyoe'⟩ := (yoe_spec hdoe).1
  obtain ⟨hdoy, hdoy'⟩ := doy_lt hdoe
  obtain ⟨hmp, hmp'⟩ := mp_mem (doy_lt hdoe)
  have hz : z epoch = epoch / 86400 + 719468 := rfl
  have hera := era_eq (z epoch)
  simp only [List.forall_mem_cons, List.not_mem_nil, false_implies, implies_true, IsI64, and_true]
  and_intros <;> omega

end ObservedAt

/-! ### The text -/

/-- How a moment is written. -/
def timestamp (m : Moment) : String :=
  padded 4 m.year ++ "-" ++ padded 2 m.month ++ "-" ++ padded 2 m.day ++ "T" ++ padded 2 m.hour ++
    ":" ++ padded 2 m.minute ++ ":" ++ padded 2 m.second ++ "+00:00"

theorem observedAt_eq (epoch : Int) :
    observedAt epoch = timestamp (ObservedAt.momentAt epoch) := by
  delta observedAt timestamp
  rfl

/-- The numbers of a timestamp. All but the year are written with two digits, so they are found
from the end of the text. -/
def fields (text : List Char) : List Int :=
  let rest := text.drop (text.length - 21)
  Numeral.value (text.take (text.length - 21)) ::
    [1, 4, 7, 10, 13].map fun i => Numeral.value ((rest.drop i).take 2)

theorem fields_append {year : List Char} {m₁ m₂ d₁ d₂ h₁ h₂ n₁ n₂ s₁ s₂ : Char} :
    fields (year ++ ['-', m₁, m₂, '-', d₁, d₂, 'T', h₁, h₂, ':', n₁, n₂, ':', s₁, s₂] ++
      "+00:00".toList) = [Numeral.value year, Numeral.value [m₁, m₂], Numeral.value [d₁, d₂],
        Numeral.value [h₁, h₂], Numeral.value [n₁, n₂], Numeral.value [s₁, s₂]] := by
  have hlength : (year ++ ['-', m₁, m₂, '-', d₁, d₂, 'T', h₁, h₂, ':', n₁, n₂, ':', s₁, s₂] ++
      "+00:00".toList).length - 21 = year.length := by
    simp
  rw [fields, hlength, List.append_assoc, List.take_left, List.drop_left]
  rfl

/-- The numbers that are read from a timestamp are the ones of the moment. -/
@[simp] theorem fields_timestamp (m : Moment) : fields (timestamp m).toList =
    [m.year, m.month, m.day, m.hour, m.minute, m.second] := by
  obtain ⟨hmonth, hmonth'⟩ := m.month_mem
  obtain ⟨hday, hday'⟩ := m.day_mem
  obtain ⟨hhour, hhour'⟩ := m.hour_mem
  obtain ⟨hminute, hminute'⟩ := m.minute_mem
  obtain ⟨hsecond, hsecond'⟩ := m.second_mem
  have hlength := Civil.monthLength_le m.year m.month
  obtain ⟨m₁, m₂, hm, hmvalue⟩ := @Numeral.padded_two m.month (by omega) (by omega)
  obtain ⟨d₁, d₂, hd, hdvalue⟩ := @Numeral.padded_two m.day (by omega) (by omega)
  obtain ⟨h₁, h₂, hh, hhvalue⟩ := @Numeral.padded_two m.hour (by omega) (by omega)
  obtain ⟨n₁, n₂, hn, hnvalue⟩ := @Numeral.padded_two m.minute (by omega) (by omega)
  obtain ⟨s₁, s₂, hs, hsvalue⟩ := @Numeral.padded_two m.second (by omega) (by omega)
  have htext : (timestamp m).toList = (padded 4 m.year).toList ++
      ['-', m₁, m₂, '-', d₁, d₂, 'T', h₁, h₂, ':', n₁, n₂, ':', s₁, s₂] ++ "+00:00".toList := by
    simp [timestamp, hm, hd, hh, hn, hs]
  rw [htext, fields_append, Numeral.value_padded, hmvalue, hdvalue, hhvalue, hnvalue, hsvalue]

/-- The timestamp of an epoch second is the one of a moment of the calendar, it can be read back,
and the moment is that many seconds from 1970-01-01. It holds before 1970 and in years of more than
four digits as well. -/
theorem observedAt_exact (epoch : Int) : ∃ m : Moment, m.seconds = epoch ∧
    observedAt epoch = timestamp m ∧
      fields (observedAt epoch).toList =
        [m.year, m.month, m.day, m.hour, m.minute, m.second] := by
  rw [observedAt_eq]
  exact ⟨_, ObservedAt.seconds_momentAt epoch, rfl, fields_timestamp _⟩

end Marbles.View
