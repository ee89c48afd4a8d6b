import Marbles.Walk
import Mathlib.Data.Int.LeastGreatest

/-!
# Business deadlines are exact

The walk of `deadline` is compared with the time that passes inside working time: a walk that stays
clear of the seam between two round-the-clock working days spends what it was asked to, but for the
part of a minute that is left of the day it starts on. Over such a seam the walk starts the next
day a minute late.

The walk goes day by day while working time is a sum over all of them, so the invariant of the
walk is how much has been worked by the instant it has reached, `workedLocal`. A turn that goes on
to the next day spends what is left of this one (`workedLocal_turn`); a seam is the one place
where the two differ, by the minute that the end of a day stands for.
-/

namespace Marbles.WorkWeek

variable (w : WorkWeek)

/-- The instant is on the calendar, and so is the end of some working day up to which there are
that many minutes of working time. -/
structure InRange (now minutes : Int) : Prop where
  start : w.OnCalendar (now + w.offset)
  room : ∃ day, weekday day ∈ w.days ∧ w.OnCalendar (w.closes day) ∧
    minutes * 60 ≤ w.workedLocal (now + w.offset) (w.closes day)

/-- The walk returns an instant inside working time or at its end, and the working time until
then is what was asked for, up to less than a minute. -/
def Exact (now minutes : Int) : Prop :=
  ∃ r, w.deadline now minutes = some r ∧
    (w.Working (r + w.offset) ∨ w.Working (r + w.offset - 1)) ∧
    minutes * 60 ≤ w.worked now r ∧ w.worked now r < (minutes + 1) * 60

/-- There is such a midnight before that many minutes of working time have passed. -/
def Crosses (t minutes : Int) : Prop :=
  ∃ day, w.Seam day ∧ t < day * 86400 ∧ w.workedLocal t (day * 86400) < minutes * 60

variable {w}

/-! ### Spending minutes -/

section Spend

variable {cursor remaining c r x : Int}

/-- The part of a minute that is left of the first day when the walk goes on to another. -/
def leftover (w : WorkWeek) (cursor remaining : Int) : Int :=
  if remaining * 60 ≤ w.closes (dayOf cursor) - cursor then 0
  else (w.closes (dayOf cursor) - cursor) % 60

theorem leftover_nonneg : 0 ≤ w.leftover cursor remaining := by
  unfold leftover
  split <;> omega

theorem leftover_lt : w.leftover cursor remaining < 60 := by
  unfold leftover
  split <;> omega

theorem leftover_of_dvd (h : 60 ∣ cursor) : w.leftover cursor remaining = 0 := by
  unfold leftover
  split
  · rfl
  · exact Int.emod_eq_zero_of_dvd (Int.dvd_sub dvd_closes h)

/-- The minute after the end of a day is working time when work goes on over midnight. -/
theorem workedLocal_seam {day : Int} (h : w.Seam (day + 1)) :
    w.workedLocal (w.closes day) (w.closes day + 60) = 60 := by
  obtain ⟨hstart, hend, -, hday⟩ := h
  refine (Elapsed.count_all (by omega) fun s hle hlt => ?_).trans (by omega)
  refine working_of_day hend.le hday ?_ ?_
  · unfold closes opens at *
    omega
  · unfold closes at *
    omega

theorem workedLocal_no_seam {day : Int} (h24 : w.endHour ≤ 24) (hday : weekday day ∈ w.days)
    (h : ¬ w.Seam (day + 1)) : w.workedLocal (w.closes day) (w.closes day + 60) = 0 := by
  refine Elapsed.count_none fun s hle hlt hs => h ?_
  obtain ⟨hmem, hopen, hclose⟩ := hs
  have hend : w.endHour = 24 := by
    unfold closes at *
    unfold dayOf at *
    omega
  have hnext : dayOf s = day + 1 := by
    unfold closes at hle hlt
    unfold dayOf
    omega
  rw [hnext] at hmem hopen
  refine ⟨?_, hend, by rwa [Int.add_sub_cancel], hmem⟩
  unfold closes at hlt
  unfold opens at hopen
  omega

/-- What has been worked by `x` after a turn that goes on. -/
theorem workedLocal_turn (h24 : w.endHour ≤ 24) (hc : w.Working cursor)
    (hnext : w.FirstWorking (w.closes (dayOf cursor) + 60) c) (hx : c ≤ x) :
    w.workedLocal cursor x = w.closes (dayOf cursor) - cursor +
      w.workedLocal (w.closes (dayOf cursor)) (w.closes (dayOf cursor) + 60) +
      w.workedLocal c x := by
  have hday := workedLocal_day h24 hc hc.2.2.le le_rfl
  have hle := hnext.le
  rw [← hnext.workedLocal_eq hx, ← hday, workedLocal_add hc.2.2.le (by omega),
    workedLocal_add (hc.2.2.le.trans (by omega)) (hle.trans hx)]

/-- A seam lies ahead when it is the next midnight or lies ahead of where the walk goes on. -/
theorem crosses_turn (hw : w.startHour < w.endHour) (h24 : w.endHour ≤ 24)
    (hc : w.Working cursor) (hover : w.closes (dayOf cursor) - cursor < remaining * 60)
    (hnext : w.FirstWorking (w.closes (dayOf cursor) + 60) c) :
    w.Crosses cursor remaining ↔ w.Seam (dayOf cursor + 1) ∨
      w.Crosses c (remaining - (w.closes (dayOf cursor) - cursor) / 60) := by
  have hle := hnext.le
  have hbefore := hc.2.2
  have haligned : 60 ∣ c := hnext.dvd (Int.dvd_add dvd_closes (Int.dvd_refl 60))
  constructor
  · rintro ⟨day, hseam, hlt, hworked⟩
    by_cases hs : w.Seam (dayOf cursor + 1)
    · exact Or.inl hs
    · refine Or.inr ⟨day, hseam, ?_⟩
      have hprev := hseam.2.2.1
      have hday : dayOf cursor + 1 < day := by
        rcases lt_trichotomy (dayOf cursor + 1) day with hlt' | rfl | hgt
        · exact hlt'
        · exact absurd hseam hs
        · have hcursor := @dayOf_le cursor
          omega
      -- the day before the seam is a working day, and it starts after the walk goes on
      have hprevWorking : w.Working (w.opens (day - 1) + 60) :=
        working_of_day h24 hprev (by omega) (by unfold opens closes; omega)
      have hcle : c ≤ w.opens (day - 1) + 60 := by
        refine hnext.le_of_working ?_ hprevWorking
        unfold opens closes
        omega
      have hcday : c < day * 86400 := by
        unfold opens at hcle
        omega
      refine ⟨hcday, ?_⟩
      have hturn := workedLocal_turn h24 hc hnext hcday.le
      rw [workedLocal_no_seam h24 hc.1 hs] at hturn
      omega
  · intro h
    have hseamNow : w.Seam (dayOf cursor + 1) → w.Crosses cursor remaining := fun hseam => by
      have hmidnight : (dayOf cursor + 1) * 86400 = w.closes (dayOf cursor) := by
        unfold closes
        rw [hseam.2.1]
        omega
      refine ⟨_, hseam, hmidnight ▸ hbefore, ?_⟩
      rw [hmidnight, workedLocal_day h24 hc hbefore.le le_rfl]
      exact hover
    by_cases hs : w.Seam (dayOf cursor + 1)
    · exact hseamNow hs
    · obtain ⟨day, hseam, hlt, hworked⟩ := h.resolve_left hs
      refine ⟨day, hseam, by omega, ?_⟩
      have hdvd : 60 ∣ w.workedLocal c (day * 86400) := dvd_workedLocal haligned (by omega)
      have hturn := workedLocal_turn h24 hc hnext hlt.le
      rw [workedLocal_no_seam h24 hc.1 hs] at hturn
      omega

/-- What the walk has spent when it returns. -/
theorem spend_worked (hw : w.startHour < w.endHour) (h24 : w.endHour ≤ 24) (fuel : Nat)
    (hc : w.Working cursor) (h1 : 1 ≤ remaining) (h63 : remaining < 2 ^ 63)
    (h : w.spend w.offset fuel cursor remaining = some r) :
    cursor < r ∧ w.Working (r - 1) ∧
      (¬ w.Crosses cursor remaining →
        w.workedLocal cursor r = remaining * 60 + w.leftover cursor remaining) ∧
      (w.Crosses cursor remaining → remaining * 60 + 60 ≤ w.workedLocal cursor r) := by
  induction fuel generalizing cursor remaining with
  | zero => simp [spend] at h
  | succ fuel ih =>
      obtain ⟨-, h⟩ := (spend_succ_eq_some h24 hc.2.2.le h1 h63).mp h
      rcases h with ⟨hlast, -, rfl⟩ | ⟨hover, -, c, hnext, h⟩
      · have hstop : cursor + remaining * 60 ≤ w.closes (dayOf cursor) := by omega
        have hworked : w.workedLocal cursor (cursor + remaining * 60) = remaining * 60 :=
          (workedLocal_day h24 hc (by omega) hstop).trans (by omega)
        refine ⟨by omega, working_of_day h24 hc.1 (hc.2.1.trans (by omega)) (by omega), fun _ => ?_,
          fun hcross => ?_⟩
        · rw [hworked, leftover, if_pos hlast, add_zero]
        · -- the walk ends before the next midnight
          obtain ⟨day, ⟨-, hend, -, -⟩, hlt, hfew⟩ := hcross
          have hcursor := @dayOf_le cursor
          have hmidnight : w.closes (dayOf cursor) ≤ day * 86400 := by
            unfold closes
            omega
          have hmono : w.workedLocal cursor (cursor + remaining * 60) ≤
              w.workedLocal cursor (day * 86400) := Elapsed.count_mono (hstop.trans hmidnight)
          omega
      · have hfirst := workingInstantOrAfter_first hw h24 hnext
        have hle := hfirst.le
        have hbefore := hc.2.2
        obtain ⟨hlt, hwork, hexact, hcrossed⟩ := ih hfirst.working (by omega) (by omega) h
        have hturn := workedLocal_turn h24 hc hfirst hlt.le
        have haligned : 60 ∣ c := hfirst.dvd (Int.dvd_add dvd_closes (Int.dvd_refl 60))
        rw [leftover_of_dvd haligned, add_zero] at hexact
        rw [crosses_turn hw h24 hc hover hfirst]
        refine ⟨by omega, hwork, fun hcross => ?_, fun hcross => ?_⟩
        · obtain ⟨hseam, hrest⟩ := not_or.mp hcross
          rw [workedLocal_no_seam h24 hc.1 hseam] at hturn
          have hrest := hexact hrest
          rw [leftover, if_neg (by omega)]
          omega
        · by_cases hseam : w.Seam (dayOf cursor + 1)
          · rw [workedLocal_seam hseam] at hturn
            by_cases hrest : w.Crosses c (remaining - (w.closes (dayOf cursor) - cursor) / 60)
            · have hmore := hcrossed hrest
              omega
            · have hmore := hexact hrest
              omega
          · rw [workedLocal_no_seam h24 hc.1 hseam] at hturn
            have hmore := hcrossed (hcross.resolve_left hseam)
            omega

end Spend

/-! ### The deadline -/

section Deadline

variable {now minutes r : Int}

/-- A seam that lies ahead of an instant lies ahead of the first working second after it. -/
theorem FirstWorking.crosses_iff {t c : Int} (h : w.FirstWorking t c) :
    w.Crosses t minutes ↔ w.Crosses c minutes := by
  constructor
  · rintro ⟨day, hseam, hlt, hworked⟩
    have hc := h.lt_seam hseam hlt
    exact ⟨day, hseam, hc, by rwa [← h.workedLocal_eq hc.le]⟩
  · rintro ⟨day, hseam, hlt, hworked⟩
    exact ⟨day, hseam, lt_of_le_of_lt h.le hlt, by rwa [h.workedLocal_eq hlt.le]⟩

/-- As long as no seam is behind it a walk spends all working time. -/
theorem walked_eq_workedLocal {t x : Int}
    (h : ∀ day, w.Seam day → t < day * 86400 → x ≤ day * 86400) :
    w.walked t x = w.workedLocal t x := by
  refine Elapsed.count_congr fun s _ hsx => ⟨And.left, fun hs => ⟨hs, fun hseam => ?_⟩⟩
  have hle := h _ hseam.1 hseam.2.1
  have hday := @dayOf_le s
  omega

theorem InRange.minutes_lt (h : w.InRange now minutes) : minutes < 2 ^ 63 :=
  have ⟨_, _, hcloses, hroom⟩ := h.room
  WorkWeek.minutes_lt h.start hcloses hroom

/-- A walk has room for minutes that are worked before the next seam. -/
theorem InRange.walk (h : w.InRange now minutes) (hcross : ¬ w.Crosses (now + w.offset) minutes) :
    w.Room now minutes := by
  obtain ⟨hstart, day, hday, hcloses, hroom⟩ := h
  refine ⟨hstart, day, hday, hcloses, ?_⟩
  by_cases hseam : ∃ d, w.Seam d ∧ now + w.offset < d * 86400 ∧ d * 86400 < w.closes day
  · -- what is asked for is worked before the first of these seams
    obtain ⟨d, ⟨hd, hlt, hbefore⟩, hleast⟩ := Int.exists_least_of_bdd
      ⟨dayOf (now + w.offset), fun d hd => by unfold dayOf; omega⟩ hseam
    have hwalked : w.walked (now + w.offset) (d * 86400) =
        w.workedLocal (now + w.offset) (d * 86400) := walked_eq_workedLocal fun d' hd' hlt' => by
      by_contra hd
      have hle := hleast d' ⟨hd', hlt', by omega⟩
      omega
    have hworked : minutes * 60 ≤ w.workedLocal (now + w.offset) (d * 86400) := by
      by_contra hfew
      exact hcross ⟨d, hd, hlt, not_le.mp hfew⟩
    have hmono : w.walked (now + w.offset) (d * 86400) ≤ w.walked (now + w.offset) (w.closes day) :=
      Elapsed.count_mono hbefore.le
    omega
  · rwa [walked_eq_workedLocal fun d hd hlt => by
      by_contra hbefore
      exact hseam ⟨d, hd, hlt, not_le.mp hbefore⟩]

/-- What a deadline that is reached is. -/
theorem deadline_worked (hw : w.startHour < w.endHour) (h24 : w.endHour ≤ 24) (hm : 1 ≤ minutes)
    (h63 : minutes < 2 ^ 63) (h : w.deadline now minutes = some r) :
    now < r ∧ w.Working (r + w.offset - 1) ∧
      (¬ w.Crosses (now + w.offset) minutes → ∃ c, w.FirstWorking (now + w.offset) c ∧
        w.worked now r = minutes * 60 + w.leftover c minutes) ∧
      (w.Crosses (now + w.offset) minutes → minutes * 60 + 60 ≤ w.worked now r) := by
  obtain ⟨-, -, c, hc, hreached⟩ := deadline_eq_some.mp h
  have hfirst := workingInstantOrAfter_first hw h24 hc
  obtain ⟨hlt, hwork, hexact, hcrossed⟩ := spend_worked hw h24 _ hfirst.working hm h63 hreached
  have hle := hfirst.le
  have hworked : w.worked now r = w.workedLocal c (r + w.offset) := hfirst.workedLocal_eq hlt.le
  rw [hfirst.crosses_iff, hworked]
  exact ⟨by omega, hwork, fun hcross => ⟨c, hfirst, hexact hcross⟩, hcrossed⟩

/-- A deadline within the calendar is exact unless a seam is crossed on the way. At a seam the day
before closes at the same second the next one opens, and the walk takes up work a minute later. -/
theorem deadline_exact_iff (hw : w.startHour < w.endHour) (h24 : w.endHour ≤ 24)
    (hm : 1 ≤ minutes) (hrange : w.InRange now minutes) :
    w.Exact now minutes ↔ w.HasZone ∧ ¬ w.Crosses (now + w.offset) minutes := by
  have h63 := hrange.minutes_lt
  constructor
  · rintro ⟨r, hr, -, -, hfew⟩
    refine ⟨(deadline_eq_some.mp hr).1, fun hcross => ?_⟩
    have hmore := (deadline_worked hw h24 hm h63 hr).2.2.2 hcross
    omega
  · rintro ⟨hzone, hcross⟩
    obtain ⟨r, hr⟩ := Option.isSome_iff_exists.mp
      ((deadline_isSome_iff hw h24 hm h63).mpr ⟨hzone, hrange.walk hcross⟩)
    obtain ⟨-, hwork, hexact, -⟩ := deadline_worked hw h24 hm h63 hr
    obtain ⟨c, -, hworked⟩ := hexact hcross
    have hleft := @leftover_nonneg w c minutes
    have hleft' := @leftover_lt w c minutes
    exact ⟨r, hr, Or.inr hwork, by omega, by omega⟩

/-- An hour from ten o'clock on a Tuesday of the default week. -/
theorem deadline_exact_hour :
    ({} : WorkWeek).Exact 468000 60 ↔
      ({} : WorkWeek).HasZone ∧ ¬ ({} : WorkWeek).Crosses (468000 + ({} : WorkWeek).offset) 60 := by
  have hten : ({} : WorkWeek).Working 468000 := by decide +kernel
  have hday : ({} : WorkWeek).workedLocal 468000 (({} : WorkWeek).closes 5) =
      ({} : WorkWeek).closes 5 - 468000 :=
    workedLocal_day (by decide) hten (by decide) (by decide)
  refine deadline_exact_iff (by decide) (by decide) (by decide)
    ⟨by decide +kernel, 5, by decide, by decide +kernel, ?_⟩
  change 60 * 60 ≤ ({} : WorkWeek).workedLocal 468000 (({} : WorkWeek).closes 5)
  rw [hday]
  decide

/-- A week that is worked round the clock. -/
def roundTheClock : WorkWeek where
  days := [1, 2, 3, 4, 5, 6, 7]
  startHour := 0
  endHour := 24

theorem roundTheClock_working (s : Int) : roundTheClock.Working s := by
  have hday : weekday (dayOf s) ≤ 7 := by
    unfold weekday
    omega
  have hpos : 1 ≤ weekday (dayOf s) := Nat.le_add_left 1 _
  have hlow : dayOf s * 86400 ≤ s := dayOf_le
  have hhigh : s < (dayOf s + 1) * 86400 := lt_dayOf
  refine ⟨?_, ?_, ?_⟩
  · change weekday (dayOf s) ∈ [1, 2, 3, 4, 5, 6, 7]
    simp only [List.mem_cons, List.not_mem_nil, or_false]
    omega
  · change dayOf s * 86400 + 0 * 3600 ≤ s
    omega
  · change s < dayOf s * 86400 + 24 * 3600
    omega

/-- Two hours from eleven in the evening on are spent a minute late: the hour before midnight
leaves sixty minutes, and the walk takes them from a minute past midnight on. -/
theorem deadline_round_the_clock : ∃ (w : WorkWeek) (now minutes : Int),
    (∃ day ∈ w.days, 1 ≤ day ∧ day ≤ 7) ∧ w.startHour < w.endHour ∧ w.endHour ≤ 24 ∧
      1 ≤ minutes ∧ w.InRange now minutes ∧ w.HasZone ∧
      w.deadline now minutes = some (now + minutes * 60 + 60) ∧ ¬ w.Exact now minutes := by
  have hworked : ∀ a b, a ≤ b → roundTheClock.workedLocal a b = b - a := fun a b hab =>
    Elapsed.count_all hab fun s _ _ => roundTheClock_working s
  have hdeadline : roundTheClock.deadline 428400 120 = some 435660 := by decide +kernel
  refine ⟨roundTheClock, 428400, 120, ⟨1, by decide, by decide, by decide⟩, by decide, by decide,
    by decide, ⟨by decide +kernel, 5, by decide, by decide +kernel, ?_⟩, by decide +kernel,
    hdeadline, ?_⟩
  · rw [hworked _ _ (by decide +kernel)]
    decide +kernel
  · rintro ⟨r, hr, -, -, hlt⟩
    obtain rfl := Option.some.inj (hdeadline.symm.trans hr)
    rw [worked, hworked _ _ (by decide +kernel)] at hlt
    revert hlt
    decide +kernel

end Deadline

end Marbles.WorkWeek
