import Marbles.Types

/-!
# Business-hours claim deadlines

The calendar walk of `time.rs`. An instant is its epoch second; the walk itself is on
local seconds, which are the epoch seconds plus the fixed offset of the week. Wherever
the source would panic (a date past either end of the calendar, an hour that is not on
the clock, an offset that is not a time zone) the functions here return `none`, and so
they do when the walk makes no progress and never returns.

The calendar of the source ends in both directions, and a deadline past its end is none. All loops
of the source are bounded here by the number of days they can look at, `daysLeft`; that they stop
before it is part of the results of `Walk.lean`.
-/

namespace Marbles

/-! ### The calendar -/

/-- The first second of the calendar the source's dates live in. -/
def minSecond : Int := -8334601228800

/-- The last one. -/
def maxSecond : Int := 8210266876799

/-- Is `t` an instant the calendar can represent? -/
def inCalendar (t : Int) : Bool := minSecond ≤ t ∧ t ≤ maxSecond

/-- `Utc.timestamp_opt(secs, 0).single()`. -/
def utc (secs : Int) : Option Int := if inCalendar secs then some secs else none

/-- The day a local second falls on, counted from 1970-01-01. -/
def dayOf (t : Int) : Int := t / 86400

/-- The first and the last day of the calendar. -/
def minDay : Int := dayOf minSecond

/-- The last day of the calendar. -/
def maxDay : Int := dayOf maxSecond

/-- Days are ISO: Monday is 1. 1970-01-01 was a Thursday. -/
def weekday (day : Int) : Nat := ((day + 3) % 7).toNat + 1

/-- `day.and_hms_opt(hour, 0, 0)`: the local second at which an hour of a day starts. -/
def atHour (day : Int) (hour : Nat) : Option Int :=
  if hour < 24 then some (day * 86400 + hour * 3600) else none

/-- `day.succ_opt()`. -/
def succDay (day : Int) : Option Int := if day < maxDay then some (day + 1) else none

/-- A week's worth of working time, repeated. -/
structure WorkWeek where
  days : List Nat := [1, 2, 3, 4, 5]
  startHour : Nat := 9
  endHour : Nat := 17
  utcOffsetMinutes : Int := 0

namespace WorkWeek

/-- `FixedOffset::east_opt(self.utc_offset_minutes * 60)`, the product being an `i32`. -/
def timezone (w : WorkWeek) : Option Int :=
  let offset := (w.utcOffsetMinutes * 60).bmod (2 ^ 32)
  if -86400 < offset ∧ offset < 86400 then some offset else none

/-- A local second of the zone: both it and its UTC second are on the calendar. -/
def localInstant (offset t : Int) : Option Int :=
  if inCalendar t ∧ inCalendar (t - offset) then some t else none

/-- The closing instant of a working day; 24 is midnight after. -/
def endOf (w : WorkWeek) (day : Int) : Option Int :=
  if w.endHour = 24 then do
    let next ← succDay day
    atHour next 0
  else atHour day w.endHour

/-- The loop of `working_instant_or_after`, one day of the calendar for each unit of fuel. -/
def workingInstantFrom (w : WorkWeek) (offset t : Int) : Nat → Int → Option Int
  | 0, _ => none
  | fuel + 1, day =>
      if weekday day ∈ w.days then do
        let start ← atHour day w.startHour
        let stop ← w.endOf day
        if t < start then localInstant offset start
        else if t < stop then some t
        else workingInstantFrom w offset t fuel (day + 1)
      else workingInstantFrom w offset t fuel (day + 1)

/-- The days from `day` to the end of the calendar. -/
def daysLeft (day : Int) : Nat := (maxDay - day + 1).toNat

/-- The earliest working instant at or after `t`. -/
def workingInstantOrAfter (w : WorkWeek) (offset t : Int) : Option Int :=
  w.workingInstantFrom offset t (daysLeft (dayOf t)) (dayOf t)

/-- The loop of `deadline`: spend the remaining minutes, one working day after the other.
A turn that does not reach a later day will not reach one in any later turn either. -/
def spend (w : WorkWeek) (offset : Int) : Nat → Int → Int → Option Int
  | 0, _, _ => none
  | fuel + 1, cursor, remaining => do
      let stop ← w.endOf (dayOf cursor)
      let stop ← localInstant offset stop
      let available := (stop - cursor).tdiv 60
      if remaining ≤ available then localInstant offset (cursor + remaining * 60)
      else do
        let next ← localInstant offset (stop + 60)
        let cursor' ← w.workingInstantOrAfter offset next
        spend w offset fuel cursor' (wrapI64 (remaining - available))

/-- The instant `minutes` of working time after `now`. -/
def deadline (w : WorkWeek) (now minutes : Int) : Option Int := do
  let now ← utc now
  let offset ← w.timezone
  let t ← localInstant offset (now + offset)
  let cursor ← w.workingInstantOrAfter offset t
  let reached ← w.spend offset (daysLeft (dayOf cursor) + 1) cursor minutes
  some (reached - offset)

/-- The stored expiry for a human claim made at `now`. -/
def humanExpiry (w : WorkWeek) (now : Int) (policy : Policy) : Option Int :=
  w.deadline now (wrapI64 (policy.humanTtlBusinessHours * 60))

/-! ### A deadline is never early -/

theorem localInstant_eq {offset t r : Int} (h : localInstant offset t = some r) : r = t := by
  unfold localInstant at h
  split at h
  · exact (Option.some.inj h).symm
  · simp at h

theorem atHour_eq {day r : Int} {hour : Nat} (h : atHour day hour = some r) :
    r = day * 86400 + hour * 3600 ∧ dayOf r = day := by
  unfold atHour at h
  split at h
  · rename_i hlt
    have hr := Option.some.inj h
    refine ⟨hr.symm, ?_⟩
    unfold dayOf
    omega
  · simp at h

/-- The closing instant is `endHour` hours into the day. -/
theorem endOf_eq {w : WorkWeek} {day r : Int} (h : w.endOf day = some r) :
    r = day * 86400 + w.endHour * 3600 := by
  unfold endOf at h
  split at h
  · rename_i h24
    obtain ⟨next, hnext, hr⟩ := Option.bind_eq_some_iff.mp h
    have hn : next = day + 1 := by
      unfold succDay at hnext
      split at hnext
      · exact (Option.some.inj hnext).symm
      · simp at hnext
    have := (atHour_eq hr).1
    omega
  · exact (atHour_eq h).1

/-- The walk stops no earlier than `t`, on a day that closes no earlier than where it stops. -/
theorem workingInstantFrom_spec {w : WorkWeek} {offset t : Int} (hw : w.startHour ≤ w.endHour)
    (fuel : Nat) {day c : Int} (hday : dayOf t ≤ day)
    (h : w.workingInstantFrom offset t fuel day = some c) :
    t ≤ c ∧ ∃ stop, w.endOf (dayOf c) = some stop ∧ c ≤ stop := by
  induction fuel generalizing day with
  | zero => simp [workingInstantFrom] at h
  | succ fuel ih =>
      rw [workingInstantFrom] at h
      split at h
      · obtain ⟨start, hstart, h⟩ := Option.bind_eq_some_iff.mp h
        obtain ⟨stop, hstop, h⟩ := Option.bind_eq_some_iff.mp h
        obtain ⟨hs, hsd⟩ := atHour_eq hstart
        have he := endOf_eq hstop
        split at h
        · have hc := localInstant_eq h
          subst hc
          rw [hsd]
          exact ⟨by omega, stop, hstop, by omega⟩
        · split at h
          · have hc := Option.some.inj h
            subst hc
            have hd : dayOf t = day := by
              unfold dayOf at hday ⊢
              omega
            rw [hd]
            exact ⟨Int.le_refl _, stop, hstop, by omega⟩
          · -- the day is over: look at the next one
            exact ih (by omega) h
      · exact ih (by omega) h

theorem workingInstantOrAfter_spec {w : WorkWeek} {offset t c : Int}
    (hw : w.startHour ≤ w.endHour) (h : w.workingInstantOrAfter offset t = some c) :
    t ≤ c ∧ ∃ stop, w.endOf (dayOf c) = some stop ∧ c ≤ stop :=
  workingInstantFrom_spec hw _ (Int.le_refl _) h

/-- Spending minutes takes at least that many minutes. -/
theorem spend_ge {w : WorkWeek} {offset : Int} (hw : w.startHour ≤ w.endHour) (fuel : Nat)
    {cursor remaining stop r : Int} (hrem : remaining < 2 ^ 63)
    (hstop : w.endOf (dayOf cursor) = some stop) (hle : cursor ≤ stop)
    (h : w.spend offset fuel cursor remaining = some r) : cursor + remaining * 60 ≤ r := by
  induction fuel generalizing cursor remaining stop with
  | zero => simp [spend] at h
  | succ fuel ih =>
      rw [spend] at h
      obtain ⟨stop₁, h₁, hs⟩ := Option.bind_eq_some_iff.mp h
      obtain ⟨stop₂, h₂, hif⟩ := Option.bind_eq_some_iff.mp hs
      have hstop₁ : stop₁ = stop := Option.some.inj (h₁.symm.trans hstop)
      have hstop₂ : stop₂ = stop := (localInstant_eq h₂).trans hstop₁
      subst hstop₂
      have hdiv : (stop₂ - cursor).tdiv 60 = (stop₂ - cursor) / 60 :=
        Int.tdiv_eq_ediv_of_nonneg (by omega)
      simp only [hdiv] at hif
      split at hif
      · exact Int.le_of_eq (localInstant_eq hif).symm
      · obtain ⟨next, hnext, hrec⟩ := Option.bind_eq_some_iff.mp hif
        obtain ⟨cursor', hcursor, hrest⟩ := Option.bind_eq_some_iff.mp hrec
        have hn := localInstant_eq hnext
        obtain ⟨hge, stop', hstop', hle'⟩ := workingInstantOrAfter_spec hw hcursor
        have hwrap : wrapI64 (remaining - (stop₂ - cursor) / 60) =
            remaining - (stop₂ - cursor) / 60 := wrapI64_of_range (by omega) (by omega)
        rw [hwrap] at hrest
        have := ih (by omega) hstop' hle' hrest
        omega

/-- A deadline that is reached lies at least `minutes` of wall-clock time ahead. -/
theorem deadline_ge {w : WorkWeek} {now minutes r : Int} (hw : w.startHour ≤ w.endHour)
    (hm : minutes < 2 ^ 63) (h : w.deadline now minutes = some r) : now + minutes * 60 ≤ r := by
  unfold deadline at h
  obtain ⟨now', hnow, h⟩ := Option.bind_eq_some_iff.mp h
  obtain ⟨offset, -, h⟩ := Option.bind_eq_some_iff.mp h
  obtain ⟨t, ht, h⟩ := Option.bind_eq_some_iff.mp h
  obtain ⟨cursor, hcursor, h⟩ := Option.bind_eq_some_iff.mp h
  obtain ⟨reached, hreached, h⟩ := Option.bind_eq_some_iff.mp h
  have hutc : now' = now := by
    unfold utc at hnow
    split at hnow
    · exact (Option.some.inj hnow).symm
    · simp at hnow
  have hlocal := localInstant_eq ht
  obtain ⟨hge, stop, hstop, hle⟩ := workingInstantOrAfter_spec hw hcursor
  have hspend := spend_ge hw _ hm hstop hle hreached
  have hr := Option.some.inj h
  omega

theorem localInstant_utc {offset t r : Int} (h : localInstant offset t = some r) :
    r - offset ≤ maxSecond := by
  unfold localInstant at h
  split at h
  · rename_i hin
    obtain rfl := Option.some.inj h
    have hutc : minSecond ≤ t - offset ∧ t - offset ≤ maxSecond := by
      simpa [inCalendar] using hin.2
    exact hutc.2
  · simp at h

/-- What is spent ends on the calendar. -/
theorem spend_utc {w : WorkWeek} {offset : Int} (fuel : Nat) {cursor remaining r : Int}
    (h : w.spend offset fuel cursor remaining = some r) : r - offset ≤ maxSecond := by
  induction fuel generalizing cursor remaining with
  | zero => simp [spend] at h
  | succ fuel ih =>
      rw [spend] at h
      obtain ⟨stop, -, hs⟩ := Option.bind_eq_some_iff.mp h
      obtain ⟨stop', -, hif⟩ := Option.bind_eq_some_iff.mp hs
      dsimp only at hif
      split at hif
      · exact localInstant_utc hif
      · obtain ⟨next, -, hrec⟩ := Option.bind_eq_some_iff.mp hif
        obtain ⟨cursor', -, hrest⟩ := Option.bind_eq_some_iff.mp hrec
        exact ih hrest

/-- A deadline past the end of the calendar is not reached. -/
theorem deadline_eq_none {w : WorkWeek} {now minutes : Int} (hw : w.startHour ≤ w.endHour)
    (hm : minutes < 2 ^ 63) (hlate : maxSecond < now + minutes * 60) :
    w.deadline now minutes = none := by
  cases h : w.deadline now minutes with
  | none => rfl
  | some r =>
      have hge := deadline_ge hw hm h
      unfold deadline at h
      obtain ⟨now', -, h⟩ := Option.bind_eq_some_iff.mp h
      obtain ⟨offset, -, h⟩ := Option.bind_eq_some_iff.mp h
      obtain ⟨t, -, h⟩ := Option.bind_eq_some_iff.mp h
      obtain ⟨cursor, -, h⟩ := Option.bind_eq_some_iff.mp h
      obtain ⟨reached, hreached, h⟩ := Option.bind_eq_some_iff.mp h
      have hle := spend_utc _ hreached
      have hr := Option.some.inj h
      omega

end WorkWeek

end Marbles
