import Marbles.Lib.Elapsed
import Marbles.Time

/-!
# The walk of a deadline

The week says which local seconds are working time. `deadline` walks from working day to working
day and spends minutes; it returns as long as it stays on the calendar, and `deadline_isSome_iff`
says when it does. The walk goes on from the minute after a day's end, so over the midnight between
two round-the-clock days it does not spend the first minute.

Working time is first described without the walk, as a set of seconds and a count of them. Each
function of the source is then compared with that description: where the next working instant is,
when a day closes, and what a turn of the loop spends. The calendar's end and the width of the
minutes are treated on the way, so that the results about deadlines have no side conditions left
beyond room on the calendar.
-/

namespace Marbles.WorkWeek

variable (w : WorkWeek)

/-! ### Working time -/

/-- The offset of the zone in seconds: an `i32` product. -/
def offset : Int := (w.utcOffsetMinutes * 60).bmod (2 ^ 32)

/-- The first local second of a day's working time. -/
def opens (day : Int) : Int := day * 86400 + w.startHour * 3600

/-- The end of a day's working time. -/
def closes (day : Int) : Int := day * 86400 + w.endHour * 3600

/-- Is this local second working time? -/
def Working (s : Int) : Prop :=
  weekday (dayOf s) ∈ w.days ∧ w.opens (dayOf s) ≤ s ∧ s < w.closes (dayOf s)

instance : DecidablePred w.Working := fun s =>
  inferInstanceAs (Decidable (weekday (dayOf s) ∈ w.days ∧ w.opens (dayOf s) ≤ s ∧
    s < w.closes (dayOf s)))

/-- The working time between two local seconds. -/
def workedLocal (a b : Int) : Int := Elapsed.count w.Working a b

/-- The working time between two instants. -/
def worked (a b : Int) : Int := w.workedLocal (a + w.offset) (b + w.offset)

/-- Both a local second and its instant are on the calendar. -/
def OnCalendar (s : Int) : Prop := inCalendar s = true ∧ inCalendar (s - w.offset) = true

instance : DecidablePred w.OnCalendar := fun _ => inferInstanceAs (Decidable (_ ∧ _))

/-- The offset is one that a fixed zone can have. -/
def HasZone : Prop := -86400 < w.offset ∧ w.offset < 86400

instance : Decidable w.HasZone := inferInstanceAs (Decidable (_ ∧ _))

/-- Work goes on over the midnight that `day` begins with. -/
def Seam (day : Int) : Prop :=
  w.startHour = 0 ∧ w.endHour = 24 ∧ weekday (day - 1) ∈ w.days ∧ weekday day ∈ w.days

instance : DecidablePred w.Seam := fun _ => inferInstanceAs (Decidable (_ ∧ _))

/-- A second that a walk from `t` spends: not the first minute after a seam ahead of it. -/
def Spent (t s : Int) : Prop :=
  w.Working s ∧ ¬ (w.Seam (dayOf s) ∧ t < dayOf s * 86400 ∧ s < dayOf s * 86400 + 60)

instance (t : Int) : DecidablePred (w.Spent t) := fun s =>
  inferInstanceAs (Decidable (w.Working s ∧
    ¬ (w.Seam (dayOf s) ∧ t < dayOf s * 86400 ∧ s < dayOf s * 86400 + 60)))

/-- The time that a walk from `t` to `x` spends. -/
def walked (t x : Int) : Int := Elapsed.count (w.Spent t) t x

/-- The instant is on the calendar, and so is the end of some working day up to which a walk
spends that many minutes. -/
structure Room (now minutes : Int) : Prop where
  start : w.OnCalendar (now + w.offset)
  day : ∃ day, weekday day ∈ w.days ∧ w.OnCalendar (w.closes day) ∧
    minutes * 60 ≤ w.walked (now + w.offset) (w.closes day)

variable {w}

/-! ### The days of the week -/

section Days

variable {day s t c : Int}

theorem dayOf_eq (hlow : day * 86400 ≤ s) (hhigh : s < (day + 1) * 86400) : dayOf s = day := by
  unfold dayOf
  omega

theorem dayOf_le : dayOf s * 86400 ≤ s := by
  unfold dayOf
  omega

theorem lt_dayOf : s < (dayOf s + 1) * 86400 := by
  unfold dayOf
  omega

theorem opens_ge : day * 86400 ≤ w.opens day := by
  unfold opens
  omega

theorem closes_le (h24 : w.endHour ≤ 24) : w.closes day ≤ (day + 1) * 86400 := by
  unfold closes
  omega

theorem opens_lt_closes (hw : w.startHour < w.endHour) : w.opens day < w.closes day := by
  unfold opens closes
  omega

theorem working_of_day (h24 : w.endHour ≤ 24) (hday : weekday day ∈ w.days)
    (hopen : w.opens day ≤ s) (hclose : s < w.closes day) : w.Working s := by
  have hs : dayOf s = day :=
    dayOf_eq (opens_ge.trans hopen) (hclose.trans_le (closes_le h24))
  exact ⟨hs.symm ▸ hday, hs.symm ▸ hopen, hs.symm ▸ hclose⟩

/-- From a working second on there is work until the day closes. -/
theorem workedLocal_day (h24 : w.endHour ≤ 24) (h : w.Working s) (hst : s ≤ t)
    (hclose : t ≤ w.closes (dayOf s)) : w.workedLocal s t = t - s :=
  Elapsed.count_all hst fun _ hle hlt =>
    working_of_day h24 h.1 (h.2.1.trans hle) (hlt.trans_le hclose)

theorem workedLocal_add {a b c : Int} (hab : a ≤ b) (hbc : b ≤ c) :
    w.workedLocal a b + w.workedLocal b c = w.workedLocal a c := Elapsed.count_add hab hbc

/-- Working time comes in whole minutes. -/
theorem working_minute : w.Working s ↔ w.Working (s / 60 * 60) := by
  have hday : dayOf (s / 60 * 60) = dayOf s := by
    unfold dayOf
    omega
  unfold Working opens closes
  rw [hday]
  refine and_congr_right fun _ => ?_
  constructor
  · intro h
    omega
  · intro h
    omega

/-- Between two whole minutes. -/
theorem dvd_workedLocal {a b : Int} (ha : 60 ∣ a) (hb : 60 ∣ b) : 60 ∣ w.workedLocal a b := by
  rcases le_total a b with hab | hba
  · obtain ⟨m, rfl⟩ := ha
    obtain ⟨n, rfl⟩ := hb
    rw [mul_comm 60 m, mul_comm 60 n]
    exact Elapsed.count_blocks (by decide) (fun _ => working_minute) (by omega)
  · rw [workedLocal, Elapsed.count_of_le hba]
    exact Int.dvd_zero 60

theorem dvd_closes : (60 : Int) ∣ w.closes day := by
  unfold closes
  omega

theorem dvd_opens : (60 : Int) ∣ w.opens day := by
  unfold opens
  omega

/-- `c` is the first working second from `t` on. -/
structure FirstWorking (w : WorkWeek) (t c : Int) : Prop where
  le : t ≤ c
  working : w.Working c
  idle : ∀ s, t ≤ s → s < c → ¬ w.Working s
  /-- It is `t` itself or the start of a day. -/
  starts : c = t ∨ c = w.opens (dayOf c)

theorem FirstWorking.le_of_working (h : w.FirstWorking t c) (hle : t ≤ s) (hs : w.Working s) :
    c ≤ s := le_of_not_gt fun hlt => h.idle s hle hlt hs

theorem FirstWorking.workedLocal_eq (h : w.FirstWorking t c) (hle : c ≤ s) :
    w.workedLocal t s = w.workedLocal c s := by
  rw [← workedLocal_add h.le hle, workedLocal, Elapsed.count_none h.idle, zero_add]

theorem FirstWorking.dvd (h : w.FirstWorking t c) (ht : 60 ∣ t) : 60 ∣ c := by
  rcases h.starts with rfl | heq
  · exact ht
  · rw [heq]
    exact dvd_opens

end Days

/-! ### The calendar -/

section Calendar

variable {day s t c r : Int}

theorem inCalendar_iff : inCalendar s = true ↔ minSecond ≤ s ∧ s ≤ maxSecond := by
  rw [inCalendar, decide_eq_true_eq]

/-- What lies between two seconds of the calendar is on it. -/
theorem OnCalendar.between {a b : Int} (ha : w.OnCalendar a) (hb : w.OnCalendar b) (has : a ≤ s)
    (hsb : s ≤ b) : w.OnCalendar s := by
  obtain ⟨ha, ha'⟩ := ha
  obtain ⟨hb, hb'⟩ := hb
  rw [inCalendar_iff] at ha ha' hb hb'
  constructor
  · rw [inCalendar_iff]
    omega
  · rw [inCalendar_iff]
    omega

theorem localInstant_eq_some : localInstant w.offset s = some r ↔ w.OnCalendar s ∧ r = s := by
  unfold localInstant OnCalendar
  split
  · rename_i h
    exact ⟨fun heq => ⟨h, (Option.some.inj heq).symm⟩, fun h => congrArg some h.2.symm⟩
  · rename_i h
    exact ⟨nofun, fun heq => absurd heq.1 h⟩

theorem localInstant_some (h : w.OnCalendar s) : localInstant w.offset s = some s :=
  localInstant_eq_some.mpr ⟨h, rfl⟩

theorem atHour_opens (h : w.startHour < 24) : atHour day w.startHour = some (w.opens day) := by
  rw [atHour, if_pos h]
  rfl

/-- The day after a day that closes on the calendar is on the calendar when it is needed. -/
theorem endOf_closes (h24 : w.endHour ≤ 24) (hday : w.endHour = 24 → day < maxDay) :
    w.endOf day = some (w.closes day) := by
  unfold endOf closes
  split
  · rename_i heq
    rw [succDay, if_pos (hday heq), heq]
    change atHour (day + 1) 0 = _
    rw [atHour, if_pos (by decide)]
    exact congrArg some (by omega)
  · rename_i hne
    rw [atHour, if_pos (by omega)]

theorem OnCalendar.lt_maxDay (h : w.OnCalendar (w.closes day)) (h24 : w.endHour = 24) :
    day < maxDay := by
  have hle := (inCalendar_iff.mp h.1).2
  unfold closes at hle
  have hmax : maxDay = maxSecond / 86400 := rfl
  rw [hmax]
  omega

theorem OnCalendar.endOf (h : w.OnCalendar (w.closes day)) (h24 : w.endHour ≤ 24) :
    w.endOf day = some (w.closes day) := endOf_closes h24 h.lt_maxDay

theorem OnCalendar.dayOf_le (h : w.OnCalendar s) : dayOf s ≤ maxDay :=
  Int.ediv_le_ediv (by decide) (inCalendar_iff.mp h.1).2

end Calendar

/-! ### The next working instant -/

section NextInstant

variable {day t c : Int}

/-- The loop stops at the first working second from `t` on, if it stops. -/
theorem workingInstantFrom_first (hw : w.startHour < w.endHour) (h24 : w.endHour ≤ 24) (fuel : Nat)
    (hday : dayOf t ≤ day) (h : w.workingInstantFrom w.offset t fuel day = some c) :
    t ≤ c ∧ w.Working c ∧ (c = t ∨ c = w.opens (dayOf c)) ∧
      ∀ s, t ≤ s → day * 86400 ≤ s → s < c → ¬ w.Working s := by
  induction fuel generalizing day with
  | zero => simp [workingInstantFrom] at h
  | succ fuel ih =>
      have hnext : dayOf t ≤ day + 1 := by omega
      rw [workingInstantFrom] at h
      -- no second of this day from `t` on is working time
      have hskip : (∀ s, t ≤ s → dayOf s = day → ¬ w.Working s) →
          w.workingInstantFrom w.offset t fuel (day + 1) = some c →
          t ≤ c ∧ w.Working c ∧ (c = t ∨ c = w.opens (dayOf c)) ∧
            ∀ s, t ≤ s → day * 86400 ≤ s → s < c → ¬ w.Working s := by
        intro hidle hrest
        obtain ⟨hle, hwork, hstarts, hrest⟩ := ih hnext hrest
        refine ⟨hle, hwork, hstarts, fun s hts hds hsc => ?_⟩
        rcases lt_or_ge s ((day + 1) * 86400) with hlt | hge
        · exact hidle s hts (dayOf_eq hds hlt)
        · exact hrest s hts hge hsc
      split at h
      · rename_i hmem
        obtain ⟨start, hstart, h⟩ := Option.bind_eq_some_iff.mp h
        obtain ⟨stop, hstop, h⟩ := Option.bind_eq_some_iff.mp h
        obtain rfl : start = w.opens day := (atHour_eq hstart).1
        obtain rfl : stop = w.closes day := endOf_eq hstop
        split at h
        · rename_i hlt
          obtain ⟨-, rfl⟩ := localInstant_eq_some.mp h
          have hdayOf : dayOf (w.opens day) = day := (atHour_eq hstart).2
          refine ⟨hlt.le, working_of_day h24 hmem le_rfl (opens_lt_closes hw),
            Or.inr (by rw [hdayOf]), fun s _ hds hsc hs => ?_⟩
          have hsday : dayOf s = day :=
            dayOf_eq hds (hsc.trans ((opens_lt_closes hw).trans_le (closes_le h24)))
          exact absurd (hsday ▸ hs.2.1) (not_le.mpr hsc)
        · rename_i hge
          split at h
          · rename_i hlt
            obtain rfl := Option.some.inj h
            exact ⟨le_rfl, working_of_day h24 hmem (not_lt.mp hge) hlt, Or.inl rfl,
              fun s hts _ hsc => absurd hts (not_le.mpr hsc)⟩
          · rename_i hover
            refine hskip (fun s hts hsday hs => ?_) h
            exact absurd (hsday ▸ hs.2.2) (not_lt.mpr ((not_lt.mp hover).trans hts))
      · rename_i hmem
        exact hskip (fun s _ hsday hs => hmem (hsday ▸ hs.1)) h

theorem workingInstantOrAfter_first (hw : w.startHour < w.endHour) (h24 : w.endHour ≤ 24)
    (h : w.workingInstantOrAfter w.offset t = some c) : w.FirstWorking t c := by
  obtain ⟨hle, hwork, hstarts, hidle⟩ := workingInstantFrom_first hw h24 _ le_rfl h
  exact ⟨hle, hwork, fun s hts => hidle s hts (dayOf_le.trans hts), hstarts⟩

/-- The loop reaches a working day that closes after `t`. -/
theorem workingInstantFrom_isSome (hw : w.startHour < w.endHour) (h24 : w.endHour ≤ 24) {last : Int}
    (hlast : weekday last ∈ w.days) (hcloses : w.OnCalendar (w.closes last)) (ht : w.OnCalendar t)
    (hlt : t < w.closes last) (fuel : Nat) (hle : day ≤ last) (hfuel : last - day < fuel) :
    ∃ c, w.workingInstantFrom w.offset t fuel day = some c := by
  induction fuel generalizing day with
  | zero => omega
  | succ fuel ih =>
      rw [workingInstantFrom]
      have hrest : day ≠ last → ∃ c, w.workingInstantFrom w.offset t fuel (day + 1) = some c :=
        fun hne => ih (by omega) (by omega)
      split
      · rename_i hmem
        have hmax : w.endHour = 24 → day < maxDay := fun heq =>
          lt_of_le_of_lt hle (hcloses.lt_maxDay heq)
        rw [atHour_opens (by omega), endOf_closes h24 hmax]
        simp only [Option.bind_eq_bind, Option.bind_some]
        split
        · rename_i hopen
          have hmono : w.opens day ≤ w.closes last := by
            unfold opens closes
            omega
          exact ⟨_, localInstant_some (ht.between hcloses hopen.le hmono)⟩
        · split
          · exact ⟨t, rfl⟩
          · rename_i hover
            exact hrest fun heq => hover (heq ▸ hlt)
      · rename_i hmem
        exact hrest fun heq => hmem (heq ▸ hlast)

theorem workingInstantOrAfter_isSome (hw : w.startHour < w.endHour) (h24 : w.endHour ≤ 24)
    {last : Int} (hlast : weekday last ∈ w.days) (hcloses : w.OnCalendar (w.closes last))
    (ht : w.OnCalendar t) (hlt : t < w.closes last) :
    ∃ c, w.workingInstantOrAfter w.offset t = some c := by
  have hle : dayOf t ≤ last := by
    have hday := hlt.trans_le (closes_le h24)
    unfold dayOf
    omega
  have hmax : last ≤ maxDay := by
    rcases h24.lt_or_eq with h | h
    · have hday : dayOf (w.closes last) = last := by
        refine dayOf_eq (opens_ge.trans (opens_lt_closes hw).le) ?_
        unfold closes
        omega
      exact hday ▸ hcloses.dayOf_le
    · exact (hcloses.lt_maxDay h).le
  refine workingInstantFrom_isSome hw h24 hlast hcloses ht hlt _ hle ?_
  unfold daysLeft
  omega

end NextInstant

/-! ### Spending minutes -/

section Spend

variable {cursor remaining c r x : Int}

/-- One turn of the loop: it ends on the day of the cursor or goes on from a minute after. -/
theorem spend_succ_eq_some {fuel : Nat} (h24 : w.endHour ≤ 24)
    (hle : cursor ≤ w.closes (dayOf cursor)) (h1 : 1 ≤ remaining) (h63 : remaining < 2 ^ 63) :
    w.spend w.offset (fuel + 1) cursor remaining = some r ↔
      w.OnCalendar (w.closes (dayOf cursor)) ∧
        (remaining * 60 ≤ w.closes (dayOf cursor) - cursor ∧ w.OnCalendar r ∧
            r = cursor + remaining * 60 ∨
          w.closes (dayOf cursor) - cursor < remaining * 60 ∧
            w.OnCalendar (w.closes (dayOf cursor) + 60) ∧
              ∃ c, w.workingInstantOrAfter w.offset (w.closes (dayOf cursor) + 60) = some c ∧
                w.spend w.offset fuel c (remaining - (w.closes (dayOf cursor) - cursor) / 60) =
                  some r) := by
  have hdiv : (w.closes (dayOf cursor) - cursor).tdiv 60 =
      (w.closes (dayOf cursor) - cursor) / 60 := Int.tdiv_eq_ediv_of_nonneg (by omega)
  have hwrap : ¬ remaining ≤ (w.closes (dayOf cursor) - cursor) / 60 →
      wrapI64 (remaining - (w.closes (dayOf cursor) - cursor) / 60) =
        remaining - (w.closes (dayOf cursor) - cursor) / 60 := fun _ =>
    wrapI64_of_range (by omega) (by omega)
  rw [spend]
  -- The two exits of the loop: the budget ends today, or the next working instant takes the rest of
  -- it.
  constructor
  · intro h
    obtain ⟨stop, hstop, h⟩ := Option.bind_eq_some_iff.mp h
    obtain ⟨stop', hlocal, h⟩ := Option.bind_eq_some_iff.mp h
    obtain rfl : stop = w.closes (dayOf cursor) := endOf_eq hstop
    obtain ⟨hcalendar, rfl⟩ := localInstant_eq_some.mp hlocal
    refine ⟨hcalendar, ?_⟩
    dsimp only at h
    rw [hdiv] at h
    split at h
    · obtain ⟨hr, rfl⟩ := localInstant_eq_some.mp h
      exact Or.inl ⟨by omega, hr, rfl⟩
    · rename_i hover
      obtain ⟨next, hlocal', hrec⟩ := Option.bind_eq_some_iff.mp h
      obtain ⟨c, hc, hrest⟩ := Option.bind_eq_some_iff.mp hrec
      obtain ⟨hnext, rfl⟩ := localInstant_eq_some.mp hlocal'
      rw [hwrap hover] at hrest
      exact Or.inr ⟨by omega, hnext, c, hc, hrest⟩
  · rintro ⟨hcalendar, h⟩
    rw [hcalendar.endOf h24]
    simp only [Option.bind_eq_bind, Option.bind_some, localInstant_some hcalendar, hdiv]
    rcases h with ⟨hlast, hr, rfl⟩ | ⟨hover, hnext, c, hc, h⟩
    · rw [if_pos (by omega), localInstant_some hr]
    · have hover' : ¬ remaining ≤ (w.closes (dayOf cursor) - cursor) / 60 := by omega
      rw [if_neg hover', localInstant_some hnext]
      simp only [Option.bind_some, hc, hwrap hover', h]

/-- The first working second from before a seam on lies before the seam. -/
theorem FirstWorking.lt_seam {day t : Int} (h : w.FirstWorking t c) (hseam : w.Seam day)
    (ht : t < day * 86400) : c < day * 86400 := by
  obtain ⟨hstart, hend, hprev, -⟩ := hseam
  have hworking : w.Working (day * 86400 - 1) := by
    refine working_of_day hend.le hprev ?_ ?_
    · unfold opens
      rw [hstart]
      omega
    · unfold closes
      rw [hend]
      omega
  have hle := h.le_of_working (by omega) hworking
  omega

/-- A walk spends what is left of the day it starts on. -/
theorem walked_day (h24 : w.endHour ≤ 24) (hc : w.Working cursor) (hle : cursor ≤ x)
    (hx : x ≤ w.closes (dayOf cursor)) : w.walked cursor x = x - cursor := by
  refine Elapsed.count_all hle fun s hcs hsx => ?_
  refine ⟨working_of_day h24 hc.1 (hc.2.1.trans hcs) (hsx.trans_le hx), fun hseam => ?_⟩
  have hday := @closes_le w (dayOf cursor) h24
  have hcursor := hseam.2.1
  unfold dayOf at *
  omega

/-- Before the first working second there is nothing to spend. -/
theorem FirstWorking.walked_eq {t : Int} (h : w.FirstWorking t c) (hle : c ≤ x) :
    w.walked t x = w.walked c x := by
  have hidle : Elapsed.count (w.Spent t) t c = 0 :=
    Elapsed.count_none fun s hts hsc hs => h.idle s hts hsc hs.1
  rw [walked, ← Elapsed.count_add h.le hle, hidle, zero_add]
  refine Elapsed.count_congr fun s hcs _ => and_congr_right fun _ => not_congr ?_
  refine and_congr_right fun hseam => and_congr_left fun _ => ?_
  exact ⟨fun ht => h.lt_seam hseam ht, fun hc => lt_of_le_of_lt h.le hc⟩

/-- A turn that goes on spends the rest of its day, and the next one starts afresh. -/
theorem walked_turn (h24 : w.endHour ≤ 24) (hc : w.Working cursor)
    (hnext : w.FirstWorking (w.closes (dayOf cursor) + 60) c) (hx : c ≤ x) :
    w.walked cursor x = w.closes (dayOf cursor) - cursor + w.walked c x := by
  have hbefore := hc.2.2
  have hle := hnext.le
  have hcursor := @dayOf_le cursor
  have hday := walked_day h24 hc hbefore.le le_rfl
  -- a seam right at the end of the day hides the minute after it
  have hminute : Elapsed.count (w.Spent cursor) (w.closes (dayOf cursor))
      (w.closes (dayOf cursor) + 60) = 0 := by
    refine Elapsed.count_none fun s hs hlt hspent => hspent.2 ?_
    obtain ⟨hmem, hopen, hclose⟩ := hspent.1
    have hmidnight := @lt_dayOf cursor
    obtain ⟨hend, hnext⟩ : w.endHour = 24 ∧ dayOf s = dayOf cursor + 1 := by
      unfold closes opens at *
      unfold dayOf at *
      omega
    rw [hnext] at hmem hopen ⊢
    unfold closes at hs hlt
    unfold opens at hopen
    exact ⟨⟨by omega, hend, by rw [add_sub_cancel_right]; exact hc.1, hmem⟩, hmidnight, by omega⟩
  have hrest : Elapsed.count (w.Spent cursor) (w.closes (dayOf cursor) + 60) x = w.walked c x := by
    have hfresh : Elapsed.count (w.Spent cursor) (w.closes (dayOf cursor) + 60) x =
        w.walked (w.closes (dayOf cursor) + 60) x := by
      refine Elapsed.count_congr fun s hs _ => and_congr_right fun _ => not_congr ?_
      refine and_congr_right fun hseam => ?_
      unfold closes at hs ⊢
      unfold dayOf at *
      omega
    rw [hfresh, hnext.walked_eq hx]
  rw [walked] at hday
  rw [walked, ← Elapsed.count_add (hbefore.le.trans (by omega)) (hle.trans hx),
    ← Elapsed.count_add hbefore.le (by omega), hday, hminute, hrest, add_zero]

/-- What is spent between two whole minutes. -/
theorem dvd_walked {t x : Int} (ht : 60 ∣ t) (hx : 60 ∣ x) : 60 ∣ w.walked t x := by
  rcases le_total t x with htx | hxt
  · have hminute : ∀ s, w.Spent t s ↔ w.Spent t (s / 60 * 60) := fun s => by
      have hday : dayOf (s / 60 * 60) = dayOf s := by
        unfold dayOf
        omega
      unfold Spent
      rw [hday]
      refine and_congr working_minute
        (not_congr (and_congr_right fun _ => and_congr_right fun _ => ?_))
      constructor
      · intro h
        omega
      · intro h
        omega
    obtain ⟨m, rfl⟩ := ht
    obtain ⟨n, rfl⟩ := hx
    have hblocks := Elapsed.count_blocks (by decide) hminute (a := m) (b := n) (by omega)
    rwa [mul_comm m 60, mul_comm n 60] at hblocks
  · rw [walked, Elapsed.count_of_le hxt]
    exact Int.dvd_zero 60

theorem le_of_walked_pos {t x : Int} (h : 0 < w.walked t x) : t < x := by
  by_contra hle
  rw [walked, Elapsed.count_of_le (not_lt.mp hle)] at h
  exact lt_irrefl _ h

/-- A walk that returns has spent what it was asked to by the end of the day it returns on. -/
theorem spend_room (hw : w.startHour < w.endHour) (h24 : w.endHour ≤ 24) (fuel : Nat)
    (hc : w.Working cursor) (h1 : 1 ≤ remaining) (h63 : remaining < 2 ^ 63)
    (h : w.spend w.offset fuel cursor remaining = some r) :
    ∃ day, weekday day ∈ w.days ∧ w.OnCalendar (w.closes day) ∧
      remaining * 60 ≤ w.walked cursor (w.closes day) := by
  induction fuel generalizing cursor remaining with
  | zero => simp [spend] at h
  | succ fuel ih =>
      have hbefore := hc.2.2
      obtain ⟨hcalendar, h⟩ := (spend_succ_eq_some h24 hbefore.le h1 h63).mp h
      rcases h with ⟨hlast, -, -⟩ | ⟨hover, -, c, hnext, h⟩
      · refine ⟨dayOf cursor, hc.1, hcalendar, ?_⟩
        rw [walked_day h24 hc hbefore.le le_rfl]
        exact hlast
      · have hfirst := workingInstantOrAfter_first hw h24 hnext
        obtain ⟨day, hday, hcloses, hroom⟩ := ih hfirst.working (by omega) (by omega) h
        have hlt := @le_of_walked_pos w c (w.closes day) (by omega)
        refine ⟨day, hday, hcloses, ?_⟩
        rw [walked_turn h24 hc hfirst hlt.le]
        omega

/-- A walk returns when it can spend what it is asked to before the calendar ends. -/
theorem spend_isSome (hw : w.startHour < w.endHour) (h24 : w.endHour ≤ 24) {last : Int}
    (hlast : weekday last ∈ w.days) (hcloses : w.OnCalendar (w.closes last)) (fuel : Nat)
    (hc : w.Working cursor) (hcalendar : w.OnCalendar cursor) (h1 : 1 ≤ remaining)
    (h63 : remaining < 2 ^ 63) (hroom : remaining * 60 ≤ w.walked cursor (w.closes last))
    (hfuel : daysLeft (dayOf cursor) < fuel) :
    ∃ r, w.spend w.offset fuel cursor remaining = some r := by
  -- On the days still left before the last one, which the fuel exceeds: either the budget ends
  -- today, or a later working day takes what is left.
  induction fuel generalizing cursor remaining with
  | zero => omega
  | succ fuel ih =>
      have hbefore := hc.2.2
      have hlt : cursor < w.closes last := @le_of_walked_pos w _ _ (by omega)
      have hday : dayOf cursor ≤ last := by
        have hcursor := hlt.trans_le (closes_le h24)
        unfold dayOf
        omega
      have hmono : w.closes (dayOf cursor) ≤ w.closes last := by
        unfold closes
        omega
      have hstop := hcalendar.between hcloses hbefore.le hmono
      by_cases hend : remaining * 60 ≤ w.closes (dayOf cursor) - cursor
      · have hr : w.OnCalendar (cursor + remaining * 60) :=
          hcalendar.between hstop (by omega) (by omega)
        exact ⟨_, (spend_succ_eq_some h24 hbefore.le h1 h63).mpr
          ⟨hstop, Or.inl ⟨hend, hr, rfl⟩⟩⟩
      · have hover := not_le.mp hend
        have hne : dayOf cursor ≠ last := by
          rintro rfl
          rw [walked_day h24 hc hbefore.le le_rfl] at hroom
          omega
        have hahead : w.closes (dayOf cursor) + 60 < w.closes last := by
          unfold closes
          omega
        have hnext : w.OnCalendar (w.closes (dayOf cursor) + 60) :=
          hstop.between hcloses (by omega) hahead.le
        obtain ⟨c, hstarts⟩ :=
          workingInstantOrAfter_isSome hw h24 hlast hcloses hnext hahead
        have hfirst := workingInstantOrAfter_first hw h24 hstarts
        have hle := hfirst.le
        have hopen := @opens_lt_closes w last hw
        have hlastWorking : w.Working (w.closes last - 1) :=
          working_of_day h24 hlast (Int.le_sub_one_of_lt hopen) (Int.sub_one_lt_of_le le_rfl)
        have hclast : c ≤ w.closes last - 1 := hfirst.le_of_working (by omega) hlastWorking
        have hcle : c ≤ w.closes last := by omega
        have hturn := walked_turn h24 hc hfirst hcle
        -- The next working instant is on a later day, so a day's worth of fuel is enough for the
        -- day spent.
        have hlater : dayOf cursor < dayOf c := by
          by_contra hsame
          have hsame : dayOf c ≤ dayOf cursor := not_lt.mp hsame
          have hclose := hfirst.working.2.2
          unfold closes at hclose hle
          omega
        have hmax := hcalendar.dayOf_le
        have haligned : 60 ∣ c := hfirst.dvd (Int.dvd_add dvd_closes (Int.dvd_refl 60))
        have hdvd : 60 ∣ w.walked c (w.closes last) := dvd_walked haligned dvd_closes
        have hrest : (remaining - (w.closes (dayOf cursor) - cursor) / 60) * 60 ≤
            w.walked c (w.closes last) := by omega
        obtain ⟨r, hr⟩ := ih hfirst.working (hnext.between hcloses hle hcle) (by omega)
          (by omega) hrest (by unfold daysLeft at *; omega)
        exact ⟨r, (spend_succ_eq_some h24 hbefore.le h1 h63).mpr
          ⟨hstop, Or.inr ⟨hover, hnext, c, hstarts, hr⟩⟩⟩

end Spend

/-! ### The deadline -/

section Deadline

variable {now minutes r : Int}

theorem onCalendar_now : w.OnCalendar (now + w.offset) ↔
    inCalendar now = true ∧ inCalendar (now + w.offset) = true := by
  rw [OnCalendar, add_sub_cancel_right]
  exact and_comm

theorem timezone_eq_some {offset : Int} : w.timezone = some offset ↔ w.HasZone ∧
    offset = w.offset := by
  change (if w.HasZone then some w.offset else none) = some offset ↔ _
  split
  · rename_i h
    exact ⟨fun heq => ⟨h, (Option.some.inj heq).symm⟩, fun heq => congrArg some heq.2.symm⟩
  · rename_i h
    exact ⟨nofun, fun heq => absurd heq.1 h⟩

theorem deadline_eq_some : w.deadline now minutes = some r ↔
    w.HasZone ∧ w.OnCalendar (now + w.offset) ∧
      ∃ c, w.workingInstantOrAfter w.offset (now + w.offset) = some c ∧
        w.spend w.offset (daysLeft (dayOf c) + 1) c minutes = some (r + w.offset) := by
  unfold deadline
  constructor
  · intro h
    obtain ⟨now', hnow, hrest⟩ := Option.bind_eq_some_iff.mp h
    obtain rfl : now = now' := by
      unfold utc at hnow
      split at hnow
      · exact Option.some.inj hnow
      · cases hnow
    obtain ⟨offset, htimezone, hlocal⟩ := Option.bind_eq_some_iff.mp hrest
    obtain ⟨hzone, rfl⟩ := timezone_eq_some.mp htimezone
    obtain ⟨t, ht, hwalk⟩ := Option.bind_eq_some_iff.mp hlocal
    obtain ⟨hcalendar, rfl⟩ := localInstant_eq_some.mp ht
    obtain ⟨c, hc, hspend⟩ := Option.bind_eq_some_iff.mp hwalk
    obtain ⟨reached, hreached, hr⟩ := Option.bind_eq_some_iff.mp hspend
    obtain rfl := Option.some.inj hr
    exact ⟨hzone, hcalendar, c, hc, by rwa [sub_add_cancel]⟩
  · rintro ⟨hzone, hcalendar, c, hc, hreached⟩
    rw [utc, if_pos (onCalendar_now.mp hcalendar).1, timezone_eq_some.mpr ⟨hzone, rfl⟩]
    simp only [Option.bind_eq_bind, Option.bind_some, localInstant_some hcalendar, hc, hreached,
      add_sub_cancel_right]

/-- Between two seconds of the calendar there are few enough minutes to count in 64 bits. -/
theorem minutes_lt {p : Int → Prop} [DecidablePred p] {a b : Int} (ha : w.OnCalendar a)
    (hb : w.OnCalendar b) (h : minutes * 60 ≤ Elapsed.count p a b) : minutes < 2 ^ 63 := by
  have hstart := (inCalendar_iff.mp ha.1).1
  have hend := (inCalendar_iff.mp hb.1).2
  have hmin : minSecond = -8334601228800 := rfl
  have hmax : maxSecond = 8210266876799 := rfl
  rcases le_total a b with hab | hba
  · have hcount : Elapsed.count p a b ≤ b - a := Elapsed.count_le hab
    omega
  · rw [Elapsed.count_of_le hba] at h
    omega

/-- A deadline that is reached starts and ends on the calendar. -/
theorem deadline_onCalendar (h : w.deadline now minutes = some r) :
    minSecond ≤ now ∧ now ≤ maxSecond ∧ r ≤ maxSecond := by
  obtain ⟨-, hstart, c, -, hreached⟩ := deadline_eq_some.mp h
  obtain ⟨hlow, hhigh⟩ := inCalendar_iff.mp (onCalendar_now.mp hstart).1
  have hend := spend_utc _ hreached
  exact ⟨hlow, hhigh, by omega⟩

/-- A deadline is reached exactly when there is room for it on the calendar. -/
theorem deadline_isSome_iff (hw : w.startHour < w.endHour) (h24 : w.endHour ≤ 24)
    (hm : 1 ≤ minutes) (h63 : minutes < 2 ^ 63) :
    (w.deadline now minutes).isSome = true ↔ w.HasZone ∧ w.Room now minutes := by
  rw [Option.isSome_iff_exists]
  constructor
  · rintro ⟨r, hr⟩
    obtain ⟨hzone, hstart, c, hc, hreached⟩ := deadline_eq_some.mp hr
    have hfirst := workingInstantOrAfter_first hw h24 hc
    obtain ⟨day, hday, hcloses, hroom⟩ := spend_room hw h24 _ hfirst.working hm h63 hreached
    have hlt := @le_of_walked_pos w c (w.closes day) (by omega)
    exact ⟨hzone, hstart, day, hday, hcloses, by rwa [hfirst.walked_eq hlt.le]⟩
  · rintro ⟨hzone, hstart, day, hday, hcloses, hroom⟩
    have hlt := @le_of_walked_pos w (now + w.offset) (w.closes day) (by omega)
    obtain ⟨c, hc⟩ := workingInstantOrAfter_isSome hw h24 hday hcloses hstart hlt
    have hfirst := workingInstantOrAfter_first hw h24 hc
    have hcday : c ≤ w.closes day := by
      by_contra hgt
      have hnone : w.walked (now + w.offset) (w.closes day) = 0 := Elapsed.count_none
        fun s hs hsd hspent => hfirst.idle s hs (hsd.trans (not_le.mp hgt)) hspent.1
      omega
    rw [hfirst.walked_eq hcday] at hroom
    obtain ⟨reached, hreached⟩ := spend_isSome hw h24 hday hcloses (daysLeft (dayOf c) + 1)
      hfirst.working (hstart.between hcloses hfirst.le hcday) hm h63 hroom (Nat.lt_succ_self _)
    exact ⟨reached - w.offset, deadline_eq_some.mpr
      ⟨hzone, hstart, c, hc, by rwa [sub_add_cancel]⟩⟩

end Deadline

end Marbles.WorkWeek
