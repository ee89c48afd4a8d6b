import Marbles.Deadline

/-!
# Business hours and the clock on the wall

Working time repeats every seven days. The default week has forty hours of it, so forty-eight
business hours always take longer than seven days. Away from round-the-clock weeks a later start
or a longer lease never gives an earlier deadline.

The results are about any week. Where the default week is needed (forty hours, nobody works over
midnight) it enters through `workedLocal_default` and `Seamless`, so that a deployment with
another week can be treated by proving these two for it.
-/

namespace Marbles.WorkWeek

/-- A week that someone works in, in some zone. -/
structure Valid (w : WorkWeek) : Prop where
  hours : w.startHour < w.endHour
  clock : w.endHour ≤ 24
  works : ∃ d ∈ w.days, 1 ≤ d ∧ d ≤ 7
  zone : w.HasZone

/-- Nobody works over midnight. -/
def Seamless (w : WorkWeek) : Prop := ∀ day, ¬ w.Seam day

theorem valid_default : Valid {} :=
  ⟨by decide, by decide, ⟨1, by decide, by decide, by decide⟩, by decide +kernel⟩

theorem seamless_default : Seamless {} := fun _ hseam => absurd hseam.1 (by decide)

variable {w : WorkWeek}

/-! ### The week repeats -/

section Week

variable {day s a b : Int}

@[simp] theorem weekday_add (k : Int) : weekday (day + 7 * k) = weekday day := by
  unfold weekday
  omega

@[simp] theorem working_week : w.Working (s + 604800) ↔ w.Working s := by
  have hday : dayOf (s + 604800) = dayOf s + 7 * 1 := by
    unfold dayOf
    omega
  unfold Working opens closes
  rw [hday, weekday_add]
  refine and_congr_right fun _ => ?_
  constructor
  · intro h
    omega
  · intro h
    omega

/-- Every seven days hold the same working time. -/
theorem workedLocal_week (a b : Int) :
    w.workedLocal a (a + 604800) = w.workedLocal b (b + 604800) :=
  Elapsed.count_period (by decide) (fun _ => working_week) a b

/-- The working time of a whole day. -/
theorem workedLocal_wholeDay (hw : w.startHour < w.endHour) (h24 : w.endHour ≤ 24) :
    w.workedLocal (day * 86400) ((day + 1) * 86400) =
      if weekday day ∈ w.days then w.closes day - w.opens day else 0 := by
  have hday : ∀ s, day * 86400 ≤ s → s < (day + 1) * 86400 → dayOf s = day :=
    fun s hle hlt => dayOf_eq hle hlt
  have hopens := @opens_ge w day
  have hcloses := @closes_le w day h24
  have hlt := @opens_lt_closes w day hw
  split
  · rename_i hmem
    have hbefore : w.workedLocal (day * 86400) (w.opens day) = 0 :=
      Elapsed.count_none fun s hle hopen hs => by
        have hstart := hday s hle (by omega) ▸ hs.2.1
        omega
    have hwork : w.workedLocal (w.opens day) (w.closes day) = w.closes day - w.opens day :=
      Elapsed.count_all hlt.le fun s hle hclose => working_of_day h24 hmem hle hclose
    have hafter : w.workedLocal (w.closes day) ((day + 1) * 86400) = 0 :=
      Elapsed.count_none fun s hle hend hs => by
        have hstop := hday s (by omega) hend ▸ hs.2.2
        omega
    rw [← workedLocal_add (hopens.trans hlt.le) hcloses, ← workedLocal_add hopens hlt.le, hbefore,
      hwork, hafter]
    omega
  · rename_i hmem
    exact Elapsed.count_none fun s hle hlt hs => hmem (hday s hle hlt ▸ hs.1)

/-- The working time of some days, counted from midnight. -/
theorem workedLocal_days (hw : w.startHour < w.endHour) (h24 : w.endHour ≤ 24) (n : Nat) :
    w.workedLocal (day * 86400) ((day + n) * 86400) = ((List.range n).map fun k : Nat =>
      if weekday (day + k) ∈ w.days then w.closes (day + k) - w.opens (day + k) else 0).sum := by
  induction n with
  | zero =>
      have hday : day + ((0 : Nat) : Int) = day := Int.add_zero day
      rw [hday, workedLocal, Elapsed.count_of_le le_rfl]
      rfl
  | succ n ih =>
      have hday := @workedLocal_wholeDay w (day + n) hw h24
      rw [List.range_succ, List.map_append, List.sum_append, ← ih, List.map_singleton,
        List.sum_singleton, ← hday, Nat.cast_succ, ← add_assoc]
      exact (workedLocal_add (by omega) (by omega)).symm

/-- The default week has forty hours. -/
@[simp] theorem workedLocal_default (a : Int) : workedLocal {} a (a + 604800) = 40 * 3600 := by
  rw [workedLocal_week a (4 * 86400)]
  exact @workedLocal_days {} 4 (by decide) (by decide) 7

end Week

/-! ### Later and longer -/

section Order

variable {now now' minutes minutes' r r' t c c' : Int}

theorem FirstWorking.le_first (h : w.FirstWorking t c) (h' : w.FirstWorking t' c') (ht : t ≤ t') :
    c ≤ c' := h.le_of_working (ht.trans h'.le) h'.working

theorem Seamless.not_crosses (hs : w.Seamless) : ¬ w.Crosses t minutes :=
  fun ⟨day, hseam, _⟩ => hs day hseam

/-- Starting later, the part of a minute that is left shrinks by no more than the delay. -/
theorem leftover_le (h24 : w.endHour ≤ 24) (hc : w.Working c) (hcc : c ≤ c') :
    w.leftover c minutes ≤ w.workedLocal c c' + w.leftover c' minutes := by
  have hbefore := hc.2.2
  have hnonneg := @leftover_nonneg w c' minutes
  rcases le_or_gt c' (w.closes (dayOf c)) with hle | hgt
  · have hworked := workedLocal_day h24 hc hcc hle
    have hcloses := @closes_le w (dayOf c) h24
    by_cases hmidnight : c' = w.closes (dayOf c)
    · rw [hworked]
      unfold leftover
      split <;> omega
    · have hday : dayOf c' = dayOf c := by
        have hlow := @dayOf_le c
        exact dayOf_eq (by omega) (by omega)
      rw [hworked]
      unfold leftover
      rw [hday]
      split
      · split <;> omega
      · split <;> omega
  · have hday := workedLocal_day h24 hc hbefore.le le_rfl
    have hmono : w.workedLocal c (w.closes (dayOf c)) ≤ w.workedLocal c c' :=
      Elapsed.count_mono hgt.le
    have hleft : w.leftover c minutes ≤ w.closes (dayOf c) - c := by
      unfold leftover
      split
      · omega
      · omega
    omega

/-- What a deadline has spent when nobody works over midnight. -/
theorem Seamless.spent (hs : w.Seamless) (hw : w.startHour < w.endHour) (h24 : w.endHour ≤ 24)
    (hm : 1 ≤ minutes) (h63 : minutes < 2 ^ 63) (hr : w.deadline now minutes = some r) :
    ∃ c, w.FirstWorking (now + w.offset) c ∧ c < r + w.offset ∧ w.Working (r + w.offset - 1) ∧
      w.workedLocal c (r + w.offset) = minutes * 60 + w.leftover c minutes := by
  obtain ⟨hnow, hwork, hexact, -⟩ := deadline_worked hw h24 hm h63 hr
  obtain ⟨c, hfirst, hspent⟩ := hexact hs.not_crosses
  have hle := hfirst.le_of_working (by omega) hwork
  have hlt : c < r + w.offset := by omega
  exact ⟨c, hfirst, hlt, hwork, by rw [← hfirst.workedLocal_eq hlt.le]; exact hspent⟩

/-- A later start and a longer lease give no earlier deadline. -/
theorem Seamless.deadline_mono (hs : w.Seamless) (hw : w.startHour < w.endHour)
    (h24 : w.endHour ≤ 24) (hm : 1 ≤ minutes) (hmm : minutes ≤ minutes') (h63 : minutes' < 2 ^ 63)
    (hnow : now ≤ now') (hr : w.deadline now minutes = some r)
    (hr' : w.deadline now' minutes' = some r') : r ≤ r' := by
  by_contra hearlier
  obtain ⟨c, hfirst, hlt, hwork, hspent⟩ := hs.spent hw h24 hm (by omega) hr
  obtain ⟨c', hfirst', hlt', -, hspent'⟩ := hs.spent hw h24 (hm.trans hmm) h63 hr'
  have hcc := hfirst.le_first hfirst' (by omega)
  -- the second before `r` is worked after `r'`
  have hafter : 1 ≤ w.workedLocal (r' + w.offset) (r + w.offset) := by
    rw [← @workedLocal_add w _ (r + w.offset - 1) _ (by omega) (by omega)]
    have hone : w.workedLocal (r + w.offset - 1) (r + w.offset) = _ :=
      Elapsed.count_all (by omega) fun s hs hlt => by
        obtain rfl : s = r + w.offset - 1 := by omega
        exact hwork
    have hnonneg : 0 ≤ w.workedLocal (r' + w.offset) (r + w.offset - 1) := Elapsed.count_nonneg
    omega
  have hsplit := @workedLocal_add w c c' (r' + w.offset) hcc hlt'.le
  have hsplit' := @workedLocal_add w c (r' + w.offset) (r + w.offset) (hcc.trans hlt'.le) (by omega)
  have hleft := @leftover_lt w c minutes
  have hleft' := @leftover_nonneg w c' minutes'
  have hdelay : 0 ≤ w.workedLocal c c' := Elapsed.count_nonneg
  have hsame : minutes = minutes' := by omega
  subst hsame
  have hle := @leftover_le w minutes c c' h24 hfirst.working hcc
  omega

/-- A lease of more working time than any span of the clock holds outlasts such a span. -/
theorem deadline_outlasts {span : Int} (hw : w.startHour < w.endHour) (h24 : w.endHour ≤ 24)
    (hspan : ∀ a, w.workedLocal a (a + span) < minutes * 60) (hm : 1 ≤ minutes)
    (h63 : minutes < 2 ^ 63) (hr : w.deadline now minutes = some r) : now + span < r := by
  by_contra hle
  obtain ⟨-, -, hexact, hcrossed⟩ := deadline_worked hw h24 hm h63 hr
  have hspent : minutes * 60 ≤ w.worked now r := by
    by_cases hcross : w.Crosses (now + w.offset) minutes
    · have hmore := hcrossed hcross
      omega
    · obtain ⟨c, -, hspent⟩ := hexact hcross
      have hleft := @leftover_nonneg w c minutes
      omega
  have hmono : w.worked now r ≤ w.workedLocal (now + w.offset) (now + w.offset + span) :=
    Elapsed.count_mono (by omega)
  have hfew := hspan (now + w.offset)
  omega

end Order

/-! ### The leases of the default policy -/

section Default

variable {now r : Int}

/-- The lease of a human who asks for nothing, in minutes. -/
@[simp] theorem humanExpiry_default : w.humanExpiry now {} = w.deadline now 2880 := rfl

/-- Forty-eight business hours take longer than seven days. -/
theorem humanExpiry_late (h : ({} : WorkWeek).humanExpiry now {} = some r) : now + 604800 < r :=
  deadline_outlasts (by decide) (by decide) (fun a => (workedLocal_default a).trans_lt (by decide))
    (by decide) (by decide) h

/-- A walk finds most of an hour to spend on every day that is worked. -/
theorem Valid.spent_day (hv : w.Valid) {a b t day : Int} (hday : weekday day ∈ w.days)
    (ha : a ≤ day * 86400) (hb : w.closes day ≤ b) :
    3540 ≤ Elapsed.count (w.Spent t) a b := by
  have hlt := hv.hours
  have hlong : w.opens day + 3600 ≤ w.closes day := by
    unfold opens closes
    omega
  have hmidnight := @opens_ge w day
  have hcount : w.closes day - (w.opens day + 60) ≤ Elapsed.count (w.Spent t) a b :=
    Elapsed.le_count (by omega) (by omega) hb fun s hs hclose => by
      refine ⟨working_of_day hv.clock hday (by omega) hclose, fun hseam => ?_⟩
      have hday : dayOf s = day :=
        dayOf_eq (by omega) (hclose.trans_le (closes_le hv.clock))
      have hearly := hseam.2.2
      rw [hday] at hearly
      omega
  omega

/-- It does so every week. -/
theorem Valid.walked_weeks (hv : w.Valid) {t first : Int} (ht : t ≤ first * 86400)
    (hfirst : weekday first ∈ w.days) (n : Nat) :
    (n + 1) * 3540 ≤ w.walked t (w.closes (first + 7 * n)) := by
  have hday : ∀ n : Nat, weekday (first + 7 * n) ∈ w.days := fun n => by rwa [weekday_add]
  induction n with
  | zero => exact hv.spent_day (hday 0) (by omega) le_rfl
  | succ n ih =>
      have hclock := hv.clock
      have hcloses := @closes_le w (first + 7 * n) hclock
      have hnext : 3540 ≤ Elapsed.count (w.Spent t) (w.closes (first + 7 * n))
          (w.closes (first + 7 * (n + 1 : Nat))) := hv.spent_day (hday (n + 1)) (by omega) le_rfl
      have hafter : t ≤ w.closes (first + 7 * n) := by
        unfold closes
        omega
      have hgrows : w.closes (first + 7 * n) ≤ w.closes (first + 7 * (n + 1 : Nat)) := by
        unfold closes
        omega
      have hadd := @Elapsed.count_add (w.Spent t) _ _ _ _ hafter hgrows
      unfold walked at ih ⊢
      omega

/-- There is room for the default lease in this century. -/
theorem Valid.room_default (hv : w.Valid) (h70 : 0 ≤ now) (h2100 : now < 4102444800) :
    w.Room now 2880 := by
  obtain ⟨d, hd, h1, h7⟩ := hv.works
  have hzone := hv.zone
  have hclock := hv.clock
  have hlow : minSecond = -8334601228800 := rfl
  have hhigh : maxSecond = 8210266876799 := rfl
  unfold HasZone at hzone
  -- the first such weekday after tomorrow's midnight
  obtain ⟨first, hfirst, hsoon, hlate⟩ : ∃ first, weekday first = d ∧
      dayOf (now + w.offset) < first ∧ first ≤ dayOf (now + w.offset) + 7 := by
    refine ⟨dayOf (now + w.offset) + 1 + (d - 1 - (dayOf (now + w.offset) + 4)) % 7, ?_, ?_, ?_⟩
    · unfold weekday
      omega
    · omega
    · omega
  have hcalendar : ∀ s, -86400 ≤ s → s < 4200000000 → w.OnCalendar s := fun s hs hs' => by
    constructor
    · rw [inCalendar_iff]
      omega
    · rw [inCalendar_iff]
      omega
  have hday : weekday first ∈ w.days := hfirst ▸ hd
  have hnow := @lt_dayOf (now + w.offset)
  have hnow' := @dayOf_le (now + w.offset)
  refine ⟨hcalendar _ (by omega) (by omega), first + 7 * (48 : Nat), by rwa [weekday_add],
    hcalendar _ ?_ ?_, ?_⟩
  · unfold closes
    omega
  · unfold closes
    omega
  · have hweeks := @Valid.walked_weeks w hv (now + w.offset) first (by omega) hday 48
    omega

end Default

end Marbles.WorkWeek
