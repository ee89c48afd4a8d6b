import Marbles.Lib.Sort
import Mathlib.Data.List.Perm.Basic
import Mathlib.Data.List.Induction
import Mathlib.Algebra.BigOperators.Group.List.Basic
import Mathlib.Algebra.Order.Ring.Int

/-!
# The most intervals that overlap

Half-open intervals become events: one more at the start, one less at the end. Sorted by time,
with ends before starts, the running sum of the events is swept for its maximum. After the
events up to an instant the sum is the number of intervals around it, so the maximum is
reached; and a sum right after a start is never more than the number of intervals around that
start, since only starts can follow at the same time.

The order of events at one instant is part of the definition, since half-open intervals that touch
do not overlap. The maximum of the running sum starts from 0, so that no events give 0.
-/

namespace Sweep

open Sorting (sortOn)

/-- `+1` where an interval starts, `-1` where it ends. -/
def events (intervals : List (Int × Int)) : List (Int × Int) :=
  intervals.flatMap fun interval => [(interval.1, 1), (interval.2, -1)]

/-- One event of the sweep: the running sum, and the greatest so far. -/
def step (st : Int × Int) (event : Int × Int) : Int × Int :=
  (st.1 + event.2, max st.2 (st.1 + event.2))

/-- The greatest running sum over the events in order of time, ends first. -/
def peak (intervals : List (Int × Int)) : Int :=
  ((sortOn (fun event => toLex (event.1, event.2)) (events intervals)).foldl step (0, 0)).2

/-- How many intervals contain the instant. -/
def around (intervals : List (Int × Int)) (time : Int) : Nat :=
  intervals.countP fun interval => interval.1 ≤ time ∧ time < interval.2

/-- The sum of all events. -/
def total (evs : List (Int × Int)) : Int := (evs.map Prod.snd).sum

@[simp] theorem total_append (evs evs' : List (Int × Int)) :
    total (evs ++ evs') = total evs + total evs' := by
  simp [total]

/-- The events up to an instant leave the intervals around it. -/
theorem total_events {intervals : List (Int × Int)} (h : ∀ i ∈ intervals, i.1 < i.2) (time : Int) :
    total ((events intervals).filter fun event => event.1 ≤ time) = around intervals time := by
  induction intervals with
  | nil => rfl
  | cons i intervals ih =>
      have hi := h i (List.mem_cons_self ..)
      have hrest := ih fun j hj => h j (List.mem_cons_of_mem _ hj)
      have hcons : events (i :: intervals) = [(i.1, 1), (i.2, -1)] ++ events intervals := rfl
      rw [hcons, List.filter_append, total_append, hrest, around, around, List.countP_cons]
      by_cases hstart : i.1 ≤ time
      · by_cases hend : i.2 ≤ time
        · simp [total, hstart, hend, Int.not_lt.mpr hend]
        · simp [total, hstart, hend, Int.not_le.mp hend]
          omega
      · have hend : ¬ i.2 ≤ time := by omega
        simp [total, hstart, hend]

@[simp]
theorem sum_foldl_step (evs : List (Int × Int)) : (evs.foldl step (0, 0)).1 = total evs := by
  induction evs using List.reverseRecOn with
  | nil => rfl
  | append_singleton evs event ih =>
      rw [List.foldl_append, List.foldl_cons, List.foldl_nil, step, ih, total_append]
      simp [total]

theorem foldl_step_snoc (evs : List (Int × Int)) (event : Int × Int) :
    ((evs ++ [event]).foldl step (0, 0)).2 =
      max (evs.foldl step (0, 0)).2 (total (evs ++ [event])) := by
  rw [← sum_foldl_step, List.foldl_append]
  rfl

/-- No running sum exceeds the peak. -/
theorem total_le_foldl (evs evs' : List (Int × Int)) :
    total evs ≤ ((evs ++ evs').foldl step (0, 0)).2 := by
  induction evs' using List.reverseRecOn with
  | nil =>
      rw [List.append_nil]
      rcases List.eq_nil_or_concat evs with rfl | ⟨evs, event, rfl⟩
      · exact Int.le_refl 0
      · rw [List.concat_eq_append, foldl_step_snoc]
        exact Int.le_max_right ..
  | append_singleton evs' event ih =>
      rw [← List.append_assoc, foldl_step_snoc]
      exact Int.le_trans ih (Int.le_max_left ..)

theorem mem_events {intervals : List (Int × Int)} {event : Int × Int}
    (h : event ∈ events intervals) : event.2 = 1 ∨ event.2 = -1 := by
  obtain ⟨i, -, hi⟩ := List.mem_flatMap.mp h
  simp only [List.mem_cons, List.not_mem_nil, or_false] at hi
  rcases hi with rfl | rfl
  · exact Or.inl rfl
  · exact Or.inr rfl

theorem total_nonneg {evs : List (Int × Int)} (h : ∀ event ∈ evs, 0 ≤ event.2) : 0 ≤ total evs := by
  induction evs with
  | nil => exact Int.le_refl 0
  | cons event evs ih =>
      have hrest := ih fun e he => h e (List.mem_cons_of_mem _ he)
      have hhead := h event (List.mem_cons_self ..)
      simp only [total, List.map_cons, List.sum_cons] at hrest ⊢
      omega

/-- In order of time, the events up to an instant come first. -/
theorem filter_append_filter {evs : List (Int × Int)} (h : evs.Pairwise fun a b => a.1 ≤ b.1)
    (time : Int) : (evs.filter fun event => event.1 ≤ time) ++
      (evs.filter fun event => ¬ event.1 ≤ time) = evs := by
  induction evs with
  | nil => rfl
  | cons event evs ih =>
      obtain ⟨hfirst, hrest⟩ := List.pairwise_cons.mp h
      by_cases hevent : event.1 ≤ time
      · simpa [hevent] using ih hrest
      · have hlate : ∀ e ∈ evs, ¬ e.1 ≤ time := fun e he hle => hevent ((hfirst e he).trans hle)
        have hnone : evs.filter (fun e => e.1 ≤ time) = [] :=
          List.filter_eq_nil_iff.mpr fun e he => by simpa using hlate e he
        have hall : evs.filter (fun e => ¬ e.1 ≤ time) = evs :=
          List.filter_eq_self.mpr fun e he => by simpa using hlate e he
        rw [List.filter_cons_of_neg (by simpa using hevent),
          List.filter_cons_of_pos (by simpa using hevent), hnone, hall, List.nil_append]

section

variable {intervals sorted : List (Int × Int)} (h : ∀ i ∈ intervals, i.1 < i.2)
  (hperm : sorted.Perm (events intervals))
  (hsorted : sorted.Pairwise fun a b => toLex (a.1, a.2) ≤ toLex (b.1, b.2))

include h hperm in
theorem total_filter (time : Int) :
    total (sorted.filter fun event => event.1 ≤ time) = around intervals time := by
  rw [← total_events h time]
  exact ((hperm.filter _).map Prod.snd).sum_eq

include hsorted in
theorem pairwise_times : sorted.Pairwise fun a b => a.1 ≤ b.1 :=
  hsorted.imp fun hab => (Prod.Lex.toLex_le_toLex.mp hab).elim Int.le_of_lt fun h =>
    Int.le_of_eq h.1

include h hperm hsorted

theorem around_le_foldl (time : Int) : around intervals time ≤ (sorted.foldl step (0, 0)).2 := by
  rw [← total_filter h hperm time]
  nth_rewrite 2 [← filter_append_filter (pairwise_times hsorted) time]
  exact total_le_foldl _ _

/-- Right after a start no more intervals run than contain it. -/
theorem total_le_around {pre post : List (Int × Int)} {event : Int × Int}
    (hsplit : sorted = pre ++ event :: post) (hstart : event.2 = 1) :
    total (pre ++ [event]) ≤ around intervals event.1 := by
  have hsplit' : sorted = pre ++ [event] ++ post := by
    rw [hsplit, List.append_assoc, List.singleton_append]
  obtain ⟨-, htail, hbefore⟩ := List.pairwise_append.mp (hsplit ▸ hsorted)
  have hfirst : (pre ++ [event]).filter (fun e => e.1 ≤ event.1) = pre ++ [event] := by
    refine List.filter_eq_self.mpr fun e he => decide_eq_true ?_
    rcases List.mem_append.mp he with he | he
    · exact (List.pairwise_append.mp (hsplit ▸ pairwise_times hsorted)).2.2 e he event
        (List.mem_cons_self ..)
    · exact List.mem_singleton.mp he ▸ Int.le_refl _
  -- what follows at the same time are starts
  have hrest : 0 ≤ total (post.filter fun e => e.1 ≤ event.1) := by
    refine total_nonneg fun e he => ?_
    obtain ⟨hpost, htime⟩ := List.mem_filter.mp he
    have htime := of_decide_eq_true htime
    rcases Prod.Lex.toLex_le_toLex.mp ((List.pairwise_cons.mp htail).1 e hpost) with hlt | ⟨-, hle⟩
    · exact absurd htime (Int.not_le.mpr hlt)
    · rw [hstart] at hle
      exact Int.le_trans (by decide) hle
  rw [← total_filter h hperm, hsplit', List.filter_append, hfirst, total_append (pre ++ [event])]
  omega

theorem foldl_le_around {pre post : List (Int × Int)} (hsplit : sorted = pre ++ post) :
    (pre.foldl step (0, 0)).2 = 0 ∨ ∃ time, (pre.foldl step (0, 0)).2 ≤ around intervals time := by
  induction pre using List.reverseRecOn generalizing post with
  | nil => exact Or.inl rfl
  | append_singleton pre event ih =>
      rw [List.append_assoc, List.singleton_append] at hsplit
      have hpre := ih hsplit
      rw [foldl_step_snoc]
      have hevent : event ∈ events intervals :=
        hperm.mem_iff.mp (hsplit ▸ List.mem_append_right _ (List.mem_cons_self ..))
      rcases Int.le_total (total (pre ++ [event])) (pre.foldl step (0, 0)).2 with hle | hle
      · rw [Int.max_eq_left hle]
        exact hpre
      · rw [Int.max_eq_right hle]
        rcases mem_events hevent with hstart | hend
        · exact Or.inr ⟨event.1, total_le_around h hperm hsorted hsplit hstart⟩
        · -- an end cannot raise the sum
          have hsum := total_le_foldl pre []
          rw [List.append_nil] at hsum
          rw [total_append] at hle
          simp [total, hend] at hle hsum
          omega

end

/-- The peak is the greatest number of intervals around any instant. -/
theorem peak_spec {intervals : List (Int × Int)} (h : ∀ i ∈ intervals, i.1 < i.2) :
    (∀ time, around intervals time ≤ peak intervals) ∧
      ∃ time, peak intervals = around intervals time := by
  have hperm := Sorting.perm_sortOn (fun event : Int × Int => toLex (event.1, event.2))
    (events intervals)
  have hsorted := List.pairwise_map.mp
    (Sorting.pairwise_sortOn (fun event : Int × Int => toLex (event.1, event.2)) (events intervals))
  have hle := around_le_foldl h hperm hsorted
  refine ⟨hle, ?_⟩
  rcases foldl_le_around h hperm hsorted (List.append_nil _).symm with hzero | ⟨time, htime⟩
  · refine ⟨0, ?_⟩
    have h0 := hle 0
    unfold peak
    omega
  · exact ⟨time, Int.le_antisymm htime (hle time)⟩

end Sweep
