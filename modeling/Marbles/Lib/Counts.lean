import Mathlib.Algebra.BigOperators.Group.List.Lemmas
import Mathlib.Algebra.Order.Ring.Int
import Marbles.Lib.Sort

/-!
# Counting what occurs

What a query makes of a column with `COUNT(*)` and `GROUP BY`: each value that occurs, in order,
with the number of its occurrences.
-/

universe u v

namespace Sorting

variable {α : Type u} {κ : Type v} [LinearOrder κ]

def tally (l : List κ) : List (κ × Nat) := (sortOn (fun k => k) l.dedup).map fun k => (k, l.count k)

variable {l : List κ} {k : κ} {n : Nat}

/-- A value is listed with its count exactly when it occurs. -/
theorem mem_tally : (k, n) ∈ tally l ↔ n = l.count k ∧ 0 < n := by
  rw [tally, List.mem_map]
  constructor
  · intro h
    obtain ⟨k', hk', heq⟩ := h
    obtain ⟨rfl, rfl⟩ := Prod.mk.inj heq
    exact ⟨rfl, List.count_pos_iff.mpr (List.mem_dedup.mp (mem_sortOn.mp hk'))⟩
  · intro h
    obtain ⟨rfl, hpos⟩ := h
    exact ⟨k, mem_sortOn.mpr (List.mem_dedup.mpr (List.count_pos_iff.mp hpos)), rfl⟩

theorem keys_tally (l : List κ) : (tally l).map Prod.fst = sortOn (fun k => k) l.dedup := by
  rw [tally, List.map_map]
  exact List.map_id _

theorem nodup_tally (l : List κ) : ((tally l).map Prod.fst).Nodup := by
  rw [keys_tally]
  exact nodup_sortOn.mpr l.nodup_dedup

/-- The counts add up to all occurrences. -/
theorem sum_tally (l : List κ) : ((tally l).map Prod.snd).sum = l.length := by
  rw [tally, List.map_map]
  have hperm := (perm_sortOn (fun k => k) l.dedup).map fun k => l.count k
  exact hperm.sum_eq.trans (List.sum_map_count_dedup_eq_length l)

/-- The sizes of the groups are the counts of their keys. -/
theorem tally_map {key : α → κ} (l : List α) :
    tally (l.map key) = (groupOn key l).map fun g => (g.1, g.2.length) := by
  rw [tally, groupOn, List.map_map]
  refine List.map_congr_left fun k _ => ?_
  rw [Function.comp_apply, List.count, List.countP_map, List.countP_eq_length_filter]
  simp only [beq_eq_decide]
  rfl

/-- The keys of the groups are distinct. -/
theorem nodup_groupOn (key : α → κ) (l : List α) : ((groupOn key l).map Prod.fst).Nodup := by
  rw [map_fst_groupOn]
  exact nodup_sortOn.mpr (List.nodup_dedup _)

end Sorting
