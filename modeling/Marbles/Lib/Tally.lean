import Mathlib.Algebra.BigOperators.Group.List.Basic
import Marbles.Lib.Sort
import Marbles.Lib.Table

/-!
# Tallies

Tables that are filled one item at a time by updating the row of the item's key, which is made if
it is not there. What a weight of the rows adds up to grows by the same amount with every item,
whichever row it falls into.

A weight may be anything additive, so the same lemma counts items, sums a column, or counts by
condition.
-/

universe u v

namespace Table

open Sorting (sortOn)

variable {κ : Type u} {ν : Type v}

/-- What a weight of the rows adds up to. -/
def total (w : ν → Nat) (t : Table κ ν) : Nat := (t.rows.map fun r => w r.2).sum

@[simp] theorem total_empty (w : ν → Nat) : (empty : Table κ ν).total w = 0 := rfl

variable [DecidableEq κ] {w : ν → Nat} {t : Table κ ν}

theorem total_insert_new {k : κ} (h : t.find k = none) (v : ν) :
    (t.insert k v).total w = t.total w + w v := by
  rw [total, rows_insert_new h]
  simp [total]

/-- Updating a row changes the weight of that row only. -/
theorem sum_modify {k : κ} {f : ν → ν} {d : Nat} (hf : ∀ v, w (f v) = w v + d) (l : List (κ × ν))
    (hnodup : (l.map Prod.fst).Nodup) (hk : k ∈ l.map Prod.fst) :
    (l.map fun r => w (if r.1 = k then f r.2 else r.2)).sum = (l.map fun r => w r.2).sum + d := by
  induction l with
  | nil => simp at hk
  | cons r l ih =>
      rw [List.map_cons, List.nodup_cons] at hnodup
      rw [List.map_cons, List.map_cons, List.sum_cons, List.sum_cons]
      by_cases hr : r.1 = k
      · subst hr
        have hrest : l.map (fun r' => w (if r'.1 = r.1 then f r'.2 else r'.2)) =
            l.map fun r' => w r'.2 := by
          refine List.map_congr_left fun r' hr' => ?_
          have hne : r'.1 ≠ r.1 := fun heq => hnodup.1 (heq ▸ List.mem_map_of_mem hr')
          rw [if_neg hne]
        rw [hrest, if_pos rfl, hf]
        omega
      · have hmem : k ∈ l.map Prod.fst :=
          (List.mem_cons.mp hk).resolve_left fun heq => hr heq.symm
        rw [ih hnodup.2 hmem, if_neg hr]
        omega

/-- Every item adds the same amount. -/
theorem total_upsert {k : κ} {v : ν} {f : ν → ν} {d : Nat} (hv : w v = d)
    (hf : ∀ v, w (f v) = w v + d) : (t.upsert k v f).total w = t.total w + d := by
  by_cases hk : k ∈ t.keys
  · rw [upsert, if_pos hk, total, modify, mapRows, List.map_map]
    exact sum_modify hf t.rows t.nodup hk
  · rw [upsert, if_neg hk, total_insert_new (find_eq_none.mpr hk), hv]

theorem total_eq_zero (h : ∀ k v, t.find k = some v → w v = 0) : t.total w = 0 := by
  refine List.sum_eq_zero fun n hn => ?_
  obtain ⟨r, hr, rfl⟩ := List.mem_map.mp hn
  exact h r.1 r.2 (mem_rows.mp hr)

/-! ### In the order of the keys -/

section Entries

variable [LinearOrder κ]

/-- The rows in the order of their keys. -/
def entries (t : Table κ ν) : List (κ × ν) := sortOn Prod.fst t.rows

omit [DecidableEq κ] in
theorem entries_perm (t : Table κ ν) : t.entries.Perm t.rows := Sorting.perm_sortOn _ _

omit [DecidableEq κ] in
@[simp] theorem sum_entries (w : ν → Nat) (t : Table κ ν) :
    (t.entries.map fun r => w r.2).sum = t.total w := (t.entries_perm.map _).sum_eq

@[simp] theorem lookup_entries (t : Table κ ν) (k : κ) : t.entries.lookup k = t.find k := by
  have hnodup : (t.entries.map Prod.fst).Nodup := (t.entries_perm.map Prod.fst).nodup_iff.mpr
      t.nodup
  ext v
  rw [lookup_eq_some hnodup, t.entries_perm.mem_iff]
  exact mem_rows

end Entries

end Table
