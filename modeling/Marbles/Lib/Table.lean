import Mathlib.Algebra.Order.Ring.Int
import Mathlib.Data.List.Basic
import Mathlib.Data.List.Nodup

/-!
# Keyed tables

A relational table with a primary key: a list of `(key, row)` pairs in insertion
order whose keys are pairwise distinct. The uniqueness constraint is a field, so no
statement below can produce a table that violates it. The statements are the ones a
SQL program issues by key (`INSERT OR IGNORE`, `INSERT … ON CONFLICT DO UPDATE`,
`UPDATE … WHERE key = k`, `DELETE … WHERE p`), and each has one lemma saying what
`find` returns after it.

Tables with the same rows in another order are different values, and results that must not depend
on the order are stated with `find` or with a sort. The simp lemmas about `find` after each
statement are what most proofs over tables run on.
-/

universe u v

/-- Rows under distinct keys, in insertion order. -/
structure Table (κ : Type u) (ν : Type v) where
  rows : List (κ × ν)
  nodup : (rows.map Prod.fst).Nodup

namespace Table

variable {κ : Type u} {ν : Type v}

theorem ext {t t' : Table κ ν} (h : t.rows = t'.rows) : t = t' := by
  cases t
  cases t'
  cases h
  rfl

instance [DecidableEq κ] [DecidableEq ν] : DecidableEq (Table κ ν) := fun t t' =>
  decidable_of_iff (t.rows = t'.rows) ⟨ext, fun h => h ▸ rfl⟩

/-- The table with no rows. -/
def empty : Table κ ν := ⟨[], List.nodup_nil⟩

instance : Inhabited (Table κ ν) := ⟨empty⟩

/-- The keys present, in insertion order. -/
def keys (t : Table κ ν) : List κ := t.rows.map Prod.fst

theorem keys_nodup (t : Table κ ν) : t.keys.Nodup := t.nodup

@[simp] theorem keys_empty : (empty : Table κ ν).keys = [] := rfl

/-- `DELETE … WHERE NOT p`: the rows that satisfy `p` stay, in order. -/
def filter (t : Table κ ν) (p : κ → ν → Bool) : Table κ ν :=
  ⟨t.rows.filter fun r => p r.1 r.2,
    t.nodup.sublist (List.filter_sublist.map Prod.fst)⟩

/-- An update of every row that keeps its key. -/
def mapRows (t : Table κ ν) (f : κ → ν → ν) : Table κ ν :=
  ⟨t.rows.map fun r => (r.1, f r.1 r.2), by
    have h : (t.rows.map fun r => (r.1, f r.1 r.2)).map Prod.fst = t.rows.map Prod.fst := by
      rw [List.map_map]
      rfl
    rw [h]
    exact t.nodup⟩

@[simp] theorem keys_mapRows (t : Table κ ν) (f : κ → ν → ν) :
    (t.mapRows f).keys = t.keys := by
  simp only [keys, mapRows, List.map_map]
  rfl

@[simp] theorem mapRows_mapRows (t : Table κ ν) (f g : κ → ν → ν) :
    (t.mapRows f).mapRows g = t.mapRows fun k v => g k (f k v) := by
  apply ext
  simp only [mapRows, List.map_map]
  rfl

section Keyed

variable [DecidableEq κ]

/-- `SELECT … WHERE key = k`. -/
def find (t : Table κ ν) (k : κ) : Option ν := t.rows.lookup k

/-- `INSERT OR IGNORE`: a row under a key already present is dropped. -/
def insert (t : Table κ ν) (k : κ) (v : ν) : Table κ ν :=
  if h : k ∈ t.keys then t
  else ⟨t.rows ++ [(k, v)], by
    rw [List.map_append, List.nodup_append]
    refine ⟨t.nodup, by simp, ?_⟩
    intro a ha b hb hab
    simp only [List.map_cons, List.map_nil, List.mem_singleton] at hb
    exact h (hb ▸ hab ▸ ha)⟩

/-- `UPDATE … WHERE key = k`. -/
def modify (t : Table κ ν) (k : κ) (f : ν → ν) : Table κ ν :=
  t.mapRows fun k' v => if k' = k then f v else v

/-- `INSERT … ON CONFLICT(key) DO UPDATE`. -/
def upsert (t : Table κ ν) (k : κ) (v : ν) (f : ν → ν) : Table κ ν :=
  if k ∈ t.keys then t.modify k f else t.insert k v

/-- `DELETE … WHERE key = k`. -/
def erase (t : Table κ ν) (k : κ) : Table κ ν := t.filter fun k' _ => k' ≠ k

/-! ### What `find` returns -/

@[simp] theorem find_empty (k : κ) : (empty : Table κ ν).find k = none := rfl

theorem lookup_cons (k k' : κ) (v : ν) (l : List (κ × ν)) :
    ((k', v) :: l).lookup k = if k = k' then some v else l.lookup k := by
  by_cases h : k = k'
  · subst h
    simp
  · have hb : (k == k') = false := by simpa using h
    rw [List.lookup_cons, hb, if_neg h]

theorem lookup_eq_none {k : κ} {l : List (κ × ν)} : l.lookup k = none ↔ k ∉ l.map Prod.fst := by
  induction l with
  | nil => simp
  | cons row l ih =>
      obtain ⟨k', v⟩ := row
      rw [lookup_cons]
      by_cases h : k = k'
      · simp [h]
      · rw [if_neg h, List.map_cons, List.mem_cons, not_or]
        exact ⟨fun hl => ⟨h, ih.mp hl⟩, fun hl => ih.mpr hl.2⟩

theorem lookup_eq_some {k : κ} {v : ν} {l : List (κ × ν)} (h : (l.map Prod.fst).Nodup) :
    l.lookup k = some v ↔ (k, v) ∈ l := by
  induction l with
  | nil => simp
  | cons row l ih =>
      obtain ⟨k', v'⟩ := row
      rw [List.map_cons] at h
      obtain ⟨hk', hl⟩ := List.nodup_cons.mp h
      rw [lookup_cons, List.mem_cons, Prod.mk.injEq]
      by_cases hk : k = k'
      · subst hk
        have hmem : (k, v) ∉ l := fun hm => hk' (List.mem_map.mpr ⟨_, hm, rfl⟩)
        simp only [if_true, Option.some.injEq, true_and, hmem, or_false, eq_comm]
      · simp only [hk, if_false, false_and, false_or]
        exact ih hl

theorem find_eq_none {t : Table κ ν} {k : κ} : t.find k = none ↔ k ∉ t.keys := lookup_eq_none

/-- A row is stored exactly when `find` returns it. -/
theorem mem_rows {t : Table κ ν} {k : κ} {v : ν} : (k, v) ∈ t.rows ↔ t.find k = some v :=
  (lookup_eq_some t.nodup).symm

theorem mem_keys {t : Table κ ν} {k : κ} : k ∈ t.keys ↔ ∃ v, t.find k = some v := by
  rw [← not_iff_not, ← find_eq_none]
  cases t.find k <;> simp

theorem mem_keys_iff_isSome {t : Table κ ν} {k : κ} : k ∈ t.keys ↔ (t.find k).isSome := by
  rw [mem_keys, Option.isSome_iff_exists]

theorem mem_keys_of_find {t : Table κ ν} {k : κ} {v : ν} (h : t.find k = some v) :
    k ∈ t.keys := mem_keys.mpr ⟨v, h⟩

@[simp] theorem find_mapRows (t : Table κ ν) (f : κ → ν → ν) (k : κ) :
    (t.mapRows f).find k = (t.find k).map (f k) := by
  obtain ⟨rows, hnd⟩ := t
  simp only [find, mapRows]
  clear hnd
  induction rows with
  | nil => rfl
  | cons r rows ih =>
      obtain ⟨k', v⟩ := r
      rw [List.map_cons, lookup_cons, lookup_cons, ih]
      by_cases hk : k = k'
      · simp [hk]
      · simp [hk]

theorem find_modify (t : Table κ ν) (k k' : κ) (f : ν → ν) :
    (t.modify k f).find k' = if k' = k then (t.find k').map f else t.find k' := by
  rw [modify, find_mapRows]
  by_cases h : k' = k
  · simp [h]
  · simp only [h, if_false]
    cases t.find k' <;> rfl

/-- Only the rows present matter to an update. -/
theorem mapRows_congr {t : Table κ ν} {f g : κ → ν → ν}
    (h : ∀ k v, t.find k = some v → f k v = g k v) : t.mapRows f = t.mapRows g := by
  apply ext
  refine List.map_congr_left fun r hr => ?_
  rw [h r.1 r.2 (mem_rows.mp hr)]

theorem mapRows_eq_self {t : Table κ ν} {f : κ → ν → ν}
    (h : ∀ k v, t.find k = some v → f k v = v) : t.mapRows f = t := by
  rw [mapRows_congr (g := fun _ v => v) h]
  apply ext
  exact List.map_id _

@[simp] theorem find_modify_self (t : Table κ ν) (k : κ) (f : ν → ν) :
    (t.modify k f).find k = (t.find k).map f := by
  rw [find_modify, if_pos rfl]

theorem find_modify_ne {t : Table κ ν} {k k' : κ} (h : k' ≠ k) (f : ν → ν) :
    (t.modify k f).find k' = t.find k' := by
  rw [find_modify, if_neg h]

@[simp] theorem keys_modify (t : Table κ ν) (k : κ) (f : ν → ν) :
    (t.modify k f).keys = t.keys := keys_mapRows t _

@[simp] theorem find_filter (t : Table κ ν) (p : κ → ν → Bool) (k : κ) :
    (t.filter p).find k = (t.find k).filter (p k) := by
  cases h : t.find k with
  | none =>
      rw [find_eq_none] at h
      rw [Option.filter_none, find_eq_none]
      exact fun hm => h ((List.filter_sublist.map Prod.fst).subset hm)
  | some v =>
      have hmem : (k, v) ∈ t.rows := mem_rows.mpr h
      by_cases hp : p k v = true
      · rw [Option.filter_some, if_pos hp, ← mem_rows]
        exact List.mem_filter.mpr ⟨hmem, hp⟩
      · rw [Option.filter_some, if_neg hp, find_eq_none]
        intro hm
        obtain ⟨r, hr, hrk⟩ := List.mem_map.mp hm
        obtain ⟨hr1, hr2⟩ := List.mem_filter.mp hr
        obtain ⟨k', v'⟩ := r
        obtain rfl : k' = k := hrk
        have hv : v' = v := Option.some.inj ((mem_rows.mp hr1).symm.trans h)
        exact hp (hv ▸ hr2)

theorem mem_keys_filter {t : Table κ ν} {p : κ → ν → Bool} {k : κ} :
    k ∈ (t.filter p).keys ↔ ∃ v, t.find k = some v ∧ p k v = true := by
  rw [mem_keys]
  simp only [find_filter, Option.filter_eq_some_iff]

theorem find_insert (t : Table κ ν) (k k' : κ) (v : ν) :
    (t.insert k v).find k' = if k' = k then some ((t.find k).getD v) else t.find k' := by
  unfold insert
  split
  · rename_i h
    obtain ⟨w, hw⟩ := mem_keys.mp h
    by_cases hk : k' = k
    · subst hk
      simp [hw]
    · simp [hk]
  · rename_i h
    have hnone : t.find k = none := find_eq_none.mpr h
    simp only [find] at hnone ⊢
    rw [List.lookup_append]
    by_cases hk : k' = k
    · subst hk
      simp [hnone]
    · simp [lookup_cons, hk]

theorem find_insert_ne {t : Table κ ν} {k k' : κ} (h : k' ≠ k) (v : ν) :
    (t.insert k v).find k' = t.find k' := by
  rw [find_insert, if_neg h]

theorem find_insert_new {t : Table κ ν} {k : κ} (h : t.find k = none) (v : ν) :
    (t.insert k v).find k = some v := by
  rw [find_insert, if_pos rfl, h, Option.getD_none]

theorem rows_insert_new {t : Table κ ν} {k : κ} (h : t.find k = none) (v : ν) :
    (t.insert k v).rows = t.rows ++ [(k, v)] := by
  unfold insert
  rw [dif_neg (find_eq_none.mp h)]

@[simp] theorem mem_keys_insert {t : Table κ ν} {k k' : κ} {v : ν} :
    k' ∈ (t.insert k v).keys ↔ k' = k ∨ k' ∈ t.keys := by
  simp only [mem_keys_iff_isSome, find_insert]
  by_cases h : k' = k <;> simp [h]

theorem find_erase (t : Table κ ν) (k k' : κ) :
    (t.erase k).find k' = if k' = k then none else t.find k' := by
  rw [erase, find_filter]
  by_cases h : k' = k
  · subst h
    cases t.find k' <;> simp
  · cases t.find k' <;> simp [h]

theorem find_upsert (t : Table κ ν) (k k' : κ) (v : ν) (f : ν → ν) :
    (t.upsert k v f).find k' =
      if k' = k then some (((t.find k).map f).getD v) else t.find k' := by
  unfold upsert
  split
  · rename_i h
    obtain ⟨w, hw⟩ := mem_keys.mp h
    rw [find_modify]
    by_cases hk : k' = k
    · subst hk
      simp [hw]
    · simp [hk]
  · rename_i h
    rw [find_insert, find_eq_none.mpr h]
    rfl

@[simp] theorem mem_keys_upsert {t : Table κ ν} {k k' : κ} {v : ν} {f : ν → ν} :
    k' ∈ (t.upsert k v f).keys ↔ k' = k ∨ k' ∈ t.keys := by
  rw [mem_keys_iff_isSome, mem_keys_iff_isSome, find_upsert]
  by_cases h : k' = k <;> simp [h]

end Keyed

end Table
