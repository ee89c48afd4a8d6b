import Marbles.Lib.Table

/-!
# Journals

A table whose key is assigned by the database and never reused: each row is appended
under the successor of the largest key ever assigned, also when the row with that key
has been deleted since. Rows are therefore always in key order.

Deleting rows never frees a key. So a key names one row for all time, which is what a consumer
that remembers keys relies on.
-/

universe u

/-- Rows under ascending keys, with the last key assigned. -/
structure Journal (ν : Type u) where
  rows : List (Nat × ν)
  last : Nat
  ascending : (rows.map Prod.fst).Pairwise (· < ·)
  bounded : ∀ r ∈ rows, r.1 ≤ last

namespace Journal

variable {ν : Type u}

theorem ext {j j' : Journal ν} (hrows : j.rows = j'.rows) (hlast : j.last = j'.last) : j = j' := by
  cases j
  cases j'
  cases hrows
  cases hlast
  rfl

instance [DecidableEq ν] : DecidableEq (Journal ν) := fun j j' =>
  decidable_of_iff (j.rows = j'.rows ∧ j.last = j'.last)
    ⟨fun h => ext h.1 h.2, fun h => h ▸ ⟨rfl, rfl⟩⟩

def empty : Journal ν := ⟨[], 0, List.Pairwise.nil, by simp⟩

instance : Inhabited (Journal ν) := ⟨empty⟩

/-- The key the next row will get. -/
def next (j : Journal ν) : Nat := j.last + 1

theorem ascending_append (j : Journal ν) (v : ν) :
    ((j.rows ++ [(j.next, v)]).map Prod.fst).Pairwise (· < ·) := by
  rw [List.map_append, List.pairwise_append]
  refine ⟨j.ascending, List.pairwise_singleton .., ?_⟩
  intro a ha b hb
  obtain ⟨r, hr, rfl⟩ := List.mem_map.mp ha
  have hle := j.bounded r hr
  simp only [List.map_cons, List.map_nil, List.mem_singleton] at hb
  rw [hb, next]
  omega

theorem bounded_append (j : Journal ν) (v : ν) :
    ∀ r ∈ j.rows ++ [(j.next, v)], r.1 ≤ j.next := by
  intro r hr
  rcases List.mem_append.mp hr with h | h
  · exact Nat.le_succ_of_le (j.bounded r h)
  · exact Nat.le_of_eq (by rw [List.mem_singleton.mp h])

/-- Append a row under the next key. -/
def append (j : Journal ν) (v : ν) : Journal ν :=
  ⟨j.rows ++ [(j.next, v)], j.next, j.ascending_append v, j.bounded_append v⟩

/-- Delete the rows that do not satisfy `p`; their keys stay assigned. -/
def filter (j : Journal ν) (p : ν → Bool) : Journal ν :=
  ⟨j.rows.filter fun r => p r.2, j.last,
    j.ascending.sublist (List.filter_sublist.map Prod.fst),
    fun r hr => j.bounded r (List.mem_filter.mp hr).1⟩

/-- The rows that satisfy `p`, in key order. -/
def select (j : Journal ν) (p : ν → Bool) : List ν := (j.rows.filter fun r => p r.2).map Prod.snd

@[simp] theorem rows_append (j : Journal ν) (v : ν) :
    (j.append v).rows = j.rows ++ [(j.next, v)] := rfl

@[simp] theorem last_append (j : Journal ν) (v : ν) : (j.append v).last = j.last + 1 := rfl

@[simp] theorem rows_filter (j : Journal ν) (p : ν → Bool) :
    (j.filter p).rows = j.rows.filter fun r => p r.2 := rfl

@[simp] theorem last_filter (j : Journal ν) (p : ν → Bool) : (j.filter p).last = j.last := rfl

theorem select_append (j : Journal ν) (v : ν) (p : ν → Bool) :
    (j.append v).select p = j.select p ++ (if p v then [v] else []) := by
  rw [select, rows_append, List.filter_append, List.map_append, select]
  congr 1
  by_cases h : p v = true <;> simp [h]

end Journal
