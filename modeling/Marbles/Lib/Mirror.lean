import Marbles.Lib.Sort
import Marbles.Lib.Table

/-!
# Documents that mirror a table

A table can be kept as documents, each under a key that spells the key of its row. What the
documents show, read through a function that forgets the rest of them, is what the rows show.

A document that is written stands for a row that is inserted or updated, and documents that are
removed for rows that are deleted. What is collected of the documents is collected of the rows.
-/

/-- The documents show the rows of the table, and there are no others. -/
structure Mirrors {γ δ κ ν ω : Type*} [DecidableEq κ] (doc : γ → Option δ) (key : κ → γ)
    (read : δ → ω) (shown : κ → ν → ω) (table : Table κ ν) : Prop where
  same : ∀ k, (doc (key k)).map read = (table.find k).map (shown k)
  only : ∀ {g d}, doc g = some d → ∃ k, g = key k

namespace Mirrors

variable {γ δ κ ν ω : Type*} [DecidableEq κ] {doc doc' : γ → Option δ} {key : κ → γ} {read : δ → ω}
  {shown : κ → ν → ω} {table table' : Table κ ν}

theorem isSome_iff (h : Mirrors doc key read shown table) (k : κ) :
    (doc (key k)).isSome = true ↔ k ∈ table.keys := by
  have hsame := congrArg Option.isSome (h.same k)
  rw [Option.isSome_map, Option.isSome_map] at hsame
  rw [hsame, Table.mem_keys_iff_isSome]

/-- A row has a document that shows it. -/
theorem found (h : Mirrors doc key read shown table) {k : κ} {row : ν}
    (hrow : table.find k = some row) : ∃ d, doc (key k) = some d ∧ read d = shown k row := by
  have hsame := h.same k
  rw [hrow, Option.map_some] at hsame
  exact Option.map_eq_some_iff.mp hsame

theorem missing (h : Mirrors doc key read shown table) {k : κ} (hrow : table.find k = none) :
    doc (key k) = none := by
  have hsame := h.same k
  rw [hrow, Option.map_none] at hsame
  exact Option.map_eq_none_iff.mp hsame

/-- A document shows a row. -/
theorem row (h : Mirrors doc key read shown table) {k : κ} {d : δ} (hdoc : doc (key k) = some d) :
    ∃ row, table.find k = some row ∧ read d = shown k row := by
  have hsame := h.same k
  rw [hdoc, Option.map_some] at hsame
  obtain ⟨row, hrow, hshown⟩ := Option.map_eq_some_iff.mp hsame.symm
  exact ⟨row, hrow, hshown.symm⟩

/-! ### Writing -/

/-- Nothing is written. -/
theorem congr (h : Mirrors doc key read shown table) (hdoc : ∀ g, doc' g = doc g)
    (htable : ∀ k, table'.find k = table.find k) : Mirrors doc' key read shown table' := by
  refine ⟨fun k => ?_, fun hd => h.only (hdoc _ ▸ hd)⟩
  rw [hdoc, htable]
  exact h.same k

/-- A document is written for a row that is inserted or updated. -/
theorem write [DecidableEq γ] (h : Mirrors doc key read shown table)
    (hkey : Function.Injective key) {k : κ} {d : δ} {row : ν} (hshown : read d = shown k row)
    (hdoc : ∀ g, doc' g = if g = key k then some d else doc g)
    (htable : ∀ k', table'.find k' = if k' = k then some row else table.find k') :
    Mirrors doc' key read shown table' := by
  constructor
  · intro k'
    rw [hdoc, htable]
    by_cases hk : k' = k
    · simp [hk, hshown]
    · simp [hk, hkey.eq_iff, h.same]
  · intro g d' hd
    rw [hdoc] at hd
    split at hd
    · rename_i hg
      exact ⟨k, hg⟩
    · exact h.only hd

/-- Documents are removed for rows that are deleted. -/
theorem sweep (h : Mirrors doc key read shown table) {keep : κ → ν → Bool}
    (hdoc : ∀ k row, table.find k = some row →
      doc' (key k) = if keep k row then doc (key k) else none)
    (hless : ∀ {g d}, doc' g = some d → doc g = some d)
    (htable : ∀ k, table'.find k = (table.find k).filter (keep k)) :
    Mirrors doc' key read shown table' := by
  refine ⟨fun k => ?_, fun hd => h.only (hless hd)⟩
  rw [htable]
  cases hrow : table.find k with
  | none =>
      have hnone : doc' (key k) = none := by
        cases hd : doc' (key k) with
        | none => rfl
        | some d =>
            have hold := hless hd
            rw [h.missing hrow] at hold
            cases hold
      rw [hnone]
      rfl
  | some row =>
      rw [hdoc k row hrow]
      cases hkeep : keep k row with
      | true =>
          simp only [if_true, Option.filter_some, hkeep]
          rw [h.same, hrow]
      | false => simp [hkeep]

/-! ### Listing -/

section Listing

variable {live : List γ}

variable {β : Type*} {f : γ → Option β} {g : κ × ν → Option β}

omit [DecidableEq κ] in
/-- What is collected of the documents of rows is collected of the rows. -/
theorem collect_rows {l : List (κ × ν)} (hf : ∀ r ∈ l, f (key r.1) = g r) :
    (l.map fun r => key r.1).filterMap f = l.filterMap g := by
  rw [List.filterMap_map]
  exact List.filterMap_congr hf

/-- The live documents are those of the rows. -/
theorem live_perm (h : Mirrors doc key read shown table) (hkey : Function.Injective key)
    (hnodup : live.Nodup) (hlive : ∀ g, g ∈ live ↔ ∃ d, doc g = some d) :
    live.Perm (table.rows.map fun r => key r.1) := by
  have hkeys : (table.rows.map fun r => key r.1) = table.keys.map key := by
    rw [Table.keys, List.map_map]
    rfl
  rw [hkeys]
  refine (List.perm_ext_iff_of_nodup hnodup (table.keys_nodup.map hkey)).mpr fun g => ?_
  rw [hlive, List.mem_map]
  constructor
  · intro hg
    obtain ⟨d, hd⟩ := hg
    obtain ⟨k, rfl⟩ := h.only hd
    exact ⟨k, (h.isSome_iff k).mp (by rw [hd]; rfl), rfl⟩
  · intro hg
    obtain ⟨k, hk, rfl⟩ := hg
    exact Option.isSome_iff_exists.mp ((h.isSome_iff k).mpr hk)

/-- What is collected of the live documents is collected of the rows, in some order. -/
theorem collect_perm (h : Mirrors doc key read shown table) (hkey : Function.Injective key)
    (hnodup : live.Nodup) (hlive : ∀ g, g ∈ live ↔ ∃ d, doc g = some d)
    (hf : ∀ k row, table.find k = some row → f (key k) = g (k, row)) :
    (live.filterMap f).Perm (table.rows.filterMap g) := by
  have hperm := (h.live_perm hkey hnodup hlive).filterMap f
  rwa [collect_rows fun r hr => hf r.1 r.2 (Table.mem_rows.mp hr)] at hperm

/-- In the order of the keys it is collected of the rows in the order of theirs. -/
theorem collect_sorted [LinearOrder κ] [LinearOrder γ] (h : Mirrors doc key read shown table)
    (hkey : StrictMono key) (hsorted : live.Pairwise (· < ·))
    (hlive : ∀ g, g ∈ live ↔ ∃ d, doc g = some d)
    (hf : ∀ k row, table.find k = some row → f (key k) = g (k, row)) :
    live.filterMap f = (Sorting.sortOn (fun r => r.1) table.rows).filterMap g := by
  have hnodup : live.Nodup := hsorted.imp fun hlt => ne_of_lt hlt
  have hrows : ((Sorting.sortOn (fun r => r.1) table.rows).map fun r => key r.1).Pairwise
      (· < ·) := by
    have hkeys : ((Sorting.sortOn (fun r => r.1) table.rows).map fun r => r.1).Pairwise (· < ·) :=
      Sorting.pairwise_sortOn_lt table.keys_nodup
    exact List.pairwise_map.mpr ((List.pairwise_map.mp hkeys).imp fun hlt => hkey hlt)
  have hlist : live = (Sorting.sortOn (fun r => r.1) table.rows).map fun r => key r.1 := by
    have hperm := (h.live_perm hkey.injective hnodup hlive).trans
      ((Sorting.perm_sortOn (fun r => r.1) table.rows).map fun r => key r.1).symm
    exact hperm.eq_of_pairwise (fun a b _ _ hab hba => absurd hab (lt_asymm hba)) hsorted hrows
  rw [hlist]
  exact collect_rows fun r hr => hf r.1 r.2 (Table.mem_rows.mp (Sorting.mem_sortOn.mp hr))

end Listing

end Mirrors
