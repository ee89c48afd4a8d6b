import Mathlib.Data.List.Dedup
import Mathlib.Data.List.Sort
import Mathlib.Data.Prod.Lex

/-!
# Sorting by a key

An `ORDER BY` over a list of columns is an insertion sort by the tuple of their values.
When the tuple tells the rows apart, the order of the rows before sorting does not
matter: two permutations of the same tuples sort to the same list.
-/

universe u v

namespace Sorting

variable {α : Type u} {κ : Type v} [LinearOrder κ]

/-- The list in the order of its keys. -/
def sortOn (key : α → κ) (l : List α) : List α := l.insertionSort fun a b => key a ≤ key b

theorem perm_sortOn (key : α → κ) (l : List α) : (sortOn key l).Perm l :=
  List.perm_insertionSort _ l

@[simp] theorem mem_sortOn {key : α → κ} {l : List α} {a : α} : a ∈ sortOn key l ↔ a ∈ l :=
  (perm_sortOn key l).mem_iff

@[simp] theorem nodup_sortOn {key : α → κ} {l : List α} : (sortOn key l).Nodup ↔ l.Nodup :=
  (perm_sortOn key l).nodup_iff

/-- The keys of a sorted list are in order. -/
theorem pairwise_sortOn (key : α → κ) (l : List α) :
    ((sortOn key l).map key).Pairwise (· ≤ ·) := by
  have htotal : Std.Total fun a b : α => key a ≤ key b := ⟨fun a b => le_total _ _⟩
  have htrans : IsTrans α fun a b => key a ≤ key b := ⟨fun _ _ _ => le_trans⟩
  exact List.pairwise_map.mpr (List.pairwise_insertionSort (fun a b => key a ≤ key b) l)

/-- Keys that are all different are in strict order. -/
theorem pairwise_sortOn_lt {key : α → κ} {l : List α} (h : (l.map key).Nodup) :
    ((sortOn key l).map key).Pairwise (· < ·) := by
  have hnodup : ((sortOn key l).map key).Nodup := ((perm_sortOn key l).map key).nodup_iff.mpr h
  exact (pairwise_sortOn key l).imp₂ (fun _ _ => lt_of_le_of_ne) hnodup

/-- Lists with the same keys, in any order, sort to the same keys. -/
theorem map_sortOn_eq_of_perm {β : Type u} {key : α → κ} {key' : β → κ} {l : List α}
    {l' : List β} (h : (l.map key).Perm (l'.map key')) :
    (sortOn key l).map key = (sortOn key' l').map key' := by
  have hperm : ((sortOn key l).map key).Perm ((sortOn key' l').map key') :=
    ((perm_sortOn key l).map key).trans (h.trans ((perm_sortOn key' l').map key').symm)
  exact List.Perm.eq_of_pairwise (fun _ _ _ _ => le_antisymm) (pairwise_sortOn key l)
    (pairwise_sortOn key' l') hperm

/-- A sorted list whose keys are all different is what every permutation of it sorts to. -/
theorem sortOn_eq_of_perm {key : α → κ} {l l' : List α} (h : l.Perm l')
    (hsorted : l'.Pairwise fun a b => key a < key b) : sortOn key l = l' := by
  have hle : l'.Pairwise fun a b => key a ≤ key b := hsorted.imp le_of_lt
  have hinj : ∀ a ∈ l', ∀ b ∈ l', key a = key b → a = b :=
    List.inj_on_of_nodup_map (List.pairwise_map.mpr (hsorted.imp ne_of_lt))
  refine List.Perm.eq_of_pairwise (fun a b ha hb hab hba => ?_)
    (List.pairwise_map.mp (pairwise_sortOn key l)) hle ((perm_sortOn key l).trans h)
  exact hinj a (h.mem_iff.mp (mem_sortOn.mp ha)) b hb (le_antisymm hab hba)

/-- Under a key that tells all items apart, permutations sort to the same list. -/
theorem sortOn_perm {key : α → κ} (hkey : Function.Injective key) {l l' : List α}
    (h : l.Perm l') : sortOn key l = sortOn key l' := by
  have hperm := (perm_sortOn key l).trans (h.trans (perm_sortOn key l').symm)
  exact hperm.eq_of_pairwise (fun a b _ _ hab hba => hkey (le_antisymm hab hba))
    (List.pairwise_map.mp (pairwise_sortOn key l)) (List.pairwise_map.mp (pairwise_sortOn key l'))

/-- Permutations whose keys are all different sort to the same list. -/
theorem sortOn_perm_of_nodup {key : α → κ} {l l' : List α} (h : l.Perm l')
    (hnodup : (l'.map key).Nodup) : sortOn key l = sortOn key l' := by
  refine sortOn_eq_of_perm (h.trans (perm_sortOn key l').symm) ?_
  exact List.pairwise_map.mp (pairwise_sortOn_lt hnodup)

/-- Sorting after a map is sorting before it, by a key that orders alike. -/
theorem map_sortOn {β : Type*} {ι : Type*} [LinearOrder ι] {key : α → κ} {key' : β → ι} {f : α → β}
    (h : ∀ a b, key a ≤ key b ↔ key' (f a) ≤ key' (f b)) (l : List α) :
    (sortOn key l).map f = sortOn key' (l.map f) :=
  List.map_insertionSort _ _ f l fun a _ b _ => h a b

/-- Keys that order alike sort alike. -/
theorem sortOn_congr {ι : Type*} [LinearOrder ι] {key : α → κ} (key' : α → ι)
    (h : ∀ a b, key a ≤ key b ↔ key' a ≤ key' b) (l : List α) : sortOn key l = sortOn key' l := by
  have hmap := map_sortOn (f := fun a => a) h l
  rwa [List.map_id', List.map_id'] at hmap

/-- The groups of a list by a key, in the order of the keys. -/
def groupOn (key : α → κ) (l : List α) : List (κ × List α) :=
  (sortOn (fun k => k) (l.map key).dedup).map fun k => (k, l.filter fun a => key a = k)

/-- A group is a key that occurs, with the items that have it. -/
theorem mem_groupOn {key : α → κ} {l : List α} {g : κ × List α} :
    g ∈ groupOn key l ↔ g.1 ∈ l.map key ∧ g.2 = l.filter fun a => key a = g.1 := by
  rw [groupOn, List.mem_map]
  simp only [mem_sortOn, List.mem_dedup]
  constructor
  · intro h
    obtain ⟨k, hk, rfl⟩ := h
    exact ⟨hk, rfl⟩
  · intro h
    exact ⟨g.1, h.1, Prod.ext rfl h.2.symm⟩

theorem map_fst_groupOn (key : α → κ) (l : List α) :
    (groupOn key l).map Prod.fst = sortOn (fun k => k) (l.map key).dedup := by
  rw [groupOn, List.map_map]
  exact List.map_id _

end Sorting
