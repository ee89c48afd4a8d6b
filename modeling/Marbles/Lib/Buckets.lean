import Mathlib.Algebra.BigOperators.Group.List.Basic
import Mathlib.Algebra.Order.Ring.Int
import Mathlib.Data.List.Perm.Lattice
import Mathlib.Data.List.ProdSigma

/-!
# Buckets

A list is spread over buckets by a key of its items. Keys that are all different and cover the
items leave every item in one bucket, so that what is counted or summed bucket by bucket is what
is counted or summed over the list.

The two ways to count, over the list and bucket by bucket, differ by the items whose key is not
covered and by keys that are there twice. With neither, a sum over buckets is a sum over the list,
for any function of the items.
-/

universe u v w

namespace Buckets

variable {α : Type u} {κ : Type v} {ι : Type w}

/-- There is one bucket for every item. -/
structure Covers (key : α → κ) (keys : List κ) (l : List α) : Prop where
  nodup : keys.Nodup
  mem : ∀ a ∈ l, key a ∈ keys

namespace Covers

variable {key : α → κ} {keys : List κ} {l : List α}

theorem filter (h : Covers key keys l) (p : α → Bool) : Covers key keys (l.filter p) where
  nodup := h.nodup
  mem := fun a ha => h.mem a (List.mem_filter.mp ha).1

theorem of_perm {l' : List α} (h : Covers key keys l) (hperm : l'.Perm l) :
    Covers key keys l' where
  nodup := h.nodup
  mem := fun a ha => h.mem a (hperm.mem_iff.mp ha)

/-- The pairs of two keys. -/
theorem product {key' : α → ι} {keys' : List ι} (h : Covers key keys l)
    (h' : Covers key' keys' l) : Covers (fun a => (key a, key' a)) (keys ×ˢ keys') l where
  nodup := h.nodup.product h'.nodup
  mem := fun a ha => List.mem_product.mpr ⟨h.mem a ha, h'.mem a ha⟩

end Covers

section Bucket

variable [DecidableEq κ]

/-- The items with this key, in their order. -/
def bucket (key : α → κ) (l : List α) (k : κ) : List α := l.filter fun a => key a = k

variable {key : α → κ} {keys : List κ} {l : List α} {k : κ} {a : α}

@[simp] theorem mem_bucket : a ∈ bucket key l k ↔ a ∈ l ∧ key a = k := by
  rw [bucket, List.mem_filter, decide_eq_true_iff]

theorem bucket_filter (p : α → Bool) : bucket key (l.filter p) k = (bucket key l k).filter p := by
  simp only [bucket, List.filter_filter, Bool.and_comm]

/-- A bucket of a bucket is the bucket of both keys. -/
theorem bucket_bucket [DecidableEq ι] (key' : α → ι) (k' : ι) :
    bucket key' (bucket key l k) k' = bucket (fun a => (key a, key' a)) l (k, k') := by
  simp only [bucket, List.filter_filter, Prod.mk.injEq, Bool.decide_and, Bool.and_comm]

/-- Without the items of one key the other buckets are as they were. -/
theorem bucket_others {k' : κ} (h : k' ≠ k) :
    bucket key (l.filter fun a => key a ≠ k) k' = bucket key l k' := by
  rw [bucket_filter]
  refine List.filter_eq_self.mpr fun a ha => ?_
  have hkey : key a = k' := (mem_bucket.mp ha).2
  simp [hkey, h]

namespace Covers

/-- The buckets hold the list. -/
theorem perm (h : Covers key keys l) : (keys.flatMap (bucket key l)).Perm l := by
  obtain ⟨hnodup, hmem⟩ := h
  induction keys generalizing l with
  | nil =>
      obtain rfl : l = [] := List.eq_nil_iff_forall_not_mem.mpr fun a ha =>
        absurd (hmem a ha) List.not_mem_nil
      exact .refl _
  | cons k keys ih =>
      obtain ⟨hk, hnodup⟩ := List.nodup_cons.mp hnodup
      have hothers : keys.flatMap (bucket key l) =
          keys.flatMap (bucket key (l.filter fun a => key a ≠ k)) := by
        refine List.flatMap_congr fun k' hk' => ?_
        have hne : k' ≠ k := fun heq => hk (heq ▸ hk')
        exact (bucket_others hne).symm
      have hrest := @ih (l.filter fun a => key a ≠ k) hnodup fun a ha => by
        obtain ⟨ha, hne⟩ := List.mem_filter.mp ha
        exact (List.mem_cons.mp (hmem a ha)).resolve_left (by simpa using hne)
      rw [List.flatMap_cons, hothers]
      have hsplit := List.filter_append_perm (fun a => decide (key a = k)) l
      simp only [← decide_not] at hsplit
      exact (hrest.append_left _).trans hsplit

theorem sum_countP (h : Covers key keys l) (p : α → Bool) :
    (keys.map fun k => (bucket key l k).countP p).sum = l.countP p :=
  List.countP_flatMap.symm.trans (h.perm.countP_eq p)

theorem sum_length (h : Covers key keys l) :
    (keys.map fun k => (bucket key l k).length).sum = l.length :=
  List.length_flatMap.symm.trans h.perm.length_eq

/-- An item that has a name of its own is in one bucket. -/
theorem countP_names {name : α → ι} [DecidableEq ι] (h : Covers key keys l)
    (hnames : (l.map name).Nodup) (ha : a ∈ l) :
    keys.countP (fun k => name a ∈ (bucket key l k).map name) = 1 := by
  have hbucket : ∀ k, name a ∈ (bucket key l k).map name ↔ k = key a := by
    intro k
    rw [List.mem_map]
    constructor
    · intro ⟨b, hb, hname⟩
      obtain ⟨hmem, hkey⟩ := mem_bucket.mp hb
      rw [List.inj_on_of_nodup_map hnames hmem ha hname] at hkey
      exact hkey.symm
    · intro hk
      exact ⟨a, mem_bucket.mpr ⟨ha, hk.symm⟩, rfl⟩
  simp only [hbucket]
  exact List.count_eq_one_of_mem h.nodup (h.mem a ha)

end Covers

end Bucket

end Buckets
