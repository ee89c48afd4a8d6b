import Mathlib.Algebra.Order.Ring.Int
import Marbles.Lib.Sort

/-!
# Greatest and least items

What a query makes of a column with `MAX` and `MIN`. Two columns have the same greatest value when
each value of one is matched by one of the other that is at least as great; a monotone function of
the column carries the greatest value along, an antitone one makes the least value the greatest.
`greatest` is the greatest value of each group, in the order of the groups.

All lists may be empty, and the greatest value of an empty one is none. That is the `NULL` of an
aggregate over no rows.
-/

namespace Extremes

open Sorting (groupOn)

variable {l l' : List Int}

theorem exists_max? {a : Int} (h : a ∈ l) : ∃ m, l.max? = some m := by
  cases hmax : l.max? with
  | none =>
      rw [List.max?_eq_none_iff.mp hmax] at h
      cases h
  | some m => exact ⟨m, rfl⟩

/-- Two columns have the same greatest value exactly when neither rises above the other. -/
theorem same_max?_iff : l.max? = l'.max? ↔
    (∀ a ∈ l, ∃ b ∈ l', a ≤ b) ∧ ∀ b ∈ l', ∃ a ∈ l, b ≤ a := by
  constructor
  · intro h
    constructor
    · intro a ha
      obtain ⟨m, hm⟩ := exists_max? ha
      have hm' := List.max?_eq_some_iff.mp (h ▸ hm)
      exact ⟨m, hm'.1, (List.max?_eq_some_iff.mp hm).2 a ha⟩
    · intro b hb
      obtain ⟨m, hm⟩ := exists_max? hb
      have hm' := List.max?_eq_some_iff.mp (h.trans hm)
      exact ⟨m, hm'.1, (List.max?_eq_some_iff.mp hm).2 b hb⟩
  · intro h
    obtain ⟨hle, hge⟩ := h
    cases hmax : l.max? with
    | none =>
        have hnil : l' = [] := by
          rw [List.eq_nil_iff_forall_not_mem]
          intro b hb
          obtain ⟨a, ha, -⟩ := hge b hb
          rw [List.max?_eq_none_iff.mp hmax] at ha
          cases ha
        rw [hnil]
        rfl
    | some m =>
        obtain ⟨hmem, hgreatest⟩ := List.max?_eq_some_iff.mp hmax
        -- what is at least as great as the greatest value is that value
        obtain ⟨b, hb, hmb⟩ := hle m hmem
        obtain ⟨a, ha, hba⟩ := hge b hb
        have hbm : b = m := le_antisymm (hba.trans (hgreatest a ha)) hmb
        refine (List.max?_eq_some_iff.mpr ⟨hbm ▸ hb, fun b hb => ?_⟩).symm
        obtain ⟨a, ha, hba⟩ := hge b hb
        exact hba.trans (hgreatest a ha)

theorem max?_map_of_monotone {f : Int → Int} (hf : ∀ {a b}, a ≤ b → f a ≤ f b) :
    (l.map f).max? = l.max?.map f := by
  cases hmax : l.max? with
  | none =>
      rw [List.max?_eq_none_iff.mp hmax]
      rfl
  | some m =>
      obtain ⟨hmem, hgreatest⟩ := List.max?_eq_some_iff.mp hmax
      refine List.max?_eq_some_iff.mpr ⟨List.mem_map_of_mem hmem, fun b hb => ?_⟩
      obtain ⟨a, ha, rfl⟩ := List.mem_map.mp hb
      exact hf (hgreatest a ha)

theorem max?_map_of_antitone {f : Int → Int} (hf : ∀ {a b}, a ≤ b → f b ≤ f a) :
    (l.map f).max? = l.min?.map f := by
  cases hmin : l.min? with
  | none =>
      rw [List.min?_eq_none_iff.mp hmin]
      rfl
  | some m =>
      obtain ⟨hmem, hleast⟩ := List.min?_eq_some_iff.mp hmin
      refine List.max?_eq_some_iff.mpr ⟨List.mem_map_of_mem hmem, fun b hb => ?_⟩
      obtain ⟨a, ha, rfl⟩ := List.mem_map.mp hb
      exact hf (hleast a ha)

/-- The greatest value does not depend on the order of a column, nor on repetitions. -/
theorem max?_congr (h : ∀ a, a ∈ l ↔ a ∈ l') : l.max? = l'.max? :=
  same_max?_iff.mpr ⟨fun a ha => ⟨a, (h a).mp ha, le_rfl⟩, fun b hb => ⟨b, (h b).mpr hb, le_rfl⟩⟩

/-- A bound from below can be put on the greatest value, or on each. -/
theorem max_getD_max? (l : List Int) (c : Int) :
    max (l.max?.getD c) c = ((l.map fun a => max a c).max?).getD c := by
  have hmono : ∀ {a b : Int}, a ≤ b → max a c ≤ max b c := fun hab => max_le_max hab le_rfl
  rw [max?_map_of_monotone hmono]
  cases l.max? with
  | none => exact max_self c
  | some m => rfl

/-- Two lists with the same keys, each once, map to the same list when what is under each key
does. -/
theorem map_eq_map_iff {κ α β γ : Type*} {xs : List (κ × α)} {ys : List (κ × β)}
    (hkeys : xs.map Prod.fst = ys.map Prod.fst) (hnodup : (xs.map Prod.fst).Nodup)
    {f : κ × α → γ} {g : κ × β → γ} :
    xs.map f = ys.map g ↔ ∀ k a b, (k, a) ∈ xs → (k, b) ∈ ys → f (k, a) = g (k, b) := by
  -- On both lists at once: the keys at the head are equal and do not come again.
  induction xs generalizing ys with
  | nil =>
      cases ys with
      | nil => simp
      | cons y ys => simp at hkeys
  | cons x xs ih =>
      cases ys with
      | nil => simp at hkeys
      | cons y ys =>
          obtain ⟨k, a⟩ := x
          obtain ⟨k', b⟩ := y
          simp only [List.map_cons, List.cons.injEq] at hkeys
          obtain ⟨hk, hkeys⟩ := hkeys
          cases hk
          obtain ⟨hnew, hnodup⟩ := List.nodup_cons.mp hnodup
          have hnew' : k ∉ ys.map Prod.fst := hkeys ▸ hnew
          simp only [List.map_cons, List.cons.injEq, ih hkeys hnodup]
          constructor
          · intro h i a' b' ha hb
            rcases List.mem_cons.mp ha with heq | ha
            · cases heq
              rcases List.mem_cons.mp hb with heq | hb
              · cases heq
                exact h.1
              · exact absurd (List.mem_map_of_mem (f := Prod.fst) hb) hnew'
            · rcases List.mem_cons.mp hb with heq | hb
              · cases heq
                exact absurd (List.mem_map_of_mem (f := Prod.fst) ha) hnew
              · exact h.2 i a' b' ha hb
          · intro h
            exact ⟨h k a b List.mem_cons_self List.mem_cons_self, fun i a' b' ha hb =>
              h i a' b' (List.mem_cons_of_mem _ ha) (List.mem_cons_of_mem _ hb)⟩

/-! ### Groups -/

section Groups

variable {α β κ : Type*} [LinearOrder κ]

/-- The greatest value of a column in each group. -/
def greatest (key : α → κ) (value : α → Int) (items : List α) : List (κ × Int) :=
  (groupOn key items).map fun g => (g.1, ((g.2.map value).max?).getD 0)

theorem mem_greatest {key : α → κ} {value : α → Int} {items : List α} {k : κ} {v : Int} :
    (k, v) ∈ greatest key value items ↔
      ((items.filter fun a => key a = k).map value).max? = some v := by
  simp only [greatest, List.mem_map, Sorting.mem_groupOn, Prod.mk.injEq]
  constructor
  · intro h
    obtain ⟨g, ⟨⟨a, ha, hkey⟩, hitems⟩, rfl, rfl⟩ := h
    have hmem : value a ∈ (items.filter fun a => key a = g.1).map value := by
      simp only [List.mem_map, List.mem_filter, decide_eq_true_eq]
      exact ⟨a, ⟨ha, hkey⟩, rfl⟩
    obtain ⟨m, hm⟩ := exists_max? hmem
    rw [hitems, hm]
    rfl
  · intro h
    obtain ⟨a, ha, -⟩ := List.mem_map.mp (List.max?_eq_some_iff.mp h).1
    simp only [List.mem_filter, decide_eq_true_eq] at ha
    exact ⟨(k, items.filter fun a => key a = k), ⟨⟨a, ha.1, ha.2⟩, rfl⟩, rfl, by rw [h]; rfl⟩

/-- A key that occurs has a greatest value. -/
theorem groups_ne_nil {key : α → κ} {value : α → Int} {items : List α} {k : κ} :
    ((items.filter fun a => key a = k).map value).max? ≠ none ↔ k ∈ items.map key := by
  rw [ne_eq, List.max?_eq_none_iff, List.map_eq_nil_iff, List.filter_eq_nil_iff, List.mem_map]
  simp

/-- There is one value for each group, in the order of the groups. -/
@[simp] theorem map_fst_greatest (key : α → κ) (value : α → Int) (items : List α) :
    (greatest key value items).map Prod.fst = Sorting.sortOn (fun k => k)
    (items.map key).dedup := by
  rw [greatest, List.map_map]
  exact Sorting.map_fst_groupOn key items

theorem nodup_greatest (key : α → κ) (value : α → Int) (items : List α) :
    ((greatest key value items).map Prod.fst).Nodup := by
  rw [map_fst_greatest]
  exact (Sorting.perm_sortOn _ _).nodup_iff.mpr (List.nodup_dedup _)

/-- The values are those of a list that the items are mapped to. -/
@[simp] theorem greatest_map (key : β → κ) (value : β → Int) (f : α → β) (items : List α) :
    greatest key value (items.map f) = greatest (key ∘ f) (value ∘ f) items := by
  simp only [greatest, groupOn, List.map_map, List.filter_map, Function.comp_def]

/-- Groups with the same greatest values. -/
theorem greatest_congr {key : α → κ} {value : α → Int} {items : List α} {key' : β → κ}
    {value' : β → Int} {items' : List β}
    (h : ∀ k, ((items.filter fun a => key a = k).map value).max? =
      ((items'.filter fun b => key' b = k).map value').max?) :
    greatest key value items = greatest key' value' items' := by
  have hkeys : ∀ k, k ∈ (items.map key).dedup ↔ k ∈ (items'.map key').dedup := by
    intro k
    rw [List.mem_dedup, List.mem_dedup, ← @groups_ne_nil _ _ _ key value items k,
      ← @groups_ne_nil _ _ _ key' value' items' k, h k]
  have hsame : (greatest key value items).map Prod.fst =
      (greatest key' value' items').map Prod.fst := by
    rw [map_fst_greatest, map_fst_greatest]
    exact Sorting.sortOn_perm Function.injective_id
      ((List.perm_ext_iff_of_nodup (List.nodup_dedup _) (List.nodup_dedup _)).mpr hkeys)
  have hid := (map_eq_map_iff hsame (nodup_greatest key value items)
    (f := fun p => p) (g := fun p => p)).mpr fun k a b ha hb => by
      rw [mem_greatest] at ha hb
      rw [← h k, ha] at hb
      rw [Option.some.inj hb]
  rwa [List.map_id', List.map_id'] at hid

end Groups

end Extremes
