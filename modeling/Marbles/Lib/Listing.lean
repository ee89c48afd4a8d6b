import Marbles.Lib.Tenancy

/-!
# What the rows of a tenant are

`Table.Lists` says that a list of rows, in whatever order, is what a tenant has in a shared
table. A table comes to list what is inserted into it, and whatever a statement of that
tenant reads can be computed from the list: a `select` is a filter of it, an `ORDER BY` a
sort, and a join over the key of another table a lookup there.

The list may be in any order, because the order of a table's rows is not part of what a statement
may depend on. Each statement has one lemma, named after it.
-/

universe u v

/-- A loop that goes through leaves what each of its turns adds to. -/
theorem List.foldlM_returns {σ : Type u} {α : Type v} {ε : Type*} {f : σ → α → Except ε σ}
    {q : List α → σ → Prop} {xs : List α} {s : σ} (hstart : q [] s)
    (hstep : ∀ pre x post s, xs = pre ++ x :: post → q pre s →
      ∃ s', f s x = .ok s' ∧ q (pre ++ [x]) s') : ∃ s', xs.foldlM f s = .ok s' ∧ q xs s' := by
  -- induction on what is left, over what was gone over
  suffices h : ∀ post pre s, xs = pre ++ post → q pre s →
      ∃ s', post.foldlM f s = .ok s' ∧ q xs s' from h xs [] s rfl hstart
  intro post
  induction post with
  | nil =>
      intro pre s hxs hdone
      rw [List.append_nil] at hxs
      exact ⟨s, rfl, hxs ▸ hdone⟩
  | cons x post ih =>
      intro pre s hxs hdone
      obtain ⟨s', hs', hdone'⟩ := hstep pre x post s hxs hdone
      have hxs' : xs = pre ++ [x] ++ post := by rw [hxs, List.append_assoc, List.singleton_append]
      obtain ⟨s'', hs'', hend⟩ := ih (pre ++ [x]) s' hxs' hdone'
      exact ⟨s'', by rw [List.foldlM_cons, hs']; exact hs'', hend⟩

namespace Table

variable {γ κ κ' : Type u} {ν ν' : Type v}

section Keys

variable [DecidableEq κ]

/-- The row under a key, if it satisfies a condition. -/
theorem filter_key {l : List (κ × ν)} (h : (l.map Prod.fst).Nodup) (k : κ) (q : ν → Bool) :
    l.filter (fun r => r.1 = k && q r.2) = ((l.lookup k).filter q).toList.map fun v => (k, v) := by
  induction l with
  | nil => rfl
  | cons r l ih =>
      obtain ⟨k', v⟩ := r
      rw [List.map_cons, List.nodup_cons] at h
      rw [lookup_cons, List.filter_cons]
      by_cases hk : k' = k
      · subst hk
        have hnone : l.filter (fun r => r.1 = k' && q r.2) = [] := by
          refine List.filter_eq_nil_iff.mpr fun r hr => ?_
          have hmem : r.1 ∈ l.map Prod.fst := List.mem_map_of_mem hr
          have hne : r.1 ≠ k' := fun heq => h.1 (heq ▸ hmem)
          simp [hne]
        rw [if_pos rfl, hnone]
        cases hq : q v with
        | true => simp [Option.filter, hq]
        | false => simp [Option.filter, hq]
      · rw [if_neg (Ne.symm hk), if_neg (by simp [hk]), ih h.2]

theorem filter_rows (t : Table κ ν) (k : κ) (q : ν → Bool) :
    t.rows.filter (fun r => r.1 = k && q r.2) = ((t.find k).filter q).toList.map fun v => (k, v) :=
  filter_key t.nodup k q

end Keys

variable [LinearOrder γ] [LinearOrder κ] [LinearOrder κ'] [DecidableEq γ] [DecidableEq κ]
  [DecidableEq κ']

/-- The rows of one tenant are these, in whatever order. -/
structure Lists (t : Table (γ × κ) ν) (c : γ) (rows : List (κ × ν)) : Prop where
  nodup : (rows.map Prod.fst).Nodup
  mem : ∀ k v, t.find (c, k) = some v ↔ (k, v) ∈ rows

namespace Lists

variable {t : Table (γ × κ) ν} {t' : Table (γ × κ') ν'} {c : γ} {rows : List (κ × ν)}

omit [LinearOrder γ] [LinearOrder κ] in
theorem nil (h : ∀ k, t.find (c, k) = none) : t.Lists c [] where
  nodup := List.nodup_nil
  mem := fun k v => by simp [h k]

omit [LinearOrder γ] [LinearOrder κ] in
theorem perm {rows' : List (κ × ν)} (h : t.Lists c rows) (hperm : rows.Perm rows') :
    t.Lists c rows' where
  nodup := (hperm.map Prod.fst).nodup_iff.mp h.nodup
  mem := fun k v => (h.mem k v).trans hperm.mem_iff

omit [LinearOrder γ] [LinearOrder κ] in
theorem find_eq_none (h : t.Lists c rows) {k : κ} (hk : k ∉ rows.map Prod.fst) :
    t.find (c, k) = none := by
  cases hfind : t.find (c, k) with
  | none => rfl
  | some v => exact absurd (List.mem_map_of_mem ((h.mem k v).mp hfind)) hk

omit [LinearOrder γ] [LinearOrder κ] in
/-- One more row. -/
theorem insert (h : t.Lists c rows) {k : κ} (hk : k ∉ rows.map Prod.fst) (v : ν) :
    (t.insert (c, k) v).Lists c (rows ++ [(k, v)]) where
  nodup := by
    rw [List.map_append, List.map_singleton, ← List.concat_eq_append]
    exact h.nodup.concat hk
  mem := fun k' v' => by
    have hnew := h.find_eq_none hk
    rw [find_insert, hnew, List.mem_append, List.mem_singleton]
    by_cases heq : k' = k
    · subst heq
      rw [if_pos rfl, ← h.mem, hnew]
      simp [eq_comm]
    · rw [if_neg fun hkey => heq (Prod.mk.inj hkey).2, h.mem]
      simp [heq]

/-- What a query selects. -/
theorem select_perm (h : t.Lists c rows) (p : γ × κ → ν → Bool) :
    (t.select c p).Perm ((rows.filter fun r => p (c, r.1) r.2).map fun r => ((c, r.1), r.2)) := by
  have hsorted := t.pairwise_scan.filter fun r => r.1.1 = c && p r.1 r.2
  have hnodup : (t.select c p).Nodup := hsorted.imp fun hlt => by
    rintro rfl
    exact lt_irrefl _ hlt
  have hinj : Function.Injective fun r : κ × ν => ((c, r.1), r.2) := by
    rintro ⟨k, v⟩ ⟨k', v'⟩ heq
    obtain ⟨hkey, rfl⟩ := Prod.mk.inj heq
    obtain ⟨-, rfl⟩ := Prod.mk.inj hkey
    rfl
  refine (List.perm_ext_iff_of_nodup hnodup ((h.nodup.of_map.filter _).map hinj)).mpr ?_
  rintro ⟨⟨d, k⟩, v⟩
  rw [select, List.mem_filter, mem_scan, List.mem_map]
  simp only [Bool.and_eq_true, decide_eq_true_eq, tenant_apply, List.mem_filter]
  constructor
  · rintro ⟨hfind, rfl, hp⟩
    exact ⟨(k, v), ⟨(h.mem k v).mp hfind, hp⟩, rfl⟩
  · rintro ⟨⟨k', v'⟩, ⟨hmem, hp⟩, heq⟩
    obtain ⟨hkey, rfl⟩ := Prod.mk.inj heq
    obtain ⟨rfl, rfl⟩ := Prod.mk.inj hkey
    exact ⟨(h.mem k' v').mpr hmem, rfl, hp⟩

/-- `ORDER BY` columns that tell the rows of a tenant apart. -/
theorem sortOn_select {ι ι' β : Type*} [LinearOrder ι] [LinearOrder ι'] {rows₀ : List β}
    {entry : β → κ × ν} (h : t.Lists c (rows₀.map entry)) (key : (γ × κ) × ν → ι) (key' : β → ι')
    (p : γ × κ → ν → Bool)
    (horder : ∀ r r', key' r ≤ key' r' ↔
      key ((c, (entry r).1), (entry r).2) ≤ key ((c, (entry r').1), (entry r').2))
    (hkey : ∀ r r', key' r = key' r' → (entry r).1 = (entry r').1) :
    Sorting.sortOn key (t.select c p) =
      (Sorting.sortOn key' (rows₀.filter fun r => p (c, (entry r).1) (entry r).2)).map fun r =>
        ((c, (entry r).1), (entry r).2) := by
  rw [Sorting.map_sortOn horder]
  have hperm := h.select_perm p
  rw [List.filter_map, List.map_map] at hperm
  refine Sorting.sortOn_perm_of_nodup hperm ?_
  rw [List.map_map]
  have hnodup := h.nodup
  rw [List.map_map] at hnodup
  refine List.Nodup.map_on (fun r hr r' hr' heq => ?_) (hnodup.of_map.filter _)
  refine List.inj_on_of_nodup_map hnodup (List.mem_filter.mp hr).1 (List.mem_filter.mp hr').1 ?_
  exact hkey r r' (le_antisymm ((horder r r').mpr heq.le) ((horder r' r).mpr heq.ge))

omit [LinearOrder γ] [LinearOrder κ] in
/-- The rows of another table, each rewritten. -/
theorem find_map {ν₀ : Type v} {t₀ : Table κ ν₀} {f : ν₀ → ν}
    (h : t.Lists c (t₀.rows.map fun r => (r.1, f r.2))) (k : κ) :
    t.find (c, k) = (t₀.find k).map f := by
  refine Option.ext fun v => (h.mem k v).trans ?_
  rw [List.mem_map, Option.map_eq_some_iff]
  constructor
  · rintro ⟨⟨k', v'⟩, hrow, heq⟩
    obtain ⟨rfl, rfl⟩ := Prod.mk.inj heq
    exact ⟨v', mem_rows.mp hrow, rfl⟩
  · rintro ⟨v', hfind, rfl⟩
    exact ⟨(k, v'), mem_rows.mpr hfind, rfl⟩

omit [LinearOrder γ] [LinearOrder κ] in
/-- A loop whose every turn inserts one more row into a part of the state. -/
theorem foldlM_insert {σ α ε : Type*} {put : Table (γ × κ) ν → σ} {f : σ → α → Except ε σ}
    {entry : α → κ × ν} {xs : List α} (hstart : t.Lists c [])
    (hnodup : ((xs.map entry).map Prod.fst).Nodup)
    (hstep : ∀ pre x post (t : Table (γ × κ) ν), xs = pre ++ x :: post → t.Lists c (pre.map entry) →
      t.find (c, (entry x).1) = none →
      f (put t) x = .ok (put (t.insert (c, (entry x).1) (entry x).2))) :
    ∃ t' : Table (γ × κ) ν, xs.foldlM f (put t) = .ok (put t') ∧ t'.Lists c (xs.map entry) := by
  have hloop := @List.foldlM_returns _ _ _ f
    (fun pre s => ∃ t' : Table (γ × κ) ν, s = put t' ∧ t'.Lists c (pre.map entry)) xs (put t)
    ⟨t, rfl, hstart⟩ ?_
  · obtain ⟨s', hs', t', rfl, ht'⟩ := hloop
    exact ⟨t', hs', ht'⟩
  rintro pre x post s hxs ⟨t', rfl, ht'⟩
  have hfresh : (entry x).1 ∉ (pre.map entry).map Prod.fst := by
    rw [hxs, List.map_append, List.map_cons, List.map_append, List.map_cons,
      List.nodup_append] at hnodup
    exact fun hmem => hnodup.2.2 _ hmem _ (List.mem_cons_self ..) rfl
  refine ⟨_, hstep pre x post t' hxs ht' (ht'.find_eq_none hfresh), _, rfl, ?_⟩
  rw [List.map_append, List.map_singleton]
  exact ht'.insert hfresh _

omit [LinearOrder γ] [LinearOrder κ] in
/-- A table copied row by row, in the order of some columns. -/
theorem copy {κ₀ ι σ ε : Type*} {ν₀ : Type*} [LinearOrder ι] {rows₀ : List (κ₀ × ν₀)}
    (put : Table (γ × κ) ν → σ) (f : σ → κ₀ × ν₀ → Except ε σ) (order : κ₀ × ν₀ → ι) {key : κ₀ → κ}
    (row : ν₀ → ν) (hstart : t.Lists c []) (hnodup : (rows₀.map Prod.fst).Nodup)
    (hkey : Function.Injective key)
    (hstep : ∀ (pre : List (κ₀ × ν₀)) r (t : Table (γ × κ) ν),
      (∀ r' ∈ pre, r' ∈ rows₀) → r ∈ rows₀ → t.Lists c (pre.map fun r => (key r.1, row r.2)) →
      t.find (c, key r.1) = none →
      f (put t) r = .ok (put (t.insert (c, key r.1) (row r.2)))) :
    ∃ t' : Table (γ × κ) ν, (Sorting.sortOn order rows₀).foldlM f (put t) = .ok (put t') ∧
      t'.Lists c (rows₀.map fun r => (key r.1, row r.2)) := by
  have hperm := Sorting.perm_sortOn order rows₀
  have hkeys :
      (((Sorting.sortOn order rows₀).map fun r => (key r.1, row r.2)).map Prod.fst).Nodup := by
    rw [List.map_map]
    have hnodup' := ((hperm.map Prod.fst).nodup_iff.mpr hnodup).map hkey
    rwa [List.map_map] at hnodup'
  have hloop := foldlM_insert (f := f) hstart hkeys fun pre r post t hxs => by
    have hmem : ∀ r' ∈ pre ++ r :: post, r' ∈ rows₀ := fun r' hr' =>
      hperm.mem_iff.mp (hxs ▸ hr')
    exact hstep pre r t (fun r' hr' => hmem r' (List.mem_append_left _ hr'))
      (hmem r (List.mem_append_right _ (List.mem_cons_self ..)))
  obtain ⟨t', ht', hlists⟩ := hloop
  exact ⟨t', ht', hlists.perm (hperm.map _)⟩

omit [LinearOrder γ] [LinearOrder κ] in
/-- Another table, where the tenant has the same rows. -/
theorem of_tenant {u : Table (γ × κ) ν} (h : t.Lists c rows) (hsame : u.tenant c = t.tenant c) :
    u.Lists c rows where
  nodup := h.nodup
  mem := fun k v => by rw [← h.mem k v, ← tenant_apply u, ← tenant_apply t, hsame]

omit [LinearOrder γ] [LinearOrder κ] in
/-- A loop that went through, each turn of which inserts a row that was not there. -/
theorem foldlM_returned {σ α ε : Type*} {put : Table (γ × κ) ν → σ} {f : σ → α → Except ε σ}
    {entry : α → κ × ν} {xs : List α} {s : σ} (h : t.Lists c rows)
    (hloop : xs.foldlM f (put t) = .ok s)
    (hstep : ∀ (t : Table (γ × κ) ν) x s, f (put t) x = .ok s →
      t.find (c, (entry x).1) = none ∧ s = put (t.insert (c, (entry x).1) (entry x).2)) :
    ∃ t' : Table (γ × κ) ν, s = put t' ∧ t'.Lists c (rows ++ xs.map entry) ∧
      ∀ d, d ≠ c → t'.tenant d = t.tenant d := by
  induction xs generalizing t rows with
  | nil =>
      cases hloop
      exact ⟨t, rfl, by rwa [List.map_nil, List.append_nil], fun _ _ => rfl⟩
  | cons x xs ih =>
      rw [List.foldlM_cons] at hloop
      cases hturn : f (put t) x with
      | error e =>
          rw [hturn] at hloop
          cases hloop
      | ok next =>
          rw [hturn] at hloop
          obtain ⟨hfresh, rfl⟩ := hstep t x next hturn
          have hkey : (entry x).1 ∉ rows.map Prod.fst := fun hmem => by
            obtain ⟨r, hr, hk⟩ := List.mem_map.mp hmem
            have hfind := (h.mem r.1 r.2).mpr hr
            rw [hk, hfresh] at hfind
            cases hfind
          obtain ⟨t', rfl, hlists, hframe⟩ := ih (h.insert hkey (entry x).2) hloop
          refine ⟨t', rfl, ?_, fun d hd => ?_⟩
          · rwa [List.append_assoc] at hlists
          · rw [hframe d hd, tenant_insert, if_neg hd]

omit [LinearOrder γ] [LinearOrder κ] in
/-- The same of a table that is copied in the order of some columns. -/
theorem copied {κ₀ ν₀ ι σ ε : Type*} [LinearOrder ι] {rows₀ : List (κ₀ × ν₀)}
    (put : Table (γ × κ) ν → σ) {f : σ → κ₀ × ν₀ → Except ε σ} {order : κ₀ × ν₀ → ι}
    (entry : κ₀ × ν₀ → κ × ν) {s : σ} (h : t.Lists c rows)
    (hloop : (Sorting.sortOn order rows₀).foldlM f (put t) = .ok s)
    (hstep : ∀ (t : Table (γ × κ) ν) r s, f (put t) r = .ok s →
      t.find (c, (entry r).1) = none ∧ s = put (t.insert (c, (entry r).1) (entry r).2)) :
    ∃ t' : Table (γ × κ) ν, s = put t' ∧ t'.Lists c (rows ++ rows₀.map entry) ∧
      ∀ d, d ≠ c → t'.tenant d = t.tenant d := by
  obtain ⟨t', hput, hlists, hframe⟩ := foldlM_returned h hloop hstep
  exact ⟨t', hput, hlists.perm (((Sorting.perm_sortOn order rows₀).map entry).append_left rows),
    hframe⟩

omit [LinearOrder γ] [LinearOrder κ] in
/-- Any table lists some rows of a tenant. -/
theorem exists_lists (t : Table (γ × κ) ν) (c : γ) : ∃ rows, t.Lists c rows := by
  let own := t.rows.filter fun r => r.1.1 = c
  refine ⟨own.map fun r => (r.1.2, r.2), ?_, fun k v => ?_⟩
  · rw [List.map_map]
    have hkeys : (own.map Prod.fst).Nodup :=
      (List.filter_sublist.map Prod.fst).nodup t.nodup
    refine List.Nodup.map_on (fun r hr r' hr' heq => ?_) hkeys.of_map
    have htenant : r.1.1 = r'.1.1 := by
      rw [of_decide_eq_true (List.mem_filter.mp hr).2, of_decide_eq_true (List.mem_filter.mp hr').2]
    exact List.inj_on_of_nodup_map hkeys hr hr' (Prod.ext htenant heq)
  · rw [← mem_rows, List.mem_map]
    constructor
    · intro hrow
      exact ⟨((c, k), v), List.mem_filter.mpr ⟨hrow, decide_eq_true rfl⟩, rfl⟩
    · rintro ⟨r, hr, heq⟩
      obtain ⟨hrow, htenant⟩ := List.mem_filter.mp hr
      obtain ⟨rfl, rfl⟩ := Prod.mk.inj heq
      rwa [← of_decide_eq_true htenant]

end Lists

omit [DecidableEq κ] in
/-- How many pairs a join over the key of the other table finds. -/
theorem length_join_lookup {t : Table (γ × κ) ν} {t' : Table (γ × κ') ν'}
    {on : (γ × κ) × ν → (γ × κ') × ν' → Bool} (c : γ) (p : γ × κ → ν → Bool) (key : κ → κ')
    (q : ν' → Bool)
    (hon : ∀ r r', on r r' = (r.1.1 = c && p r.1 r.2 && (r'.1 = (c, key r.1.2) && q r'.2))) :
    (t.join t' on).length =
      (t.select c fun k v => p k v && (t'.find (c, key k.2)).any q).length := by
  have hnodup : (t'.scan.map Prod.fst).Nodup :=
    ((Sorting.perm_sortOn _ t'.rows).map Prod.fst).nodup_iff.mpr t'.nodup
  -- the scan is the same table in another order
  let scanned : Table (γ × κ') ν' := ⟨t'.scan, hnodup⟩
  have hscanned : ∀ k, scanned.find k = t'.find k := fun k => Option.ext fun v => by
    rw [← mem_rows]
    exact mem_scan
  have hone : ∀ r, (t'.scan.filter (on r)).length =
      if r.1.1 = c && (p r.1 r.2 && (t'.find (c, key r.1.2)).any q) then 1 else 0 := by
    intro r
    cases hr : (r.1.1 = c && p r.1 r.2 : Bool) with
    | true =>
        have hfilter : t'.scan.filter (on r) =
            t'.scan.filter fun r' => r'.1 = (c, key r.1.2) && q r'.2 :=
          List.filter_congr fun r' _ => by rw [hon, hr, Bool.true_and]
        have hrows := filter_rows scanned (c, key r.1.2) q
        rw [hscanned] at hrows
        rw [hfilter, hrows, ← Bool.and_assoc, hr, Bool.true_and, List.length_map]
        cases t'.find (c, key r.1.2) with
        | none => rfl
        | some v => cases hq : q v <;> simp [Option.filter, hq]
    | false =>
        have hnil : t'.scan.filter (on r) = [] :=
          List.filter_eq_nil_iff.mpr fun r' _ => by simp [hon, hr]
        rw [hnil, ← Bool.and_assoc, hr]
        rfl
  unfold join select
  induction t.scan with
  | nil => rfl
  | cons r l ih =>
      rw [List.flatMap_cons, List.length_append, List.length_map, hone, ih, List.filter_cons]
      split
      · rw [List.length_cons, Nat.add_comm]
      · rw [Nat.zero_add]

end Table
