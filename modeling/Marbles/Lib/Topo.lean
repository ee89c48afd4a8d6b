import Mathlib.Data.List.Sort
import Mathlib.Data.List.Perm.Basic
import Mathlib.Data.List.Range
import Mathlib.Data.List.Count
import Marbles.Lib.Graph

/-!
# Topological order by counting

Kahn's algorithm on the nodes `0, …, n - 1`: a node becomes ready when the last of its
incoming edges has been used up, and the smallest ready node comes next. The queue is a
set, kept as a sorted list. The counters are the invariant: a counter is the number of
edges from nodes not yet in the order, so a node enters the queue once, and an order as
long as `n` visits every node exactly once.

Since the queue holds every node whose parents are all in the order, each place of the order
goes to the smallest node that may come next (`Greedy`), and when the queue runs empty early
every node left out has a parent left out: the edges have a cycle.

Edges may be there several times, and the counters count them so. A loop at a node is a cycle like
any other, and its node never becomes ready.
-/

namespace Topo

/-- Edges `(parent, child)`. -/
abbrev Edges := List (Nat × Nat)

/-- The children of a node, in edge order. -/
def children (edges : Edges) (i : Nat) : List Nat := (edges.filter fun e => e.1 = i).map Prod.snd

/-- The number of edges into a node. -/
def indegree (edges : Edges) (i : Nat) : Nat := edges.countP fun e => e.2 = i

/-- Insert into a sorted set. -/
def insert (i : Nat) (ready : List Nat) : List Nat :=
  if i ∈ ready then ready else ready.orderedInsert (· ≤ ·) i

/-- Use up one edge into `child`. -/
def relax (st : (Nat → Nat) × List Nat) (child : Nat) : (Nat → Nat) × List Nat :=
  (Function.update st.1 child (st.1 child - 1),
    if st.1 child - 1 = 0 then insert child st.2 else st.2)

/-- Take the smallest ready node until there is none. -/
def visit (edges : Edges) : Nat → (Nat → Nat) × List Nat → List Nat → List Nat
  | 0, _, order => order
  | _ + 1, (_, []), order => order
  | fuel + 1, (count, i :: ready), order =>
      visit edges fuel ((children edges i).foldl relax (count, ready)) (order ++ [i])

/-- The nodes in topological order, `none` when a cycle keeps some of them out. -/
def sort (n : Nat) (edges : Edges) : Option (List Nat) :=
  let order := visit edges n
    (indegree edges, (List.range n).filter fun i => indegree edges i = 0) []
  if order.length = n then some order else none

@[simp]
theorem mem_insert {i j : Nat} {ready : List Nat} : j ∈ insert i ready ↔ j = i ∨ j ∈ ready := by
  unfold insert
  split
  · rename_i h
    exact ⟨Or.inr, fun hj => hj.elim (fun heq => heq ▸ h) id⟩
  · exact List.mem_orderedInsert ..

theorem nodup_insert {i : Nat} {ready : List Nat} (h : ready.Nodup) : (insert i ready).Nodup := by
  unfold insert
  split
  · exact h
  · rename_i hi
    exact (List.perm_orderedInsert (· ≤ ·) i ready).nodup_iff.mpr (List.nodup_cons.mpr ⟨hi, h⟩)

/-- Halfway through the children of the last node of `order`: `left` are those whose edge
has not been used up yet. -/
structure Inv (edges : Edges) (n : Nat) (st : (Nat → Nat) × List Nat) (order left : List Nat) :
    Prop where
  nodupOrder : order.Nodup
  nodupReady : st.2.Nodup
  disjoint : ∀ i ∈ st.2, i ∉ order
  bounded : ∀ i, i ∈ order ∨ i ∈ st.2 → i < n
  count : ∀ i, st.1 i = (edges.countP fun e => e.2 = i ∧ e.1 ∉ order) + left.count i
  zero : ∀ i, i ∈ order ∨ i ∈ st.2 → st.1 i = 0

/-- Using up one edge keeps the invariant. -/
theorem Inv.relax {edges : Edges} {n : Nat} {st : (Nat → Nat) × List Nat} {order left : List Nat}
    {child : Nat} (h : Inv edges n st order (child :: left)) (hchild : child < n) :
    Inv edges n (Topo.relax st child) order left := by
  -- the edge to `child` is still counted, so `child` was neither ready nor in the order
  have hpos : 0 < st.1 child := by
    rw [h.count child, List.count_cons_self]
    omega
  have hnew : ¬ (child ∈ order ∨ child ∈ st.2) := fun hmem => by
    rw [h.zero child hmem] at hpos
    exact Nat.lt_irrefl 0 hpos
  obtain ⟨hnotOrder, hnotReady⟩ := not_or.mp hnew
  have hready : ∀ i, i ∈ (Topo.relax st child).2 →
      (i = child ∧ st.1 child - 1 = 0) ∨ i ∈ st.2 := by
    intro i hi
    unfold Topo.relax at hi
    dsimp only at hi
    split at hi
    · rename_i hz
      exact (mem_insert.mp hi).imp (fun heq => ⟨heq, hz⟩) id
    · exact Or.inr hi
  refine ⟨h.nodupOrder, ?_, ?_, ?_, ?_, ?_⟩
  · unfold Topo.relax
    dsimp only
    split
    · exact nodup_insert h.nodupReady
    · exact h.nodupReady
  · intro i hi
    rcases hready i hi with ⟨rfl, -⟩ | hi
    · exact hnotOrder
    · exact h.disjoint i hi
  · intro i hi
    rcases hi with hi | hi
    · exact h.bounded i (Or.inl hi)
    · rcases hready i hi with ⟨rfl, -⟩ | hi
      · exact hchild
      · exact h.bounded i (Or.inr hi)
  · -- one edge fewer is left for `child`, and as many as before for every other node
    intro i
    have hcount := h.count i
    by_cases hi : i = child
    · subst hi
      rw [List.count_cons_self] at hcount
      change Function.update st.1 i (st.1 i - 1) i = _
      rw [Function.update_self]
      omega
    · rw [List.count_cons_of_ne (Ne.symm hi)] at hcount
      change Function.update st.1 child (st.1 child - 1) i = _
      rw [Function.update_of_ne hi]
      exact hcount
  · intro i hi
    change Function.update st.1 child (st.1 child - 1) i = 0
    have hold : i ≠ child → st.1 i = 0 := by
      intro hne
      refine h.zero i (hi.imp_right fun hi => ?_)
      exact (hready i hi).resolve_left fun heq => hne heq.1
    by_cases hic : i = child
    · subst hic
      rw [Function.update_self]
      rcases hi with hi | hi
      · exact absurd hi hnotOrder
      · exact ((hready i hi).resolve_right hnotReady).2
    · rw [Function.update_of_ne hic]
      exact hold hic

theorem Inv.foldl {edges : Edges} {n : Nat} {order left : List Nat}
    {st : (Nat → Nat) × List Nat} (h : Inv edges n st order left) (hleft : ∀ c ∈ left, c < n) :
    Inv edges n (left.foldl Topo.relax st) order [] := by
  induction left generalizing st with
  | nil => exact h
  | cons c left ih =>
      rw [List.foldl_cons]
      exact ih (h.relax (hleft c (List.mem_cons_self ..)))
        fun d hd => hleft d (List.mem_cons_of_mem _ hd)

/-- Taking a node out of the count of the nodes not in the order. -/
theorem countP_append {edges : Edges} {order : List Nat} {i j : Nat} (hi : i ∉ order) :
    (edges.countP fun e => e.2 = j ∧ e.1 ∉ order) =
      (edges.countP fun e => e.2 = j ∧ e.1 ∉ order ++ [i]) + (children edges i).count j := by
  induction edges with
  | nil => rfl
  | cons e edges ih =>
      have hchildren : (children (e :: edges) i).count j =
          (children edges i).count j + if e.1 = i ∧ e.2 = j then 1 else 0 := by
        unfold children
        by_cases he : e.1 = i
        · simp only [he, List.filter_cons, decide_true, if_true, List.map_cons, List.count_cons,
            true_and, beq_iff_eq]
        · simp [he]
      rw [List.countP_cons, List.countP_cons, ih, hchildren]
      by_cases he : e.1 = i
      · subst he
        by_cases hj : e.2 = j
        · simp [hi, hj]
          omega
        · simp [hj]
      · by_cases hj : e.2 = j
        · by_cases ho : e.1 ∈ order
          · simp [he, hj, ho]
          · simp [he, hj, ho]
            omega
        · simp [hj]

/-- The first ready node moves into the order; its edges are still to be used up. -/
theorem Inv.next {edges : Edges} {n : Nat} {count : Nat → Nat} {ready order : List Nat} {i : Nat}
    (h : Inv edges n (count, i :: ready) order []) :
    Inv edges n (count, ready) (order ++ [i]) (children edges i) := by
  have hi : i ∉ order := h.disjoint i (List.mem_cons_self ..)
  obtain ⟨hiready, hready⟩ := List.nodup_cons.mp h.nodupReady
  have hmoved : ∀ j, j ∈ order ++ [i] ∨ j ∈ ready → j ∈ order ∨ j ∈ i :: ready := by
    intro j hj
    rcases hj with hj | hj
    · rcases List.mem_append.mp hj with hj | hj
      · exact Or.inl hj
      · exact Or.inr (List.mem_singleton.mp hj ▸ List.mem_cons_self ..)
    · exact Or.inr (List.mem_cons_of_mem _ hj)
  refine ⟨?_, hready, ?_, fun j hj => h.bounded j (hmoved j hj), ?_,
    fun j hj => h.zero j (hmoved j hj)⟩
  · exact List.nodup_append.mpr ⟨h.nodupOrder, List.nodup_singleton i, fun a ha b hb => by
      rw [List.mem_singleton.mp hb]
      exact fun heq => hi (heq ▸ ha)⟩
  · intro j hj hmem
    rcases List.mem_append.mp hmem with hmem | hmem
    · exact h.disjoint j (List.mem_cons_of_mem _ hj) hmem
    · exact hiready (List.mem_singleton.mp hmem ▸ hj)
  · intro j
    have hcount := h.count j
    rwa [List.count_nil, Nat.add_zero, countP_append hi] at hcount

/-- Between two nodes: everything the algorithm has done so far. -/
theorem visit_spec {edges : Edges} {n : Nat} (hedges : ∀ e ∈ edges, e.2 < n) :
    ∀ (fuel : Nat) {st : (Nat → Nat) × List Nat} {order : List Nat}, Inv edges n st order [] →
      (visit edges fuel st order).Nodup ∧ ∀ i ∈ visit edges fuel st order, i < n
  | 0, _, _, h => ⟨h.nodupOrder, fun i hi => h.bounded i (Or.inl hi)⟩
  | _ + 1, (_, []), _, h => ⟨h.nodupOrder, fun i hi => h.bounded i (Or.inl hi)⟩
  | fuel + 1, (count, i :: ready), order, h => by
      have hnext := h.next
      refine visit_spec hedges fuel (hnext.foldl fun c hc => ?_)
      obtain ⟨e, he, rfl⟩ := List.mem_map.mp hc
      exact hedges e (List.mem_filter.mp he).1

/-- Before the first node. -/
theorem Inv.start (edges : Edges) (n : Nat) : Inv edges n
    (indegree edges, (List.range n).filter fun i => indegree edges i = 0) [] [] := by
  refine ⟨List.nodup_nil, List.nodup_range.filter _, fun _ _ => List.not_mem_nil, ?_, ?_, ?_⟩
  · intro i hi
    rcases hi with hi | hi
    · exact absurd hi List.not_mem_nil
    · exact List.mem_range.mp (List.mem_filter.mp hi).1
  · intro i
    simp [indegree]
  · intro i hi
    rcases hi with hi | hi
    · exact absurd hi List.not_mem_nil
    · simpa using (List.mem_filter.mp hi).2

/-- A topological order has every node exactly once. -/
theorem sort_perm {n : Nat} {edges : Edges} {order : List Nat} (hedges : ∀ e ∈ edges, e.2 < n)
    (h : sort n edges = some order) : order.Perm (List.range n) := by
  obtain ⟨hnodup, hbounded⟩ := visit_spec hedges n (.start edges n)
  unfold sort at h
  dsimp only at h
  split at h
  · rename_i hlength
    obtain rfl := Option.some.inj h
    have hsub : visit edges n (indegree edges,
        (List.range n).filter fun i => indegree edges i = 0) [] ⊆ List.range n :=
      fun i hi => List.mem_range.mpr (hbounded i hi)
    exact (List.subperm_of_subset hnodup hsub).perm_of_length_le
      (by rw [List.length_range, hlength])
  · exact absurd h (by simp)

/-! ### Which node comes next -/

/-- All parents of the node are in the order, and it is not. -/
structure Available (edges : Edges) (n : Nat) (order : List Nat) (i : Nat) : Prop where
  bound : i < n
  fresh : i ∉ order
  parents : ∀ p, (p, i) ∈ edges → p ∈ order

/-- Each place of the order goes to the smallest node that is available there. -/
def Greedy (edges : Edges) (n : Nat) (order : List Nat) : Prop :=
  ∀ pre i post, order = pre ++ i :: post →
    Available edges n pre i ∧ ∀ j, Available edges n pre j → i ≤ j

/-- The queue is sorted and misses no node whose counter is down to zero. -/
structure Queued (n : Nat) (st : (Nat → Nat) × List Nat) (order : List Nat) : Prop where
  sorted : st.2.Pairwise (· ≤ ·)
  complete : ∀ i < n, i ∉ order → st.1 i = 0 → i ∈ st.2

theorem sorted_insert {i : Nat} {ready : List Nat} (h : ready.Pairwise (· ≤ ·)) :
    (insert i ready).Pairwise (· ≤ ·) := by
  unfold insert
  split
  · exact h
  · exact h.orderedInsert i ready

theorem Queued.relax {n : Nat} {st : (Nat → Nat) × List Nat} {order : List Nat}
    (h : Queued n st order) (child : Nat) : Queued n (Topo.relax st child) order := by
  unfold Topo.relax
  refine ⟨?_, fun i hi hnot hzero => ?_⟩
  · dsimp only
    split
    · exact sorted_insert h.sorted
    · exact h.sorted
  · dsimp only at hzero ⊢
    by_cases hchild : i = child
    · subst hchild
      rw [Function.update_self] at hzero
      rw [if_pos hzero]
      exact mem_insert.mpr (Or.inl rfl)
    · rw [Function.update_of_ne hchild] at hzero
      have hready := h.complete i hi hnot hzero
      split
      · exact mem_insert.mpr (Or.inr hready)
      · exact hready

theorem Queued.foldl {n : Nat} {st : (Nat → Nat) × List Nat} {order left : List Nat}
    (h : Queued n st order) : Queued n (left.foldl Topo.relax st) order := by
  induction left generalizing st with
  | nil => exact h
  | cons c left ih => exact ih (h.relax c)

/-- Between two nodes a counter is down to zero when all parents are in the order. -/
theorem Inv.count_eq_zero {edges : Edges} {n : Nat} {st : (Nat → Nat) × List Nat}
    {order : List Nat} (h : Inv edges n st order []) {i : Nat} :
    st.1 i = 0 ↔ ∀ p, (p, i) ∈ edges → p ∈ order := by
  rw [h.count, List.count_nil, Nat.add_zero, List.countP_eq_zero]
  constructor
  · intro hnone p hp
    by_contra hnot
    exact hnone (p, i) hp (by simp [hnot])
  · intro hall e he
    have hparent := hall e.1
    simp only [decide_eq_true_eq, not_and, not_not]
    rintro rfl
    exact hparent he

/-- Taking the smallest ready node keeps the order greedy. -/
theorem Greedy.snoc {edges : Edges} {n : Nat} {count : Nat → Nat} {ready order : List Nat} {i : Nat}
    (hgreedy : Greedy edges n order) (h : Inv edges n (count, i :: ready) order [])
    (hq : Queued n (count, i :: ready) order) : Greedy edges n (order ++ [i]) := by
  intro pre j post hsplit
  rcases List.eq_nil_or_concat post with rfl | ⟨post, last, rfl⟩
  · obtain ⟨rfl, hji⟩ := List.append_inj' hsplit rfl
    obtain rfl : i = j := by simpa using hji
    have hmem : i ∈ i :: ready := List.mem_cons_self ..
    refine ⟨⟨h.bounded i (Or.inr hmem), h.disjoint i hmem,
      h.count_eq_zero.mp (h.zero i (Or.inr hmem))⟩, fun k hk => ?_⟩
    rcases List.mem_cons.mp (hq.complete k hk.bound hk.fresh (h.count_eq_zero.mpr hk.parents)) with
      rfl | hready
    · exact Nat.le_refl _
    · exact (List.pairwise_cons.mp hq.sorted).1 k hready
  · have hsplit' : order ++ [i] = pre ++ j :: post ++ [last] := by
      rw [hsplit, List.concat_eq_append, List.append_assoc]
      rfl
    exact hgreedy pre j post (List.append_inj' hsplit' rfl).1

/-- A node left out has a parent left out. -/
def Stuck (edges : Edges) (n : Nat) (order : List Nat) : Prop :=
  ∀ i < n, i ∉ order → ∃ p, (p, i) ∈ edges ∧ p ∉ order

/-- The whole walk: it is greedy, and it ends with all nodes in the order or stuck. -/
theorem visit_greedy {edges : Edges} {n : Nat} (hedges : ∀ e ∈ edges, e.2 < n) :
    ∀ (fuel : Nat) {st : (Nat → Nat) × List Nat} {order : List Nat}, Inv edges n st order [] →
      Queued n st order → Greedy edges n order → order.length + fuel = n →
      Greedy edges n (visit edges fuel st order) ∧
        ((visit edges fuel st order).length = n ∨ Stuck edges n (visit edges fuel st order))
  | 0, _, _, _, _, hgreedy, hfuel => ⟨hgreedy, Or.inl hfuel⟩
  | _ + 1, (_, []), _, h, hq, hgreedy, _ => by
      refine ⟨hgreedy, Or.inr fun i hi hnot => ?_⟩
      by_contra hnone
      simp only [not_exists, not_and, not_not] at hnone
      exact absurd (hq.complete i hi hnot (h.count_eq_zero.mpr hnone)) List.not_mem_nil
  | fuel + 1, (count, i :: ready), order, h, hq, hgreedy, hfuel => by
      have hnext := h.next
      refine visit_greedy hedges fuel (hnext.foldl fun c hc => ?_) (Queued.foldl ?_)
        (hgreedy.snoc h hq) ?_
      · obtain ⟨e, he, rfl⟩ := List.mem_map.mp hc
        exact hedges e (List.mem_filter.mp he).1
      · refine ⟨(List.pairwise_cons.mp hq.sorted).2, fun j hj hnot hzero => ?_⟩
        obtain ⟨hnot, hji⟩ := not_or.mp (mt List.mem_append.mpr hnot)
        have hji : j ≠ i := fun heq => hji (List.mem_singleton.mpr heq)
        exact (List.mem_cons.mp (hq.complete j hj hnot hzero)).resolve_left hji
      · rw [List.length_append, List.length_singleton]
        omega

/-- Every parent comes before its children. -/
theorem Greedy.parent_before {edges : Edges} {n : Nat} {order : List Nat} (h : Greedy edges n order)
    {p i : Nat} (hp : (p, i) ∈ edges) (hi : i ∈ order) (hnodup : order.Nodup) :
    order.idxOf p < order.idxOf i := by
  obtain ⟨pre, post, rfl⟩ := List.append_of_mem hi
  have hparent := (h pre i post rfl).1.parents p hp
  have hnot : i ∉ pre := fun hmem =>
    (List.nodup_append.mp hnodup).2.2 i hmem i (List.mem_cons_self ..) rfl
  rw [List.idxOf_append_of_mem hparent, List.idxOf_append_of_notMem hnot, List.idxOf_cons_self,
    Nat.add_zero]
  exact List.idxOf_lt_length_of_mem hparent

/-- The nodes left out of a walk that is stuck lie on or behind a cycle. -/
theorem Stuck.length_eq {edges : Edges} {n : Nat} {order : List Nat} (h : Stuck edges n order)
    (hacyclic : Graph.Acyclic (Graph.Edge edges)) (hedges : ∀ e ∈ edges, e.1 < n)
    (hnodup : order.Nodup) (hbound : ∀ i ∈ order, i < n) : order.length = n := by
  have hall : ∀ i < n, i ∈ order := by
    intro i hi
    by_contra hnot
    let back := edges.map Prod.swap
    have hback : ∀ a b, Graph.Edge back a b ↔ Graph.Edge edges b a := fun a b => by
      unfold Graph.Edge
      rw [List.mem_map]
      constructor
      · rintro ⟨⟨c, d⟩, he, heq⟩
        obtain ⟨rfl, rfl⟩ := Prod.mk.inj heq
        exact he
      · exact fun he => ⟨_, he, rfl⟩
    have hacyclic' : Graph.Acyclic (Graph.Edge back) := fun a ha =>
      hacyclic a (Relation.transGen_swap.mp
        (Relation.TransGen.mono (fun b c hbc => (hback b c).mp hbc) a a ha))
    obtain ⟨_, hfalse, -⟩ := hacyclic'.reaches (p := fun i => i < n ∧ i ∉ order)
      (q := fun _ => False)
      (fun a ha => by
        obtain ⟨p, hp, hout⟩ := h a ha.1 ha.2
        exact ⟨p, (hback a p).mpr hp, Or.inl ⟨hedges _ hp, hout⟩⟩) ⟨hi, hnot⟩
    exact hfalse
  have hperm : order.Perm (List.range n) := (List.perm_ext_iff_of_nodup hnodup List.nodup_range).mpr
    fun i => ⟨fun hi => List.mem_range.mpr (hbound i hi), fun hi => hall i (List.mem_range.mp hi)⟩
  rw [hperm.length_eq, List.length_range]

section

variable {n : Nat} {edges : Edges} (hedges : ∀ e ∈ edges, e.1 < n ∧ e.2 < n)
include hedges

/-- What the walk from the nodes without parents comes to. -/
theorem visit_start : ∃ order, order = visit edges n
    (indegree edges, (List.range n).filter fun i => indegree edges i = 0) [] ∧
      Greedy edges n order ∧ (order.length = n ∨ Stuck edges n order) := by
  have hstart : Queued n
      (indegree edges, (List.range n).filter fun i => indegree edges i = 0) [] := by
    refine ⟨List.pairwise_le_range.filter _, fun i hi _ hzero => ?_⟩
    exact List.mem_filter.mpr ⟨List.mem_range.mpr hi, decide_eq_true hzero⟩
  exact ⟨_, rfl, visit_greedy (fun e he => (hedges e he).2) n (.start edges n) hstart
    (fun pre i post h => absurd h (by simp)) (Nat.zero_add n)⟩

theorem sort_greedy {order : List Nat} (h : sort n edges = some order) : Greedy edges n order := by
  obtain ⟨found, hfound, hgreedy, -⟩ := visit_start hedges
  unfold sort at h
  rw [← hfound] at h
  dsimp only at h
  split at h
  · exact Option.some.inj h ▸ hgreedy
  · exact absurd h (by simp)

/-- There is a topological order exactly when the edges have no cycle. -/
theorem sort_isSome_iff : (∃ order, sort n edges = some order) ↔
    Graph.Acyclic (Graph.Edge edges) := by
  have hchild : ∀ e ∈ edges, e.2 < n := fun e he => (hedges e he).2
  constructor
  · rintro ⟨order, h⟩ a ha
    have hperm := sort_perm hchild h
    have hgreedy := sort_greedy hedges h
    have hnodup := hperm.nodup_iff.mpr List.nodup_range
    have hedge : ∀ p i, Graph.Edge edges p i → order.idxOf p < order.idxOf i := fun p i hp =>
      hgreedy.parent_before hp (hperm.mem_iff.mpr (List.mem_range.mpr (hchild _ hp))) hnodup
    -- along a path the place in the order only grows
    have hbefore : ∀ b, Relation.TransGen (Graph.Edge edges) a b →
        order.idxOf a < order.idxOf b := by
      intro b hb
      induction hb with
      | single hab => exact hedge _ _ hab
      | tail _ hbc ih => exact ih.trans (hedge _ _ hbc)
    exact Nat.lt_irrefl _ (hbefore a ha)
  · intro hacyclic
    obtain ⟨order, horder, -, hend⟩ := visit_start hedges
    obtain ⟨hnodup, hbound⟩ := visit_spec hchild n (.start edges n)
    rw [← horder] at hnodup hbound
    have hlength : order.length = n := hend.elim id fun hstuck =>
      hstuck.length_eq hacyclic (fun e he => (hedges e he).1) hnodup hbound
    refine ⟨order, ?_⟩
    unfold sort
    rw [← horder]
    exact if_pos hlength

end

end Topo
