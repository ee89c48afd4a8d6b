import Marbles.Plan

/-!
# The order of a plan

The edges of a plan lead between places in its list of nodes. With node ids that are all
different an edge is a dependency between two nodes, so a plan has a topological order
exactly when its dependencies have no cycle, and the order is the one that takes the first
node that may come next.

The sort itself is `Topo.sort`, about edges between the numbers below some bound. This module only
translates: places to nodes, edges to dependencies, and back. That the first node that may come
next is taken is part of the result, because views and the order of creation depend on it.
-/

namespace Marbles.Plan

namespace PlanGraph

variable {graph : PlanGraph} {id : String} {issue parent : Issue} {i p : Nat}

theorem index_eq_some (h : graph.index id = some p) :
    ∃ node, graph.nodes[p]? = some node ∧ node.id = id := by
  obtain ⟨node, hfind, rfl⟩ := Option.map_eq_some_iff.mp h
  have hmem := List.mem_reverse.mp (List.mem_of_find?_eq_some hfind)
  exact ⟨node.1, List.mem_zipIdx_iff_getElem?.mp hmem, by simpa using List.find?_some hfind⟩

theorem index_isSome : (∃ p, graph.index id = some p) ↔ id ∈ graph.nodes.map (·.id) := by
  constructor
  · intro ⟨p, hp⟩
    obtain ⟨node, hnode, rfl⟩ := index_eq_some hp
    exact List.mem_map_of_mem (List.mem_of_getElem? hnode)
  · intro hmem
    obtain ⟨node, hnode, rfl⟩ := List.mem_map.mp hmem
    obtain ⟨i, hi⟩ := List.mem_iff_getElem?.mp hnode
    have hfound : (graph.nodes.zipIdx.reverse.find? fun n => n.1.id = node.id).isSome := by
      refine List.find?_isSome.mpr ⟨(node, i), ?_, by simp⟩
      exact List.mem_reverse.mpr (List.mem_zipIdx_iff_getElem?.mpr hi)
    obtain ⟨found, hfound⟩ := Option.isSome_iff_exists.mp hfound
    exact ⟨found.2, by rw [index, hfound]; rfl⟩

/-- The places of the dependencies of the node at a place. -/
def parentsAt (graph : PlanGraph) (i : Nat) : List Nat :=
  ((graph.nodes[i]?).map graph.parents).getD []

theorem mem_parentsAt : p ∈ graph.parentsAt i ↔
    ∃ issue, graph.nodes[i]? = some issue ∧ ∃ dep ∈ depIds issue, graph.index dep = some p := by
  unfold parentsAt
  cases graph.nodes[i]? with
  | none => simp
  | some issue => simp [parents]

@[simp] theorem mem_edges : (p, i) ∈ graph.edges ↔ p ∈ graph.parentsAt i := by
  rw [edges, List.mem_flatMap, mem_parentsAt]
  constructor
  · intro ⟨node, hnode, he⟩
    obtain ⟨parent, hparent, heq⟩ := List.mem_map.mp he
    obtain ⟨rfl, rfl⟩ := Prod.mk.inj heq
    exact ⟨node.1, List.mem_zipIdx_iff_getElem?.mp hnode, List.mem_filterMap.mp hparent⟩
  · intro ⟨issue, hissue, hparent⟩
    exact ⟨(issue, i), List.mem_zipIdx_iff_getElem?.mpr hissue,
      List.mem_map_of_mem (List.mem_filterMap.mpr hparent)⟩

theorem edges_bounded : ∀ e ∈ graph.edges, e.1 < graph.nodes.length ∧ e.2 < graph.nodes.length := by
  intro ⟨p, i⟩ he
  obtain ⟨issue, hissue, dep, -, hdep⟩ := mem_parentsAt.mp (mem_edges.mp he)
  obtain ⟨parent, hparent, -⟩ := index_eq_some hdep
  exact ⟨(List.getElem?_eq_some_iff.mp hparent).1, (List.getElem?_eq_some_iff.mp hissue).1⟩

theorem topo_eq_ok {order : List Nat} :
    graph.topo = .ok order ↔ Topo.sort graph.nodes.length graph.edges = some order :=
  Outcome.ofOption_eq_ok

theorem topo_perm {order : List Nat} (h : graph.topo = .ok order) :
    order.Perm (List.range graph.nodes.length) :=
  Topo.sort_perm (fun e he => (edges_bounded e he).2) (topo_eq_ok.mp h)

theorem topo_of_acyclic (h : Graph.Acyclic (Graph.Edge graph.edges)) :
    ∃ order, graph.topo = .ok order := by
  obtain ⟨order, horder⟩ := (Topo.sort_isSome_iff edges_bounded).mpr h
  exact ⟨order, topo_eq_ok.mpr horder⟩

/-! ### Dependencies between nodes -/

/-- One node depends on another. -/
def DependsOn (graph : PlanGraph) (parent issue : Issue) : Prop :=
  parent ∈ graph.nodes ∧ issue ∈ graph.nodes ∧ parent.id ∈ depIds issue

/-- The node at this place may come next: it is not placed yet, and its dependencies are. -/
structure Next (graph : PlanGraph) (placed : List Nat) (i : Nat) : Prop where
  bound : i < graph.nodes.length
  fresh : i ∉ placed
  after : ∀ issue p parent, graph.nodes[i]? = some issue → graph.nodes[p]? = some parent →
    parent.id ∈ depIds issue → p ∈ placed

section Distinct

variable (hids : (graph.nodes.map (·.id)).Nodup)
include hids

theorem index_of_getElem? (h : graph.nodes[p]? = some parent) :
    graph.index parent.id = some p := by
  obtain ⟨q, hq⟩ := index_isSome.mpr (List.mem_map_of_mem (List.mem_of_getElem? h))
  obtain ⟨node, hnode, hid⟩ := index_eq_some hq
  have hp := (List.getElem?_eq_some_iff.mp h).1
  have hsame : (graph.nodes.map (·.id))[p]? = (graph.nodes.map (·.id))[q]? := by
    rw [List.getElem?_map, List.getElem?_map, h, hnode, Option.map_some, Option.map_some, hid]
  rw [hq, (List.getElem?_inj (by simpa using hp) hids).mp hsame]

theorem mem_parentsAt_iff (hi : graph.nodes[i]? = some issue) (hp : graph.nodes[p]? = some parent) :
    p ∈ graph.parentsAt i ↔ parent.id ∈ depIds issue := by
  rw [mem_parentsAt]
  constructor
  · intro ⟨issue', hissue', dep, hdep, hindex⟩
    obtain rfl := Option.some.inj (hi.symm.trans hissue')
    obtain ⟨parent', hparent', rfl⟩ := index_eq_some hindex
    obtain rfl := Option.some.inj (hp.symm.trans hparent')
    exact hdep
  · intro hdep
    exact ⟨issue, hi, parent.id, hdep, index_of_getElem? hids hp⟩

theorem next_iff {placed : List Nat} :
    Topo.Available graph.edges graph.nodes.length placed i ↔ graph.Next placed i := by
  constructor
  · intro h
    refine ⟨h.bound, h.fresh, fun issue p parent hissue hparent hdep => h.parents p ?_⟩
    exact mem_edges.mpr ((mem_parentsAt_iff hids hissue hparent).mpr hdep)
  · intro h
    refine ⟨h.bound, h.fresh, fun p hp => ?_⟩
    obtain ⟨issue, hissue, dep, hdep, hindex⟩ := mem_parentsAt.mp (mem_edges.mp hp)
    obtain ⟨parent, hparent, rfl⟩ := index_eq_some hindex
    exact h.after issue p parent hissue hparent hdep

/-- A node has one place. -/
theorem place_unique {node : Issue} {q : Nat} (hp : graph.nodes[p]? = some node)
    (hq : graph.nodes[q]? = some node) : p = q :=
  (List.getElem?_inj (List.getElem?_eq_some_iff.mp hp).1 (List.Nodup.of_map _ hids)).mp
    (hp.trans hq.symm)

/-- Edges between places and dependencies between nodes have the same cycles. -/
theorem acyclic_iff :
    Graph.Acyclic (Graph.Edge graph.edges) ↔ Graph.Acyclic graph.DependsOn := by
  constructor
  · intro h
    refine h.along (m := fun node place => graph.nodes[place]? = some node)
      (fun _ _ _ => place_unique hids) fun a b hab => ?_
    obtain ⟨p, hp⟩ := List.mem_iff_getElem?.mp hab.1
    obtain ⟨i, hi⟩ := List.mem_iff_getElem?.mp hab.2.1
    exact ⟨p, i, hp, hi, mem_edges.mpr ((mem_parentsAt_iff hids hi hp).mpr hab.2.2)⟩
  · intro h
    refine h.along (m := fun place node => graph.nodes[place]? = some node)
      (fun _ _ _ ha hb => Option.some.inj (ha.symm.trans hb)) fun p i hpi => ?_
    obtain ⟨issue, hissue, dep, hdep, hindex⟩ := mem_parentsAt.mp (mem_edges.mp hpi)
    obtain ⟨parent, hparent, rfl⟩ := index_eq_some hindex
    exact ⟨parent, issue, hparent, hissue, List.mem_of_getElem? hparent,
      List.mem_of_getElem? hissue, hdep⟩

end Distinct

/-- A plan whose node ids are all different has an order exactly when its dependencies have no
cycle. The order has every node once, dependencies first, and at each place the first node that may
come next. So the order is determined by the plan, and two readers of one plan see the same. -/
theorem topo_spec (graph : PlanGraph) (hids : (graph.nodes.map (·.id)).Nodup) :
    ((∃ order, graph.topo = .ok order) ↔ Graph.Acyclic graph.DependsOn) ∧
      ∀ order, graph.topo = .ok order →
        order.Perm (List.range graph.nodes.length) ∧
        (∀ i p issue parent, graph.nodes[i]? = some issue → graph.nodes[p]? = some parent →
          parent.id ∈ depIds issue → order.idxOf p < order.idxOf i) ∧
        ∀ pre i post, order = pre ++ i :: post →
          graph.Next pre i ∧ ∀ j, graph.Next pre j → i ≤ j := by
  constructor
  · rw [← acyclic_iff hids, ← Topo.sort_isSome_iff edges_bounded]
    simp only [topo_eq_ok]
  · intro order horder
    have hperm := topo_perm horder
    have hgreedy := Topo.sort_greedy edges_bounded (topo_eq_ok.mp horder)
    refine ⟨hperm, fun i p issue parent hi hp hdep => ?_, fun pre i post hsplit => ?_⟩
    · have hmem : i ∈ order :=
        hperm.mem_iff.mpr (List.mem_range.mpr (List.getElem?_eq_some_iff.mp hi).1)
      exact hgreedy.parent_before (mem_edges.mpr ((mem_parentsAt_iff hids hi hp).mpr hdep)) hmem
        (hperm.nodup_iff.mpr List.nodup_range)
    · obtain ⟨hnext, hleast⟩ := hgreedy pre i post hsplit
      exact ⟨(next_iff hids).mp hnext, fun j hj => hleast j ((next_iff hids).mpr hj)⟩

end PlanGraph

/-- An open issue with nothing but its dependencies and its metadata. -/
def bareIssue (id : String) (deps : List String) (metadata : List (String × Json.Value)) : Issue :=
  ⟨id, id, "", "open", 0, "task", [], .obj metadata, none, 0, 0,
    deps.map fun dep => ⟨some dep⟩, [], none, none, none, none, none, none, 0, 0, "p"⟩

/-- A node listed before the one it depends on, twice, next to an issue outside the plan. -/
def dependentFirst : PlanGraph :=
  ⟨"v2", [bareIssue "b" ["a", "x", "a"] [], bareIssue "a" [] []], [], 30⟩

theorem dependentFirst_acyclic : Graph.Acyclic (Graph.Edge dependentFirst.edges) :=
  (Topo.sort_isSome_iff PlanGraph.edges_bounded).mp ⟨[1, 0], by decide +kernel⟩

theorem dependentFirst_order :
    dependentFirst.topo = .ok [1, 0] ∧ Graph.Acyclic dependentFirst.DependsOn :=
  ⟨by decide +kernel,
    (PlanGraph.topo_spec dependentFirst (by decide)).1.mp ⟨[1, 0], by decide +kernel⟩⟩

end Marbles.Plan
