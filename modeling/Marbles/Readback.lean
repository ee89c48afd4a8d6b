import Marbles.Planted

/-!
# Reading a plan back

What `load` and `view` say of a plan that `create` has written: one node for each node of the
spec and one edge for each dependency. `create` leaves the store as it was, or writes the whole
plan, unless the first node finds its project and a later one does not.

`Sown` and `Planned` say what is in the store after a plan was written; here it is read again.
Nodes are found by the metadata they were created with, their texts come back through the small
lemmas about single fields, and their dependencies are those of the spec under the new ids.
Whether anything is written is decided by the projects alone, because a valid spec is refused for
nothing else.
-/

namespace Marbles.Plan

open Db (Tables Reachable WellFormed)
open Json (Value Object)

/-! ### The view of a plan -/

/-- A plan as it is shown, its nodes in topological order. -/
structure PlanView where
  plan : String
  nodes : List NodeView
  edges : List Edge
  repos : List String
  conflictGroups : List String

/-- The edges between the nodes, node by node. -/
def PlanGraph.viewEdges (graph : PlanGraph) (issues : List Issue) : List Edge :=
  issues.flatMap fun issue => (graph.nodeView issue).deps.map fun parent => ⟨issue.id, parent⟩

/-- The view of a plan that has been loaded. -/
def PlanGraph.view (graph : PlanGraph) : Result PlanView := do
  let order ← graph.topo
  let issues := graph.walk order
  pure ⟨graph.plan, issues.map graph.nodeView, graph.viewEdges issues,
    distinct (issues.filterMap fun issue => (graph.nodeView issue).repo),
    distinct (issues.filterMap fun issue => (graph.nodeView issue).conflictGroup)⟩

/-! ### The metadata of a node -/

/-- A field that is left out when it is empty. -/
def text (value : String) : Option String := if value = "" then none else some value

theorem get_insertText_self (key value : String) (fields : Object)
    (h : Object.get key fields = none) :
    Object.get key (insertText key value fields) = (text value).map .str := by
  unfold insertText text
  split
  · exact h
  · rw [Object.get_insert, if_pos rfl]
    rfl

section

variable (plan : ResolvedPlan) (node : NodeSpec)

@[simp] theorem get_metadataFor_key :
    Object.get metaKey (metadataFor plan node) = some (.str node.key) := by
  unfold metadataFor
  rw [Object.get_insert, if_neg (by decide), get_insertText (by decide),
    get_insertText (by decide), get_insertText (by decide), get_insertText (by decide),
    get_insertText (by decide), Object.get_insert, if_pos rfl]

@[simp] theorem get_metadataFor_estimate : Object.get metaEstimate (metadataFor plan node) =
    some (.num (max (node.estimate.getD defaultEstimateMinutes) 1)) := by
  unfold metadataFor
  rw [Object.get_insert, if_pos rfl]

/-- A text field of the metadata is the field of the spec. -/
theorem get_metadataFor_text : ∀ field ∈ [(metaDone, node.doneMeans), (metaRepo, node.repo),
    (metaGroup, node.conflictGroup), (metaAcceptance, node.acceptance), (metaRisk, node.risk)],
    Object.get field.1 (metadataFor plan node) = (text field.2).map .str := by
  have hnone : ∀ key, key ≠ metaPlan → key ≠ metaKey →
      Object.get key (Object.insert metaKey (.str node.key)
        (Object.insert metaPlan (.str plan.plan) [])) = none := by
    intro key hplan hkey
    rw [Object.get_insert, if_neg hkey, Object.get_insert, if_neg hplan]
    rfl
  have hself : ∀ key value fields, Object.get key fields = none →
      Object.get key (insertText key value fields) = (text value).map .str := get_insertText_self
  unfold metadataFor
  simp only [List.forall_mem_cons, List.not_mem_nil, false_imp_iff, implies_true, and_true]
  -- Each key is looked up through the inserts after its own, which are of other keys.
  refine ⟨?_, ?_, ?_, ?_, ?_⟩
  · rw [Object.get_insert, if_neg (by decide), get_insertText (by decide),
      get_insertText (by decide), get_insertText (by decide), get_insertText (by decide)]
    exact hself _ _ _ (hnone _ (by decide) (by decide))
  · rw [Object.get_insert, if_neg (by decide), get_insertText (by decide),
      get_insertText (by decide), get_insertText (by decide)]
    refine hself _ _ _ ?_
    rw [get_insertText (by decide)]
    exact hnone _ (by decide) (by decide)
  · rw [Object.get_insert, if_neg (by decide), get_insertText (by decide),
      get_insertText (by decide)]
    refine hself _ _ _ ?_
    rw [get_insertText (by decide), get_insertText (by decide)]
    exact hnone _ (by decide) (by decide)
  · rw [Object.get_insert, if_neg (by decide), get_insertText (by decide)]
    refine hself _ _ _ ?_
    rw [get_insertText (by decide), get_insertText (by decide), get_insertText (by decide)]
    exact hnone _ (by decide) (by decide)
  · rw [Object.get_insert, if_neg (by decide)]
    refine hself _ _ _ ?_
    rw [get_insertText (by decide), get_insertText (by decide), get_insertText (by decide),
      get_insertText (by decide)]
    exact hnone _ (by decide) (by decide)

end

/-! ### The nodes -/

section

variable {name : String} {t : Tables}

/-- A plan with a node and an order is read. -/
theorem ofIssues_eq {issue : Issue} (hnode : PlanNode t name issue) {order : List Nat}
    (horder : (graphOf name t).topo = .ok order) :
    PlanGraph.ofIssues name (Db.listQuery none true none t) = .ok (graphOf name t) := by
  have hmem := Sorting.mem_sortOn.mp (mem_graphOf.mpr hnode)
  have hsome := (List.filter (fun issue => decide (planNameOf issue = some name))
    (Db.listQuery none true none t)).isEmpty_eq_false_iff.mpr (List.ne_nil_of_mem hmem)
  unfold PlanGraph.ofIssues
  dsimp only
  rw [hsome, if_neg Bool.false_ne_true]
  exact Outcome.bind_eq_ok.mpr ⟨order, horder, rfl⟩

end

/-! ### The nodes of a plan that was written -/

section

variable {plan : ResolvedPlan} {now : Int} {actor : String} {t₀ t : Tables}
  {pairs : List (NodeSpec × String)} {p : NodeSpec × String} {issue : Issue}

/-- The issue of a node. -/
def issueOf (plan : ResolvedPlan) (now : Int) (actor : String) (t : Tables)
    (p : NodeSpec × String) : Issue := t.view p.2 (rowOf plan now actor p.1)

@[simp] theorem planNameOf_issueOf : planNameOf (issueOf plan now actor t p) = some plan.plan := by
  change (Object.get metaPlan (metadataFor plan p.1)).bind Value.asStr = _
  rw [get_metadataFor]
  rfl

@[simp] theorem keyOf_issueOf : keyOf (issueOf plan now actor t p) = p.1.key := by
  change ((Object.get metaKey (metadataFor plan p.1)).bind Value.asStr).getD _ = _
  rw [get_metadataFor_key]
  rfl

@[simp]
theorem depIds_issueOf : PlanGraph.depIds (issueOf plan now actor t p) = t.dependsOn p.2 := by
  rw [PlanGraph.depIds, issueOf, Tables.view_dependencies, List.filterMap_map]
  exact List.filterMap_some

namespace Sown

variable (hplan : Planned plan pairs) (hwf : WellFormed t₀)
  (hsown : Sown plan now actor t₀ t pairs (linksOf pairs)) (hfree : ¬ HasPlan plan.plan t₀)

include hsown

/-- The new nodes are the nodes of the plan. -/
theorem planNode (hfree : ¬ HasPlan plan.plan t₀) :
    PlanNode t plan.plan issue ↔ ∃ p ∈ pairs, issueOf plan now actor t p = issue := by
  constructor
  · intro ⟨⟨row, hrow, hview⟩, hname⟩
    by_cases hid : issue.id ∈ pairs.map Prod.snd
    · obtain ⟨p, hp, hpid⟩ := List.mem_map.mp hid
      have hnew := hsown.new p hp
      rw [hpid, hrow] at hnew
      refine ⟨p, hp, ?_⟩
      rw [issueOf, hpid, ← Option.some.inj hnew, hview]
    · rw [hsown.old _ hid] at hrow
      refine absurd ⟨issue.id, row, hrow, ?_⟩ hfree
      rw [planNameOf_view t t₀ issue.id issue.id rfl, hview, hname]
  · intro ⟨p, hp, hissue⟩
    refine ⟨⟨rowOf plan now actor p.1, ?_, ?_⟩, hissue ▸ planNameOf_issueOf⟩
    · rw [← hissue]
      exact hsown.new p hp
    · rw [← hissue]
      rfl

theorem nodes_perm (hfree : ¬ HasPlan plan.plan t₀) :
    (graphOf plan.plan t).nodes.Perm (pairs.map (issueOf plan now actor t)) := by
  have hids : ((pairs.map (issueOf plan now actor t)).map (·.id)).Nodup := by
    rw [List.map_map]
    exact hsown.ids
  refine (List.perm_ext_iff_of_nodup (.of_map _ graphOf_nodup) (.of_map _ hids)).mpr fun issue => ?_
  rw [mem_graphOf, hsown.planNode hfree, List.mem_map]

include hplan hwf

/-- The dependencies of a new node are those of the spec. -/
theorem mem_depIds (hp : p ∈ pairs) {b : String} :
    b ∈ PlanGraph.depIds (issueOf plan now actor t p) ↔ ∃ dep ∈ p.1.deps, idIn pairs dep = b := by
  rw [depIds_issueOf, Tables.mem_dependsOn]
  constructor
  · intro hedge
    obtain ⟨q, hq, rfl, hdep⟩ := hsown.linked hplan hwf (fun _ h => h) hp hedge
    exact ⟨q.1.key, hdep, hplan.idIn_eq hq⟩
  · intro ⟨dep, hdep, hid⟩
    refine (hsown.edges _ _).mpr (Or.inr (List.mem_flatMap.mpr ⟨p, hp, ?_⟩))
    exact List.mem_map.mpr ⟨dep, hdep, by rw [hid]⟩

/-- A plan that was written has an order. -/
theorem topo (hfree : ¬ HasPlan plan.plan t₀) :
    ∃ order, (graphOf plan.plan t).topo = .ok order := by
  have hflip : Graph.Acyclic (Function.swap (KeyDependsOn plan.nodes)) := fun key hkey =>
    hplan.valid.acyclic key (Relation.transGen_swap.mp hkey)
  refine PlanGraph.topo_of_acyclic ((PlanGraph.acyclic_iff graphOf_nodup).mpr ?_)
  refine hflip.along (m := fun issue key => ∃ p ∈ pairs, p.2 = issue.id ∧ p.1.key = key) ?_ ?_
  · intro issue key key' ⟨p, hp, hid, hkey⟩ ⟨q, hq, hid', hkey'⟩
    rw [← hkey, ← hkey', hsown.unique hp hq (hid.trans hid'.symm)]
  · intro parent issue ⟨hparent, hissue, hdep⟩
    obtain ⟨p, hp, rfl⟩ := (hsown.planNode hfree).mp (mem_graphOf.mp hissue)
    obtain ⟨dep, hdep, hid⟩ := (hsown.mem_depIds hplan hwf hp).mp hdep
    obtain ⟨q, hq, rfl, hqid⟩ := hplan.dep hp hdep
    exact ⟨q.1.key, p.1.key, ⟨q, hq, hqid.symm.trans hid, rfl⟩, ⟨p, hp, rfl, rfl⟩,
      p.1, hplan.mem hp, rfl, hdep⟩

/-- So it is read back. -/
theorem loads (hfree : ¬ HasPlan plan.plan t₀) :
    PlanGraph.ofIssues plan.plan (Db.listQuery none true none t) = .ok (graphOf plan.plan t) := by
  obtain ⟨order, horder⟩ := hsown.topo hplan hwf hfree
  obtain ⟨node, hnode⟩ := List.exists_mem_of_ne_nil _ hplan.valid.nonempty
  obtain ⟨p, hp, -⟩ := hplan.mem_of_node hnode
  exact ofIssues_eq ((hsown.planNode hfree).mpr ⟨p, hp, rfl⟩) horder

end Sown

end

/-! ### What is read back -/

/-- The graph and the view of a plan are its spec, each key under an id of its own. The ids are the
store's choice, so the spec is found again up to them. -/
structure Written (plan : ResolvedPlan) (graph : PlanGraph) (view : PlanView)
    (id : String → String) :
    Prop where
  ids : (plan.nodes.map fun node => id node.key).Nodup
  issues : (graph.nodes.map fun issue => (issue.id, keyOf issue, issue.title, issue.metadata)).Perm
    (plan.nodes.map fun node =>
      (id node.key, node.key, node.title, .obj (metadataFor plan node)))
  nodes : (view.nodes.map fun node => (node.id, node.key, node.title, node.repo, node.conflictGroup,
      node.risk, node.doneMeans, node.acceptance)).Perm
    (plan.nodes.map fun node => (id node.key, node.key, node.title, text node.repo,
      text node.conflictGroup, text node.risk, text node.doneMeans, text node.acceptance))
  estimates : (∀ node ∈ plan.nodes, ∀ minutes, node.estimate = some minutes → minutes < 2 ^ 63) →
    (view.nodes.map fun node => (node.id, node.estimate)).Perm (plan.nodes.map fun node =>
      (id node.key, node.estimate.getD defaultEstimateMinutes))
  edges : ∀ edge, edge ∈ view.edges ↔
    ∃ node ∈ plan.nodes, ∃ dep ∈ node.deps, edge = ⟨id node.key, id dep⟩
  once : view.edges.Nodup

section

variable {plan : ResolvedPlan} {now : Int} {actor : String} {t₀ t : Tables} {graph : PlanGraph}
  {pairs : List (NodeSpec × String)} {p : NodeSpec × String}

theorem metaStr_issueOf : ∀ field ∈ [(metaDone, p.1.doneMeans), (metaRepo, p.1.repo),
    (metaGroup, p.1.conflictGroup), (metaAcceptance, p.1.acceptance), (metaRisk, p.1.risk)],
    metaStr (issueOf plan now actor t p) field.1 = text field.2 := by
  intro field hfield
  change (Object.get field.1 (metadataFor plan p.1)).bind Value.asStr = _
  rw [get_metadataFor_text plan p.1 field hfield]
  cases text field.2 <;> rfl

@[simp] theorem conflictGroup_issueOf :
    conflictGroup (issueOf plan now actor t p) = text p.1.conflictGroup := by
  rw [conflictGroup, metaStr_issueOf (metaGroup, p.1.conflictGroup) (by simp), text]
  split
  · rfl
  · exact Option.filter_eq_some_iff.mpr ⟨rfl, decide_eq_true ‹_›⟩

/-- The texts of a node are those of its spec. -/
theorem nodeView_issueOf :
    let node := graph.nodeView (issueOf plan now actor t p)
    (node.id, node.key, node.title, node.repo, node.conflictGroup, node.risk, node.doneMeans,
        node.acceptance) =
      (p.2, p.1.key, p.1.title, text p.1.repo, text p.1.conflictGroup, text p.1.risk,
        text p.1.doneMeans, text p.1.acceptance) := by
  intro node
  have hkey : node.key = p.1.key := keyOf_issueOf
  have hgroup : node.conflictGroup = text p.1.conflictGroup := conflictGroup_issueOf
  have hrepo : node.repo = text p.1.repo := metaStr_issueOf (metaRepo, p.1.repo) (by simp)
  have hrisk : node.risk = text p.1.risk := metaStr_issueOf (metaRisk, p.1.risk) (by simp)
  have hdone : node.doneMeans = text p.1.doneMeans :=
    metaStr_issueOf (metaDone, p.1.doneMeans) (by simp)
  have hacceptance : node.acceptance = text p.1.acceptance :=
    metaStr_issueOf (metaAcceptance, p.1.acceptance) (by simp)
  rw [hkey, hgroup, hrepo, hrisk, hdone, hacceptance]
  rfl

/-- An estimate that fits its type is read back. -/
theorem estimate_issueOf (hvalid : p.1.Valid)
    (hfits : ∀ minutes, p.1.estimate = some minutes → minutes < 2 ^ 63) (default : Int) :
    (estimateOfWithDefault (issueOf plan now actor t p) default).1 =
      p.1.estimate.getD defaultEstimateMinutes := by
  have hpos : 0 < p.1.estimate.getD defaultEstimateMinutes ∧
      p.1.estimate.getD defaultEstimateMinutes < 2 ^ 63 := by
    cases hestimate : p.1.estimate with
    | none => decide
    | some minutes => exact ⟨hvalid.estimate minutes hestimate, hfits minutes hestimate⟩
  have hget : (issueOf plan now actor t p).metadata.get metaEstimate =
      some (.num (p.1.estimate.getD defaultEstimateMinutes)) := by
    change Object.get metaEstimate (metadataFor plan p.1) = _
    rw [get_metadataFor_estimate, max_eq_left (by omega)]
  have hasI64 : (Value.num (p.1.estimate.getD defaultEstimateMinutes)).asI64 =
      some (p.1.estimate.getD defaultEstimateMinutes) := by
    refine Option.filter_eq_some_iff.mpr ⟨rfl, decide_eq_true ⟨?_, hpos.2⟩⟩
    omega
  have hestimate : metadataEstimate (issueOf plan now actor t p) =
      some (p.1.estimate.getD defaultEstimateMinutes) := by
    rw [metadataEstimate, metaI64, hget, Option.bind_some, hasI64]
    exact Option.filter_eq_some_iff.mpr ⟨rfl, decide_eq_true hpos.1⟩
  rw [estimateOfWithDefault, hestimate]

/-- What is said of the pairs is said of the nodes of the plan. -/
theorem Planned.map_nodes {β : Type} (hplan : Planned plan pairs) (f : String → NodeSpec → β) :
    pairs.map (fun p => f p.2 p.1) = plan.nodes.map fun node => f (idIn pairs node.key) node := by
  rw [← hplan.nodes, List.map_map]
  refine List.map_congr_left fun p hp => ?_
  show f p.2 p.1 = f (idIn pairs p.1.key) p.1
  rw [hplan.idIn_eq hp]

theorem Sown.isNode (hsown : Sown plan now actor t₀ t pairs (linksOf pairs))
    (hfree : ¬ HasPlan plan.plan t₀) (hp : p ∈ pairs) :
    (graphOf plan.plan t).isNode p.2 = true := by
  have hmem := (hsown.nodes_perm hfree).mem_iff.mpr (List.mem_map_of_mem hp)
  exact decide_eq_true (List.mem_map_of_mem hmem)

/-- Only nodes of the plan are among the dependencies of its nodes. -/
theorem Sown.internalDeps (hplan : Planned plan pairs) (hwf : WellFormed t₀)
    (hsown : Sown plan now actor t₀ t pairs (linksOf pairs)) (hfree : ¬ HasPlan plan.plan t₀)
    (hp : p ∈ pairs) :
    (graphOf plan.plan t).internalDeps (issueOf plan now actor t p) = t.dependsOn p.2 := by
  rw [PlanGraph.internalDeps, depIds_issueOf, List.filter_eq_self]
  intro dep hdep
  obtain ⟨q, hq, rfl, -⟩ := hsown.linked hplan hwf (fun _ h => h) hp (Tables.mem_dependsOn.mp hdep)
  exact hsown.isNode hfree hq

theorem Sown.mem_viewEdges (hplan : Planned plan pairs) (hwf : WellFormed t₀)
    (hsown : Sown plan now actor t₀ t pairs (linksOf pairs)) (hfree : ¬ HasPlan plan.plan t₀)
    {issues : List Issue} (hissues : issues.Perm (pairs.map (issueOf plan now actor t)))
    {edge : Edge} :
    edge ∈ (graphOf plan.plan t).viewEdges issues ↔
      ∃ node ∈ plan.nodes, ∃ dep ∈ node.deps, edge = ⟨idIn pairs node.key, idIn pairs dep⟩ := by
  rw [PlanGraph.viewEdges, List.mem_flatMap]
  constructor
  · intro ⟨issue, hissue, hedge⟩
    obtain ⟨p, hp, rfl⟩ := List.mem_map.mp (hissues.mem_iff.mp hissue)
    obtain ⟨parent, hparent, rfl⟩ := List.mem_map.mp hedge
    have hmem := (List.mem_filter.mp hparent).1
    obtain ⟨dep, hdep, rfl⟩ := (hsown.mem_depIds hplan hwf hp).mp hmem
    refine ⟨p.1, hplan.mem hp, dep, hdep, ?_⟩
    rw [hplan.idIn_eq hp]
    rfl
  · intro ⟨node, hnode, dep, hdep, hedge⟩
    obtain ⟨p, hp, rfl⟩ := hplan.mem_of_node hnode
    refine ⟨issueOf plan now actor t p, hissues.mem_iff.mpr (List.mem_map_of_mem hp),
      List.mem_map.mpr ⟨idIn pairs dep, ?_, ?_⟩⟩
    · show idIn pairs dep ∈ (graphOf plan.plan t).internalDeps (issueOf plan now actor t p)
      rw [hsown.internalDeps hplan hwf hfree hp, ← @depIds_issueOf plan now actor]
      exact (hsown.mem_depIds hplan hwf hp).mpr ⟨dep, hdep, rfl⟩
    · rw [hedge, hplan.idIn_eq hp]
      rfl

theorem dependsOn_nodup (t : Tables) (id : String) : (t.dependsOn id).Nodup := by
  refine (Sorting.perm_sortOn _ _).nodup_iff.mpr ?_
  refine List.Nodup.map_on ?_ (t.dep.nodup.filter _)
  intro a ha b hb heq
  have hfst : ∀ e ∈ t.dep.keys.filter (fun e => e.1 = id), e.1 = id := fun e he => by
    simpa using (List.mem_filter.mp he).2
  exact Prod.ext ((hfst a ha).trans (hfst b hb).symm) heq

theorem Sown.viewEdges_nodup (hplan : Planned plan pairs) (hwf : WellFormed t₀)
    (hsown : Sown plan now actor t₀ t pairs (linksOf pairs)) (hfree : ¬ HasPlan plan.plan t₀)
    {issues : List Issue} (hissues : issues.Perm (pairs.map (issueOf plan now actor t))) :
    ((graphOf plan.plan t).viewEdges issues).Nodup := by
  have hids : (issues.map (·.id)).Nodup := by
    refine ((hissues.map _).nodup_iff).mpr ?_
    rw [List.map_map]
    exact hsown.ids
  refine List.nodup_flatMap.mpr ⟨fun issue hissue => ?_, ?_⟩
  · obtain ⟨p, hp, rfl⟩ := List.mem_map.mp (hissues.mem_iff.mp hissue)
    refine List.Nodup.map (fun _ _ h => (Edge.mk.inj h).2) ?_
    show ((graphOf plan.plan t).internalDeps (issueOf plan now actor t p)).Nodup
    rw [hsown.internalDeps hplan hwf hfree hp]
    exact dependsOn_nodup t p.2
  · -- edges of different nodes differ in their first end
    refine (List.pairwise_map.mp hids).imp fun hne edge hedge hedge' => ?_
    obtain ⟨_, -, rfl⟩ := List.mem_map.mp hedge
    obtain ⟨_, -, heq⟩ := List.mem_map.mp hedge'
    exact hne (Edge.mk.inj heq).1.symm

/-- The plan is read back as it was written. -/
theorem Sown.written (hplan : Planned plan pairs) (hwf : WellFormed t₀)
    (hsown : Sown plan now actor t₀ t pairs (linksOf pairs)) (hfree : ¬ HasPlan plan.plan t₀) :
    ∃ view, (graphOf plan.plan t).view = .ok view ∧
      Written plan (graphOf plan.plan t) view (idIn pairs) := by
  obtain ⟨order, horder⟩ := hsown.topo hplan hwf hfree
  have hnodes := hsown.nodes_perm hfree
  have hwalk := (walk_perm horder).trans hnodes
  -- The nodes of the view are those created, in the order of the walk; each line below reads one
  -- kind of field of them.
  refine ⟨_, Outcome.bind_eq_ok.mpr ⟨order, horder, rfl⟩,
    ⟨?_, ?_, ?_, fun hfits => ?_, fun edge => ?_, ?_⟩⟩
  · rw [← hplan.map_nodes fun id _ => id]
    exact hsown.ids
  · rw [← hplan.map_nodes fun id node =>
      (id, node.key, node.title, Value.obj (metadataFor plan node))]
    refine (hnodes.map _).trans (.of_eq ?_)
    rw [List.map_map]
    refine List.map_congr_left fun p _ => ?_
    show ((issueOf plan now actor t p).id, keyOf (issueOf plan now actor t p), _, _) = _
    rw [keyOf_issueOf]
    rfl
  · rw [← hplan.map_nodes fun id node => (id, node.key, node.title, text node.repo,
      text node.conflictGroup, text node.risk, text node.doneMeans, text node.acceptance)]
    refine ((hwalk.map _).map _).trans (.of_eq ?_)
    rw [List.map_map, List.map_map]
    exact List.map_congr_left fun p _ => nodeView_issueOf
  · rw [← hplan.map_nodes fun id node => (id, node.estimate.getD defaultEstimateMinutes)]
    refine ((hwalk.map _).map _).trans (.of_eq ?_)
    rw [List.map_map, List.map_map]
    refine List.map_congr_left fun p hp => Prod.ext rfl ?_
    have hnode := hplan.mem hp
    exact estimate_issueOf (hplan.valid.nodes p.1 hnode) (hfits p.1 hnode) _
  · exact hsown.mem_viewEdges hplan hwf hfree hwalk
  · exact hsown.viewEdges_nodup hplan hwf hfree hwalk

end

/-! ### All or nothing -/

section

variable (cfg : Db.Config) (plan : ResolvedPlan) (draws : String → List String) (now : Int)
  (actor : String) (s : Locked Tables)

/-- A plan that is refused leaves no trace, and one that is accepted is there as a whole. -/
def AllOrNothing : Prop :=
  let r := runPlan cfg (create cfg plan draws now actor) s
  (∀ e, r.1 = .error (.fail e) → r.2 = s) ∧
    ∀ report, r.1 = .ok report → ∃ graph view id,
      Db.runM cfg (load plan.plan) r.2 = (.ok graph, r.2) ∧ graph.view = .ok view ∧
        Written plan graph view id

/-- Nothing speaks against the plan before its first node is written. -/
structure Admitted : Prop where
  healthy : s.poisoned = false
  valid : validate plan = []
  free : ¬ HasPlan plan.plan s.state

/-- The first node finds its project, but not every node does. -/
structure HalfProvided : Prop extends Admitted plan s where
  first : ∀ node ∈ plan.nodes.head?, projectOf plan node ∈ s.state.project.keys
  missing : ∃ node ∈ plan.nodes, projectOf plan node ∉ s.state.project.keys

/-- What `create` does once nothing speaks against the plan. -/
def writeAll : PlanM CreateReport := do
  let created ← plan.nodes.foldlM (createNode cfg plan draws now actor) []
  let edges ← plan.nodes.foldlM (addEdges now actor created) []
  pure ⟨plan.plan, plan.project, created, edges⟩

/-- How writing the plan ends. The calls made so far stay in every case; only a whole plan has all
its edges. -/
inductive Ended (t₀ : Tables) : Outcome String CreateReport × Locked Tables → Prop
  | written (pairs : List (NodeSpec × String)) (t : Tables) (hplan : Planned plan pairs)
      (hprojects : ∀ p ∈ pairs, projectOf plan p.1 ∈ t₀.project.keys)
      (hsown : Sown plan now actor t₀ t pairs (linksOf pairs)) :
      Ended t₀ (.ok ⟨plan.plan, plan.project, pairs.map (createdOf plan),
        (linksOf pairs).map edgeOf⟩, .new t)
  | refused (more : List (NodeSpec × String)) (t : Tables) (node : NodeSpec) (post : List NodeSpec)
      (hnodes : plan.nodes = more.map Prod.fst ++ node :: post)
      (hproject : projectOf plan node ∉ t₀.project.keys)
      (hsown : Sown plan now actor t₀ t more []) :
      Ended t₀ (.error (.fail (Error.noProject (projectOf plan node)).display), .new t)
  | stuck (more : List (NodeSpec × String)) (t : Tables) (node : NodeSpec) (idPrefix : String)
      (hlength : more.length ≤ plan.nodes.length) (hnode : node ∈ plan.nodes)
      (hdraw : Db.drawId t idPrefix (draws node.key) = .error .abort)
      (hsown : Sown plan now actor t₀ t more []) :
      Ended t₀ (.error .abort, ⟨t, true⟩)

end

section

variable {cfg : Db.Config} {plan : ResolvedPlan} {draws : String → List String} {now : Int}
  {actor : String} {s : Locked Tables} {t : Tables}

theorem hasPlan_iff_countP {name : String} : HasPlan name t ↔
    0 < (Db.listQuery none true none t).countP fun issue => planNameOf issue = some name := by
  rw [List.countP_pos_iff]
  constructor
  · intro ⟨id, row, hrow, hname⟩
    exact ⟨t.view id row, mem_listQuery_all.mpr ⟨row, hrow, rfl⟩, decide_eq_true hname⟩
  · intro ⟨issue, hissue, hname⟩
    obtain ⟨row, hrow, hview⟩ := mem_listQuery_all.mp hissue
    exact ⟨issue.id, row, hrow, by rw [hview]; exact of_decide_eq_true hname⟩

theorem runPlan_list : runPlan cfg (store (Db.call (.list none true none))) (.new t) =
    (.ok (Db.listQuery none true none t), .new t) := by
  have hlist : Db.IsTx cfg (Db.call (.list none true none))
      (.read fun t => .ok (Db.listQuery none true none t)) := .query rfl
  rw [runPlan_store, hlist.eq t]
  rfl

/-- When something speaks against the plan, nothing is written. -/
theorem create_not_admitted (h : ¬ Admitted plan s) :
    ∃ e, runPlan cfg (create cfg plan draws now actor) s = (.error e, s) := by
  unfold create
  split
  · rename_i hvalid
    cases hpoisoned : s.poisoned with
    | true =>
        have hlist : runPlan cfg (store (Db.call (.list none true none))) s =
            (.error .abort, s) := by
          have hcall : Db.runM cfg (Db.call (.list none true none)) s = (.error .abort, s) :=
            Locked.query_poisoned (fun t => .ok (Db.listQuery none true none t)) hpoisoned
          rw [runPlan_store, hcall]
          rfl
        have hcheck : runPlan cfg (checkName plan) s = (.error .abort, s) :=
          Prog.runE_bind_error hlist
        exact ⟨.abort, Prog.runE_bind_error hcheck⟩
    | false =>
        have htaken : HasPlan plan.plan s.state := by
          by_contra hfree
          exact h ⟨hpoisoned, hvalid, hfree⟩
        have hcount := hasPlan_iff_countP.mp htaken
        rw [Locked.eq_new hpoisoned]
        have hcheck : ∃ e, runPlan cfg (checkName plan) (.new s.state) =
            (.error e, .new s.state) := by
          rw [checkName, runPlan, Prog.runE_bind_ok runPlan_list, if_pos hcount]
          exact ⟨_, rfl⟩
        obtain ⟨e, hcheck⟩ := hcheck
        exact ⟨e, Prog.runE_bind_error hcheck⟩
  · exact ⟨_, rfl⟩

theorem create_admitted (h : Admitted plan s) :
    runPlan cfg (create cfg plan draws now actor) s =
      runPlan cfg (writeAll cfg plan draws now actor) (.new s.state) := by
  have hcheck : runPlan cfg (checkName plan) (.new s.state) = (.ok (), .new s.state) := by
    rw [checkName, runPlan, Prog.runE_bind_ok runPlan_list,
      if_neg fun hcount => h.free (hasPlan_iff_countP.mpr hcount)]
    rfl
  have hcreate : create cfg plan draws now actor =
      checkName plan >>= fun _ => writeAll cfg plan draws now actor := by
    rw [create, h.valid]
    rfl
  have hrun : runPlan cfg (create cfg plan draws now actor) (.new s.state) =
      runPlan cfg (writeAll cfg plan draws now actor) (.new s.state) := by
    rw [hcreate, runPlan, Prog.runE_bind_ok hcheck]
    rfl
  rwa [← Locked.eq_new h.healthy] at hrun ⊢

theorem writeAll_ended (hvalid : plan.Valid) (hwf : WellFormed t) :
    Ended plan draws now actor t (runPlan cfg (writeAll cfg plan draws now actor) (.new t)) := by
  have hnodes : Progress plan draws now actor t [] plan.nodes (Prog.runE (Db.Scope.exec cfg)
      (plan.nodes.foldlM (createNode cfg plan draws now actor) []) (.new t)) :=
    createNodes_outcome plan.nodes .nil
  rw [writeAll, runPlan, Prog.runE_bind]
  generalize Prog.runE (Db.Scope.exec cfg)
    (plan.nodes.foldlM (createNode cfg plan draws now actor) []) (.new t) = r at hnodes ⊢
  cases hnodes with
  | done more t' hmore hprojects hsown =>
      have hplan : Planned plan more := ⟨hvalid, hmore⟩
      obtain ⟨t'', hedges, hsown⟩ := @runPlan_addEdges cfg _ _ _ _ _ _ _ hplan hwf more
        (fun _ h => h) hsown (by simp)
      rw [hmore] at hedges
      have hedges : Prog.runE (Db.Scope.exec cfg) (plan.nodes.foldlM
          (addEdges now actor (([] ++ more).map (createdOf plan))) []) (.new t') =
            (.ok ((linksOf more).map edgeOf), .new t'') := hedges
      dsimp only
      rw [Prog.runE_bind_ok hedges]
      exact .written more t'' hplan hprojects hsown
  | refused more t' node post hrest hprojects hproject hsown =>
      exact .refused more t' node post hrest hproject hsown
  | stuck more t' node idPrefix hmore hlength hnode hdraw hsown =>
      exact .stuck more t' node idPrefix hlength hnode hdraw hsown

/-- When no id can be drawn, there are as many issues as suffixes. -/
theorem Sown.drawn {t₀ : Tables} {pairs : List (NodeSpec × String)} {links : List (String × String)}
    (hsown : Sown plan now actor t₀ t pairs links) {idPrefix : String} {suffixes : List String}
    (h : Db.drawId t idPrefix suffixes = .error .abort) :
    suffixes.dedup.length ≤ t₀.issue.keys.length + pairs.length := by
  let idOf : String → String := fun suffix => s!"{idPrefix}-{suffix}"
  have hinj : Function.Injective idOf := fun a b hab => (String.append_right_inj _).mp hab
  have hnodup : (suffixes.dedup.map idOf).Nodup := (List.nodup_dedup _).map hinj
  have hsub : suffixes.dedup.map idOf ⊆ t₀.issue.keys ++ pairs.map Prod.snd := by
    intro id hid
    obtain ⟨suffix, hsuffix, rfl⟩ := List.mem_map.mp hid
    have hkey := drawId_abort h suffix (List.mem_dedup.mp hsuffix)
    by_cases hnew : idOf suffix ∈ pairs.map Prod.snd
    · exact List.mem_append_right _ hnew
    · refine List.mem_append_left _ (Table.mem_keys_iff_isSome.mpr ?_)
      rw [← hsown.old _ hnew]
      exact Table.mem_keys_iff_isSome.mp hkey
  have hle := (hnodup.subperm hsub).length_le
  simpa using hle

/-- What was written can be loaded. -/
theorem Sown.loaded {t₀ : Tables} {pairs : List (NodeSpec × String)} (hplan : Planned plan pairs)
    (hwf : WellFormed t₀) (hsown : Sown plan now actor t₀ t pairs (linksOf pairs))
    (hfree : ¬ HasPlan plan.plan t₀) : ∃ graph view id,
      Db.runM cfg (load plan.plan) (.new t) = (.ok graph, .new t) ∧ graph.view = .ok view ∧
        Written plan graph view id := by
  obtain ⟨view, hview, hwritten⟩ := hsown.written hplan hwf hfree
  refine ⟨graphOf plan.plan t, view, idIn pairs, ?_, hview, hwritten⟩
  rw [load_eq, hsown.loads hplan hwf hfree]

/-- What a plan that was accepted leaves in the store. -/
theorem create_ok {report : CreateReport} {s' : Locked Tables} (hs : Reachable cfg s)
    (h : runPlan cfg (create cfg plan draws now actor) s = (.ok report, s')) :
    ∃ pairs t, s' = .new t ∧ Planned plan pairs ∧ ¬ HasPlan plan.plan s.state ∧
      Sown plan now actor s.state t pairs (linksOf pairs) := by
  by_cases hadmitted : Admitted plan s
  · rw [create_admitted hadmitted] at h
    have hended := @writeAll_ended cfg plan draws now actor s.state
      (validate_eq_nil.mp hadmitted.valid) hs.wellFormed
    rw [h] at hended
    cases hended with
    | written pairs t hplan hprojects hsown =>
        exact ⟨pairs, t, rfl, hplan, hadmitted.free, hsown⟩
  · obtain ⟨e, hrun⟩ := @create_not_admitted cfg plan draws now actor s hadmitted
    rw [h] at hrun
    cases hrun

/-- When the first node has no project, nothing is written. -/
theorem writeAll_first {node : NodeSpec} (hfirst : plan.nodes.head? = some node)
    (hproject : projectOf plan node ∉ t.project.keys) :
    ∃ e, runPlan cfg (writeAll cfg plan draws now actor) (.new t) = (.error e, .new t) := by
  obtain ⟨rest, hrest⟩ := List.head?_eq_some_iff.mp hfirst
  have hone := @runPlan_createNode cfg plan draws now actor t node []
  rw [createTx_noProject hproject] at hone
  have hnodes : Prog.runE (Db.Scope.exec cfg)
      (plan.nodes.foldlM (createNode cfg plan draws now actor) []) (.new t) =
        (.error (.fail (Error.noProject (projectOf plan node)).display), .new t) := by
    rw [hrest, List.foldlM_cons]
    exact Prog.runE_bind_error hone
  exact ⟨_, Prog.runE_bind_error hnodes⟩

/-- In every reachable store a plan is written as a whole or not at all, unless its first node has a
project and another one has none. Then, as long as ids can be drawn, the nodes before the first one
without a project stay behind. A spec that was validated is refused for nothing else, and the first
node is what decides whether anything is written at all. -/
theorem create_atomic_iff (cfg : Db.Config) (plan : ResolvedPlan) (draws : String → List String)
    (now : Int) (actor : String) {s : Locked Tables} (hs : Reachable cfg s) :
    (¬ HalfProvided plan s → AllOrNothing cfg plan draws now actor s) ∧
      ((∀ node ∈ plan.nodes,
          s.state.issue.keys.length + plan.nodes.length < (draws node.key).dedup.length) →
        AllOrNothing cfg plan draws now actor s → ¬ HalfProvided plan s) := by
  have hwf := hs.wellFormed
  constructor
  · intro hhalf
    by_cases hadmitted : Admitted plan s
    · have hvalid := validate_eq_nil.mp hadmitted.valid
      unfold AllOrNothing
      rw [create_admitted hadmitted]
      by_cases hfirst : ∀ node ∈ plan.nodes.head?, projectOf plan node ∈ s.state.project.keys
      · have hended := @writeAll_ended cfg plan draws now actor s.state hvalid hwf
        generalize runPlan cfg (writeAll cfg plan draws now actor) (.new s.state) = r at hended ⊢
        cases hended with
        | written pairs t hplan hprojects hsown =>
            exact ⟨fun _ => nofun, fun _ _ => hsown.loaded hplan hwf hadmitted.free⟩
        | refused more t node post hnodes hproject hsown =>
            refine absurd ⟨hadmitted, hfirst, node, ?_, hproject⟩ hhalf
            rw [hnodes]
            exact List.mem_append_right _ (List.mem_cons_self ..)
        | stuck more t node idPrefix hlength hnode hdraw hsown =>
            exact ⟨fun _ => nofun, fun _ => nofun⟩
      · obtain ⟨node, hnode⟩ := not_forall.mp hfirst
        obtain ⟨hnode, hproject⟩ := Classical.not_imp.mp hnode
        obtain ⟨e, hrun⟩ := @writeAll_first cfg plan draws now actor s.state node hnode hproject
        rw [hrun]
        exact ⟨fun _ _ => (Locked.eq_new hadmitted.healthy).symm, fun _ => nofun⟩
    · obtain ⟨e, hrun⟩ := @create_not_admitted cfg plan draws now actor s hadmitted
      unfold AllOrNothing
      rw [hrun]
      exact ⟨fun _ _ => rfl, fun _ => nofun⟩
  · intro hdraws hall hhalf
    have hadmitted := hhalf.toAdmitted
    have hvalid := validate_eq_nil.mp hadmitted.valid
    unfold AllOrNothing at hall
    rw [create_admitted hadmitted] at hall
    have hended := @writeAll_ended cfg plan draws now actor s.state hvalid hwf
    generalize runPlan cfg (writeAll cfg plan draws now actor) (.new s.state) = r at hended hall
    cases hended with
    | written pairs t hplan hprojects hsown =>
        obtain ⟨node, hnode, hproject⟩ := hhalf.missing
        obtain ⟨p, hp, rfl⟩ := hplan.mem_of_node hnode
        exact hproject (hprojects p hp)
    | refused more t node post hnodes hproject hsown =>
        -- a node was written before the one that is refused
        cases more with
        | nil => exact hproject (hhalf.first node (by rw [hnodes]; rfl))
        | cons p more =>
            have hstate : Locked.new t = s := hall.1 _ rfl
            have hp : p ∈ p :: more := List.mem_cons_self ..
            have hfresh := hsown.fresh p hp
            rw [← hstate, Locked.new_state, hsown.new p hp] at hfresh
            cases hfresh
    | stuck more t node idPrefix hlength hnode hdraw hsown =>
        have hmany := hdraws node hnode
        have hfew := hsown.drawn hdraw
        omega

/-- A plan of two nodes, the second in a project that does not exist. -/
def halfPlan : ResolvedPlan :=
  ⟨"plan", "p", [{ key := "a", title := "t" }, { key := "b", title := "t", project := "nope" }]⟩

/-- Its first node stays behind. -/
theorem half_planned :
    let r := runPlan {} (create {} halfPlan (fun _ => ["x", "y", "z"]) 10 "me") unplanned
    Reachable {} unplanned ∧ r.1 = .error (.fail (Error.noProject "nope").display) ∧
      r.2.state.issue.keys = ["p-x"] ∧ r.2 ≠ unplanned ∧
      ¬ AllOrNothing {} halfPlan (fun _ => ["x", "y", "z"]) 10 "me" unplanned := by
  intro r
  have herror : r.1 = .error (.fail (Error.noProject "nope").display) := by decide +kernel
  have hkeys : r.2.state.issue.keys = ["p-x"] := by decide +kernel
  have hne : r.2 ≠ unplanned := fun heq => by
    rw [heq] at hkeys
    exact absurd hkeys (by decide)
  exact ⟨⟨"s", [.op (.ensureProject "p" "/p" "p" 0)], rfl⟩, herror, hkeys, hne,
    fun h => hne (h.1 _ herror)⟩

/-- Both nodes in a project that is there: the plan is there as a whole. -/
theorem plan_written : AllOrNothing {} chainPlan (fun _ => ["x", "y"]) 10 "me" unplanned := by
  have hs : Reachable {} unplanned := ⟨"s", [.op (.ensureProject "p" "/p" "p" 0)], rfl⟩
  refine (create_atomic_iff {} chainPlan (fun _ => ["x", "y"]) 10 "me" hs).1 fun hhalf => ?_
  obtain ⟨node, hnode, hproject⟩ := hhalf.missing
  rcases List.mem_pair.mp hnode with rfl | rfl
  · exact hproject (by decide +kernel)
  · exact hproject (by decide +kernel)

end

end Marbles.Plan
