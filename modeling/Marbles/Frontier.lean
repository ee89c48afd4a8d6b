import Marbles.Db.Alone
import Marbles.Plan

/-!
# One node of a group at a time

The frontier offers at most one node of a conflict group, and none while a node of the
group is in progress. A node that is claimed but whose status still says open does not
make its group busy, though: the group is exclusive exactly when no such claim meets a
sibling that could be offered.

`ready` is one pass over the candidates, so the pass is restricted to one group first: nodes of
other groups do not change what happens to this one (`offer_other`), and of its own nodes the
first is offered, or none. The condition speaks about stored rows because a plan is loaded from
them; what the loaded graph says is in `Loaded`.
-/

namespace Marbles.Plan

open Db (Tables getQuery IsTx runM call)

/-! ### What the frontier offers of a group -/

/-- The nodes of one group. -/
def ofGroup (group : String) (nodes : List NodeView) : List NodeView :=
  nodes.filter fun node => node.conflictGroup = some group

@[simp] theorem ofGroup_append (group : String) (nodes nodes' : List NodeView) :
    ofGroup group (nodes ++ nodes') = ofGroup group nodes ++ ofGroup group nodes' :=
  List.filter_append ..

theorem ofGroup_cons_of_eq {group : String} {node : NodeView} {nodes : List NodeView}
    (h : node.conflictGroup = some group) :
    ofGroup group (node :: nodes) = node :: ofGroup group nodes :=
  List.filter_cons_of_pos (by simp [h])

theorem ofGroup_cons_of_ne {group : String} {node : NodeView} {nodes : List NodeView}
    (h : node.conflictGroup ≠ some group) :
    ofGroup group (node :: nodes) = ofGroup group nodes :=
  List.filter_cons_of_neg (by simp [h])

/-- No node of the group may be offered any more. -/
def Taken (busy : Table String String) (f : Frontier) (group : String) : Prop :=
  (busy.find group).isSome = true ∨ group ∈ f.chosenGroups

instance (busy : Table String String) (f : Frontier) (group : String) :
    Decidable (Taken busy f group) := inferInstanceAs (Decidable (_ ∨ _))

variable {busy : Table String String} {f : Frontier} {node : NodeView} {group : String}

/-- A node of another group changes nothing for this one. -/
theorem offer_other (h : node.conflictGroup ≠ some group) :
    ofGroup group (offer busy f node).ready = ofGroup group f.ready ∧
      (Taken busy (offer busy f node) group ↔ Taken busy f group) := by
  have hready : ofGroup group (f.ready ++ [node]) = ofGroup group f.ready := by
    rw [ofGroup_append, ofGroup_cons_of_ne h]
    exact List.append_nil _
  unfold offer
  cases hgroup : node.conflictGroup with
  | none => exact ⟨hready, Iff.rfl⟩
  | some other =>
      have hne : group ≠ other := fun heq => h (heq ▸ hgroup)
      dsimp only
      split
      · exact ⟨rfl, Iff.rfl⟩
      · split
        · exact ⟨rfl, Iff.rfl⟩
        · refine ⟨hready, ?_⟩
          simp only [Taken, List.mem_cons, hne, false_or]

theorem offer_taken (h : node.conflictGroup = some group) (htaken : Taken busy f group) :
    (offer busy f node).ready = f.ready ∧ Taken busy (offer busy f node) group := by
  unfold offer
  rw [h]
  dsimp only
  cases hbusy : busy.find group with
  | some running => exact ⟨rfl, htaken⟩
  | none =>
      have hchosen : group ∈ f.chosenGroups := by simpa [Taken, hbusy] using htaken
      dsimp only
      rw [if_pos hchosen]
      exact ⟨rfl, htaken⟩

theorem offer_free (h : node.conflictGroup = some group) (hfree : ¬ Taken busy f group) :
    (offer busy f node).ready = f.ready ++ [node] ∧ Taken busy (offer busy f node) group := by
  obtain ⟨hbusy, hchosen⟩ := not_or.mp hfree
  unfold offer
  rw [h]
  dsimp only
  rw [Option.not_isSome_iff_eq_none.mp hbusy]
  dsimp only
  rw [if_neg hchosen]
  exact ⟨rfl, Or.inr (List.mem_cons_self ..)⟩

/-- Of each group the walk adds the first candidate, or none when the group is taken. -/
theorem offered_ofGroup (group : String) (nodes : List NodeView) (f : Frontier) :
    ofGroup group (nodes.foldl (offer busy) f).ready = ofGroup group f.ready ++
      if Taken busy f group then [] else (ofGroup group nodes).take 1 := by
  induction nodes generalizing f with
  | nil => simp [ofGroup]
  | cons node nodes ih =>
      rw [List.foldl_cons, ih]
      by_cases h : node.conflictGroup = some group
      · by_cases htaken : Taken busy f group
        · obtain ⟨hready, htaken'⟩ := offer_taken h htaken
          rw [hready, if_pos htaken, if_pos htaken']
        · obtain ⟨hready, htaken'⟩ := offer_free h htaken
          rw [hready, if_neg htaken, if_pos htaken', ofGroup_append, ofGroup_cons_of_eq h,
            ofGroup_cons_of_eq h, List.append_nil, List.take_succ_cons, List.take_zero]
          rfl
      · obtain ⟨hready, htaken⟩ := @offer_other busy f node group h
        rw [hready, ofGroup_cons_of_ne h]
        simp only [htaken]

/-- A group is busy exactly when a node of it is in progress. -/
theorem busyGroups_isSome {views : List NodeView} {group : String} :
    ((busyGroups views).find group).isSome = true ↔
      ∃ node ∈ views, node.conflictGroup = some group ∧ node.status = runningStatus := by
  -- the fold only ever adds groups to the ones it starts with
  have hstart : (∃ node ∈ views, node.conflictGroup = some group ∧ node.status = runningStatus) ↔
      ((Table.empty : Table String String).find group).isSome = true ∨
        ∃ node ∈ views, node.conflictGroup = some group ∧ node.status = runningStatus := by
    simp
  rw [hstart, busyGroups]
  clear hstart
  generalize (Table.empty : Table String String) = busy
  induction views generalizing busy with
  | nil => simp
  | cons node views ih =>
      rw [List.foldl_cons]
      refine (ih _).trans ?_
      simp only [List.mem_cons, exists_eq_or_imp, ← or_assoc]
      refine or_congr_left ?_
      cases hgroup : node.conflictGroup with
      | none => simp
      | some other =>
          by_cases hrunning : node.status = runningStatus
          · simp only [hrunning, if_true, Table.find_upsert, Option.some.injEq, and_true]
            by_cases hother : group = other
            · simp [hother]
            · simp [hother, Ne.symm hother]
          · simp [hrunning]

/-! ### The nodes of a loaded plan -/

/-- An issue of the store that the plan names. -/
def PlanNode (t : Tables) (plan : String) (issue : Issue) : Prop :=
  (∃ row, t.issue.find issue.id = some row ∧ t.view issue.id row = issue) ∧
    planNameOf issue = some plan

/-- Everything the listing returns, in rows. -/
def stored (t : Tables) : List (String × Db.IssueRow) := Db.select t fun _ _ => true

theorem listQuery_all (t : Tables) :
    Db.listQuery none true none t = (stored t).map fun r => t.view r.1 r.2 := rfl

theorem mem_listQuery_all {t : Tables} {issue : Issue} :
    issue ∈ Db.listQuery none true none t ↔
      ∃ row, t.issue.find issue.id = some row ∧ t.view issue.id row = issue := by
  rw [listQuery_all, List.mem_map]
  constructor
  · rintro ⟨r, hr, rfl⟩
    exact ⟨r.2, (Db.mem_select.mp hr).1, rfl⟩
  · rintro ⟨row, hrow, hview⟩
    exact ⟨(issue.id, row), Db.mem_select.mpr ⟨hrow, rfl⟩, hview⟩

/-- The statuses collected while loading are the stored ones. -/
theorem lookup_status (t : Tables) (id : String) :
    ((Db.listQuery none true none t).map fun issue => (issue.id, issue.status)).lookup id =
      (t.issue.find id).map fun row => row.status.asStr := by
  have hkeys : (((stored t).map fun r => (r.1, r.2.status.asStr)).map Prod.fst).Nodup := by
    rw [List.map_map]
    exact Db.nodup_select ..
  have hmap : (Db.listQuery none true none t).map (fun issue => (issue.id, issue.status)) =
      (stored t).map fun r => (r.1, r.2.status.asStr) := by
    rw [listQuery_all, List.map_map]
    rfl
  rw [hmap]
  cases hrow : t.issue.find id with
  | some row =>
      refine (Table.lookup_eq_some hkeys).mpr (List.mem_map.mpr ⟨(id, row), ?_, rfl⟩)
      exact Db.mem_select.mpr ⟨hrow, rfl⟩
  | none =>
      refine Table.lookup_eq_none.mpr fun hmem => ?_
      obtain ⟨p, hp, rfl⟩ := List.mem_map.mp hmem
      obtain ⟨r, hr, rfl⟩ := List.mem_map.mp hp
      rw [(Db.mem_select.mp hr).1] at hrow
      cases hrow

/-- The graph that is read from a store, before its order is looked for. -/
def graphOf (plan : String) (t : Tables) : PlanGraph :=
  let all := Db.listQuery none true none t
  ⟨plan, Sorting.sortOn planKey (all.filter fun issue => planNameOf issue = some plan),
    all.map fun issue => (issue.id, issue.status), defaultEstimateMinutes⟩

@[simp] theorem mem_graphOf {plan : String} {t : Tables} {issue : Issue} :
    issue ∈ (graphOf plan t).nodes ↔ PlanNode t plan issue := by
  rw [graphOf, Sorting.mem_sortOn, List.mem_filter, mem_listQuery_all, PlanNode, decide_eq_true_eq]

theorem graphOf_nodup {plan : String} {t : Tables} :
    ((graphOf plan t).nodes.map (·.id)).Nodup := by
  refine (((Sorting.perm_sortOn _ _).map _).nodup_iff).mpr ?_
  refine List.Nodup.sublist (List.filter_sublist.map _) ?_
  rw [listQuery_all, List.map_map]
  exact Db.nodup_select ..

/-- A plan that is read has an order. -/
theorem ofIssues_eq_ok {plan : String} {t : Tables} {graph : PlanGraph}
    (h : PlanGraph.ofIssues plan (Db.listQuery none true none t) = .ok graph) :
    graph = graphOf plan t ∧ ∃ order, graph.topo = .ok order := by
  unfold PlanGraph.ofIssues at h
  dsimp only at h
  split at h
  · cases h
  · obtain ⟨order, horder, h⟩ := Outcome.bind_eq_ok.mp h
    cases h
    exact ⟨rfl, order, horder⟩

/-- What is known of a plan that was loaded from a store. -/
structure Loaded (t : Tables) (plan : String) (graph : PlanGraph) : Prop where
  nodes : ∀ issue, issue ∈ graph.nodes ↔ PlanNode t plan issue
  status : ∀ id, graph.status id = ((t.issue.find id).map fun row => row.status.asStr).getD "open"
  acyclic : ∃ order, graph.topo = .ok order

theorem ofIssues_loaded {t : Tables} {plan : String} {graph : PlanGraph}
    (h : PlanGraph.ofIssues plan (Db.listQuery none true none t) = .ok graph) :
    Loaded t plan graph := by
  obtain ⟨rfl, hacyclic⟩ := ofIssues_eq_ok h
  refine ⟨fun issue => mem_graphOf, fun id => ?_, hacyclic⟩
  rw [PlanGraph.status, graphOf, lookup_status]

/-- On a healthy lock a plan is read from one listing. -/
theorem load_eq (cfg : Db.Config) (plan : String) (t : Tables) :
    runM cfg (load plan) (.new t) =
      (PlanGraph.ofIssues plan (Db.listQuery none true none t), .new t) := by
  have hlist : IsTx cfg (call (.list none true none))
      (.read fun t => .ok (Db.listQuery none true none t)) := .query rfl
  have hcall := hlist.eq t
  rw [load, runM, Prog.runE_bind_ok hcall]
  rfl

/-- What a load that came back says about the store. -/
theorem load_healthy {cfg : Db.Config} {plan : String} {graph : PlanGraph} {s s' : Locked Tables}
    (h : runM cfg (load plan) s = (.ok graph, s')) :
    s = .new s.state ∧ s' = s ∧
      PlanGraph.ofIssues plan (Db.listQuery none true none s.state) = .ok graph := by
  cases hp : s.poisoned with
  | true =>
      have hcall : runM cfg (call (.list none true none)) s = (.error .abort, s) :=
        Locked.query_poisoned (fun t => .ok (Db.listQuery none true none t)) hp
      rw [load, runM, Prog.runE_bind_error hcall] at h
      cases h
  | false =>
      have hs := Locked.eq_new hp
      rw [hs, load_eq] at h
      obtain ⟨hgraph, hstate⟩ := Prod.mk.inj h
      exact ⟨hs, hstate.symm.trans hs.symm, hgraph⟩

theorem load_loaded {cfg : Db.Config} {plan : String} {graph : PlanGraph} {s s' : Locked Tables}
    (h : runM cfg (load plan) s = (.ok graph, s')) : Loaded s.state plan graph :=
  ofIssues_loaded (load_healthy h).2.2

/-! ### Which nodes may be offered -/

/-- Open, not claimed, past its grace, and waiting for nothing. -/
structure Offerable (t : Tables) (now : Int) (issue : Issue) : Prop where
  opened : issue.status = "open"
  unclaimed : isLiveClaim issue now = false
  available : issue.availableAt.all (· ≤ now) = true
  unblocked : ∀ dep ∈ PlanGraph.depIds issue,
    ∃ row, t.issue.find dep = some row ∧ row.status = .closed

theorem openDeps_eq_nil {t : Tables} {plan : String} {graph : PlanGraph}
    (hgraph : Loaded t plan graph) {issue : Issue} :
    openDeps graph issue = [] ↔ ∀ dep ∈ PlanGraph.depIds issue,
      ∃ row, t.issue.find dep = some row ∧ row.status = .closed := by
  have hclosed : ∀ dep, graph.status dep = "closed" ↔
      ∃ row, t.issue.find dep = some row ∧ row.status = .closed := by
    intro dep
    rw [hgraph.status]
    cases t.issue.find dep with
    | none => simp
    | some row => simp
  simp only [openDeps, List.filter_eq_nil_iff, List.mem_append, PlanGraph.internalDeps,
    PlanGraph.externalDeps, List.mem_filter, Bool.not_eq_true', decide_eq_true_eq, not_not,
    hclosed]
  constructor
  · intro h dep hdep
    refine h dep ?_
    cases hnode : graph.isNode dep with
    | true => exact Or.inl ⟨hdep, rfl⟩
    | false => exact Or.inr ⟨hdep, rfl⟩
  · exact fun h dep hdep => h dep (hdep.elim And.left And.left)

theorem gate_eq_none {t : Tables} {plan : String} {graph : PlanGraph}
    (hgraph : Loaded t plan graph) {now : Int} {issue : Issue} :
    gate graph now issue = none ↔ Offerable t now issue := by
  have havailable : issue.availableAt.any (· > now) = false ↔
      issue.availableAt.all (· ≤ now) = true := by
    cases issue.availableAt <;> simp
  have hiff : gate graph now issue = none ↔ issue.status = "open" ∧
      isLiveClaim issue now = false ∧ issue.availableAt.any (· > now) = false ∧
        openDeps graph issue = [] := by
    unfold gate
    by_cases h₁ : issue.status = "open"
    · by_cases h₂ : isLiveClaim issue now = true
      · simp [h₁, h₂]
      · by_cases h₃ : issue.availableAt.any (· > now) = true
        · simp [h₁, h₂, h₃]
        · by_cases h₄ : openDeps graph issue = []
          · simp [h₁, h₂, h₃, h₄]
          · simp [h₁, h₂, h₃, h₄]
    · simp [h₁]
  rw [hiff, havailable, openDeps_eq_nil hgraph]
  exact ⟨fun ⟨h₁, h₂, h₃, h₄⟩ => ⟨h₁, h₂, h₃, h₄⟩, fun ⟨h₁, h₂, h₃, h₄⟩ => ⟨h₁, h₂, h₃, h₄⟩⟩

/-! ### Walking the graph -/

theorem mem_walk {graph : PlanGraph} {order : List Nat} (h : graph.topo = .ok order)
    {issue : Issue} : issue ∈ graph.walk order ↔ issue ∈ graph.nodes := by
  have hbound : ∀ e ∈ graph.edges, e.2 < graph.nodes.length := by
    intro e he
    obtain ⟨node, hnode, he⟩ := List.mem_flatMap.mp he
    obtain ⟨dep, -, rfl⟩ := List.mem_map.mp he
    have hidx := List.snd_lt_of_mem_zipIdx hnode
    simpa using hidx
  have hperm := Topo.sort_perm hbound (Outcome.ofOption_eq_ok.mp h)
  rw [PlanGraph.walk, List.mem_filterMap]
  constructor
  · rintro ⟨i, -, hi⟩
    exact List.mem_of_getElem? hi
  · intro hmem
    obtain ⟨i, hi⟩ := List.mem_iff_getElem?.mp hmem
    refine ⟨i, hperm.mem_iff.mpr (List.mem_range.mpr ?_), hi⟩
    exact (List.getElem?_eq_some_iff.mp hi).1

theorem mem_candidates {t : Tables} {plan : String} {graph : PlanGraph}
    (hgraph : Loaded t plan graph) {order : List Nat} (h : graph.topo = .ok order) {now : Int}
    {issue : Issue} :
    issue ∈ candidates graph now order ↔ PlanNode t plan issue ∧ Offerable t now issue := by
  rw [candidates, Sorting.mem_sortOn, List.mem_filter, mem_walk h, hgraph.nodes,
    Option.isNone_iff_eq_none, gate_eq_none hgraph]

/-- What `ready` offers of a group. -/
theorem ready_ofGroup {graph : PlanGraph} {now : Int} {view : ReadyView}
    (h : ready graph now = .ok view) :
    ∃ order, graph.topo = .ok order ∧ ∀ group, ofGroup group view.ready =
      if ∃ node ∈ graph.nodes.map graph.nodeView,
          node.conflictGroup = some group ∧ node.status = runningStatus then []
      else (ofGroup group ((candidates graph now order).map graph.nodeView)).take 1 := by
  obtain ⟨order, horder, h⟩ := Outcome.bind_eq_ok.mp h
  cases h
  refine ⟨order, horder, fun group => ?_⟩
  have hoffered := @offered_ofGroup (busyGroups (graph.nodes.map graph.nodeView)) group
    ((candidates graph now order).map graph.nodeView) ⟨[], [], gated graph now order⟩
  refine hoffered.trans ?_
  have htaken : Taken (busyGroups (graph.nodes.map graph.nodeView))
      ⟨[], [], gated graph now order⟩ group ↔
      ∃ node ∈ graph.nodes.map graph.nodeView,
        node.conflictGroup = some group ∧ node.status = runningStatus := by
    rw [Taken, busyGroups_isSome]
    simp
  simp only [htaken]
  rfl

/-! ### Exclusive groups -/

/-- A node that is offered has its group to itself. -/
def Exclusive (t : Tables) (plan : String) (now : Int) (view : ReadyView) : Prop :=
  ∀ node ∈ view.ready, ∀ group, node.conflictGroup = some group →
    ofGroup group view.ready = [node] ∧
      ∀ other, PlanNode t plan other → other.id ≠ node.id → conflictGroup other = some group →
        other.status ≠ runningStatus ∧ isLiveClaim other now = false

/-- A claimed node whose group is not running shares it with no node that may be offered. -/
def Quiet (t : Tables) (plan : String) (now : Int) : Prop :=
  ∀ claimed, PlanNode t plan claimed → isLiveClaim claimed now = true →
    ∀ group, conflictGroup claimed = some group →
      (∃ node, PlanNode t plan node ∧ conflictGroup node = some group ∧
        node.status = runningStatus) ∨
      ∀ node, PlanNode t plan node → conflictGroup node = some group → ¬ Offerable t now node

/-- The first node of a group, if there is one, is what `take 1` keeps. -/
theorem take_one_eq_singleton {nodes : List NodeView} {node : NodeView}
    (h : node ∈ nodes.take 1) : nodes.take 1 = [node] := by
  cases nodes with
  | nil => simp at h
  | cons first rest =>
      rw [List.take_succ_cons, List.take_zero] at h ⊢
      rw [List.mem_singleton.mp h]

@[simp] theorem mem_ofGroup {group : String} {node : NodeView} {nodes : List NodeView} :
    node ∈ ofGroup group nodes ↔ node ∈ nodes ∧ node.conflictGroup = some group := by
  rw [ofGroup, List.mem_filter, decide_eq_true_eq]

/-- Two nodes of a plan with one id are the same. -/
theorem PlanNode.eq_of_id {t : Tables} {plan : String} {issue issue' : Issue}
    (h : PlanNode t plan issue) (h' : PlanNode t plan issue') (hid : issue.id = issue'.id) :
    issue = issue' := by
  obtain ⟨⟨row, hrow, hview⟩, -⟩ := h
  obtain ⟨⟨row', hrow', hview'⟩, -⟩ := h'
  rw [hid] at hrow hview
  obtain rfl := Option.some.inj (hrow.symm.trans hrow')
  exact hview.symm.trans hview'

/-- Some node of the group is running. -/
def Running (t : Tables) (plan group : String) : Prop :=
  ∃ node, PlanNode t plan node ∧ conflictGroup node = some group ∧ node.status = runningStatus

/-- The frontier offers the first node queued for each group, and none while one is running. -/
structure Offers (t : Tables) (plan : String) (graph : PlanGraph) (now : Int) (view : ReadyView)
    (queue : List NodeView) : Prop where
  queued : ∀ node, node ∈ queue ↔
    ∃ issue, (PlanNode t plan issue ∧ Offerable t now issue) ∧ graph.nodeView issue = node
  busy : ∀ group, Running t plan group → ofGroup group view.ready = []
  idle : ∀ group, ¬ Running t plan group →
    ofGroup group view.ready = (ofGroup group queue).take 1

theorem Loaded.offers {t : Tables} {plan : String} {graph : PlanGraph}
    (hgraph : Loaded t plan graph) (now : Int) :
    ∃ view, ready graph now = .ok view ∧ ∃ queue, Offers t plan graph now view queue := by
  obtain ⟨order, horder⟩ := hgraph.acyclic
  obtain ⟨view, hview⟩ : ∃ view, ready graph now = .ok view := by
    rw [ready, horder]
    exact ⟨_, rfl⟩
  obtain ⟨order', horder', hoffered⟩ := ready_ofGroup hview
  obtain rfl : order' = order := by simpa using horder'.symm.trans horder
  have hrunning : ∀ group, (∃ node ∈ graph.nodes.map graph.nodeView,
      node.conflictGroup = some group ∧ node.status = runningStatus) ↔
      Running t plan group := by
    intro group
    simp only [List.mem_map, exists_exists_and_eq_and, hgraph.nodes]
    rfl
  refine ⟨view, hview, (candidates graph now order').map graph.nodeView, fun node => ?_,
    fun group h => ?_, fun group h => ?_⟩
  · simp only [List.mem_map, mem_candidates hgraph horder]
  · rw [hoffered group, if_pos ((hrunning group).mpr h)]
  · rw [hoffered group, if_neg fun h' => h ((hrunning group).mp h')]

namespace Offers

variable {t : Tables} {plan : String} {graph : PlanGraph} {now : Int} {view : ReadyView}
  {queue : List NodeView}

/-- A sibling of the claimed node that may be offered makes the group appear in the frontier. -/
theorem quiet (h : Offers t plan graph now view queue) (hexclusive : Exclusive t plan now view) :
    Quiet t plan now := by
  intro claimed hclaimed hlive group hgroup
  by_contra hquiet
  obtain ⟨hidle, hsibling⟩ := not_or.mp hquiet
  simp only [not_forall, not_not] at hsibling
  obtain ⟨sibling, hnode, hsame, hofferable⟩ := hsibling
  have hcandidate : graph.nodeView sibling ∈ ofGroup group queue :=
    mem_ofGroup.mpr ⟨(h.queued _).mpr ⟨sibling, ⟨hnode, hofferable⟩, rfl⟩, hsame⟩
  obtain ⟨first, hfirst⟩ : ∃ first, first ∈ (ofGroup group queue).take 1 := by
    cases hlist : ofGroup group queue with
    | nil => exact absurd (hlist ▸ hcandidate) (by simp)
    | cons first rest => exact ⟨first, by simp⟩
  have hready : first ∈ ofGroup group view.ready := by rwa [h.idle group hidle]
  obtain ⟨hready, hfirstGroup⟩ := mem_ofGroup.mp hready
  obtain ⟨issue, ⟨hissue, hissueOfferable⟩, rfl⟩ :=
    (h.queued first).mp (mem_ofGroup.mp (List.mem_of_mem_take hfirst)).1
  -- what is offered is unclaimed, so the claimed node is another one of its group
  have hne : claimed.id ≠ issue.id := by
    intro hid
    obtain rfl := hclaimed.eq_of_id hissue hid
    rw [hissueOfferable.unclaimed] at hlive
    cases hlive
  have hfree := ((hexclusive _ hready group hfirstGroup).2 claimed hclaimed hne hgroup).2
  rw [hfree] at hlive
  cases hlive

/-- An offered node is the first one queued for a group that is not running. -/
theorem exclusive (h : Offers t plan graph now view queue) (hquiet : Quiet t plan now) :
    Exclusive t plan now view := by
  intro node hnode group hgroup
  have hready : node ∈ ofGroup group view.ready := mem_ofGroup.mpr ⟨hnode, hgroup⟩
  have hidle : ¬ Running t plan group := by
    intro hrun
    rw [h.busy group hrun] at hready
    cases hready
  have hfirst := hready
  rw [h.idle group hidle] at hfirst
  refine ⟨(h.idle group hidle).trans (take_one_eq_singleton hfirst), ?_⟩
  intro other hother hne hsame
  refine ⟨fun hstatus => hidle ⟨other, hother, hsame, hstatus⟩, ?_⟩
  by_contra hlive
  obtain ⟨issue, ⟨hissue, hofferable⟩, rfl⟩ :=
    (h.queued node).mp (mem_ofGroup.mp (List.mem_of_mem_take hfirst)).1
  rcases hquiet other hother (by simpa using hlive) group hsame with hrun | hnone
  · exact hidle hrun
  · exact hnone issue hissue hgroup hofferable

end Offers

/-- A loaded plan has a frontier, and it is exclusive exactly when no claimed node of a group that
is not running has a sibling that may be offered. A claim takes its node out of the queue without
making its group busy, so a sibling may be offered next to it. -/
theorem frontier_exclusive_iff {cfg : Db.Config} {plan : String} {graph : PlanGraph}
    {s s' : Locked Tables} (hload : runM cfg (load plan) s = (.ok graph, s')) (now : Int) :
    ∃ view, ready graph now = .ok view ∧
      (Exclusive s.state plan now view ↔ Quiet s.state plan now) := by
  obtain ⟨view, hview, queue, hoffers⟩ := (load_loaded hload).offers now
  exact ⟨view, hview, hoffers.quiet, hoffers.exclusive⟩

/-! ### A claimed sibling -/

/-- A node of the plan `v2` in the group `db`. -/
def dbNode (id : String) : NewIssue where
  id := some id
  project := some "p"
  availableAt := some 0
  metadata := some (.obj [(metaGroup, .str "db"), (metaPlan, .str "v2")])

/-- Two nodes of one group; an agent holds the first. -/
def claimedSibling : List Op :=
  [.ensureProject "p" "/p" "p" 0, .create (dbNode "x") [] 0, .create (dbNode "y") [] 0,
    .claim ⟨"x", "a", .agent, none⟩ 0]

/-- The claim leaves the status open, and the sibling is offered next to it. -/
theorem claimed_sibling_offered :
    let s := Db.run {} claimedSibling (Db.opened "s")
    ∃ graph view, runM {} (load "v2") s = (.ok graph, s) ∧ ready graph 100 = .ok view ∧
      ¬ Exclusive s.state "v2" 100 view := by
  intro s
  have hoffered : ((PlanGraph.ofIssues "v2" (Db.listQuery none true none s.state)).toOption.bind
      fun graph => (ready graph 100).toOption).map
        (fun view => view.ready.map fun node => (node.id, node.conflictGroup)) =
      some [("y", some "db")] := by
    decide +kernel
  have hclaimed : (s.state.rowToIssue "x").map
      (fun issue => (issue.id, planNameOf issue, conflictGroup issue, isLiveClaim issue 100)) =
      some ("x", some "v2", some "db", true) := by
    decide +kernel
  obtain ⟨view, hview, hready⟩ := Option.map_eq_some_iff.mp hoffered
  obtain ⟨graph, hgraph, hview⟩ := Option.bind_eq_some_iff.mp hview
  obtain ⟨issue, hissue, hfacts⟩ := Option.map_eq_some_iff.mp hclaimed
  simp only [Prod.mk.injEq] at hfacts
  obtain ⟨hid, hplan, hgroup, hlive⟩ := hfacts
  obtain ⟨node, hnode, hnodeFacts⟩ := List.map_eq_singleton_iff.mp hready
  obtain ⟨hnodeId, hnodeGroup⟩ := Prod.mk.inj hnodeFacts
  obtain ⟨row, hrow, hrowView⟩ := Db.rowToIssue_eq_some.mp hissue
  have hs : s = .new s.state := Locked.eq_new (by decide)
  have hload : runM {} (load "v2") s = (.ok graph, s) := by
    rw [hs, load_eq, Outcome.toOption_eq_some.mp hgraph]
  -- The node y is offered although x, of the same conflict group, is claimed.
  refine ⟨graph, view, hload, Outcome.toOption_eq_some.mp hview, fun hexclusive => ?_⟩
  have hmem : node ∈ view.ready := hnode ▸ List.mem_singleton_self node
  have hplanNode : PlanNode s.state "v2" issue := ⟨⟨row, hid ▸ hrow, hid ▸ hrowView⟩, hplan⟩
  have hne : issue.id ≠ node.id := by
    rw [hid, hnodeId]
    decide
  have hfree := ((hexclusive node hmem "db" hnodeGroup).2 issue hplanNode hne hgroup).2
  rw [hlive] at hfree
  cases hfree

/-- With no claim around, the group has one node in the frontier. -/
theorem unclaimed_group_exclusive :
    let s := Db.run {} (claimedSibling.take 3) (Db.opened "s")
    ∃ graph, runM {} (load "v2") s = (.ok graph, s) ∧
      ∃ view, ready graph 100 = .ok view ∧ Exclusive s.state "v2" 100 view := by
  intro s
  have hs : s = .new s.state := Locked.eq_new (by decide)
  have hload : (PlanGraph.ofIssues "v2" (Db.listQuery none true none s.state)).toOption.isSome := by
    decide +kernel
  obtain ⟨graph, hgraph⟩ := Option.isSome_iff_exists.mp hload
  have hload : runM {} (load "v2") s = (.ok graph, s) := by
    rw [hs, load_eq, Outcome.toOption_eq_some.mp hgraph]
  obtain ⟨view, hview, hiff⟩ := frontier_exclusive_iff hload 100
  refine ⟨graph, hload, view, hview, hiff.mpr fun claimed hclaimed hlive => ?_⟩
  have hnone : ∀ r ∈ s.state.issue.rows, r.2.assignee = none := by decide
  obtain ⟨⟨row, hrow, hrowView⟩, -⟩ := hclaimed
  have hassignee : claimed.assignee = none := by
    rw [← hrowView]
    exact hnone _ (Table.mem_rows.mpr hrow)
  rw [isLiveClaim, heldAt, hassignee] at hlive
  cases hlive

end Marbles.Plan
