import Marbles.Frontier
import Marbles.PlanOrder
import Marbles.Db.Sound

/-!
# The frontier and the store

What a plan offers, the store offers too: a node passes the gate of the plan under conditions
on the loaded issue, and on a store whose claims are whole these are the conditions of the
store's own query. And the plan accounts for each of its nodes once, in what it offers or in
what it holds back.

The two queues are computed differently, from decoded issues with a map of statuses here and from
rows there, so the comparison goes condition by condition. The one condition that needs the whole
store is the claim: the plan asks for a holder with a live lease, the query for a lease, and these
are the same only where holders and leases go together, which they do in every reachable store.
-/

namespace Marbles.Plan

open Db (Tables IsTx runM call Reachable)

/-! ### Every node once -/

/-- The nodes a frontier has dealt with. -/
def Frontier.ids (f : Frontier) : List String := f.ready.map (·.id) ++ f.blocked.map (·.id)

theorem offer_ids (busy : Table String String) (f : Frontier) (node : NodeView) :
    (offer busy f node).ids.Perm (f.ids ++ [node.id]) := by
  have hready : ∀ groups, Frontier.ids ⟨groups, f.ready ++ [node], f.blocked⟩ =
      f.ready.map (·.id) ++ [node.id] ++ f.blocked.map (·.id) := fun groups => by
    rw [Frontier.ids, List.map_append]
    rfl
  have hmoved : (f.ready.map (·.id) ++ [node.id] ++ f.blocked.map (·.id)).Perm
      (f.ids ++ [node.id]) := by
    rw [Frontier.ids, List.append_assoc, List.append_assoc]
    exact List.Perm.append_left _ List.perm_append_comm
  have hblocked : ∀ reason detail, Frontier.ids
      ⟨f.chosenGroups, f.ready, f.blocked ++ [node.block reason detail]⟩ = f.ids ++ [node.id] :=
    fun reason detail => by
      rw [Frontier.ids, Frontier.ids, List.map_append, List.append_assoc]
      rfl
  unfold offer
  cases node.conflictGroup with
  | none => exact (hready _).symm ▸ hmoved
  | some group =>
      dsimp only
      cases busy.find group with
      | some running => exact .of_eq (hblocked _ _)
      | none =>
          dsimp only
          split
          · exact .of_eq (hblocked _ _)
          · exact (hready _).symm ▸ hmoved

theorem foldl_offer_ids (busy : Table String String) (nodes : List NodeView) (f : Frontier) :
    (nodes.foldl (offer busy) f).ids.Perm (f.ids ++ nodes.map (·.id)) := by
  induction nodes generalizing f with
  | nil => exact .of_eq (List.append_nil _).symm
  | cons node nodes ih =>
      refine (ih (offer busy f node)).trans ?_
      rw [List.map_cons, List.append_cons]
      exact (offer_ids busy f node).append_right _

/-- What is offered was a candidate. -/
theorem mem_foldl_offer {busy : Table String String} {nodes : List NodeView} {f : Frontier}
    {node : NodeView} (h : node ∈ (nodes.foldl (offer busy) f).ready) :
    node ∈ f.ready ∨ node ∈ nodes := by
  have hstep : ∀ (f : Frontier) (next : NodeView), (offer busy f next).ready = f.ready ∨
      (offer busy f next).ready = f.ready ++ [next] := by
    intro f next
    unfold offer
    cases next.conflictGroup with
    | none => exact Or.inr rfl
    | some group =>
        dsimp only
        cases busy.find group with
        | some running => exact Or.inl rfl
        | none =>
            dsimp only
            split
            · exact Or.inl rfl
            · exact Or.inr rfl
  induction nodes generalizing f with
  | nil => exact Or.inl h
  | cons next nodes ih =>
      rcases ih h with hmem | hmem
      · rcases hstep f next with heq | heq
        · exact Or.inl (heq ▸ hmem)
        · rw [heq] at hmem
          rcases List.mem_append.mp hmem with hmem | hmem
          · exact Or.inl hmem
          · exact Or.inr (List.mem_singleton.mp hmem ▸ List.mem_cons_self ..)
      · exact Or.inr (List.mem_cons_of_mem _ hmem)

/-- Reading a list place by place gives the list. -/
theorem filterMap_range {α : Type} (l : List α) :
    ((List.range l.length).filterMap fun i => l[i]?) = l := by
  induction l using List.reverseRecOn with
  | nil => rfl
  | append_singleton l a ih =>
      have hinit : ((List.range l.length).filterMap fun i => (l ++ [a])[i]?) =
          (List.range l.length).filterMap fun i => l[i]? :=
        List.filterMap_congr fun i hi => List.getElem?_append_left (List.mem_range.mp hi)
      rw [List.length_append, List.length_singleton, List.range_succ, List.filterMap_append, hinit,
        ih]
      simp

/-- The walk meets every node once. -/
theorem walk_perm {graph : PlanGraph} {order : List Nat} (h : graph.topo = .ok order) :
    (graph.walk order).Perm graph.nodes :=
  ((PlanGraph.topo_perm h).filterMap _).trans (.of_eq (filterMap_range graph.nodes))

@[simp] theorem gated_ids (graph : PlanGraph) (now : Int) (order : List Nat) :
    (gated graph now order).map (·.id) =
      ((graph.walk order).filter fun issue => !(gate graph now issue).isNone).map (·.id) := by
  unfold gated
  induction graph.walk order with
  | nil => rfl
  | cons issue rest ih =>
      cases hgate : gate graph now issue with
      | none => simpa [hgate] using ih
      | some why =>
          simp only [List.filterMap_cons, hgate, Option.map_some, List.map_cons, ih,
            List.filter_cons, Option.isNone_some, Bool.not_false, if_true]
          rfl

/-- A node is gated or a candidate. -/
theorem gated_candidates_perm (graph : PlanGraph) (now : Int) (order : List Nat) :
    ((gated graph now order).map (·.id) ++
      ((candidates graph now order).map graph.nodeView).map (·.id)).Perm
        ((graph.walk order).map (·.id)) := by
  have hcandidates : (((candidates graph now order).map graph.nodeView).map (·.id)).Perm
      (((graph.walk order).filter fun issue => (gate graph now issue).isNone).map (·.id)) := by
    rw [List.map_map]
    exact (Sorting.perm_sortOn _ _).map _
  rw [gated_ids]
  refine (List.perm_append_comm.trans (hcandidates.append_right _)).trans ?_
  rw [← List.map_append]
  exact (List.filter_append_perm _ _).map _

/-- The frontier of a plan accounts for every node of the plan once. -/
theorem ready_perm {graph : PlanGraph} {now : Int} {view : ReadyView}
    (h : ready graph now = .ok view) :
    (view.ready.map (·.id) ++ view.blocked.map (·.id)).Perm (graph.nodes.map (·.id)) := by
  obtain ⟨order, horder, h⟩ := Outcome.bind_eq_ok.mp h
  cases h
  refine (foldl_offer_ids _ _ _).trans (.trans ?_ ((walk_perm horder).map _))
  exact gated_candidates_perm graph now order

/-! ### What the store offers -/

/-- In every reachable store the claims are whole. -/
theorem whole_of_reachable {cfg : Db.Config} {s : Locked Tables} (h : Reachable cfg s) :
    ∀ {id row}, s.state.issue.find id = some row → row.Whole :=
  @Reachable.invariant cfg (fun t => ∀ {id row}, t.issue.find id = some row → row.Whole)
    (fun storeId _ _ hrow => (Db.sound_empty storeId).whole hrow)
    (fun _ _ _ hwhole he _ _ hrow => Db.whole_effect hwhole he hrow) s h

/-- Where claims are whole, an issue that may be offered is eligible. -/
theorem Offerable.eligible {t : Tables} {now : Int} {id : String} {row : Db.IssueRow}
    (h : Offerable t now (t.view id row)) (hwhole : row.Whole) :
    Db.eligible t none now id row = true := by
  have hstatus : row.status = .«open» := Status.asStr_eq_open.mp h.opened
  have hblockers : t.openBlockers id = [] := by
    refine Tables.openBlockers_eq_nil.mpr fun p hp => ?_
    have hdep : p ∈ PlanGraph.depIds (t.view id row) :=
      List.mem_filterMap.mpr ⟨⟨some p⟩, List.mem_map_of_mem (Tables.mem_dependsOn.mpr hp), rfl⟩
    obtain ⟨blocker, hblocker, hclosed⟩ := h.unblocked p hdep
    simp [Tables.isOpen, hblocker, hclosed]
  have hclaim : (row.assignee.isNone || row.expiresAt.any (· ≤ now)) = true := by
    have hfree : heldAt row.assignee row.expiresAt now = false := h.unclaimed
    have hexpiry := hwhole.expiry
    unfold heldAt at hfree
    cases hassignee : row.assignee with
    | none => rfl
    | some agent =>
        rw [hassignee] at hfree hexpiry
        obtain ⟨expiry, hsome⟩ := Option.isSome_iff_exists.mp hexpiry
        rw [hsome] at hfree ⊢
        simpa using hfree
  have havailable : row.availableAt.all (· ≤ now) = true := h.available
  unfold Db.eligible
  simp [hstatus, havailable, hblockers, hclaim, Db.matchesScope]

/-- The ids of the loaded nodes are all different. -/
theorem ofIssues_nodup {t : Tables} {plan : String} {graph : PlanGraph}
    (h : PlanGraph.ofIssues plan (Db.listQuery none true none t) = .ok graph) :
    (graph.nodes.map (·.id)).Nodup := by
  obtain ⟨rfl, -⟩ := ofIssues_eq_ok h
  exact graphOf_nodup

/-- In every reachable store a plan that loads has a frontier; what it offers the store offers, and
every node of the plan is either offered or held back, once. The plan may hold back what the store
offers, since a group has one node at a time. -/
theorem ready_refines {cfg : Db.Config} {s s' : Locked Tables} (hs : Reachable cfg s)
    {plan : String} {graph : PlanGraph} (hload : runM cfg (load plan) s = (.ok graph, s'))
    (now : Int) :
    ∃ view issues, ready graph now = .ok view ∧
      runM cfg (Db.ready none now) s = (.ok issues, s) ∧
      (∀ node ∈ view.ready, node.id ∈ issues.map (·.id)) ∧
      (∀ issue, PlanNode s.state plan issue →
        (view.ready.map (·.id) ++ view.blocked.map (·.id)).count issue.id = 1) ∧
      ∀ id ∈ view.ready.map (·.id) ++ view.blocked.map (·.id),
        ∃ issue, PlanNode s.state plan issue ∧ issue.id = id := by
  obtain ⟨hnew, -, hgraph⟩ := load_healthy hload
  have hloaded := ofIssues_loaded hgraph
  obtain ⟨view, hview, -⟩ := hloaded.offers now
  have hperm := ready_perm hview
  have hready := (Db.isTx_ready cfg none now).eq s.state
  rw [← hnew] at hready
  -- A node offered is a candidate of the plan that the store itself would call ready; the counts
  -- hold since the view permutes the loaded nodes.
  refine ⟨view, _, hview, hready.trans (Prod.ext rfl hnew.symm), fun node hnode => ?_,
    fun issue hissue => ?_, fun id hid => ?_⟩
  · obtain ⟨order, horder, hview⟩ := Outcome.bind_eq_ok.mp hview
    cases hview
    rcases mem_foldl_offer hnode with hmem | hmem
    · exact absurd hmem List.not_mem_nil
    · obtain ⟨issue, hissue, rfl⟩ := List.mem_map.mp hmem
      obtain ⟨⟨⟨row, hrow, hrowView⟩, -⟩, hofferable⟩ := (mem_candidates hloaded horder).mp hissue
      rw [← hrowView] at hofferable
      have heligible := hofferable.eligible (whole_of_reachable hs hrow)
      refine List.mem_map.mpr ⟨issue, List.mem_map.mpr ⟨(issue.id, row), ?_, hrowView⟩, rfl⟩
      exact Db.mem_select.mpr ⟨hrow, heligible⟩
  · have hmem : issue.id ∈ graph.nodes.map (·.id) :=
      List.mem_map_of_mem ((hloaded.nodes issue).mpr hissue)
    rw [hperm.count_eq]
    exact List.count_eq_one_of_mem (ofIssues_nodup hgraph) hmem
  · obtain ⟨issue, hissue, rfl⟩ := List.mem_map.mp (hperm.mem_iff.mp hid)
    exact ⟨issue, (hloaded.nodes issue).mp hissue, rfl⟩

/-- Next to a claimed node the plan offers its sibling, and so does the store. -/
theorem claimed_sibling_refines :
    let s := Db.Action.run {} (claimedSibling.map .op) (Db.opened "s")
    ∃ graph view issues, runM {} (load "v2") s = (.ok graph, s) ∧ ready graph 100 = .ok view ∧
      runM {} (Db.ready none 100) s = (.ok issues, s) ∧
      ∀ node ∈ view.ready, node.id ∈ issues.map (·.id) := by
  intro s
  have hloads : (PlanGraph.ofIssues "v2" (Db.listQuery none true none s.state)).toOption.isSome =
      true := by
    decide +kernel
  obtain ⟨graph, hgraph⟩ := Option.isSome_iff_exists.mp hloads
  have hs : s = .new s.state := Locked.eq_new (by decide)
  have hload : runM {} (load "v2") s = (.ok graph, s) := by
    rw [hs, load_eq, Outcome.toOption_eq_some.mp hgraph]
  obtain ⟨view, issues, hview, hissues, hoffered, -⟩ := ready_refines ⟨"s", _, rfl⟩ hload 100
  exact ⟨graph, view, issues, hload, hview, hissues, hoffered⟩

end Marbles.Plan
