import Marbles.Gantt
import Marbles.Readback

/-!
# When a schedule fits its numbers

The charts here are exact, while `gantt` computes in 64 bits: minutes along the two passes, seconds
for the bars. Both agree as long as none of the numbers on the way is too large. `validate` admits
every positive estimate, so this comes down to the longest chain of the spec, in seconds.

The nodes of a plan in the store correspond to the nodes of its spec, and their dependencies to
the keys (`dependsOn_becomes`), so a chain of one is a chain of the other with the same minutes.
The statement about the stored plan is therefore one about the spec, which is what an author can
look at before anything is written.
-/

namespace Marbles.Plan

open Db (Tables Reachable WellFormed)

namespace PlanGraph

/-- The numbers computed for the node at a place, with those on the way to them. -/
def numbers (graph : PlanGraph) (order : List Nat) (now : Int) (i : Nat) : List Int :=
  let dur := fun i => (graph.estimates i).1
  let t := graph.times dur order
  let latest := graph.latestFinish dur order
  [t.start i, t.finish i, latest i, latest i - dur i, latest i - t.finish i,
    graph.slack dur order i, t.start i * 60, now + t.start i * 60, t.finish i * 60,
    now + t.finish i * 60]

/-- No number leaves the range of 64 bits. -/
def Fits (graph : PlanGraph) (now : Int) : Prop :=
  ∀ order, graph.topo = .ok order →
    ∀ i < graph.nodes.length, ∀ n ∈ graph.numbers order now i, IsI64 n

variable {graph : PlanGraph} {order : List Nat} {now : Int}

/-- All numbers fit when the end of the schedule does, in seconds. -/
theorem fits_iff (h : graph.topo = .ok order) (hnow : IsI64 now) (hne : graph.nodes ≠ []) :
    graph.Fits now ↔
      graph.total (fun i => (graph.estimates i).1) order * 60 < 2 ^ 63 ∧
        now + graph.total (fun i => (graph.estimates i).1) order * 60 < 2 ^ 63 := by
  let dur := fun i => (graph.estimates i).1
  have hearliest := earliest h dur
  have hlatest := latest h dur
  have htotal := total_eq h dur
  have horder : order ≠ [] := fun hnil => hne (List.length_eq_zero_iff.mp (by
    simpa [hnil] using (topo_perm h).length_eq.symm))
  obtain ⟨hle, last, hlast, hmax⟩ := Schedule.makespan_spec (graph.times dur order).finish horder
  rw [← htotal] at hle hmax hlatest
  change graph.Fits now ↔
    graph.total dur order * 60 < 2 ^ 63 ∧ now + graph.total dur order * 60 < 2 ^ 63
  constructor
  -- The last finish is one of the numbers, and it is the total.
  · intro hfits
    have hnumbers := hfits order h last ((mem_order h).mp hlast)
    have hscaled : IsI64 (graph.total dur order * 60) :=
      hmax ▸ hnumbers _ (by simp [numbers, dur])
    have hshifted : IsI64 (now + graph.total dur order * 60) :=
      hmax ▸ hnumbers _ (by simp [numbers, dur])
    exact ⟨hscaled.2, hshifted.2⟩
  -- Conversely every number of the passes lies between 0 and the total, before and after scaling
  -- and shifting.
  · intro ⟨hscaled, hshifted⟩ order' horder' i hi n hn
    obtain rfl := Except.ok.inj (h.symm.trans horder')
    have hi' := (mem_order h).mpr hi
    have hstart := hearliest.start_nonneg hi'
    have hfinish := hearliest.finish i hi'
    have hpos : 0 < dur i := estimates_pos hi
    have hend := hle i hi'
    have hmost := hlatest.le_total i
    have hleast := hlatest.finish_le hearliest (ordered h) hle i hi'
    have hslack : graph.slack dur order i =
        graph.latestFinish dur order i - (graph.times dur order).finish i := slack_eq h hi
    have hnow := hnow.1
    change n ∈ [(graph.times dur order).start i, (graph.times dur order).finish i,
      graph.latestFinish dur order i, graph.latestFinish dur order i - dur i,
      graph.latestFinish dur order i - (graph.times dur order).finish i, graph.slack dur order i,
      (graph.times dur order).start i * 60, now + (graph.times dur order).start i * 60,
      (graph.times dur order).finish i * 60, now + (graph.times dur order).finish i * 60] at hn
    rw [hslack] at hn
    generalize graph.total dur order = total at *
    generalize (graph.times dur order).start i = start at *
    generalize (graph.times dur order).finish i = finish at *
    generalize graph.latestFinish dur order i = latest at *
    generalize dur i = minutes at *
    simp only [List.mem_cons, List.not_mem_nil, or_false] at hn
    unfold IsI64
    omega

end PlanGraph

/-! ### Chains of the spec -/

/-- Nodes of the spec, each of which depends on the one before it. -/
structure ResolvedPlan.Chain (plan : ResolvedPlan) (chain : List NodeSpec) : Prop where
  links : chain.IsChain fun dep node => dep.key ∈ node.deps
  nodes : ∀ node ∈ chain, node ∈ plan.nodes

/-- How long nodes take one after the other. -/
def specMinutes (chain : List NodeSpec) : Int :=
  (chain.map fun node => node.estimate.getD defaultEstimateMinutes).sum

/-- No chain of the spec that starts now ends after the last second that can be written. -/
def ShortChains (plan : ResolvedPlan) (now : Int) : Prop :=
  ∀ chain, plan.Chain chain →
    specMinutes chain * 60 < 2 ^ 63 ∧ now + specMinutes chain * 60 < 2 ^ 63

section

variable {plan : ResolvedPlan} {now : Int} {actor : String} {t₀ t : Tables}
  {pairs : List (NodeSpec × String)} (hplan : Planned plan pairs) (hwf : WellFormed t₀)
  (hsown : Sown plan now actor t₀ t pairs (linksOf pairs)) (hfree : ¬ HasPlan plan.plan t₀)

/-- A node and the issue it has become. -/
def Becomes (plan : ResolvedPlan) (now : Int) (actor : String) (t : Tables)
    (pairs : List (NodeSpec × String)) (node : NodeSpec) (issue : Issue) : Prop :=
  ∃ p ∈ pairs, p.1 = node ∧ issueOf plan now actor t p = issue

include hplan

theorem minutes_becomes (hfits : ∀ node ∈ plan.nodes, ∀ minutes, node.estimate = some minutes →
    IsI64 minutes) {graph : PlanGraph} {chain : List NodeSpec} {issues : List Issue}
    (h : List.Forall₂ (Becomes plan now actor t pairs) chain issues) :
    graph.minutes issues = specMinutes chain := by
  induction h with
  | nil => rfl
  | cons hone _ ih =>
      obtain ⟨p, hp, rfl, rfl⟩ := hone
      have hnode := hplan.mem hp
      have hestimate := @estimate_issueOf plan now actor t p (hplan.valid.nodes p.1 hnode)
        (fun minutes hminutes => (hfits p.1 hnode minutes hminutes).2) graph.defaultEstimate
      change (graph.estimate _).1 = _ at hestimate
      rw [PlanGraph.minutes, List.map_cons, List.sum_cons, ← PlanGraph.minutes, ih, hestimate]
      exact List.sum_cons.symm

include hwf hsown hfree

/-- One node depends on another as the issues do. -/
theorem dependsOn_becomes {dep node : NodeSpec} {parent issue : Issue}
    (hdep : Becomes plan now actor t pairs dep parent)
    (hnode : Becomes plan now actor t pairs node issue) :
    (graphOf plan.plan t).DependsOn parent issue ↔ dep.key ∈ node.deps := by
  obtain ⟨q, hq, rfl, rfl⟩ := hdep
  obtain ⟨p, hp, rfl, rfl⟩ := hnode
  have hmem : ∀ p ∈ pairs, issueOf plan now actor t p ∈ (graphOf plan.plan t).nodes := fun p hp =>
    mem_graphOf.mpr ((hsown.planNode hfree).mpr ⟨p, hp, rfl⟩)
  constructor
  · intro ⟨_, _, hid⟩
    obtain ⟨dep, hdep, hdepId⟩ := (hsown.mem_depIds hplan hwf hp).mp hid
    obtain ⟨q', hq', rfl, hqid⟩ := hplan.dep hp hdep
    obtain rfl := hsown.unique hq' hq (hqid.symm.trans hdepId)
    exact hdep
  · intro hdep
    refine ⟨hmem q hq, hmem p hp, (hsown.mem_depIds hplan hwf hp).mpr ⟨q.1.key, hdep, ?_⟩⟩
    exact hplan.idIn_eq hq

/-- The chains of the spec take as long as those of the graph. -/
theorem chains_correspond (hfits : ∀ node ∈ plan.nodes, ∀ minutes, node.estimate = some minutes →
    IsI64 minutes) (minutes : Int) :
    (∃ issues, (graphOf plan.plan t).Chain issues ∧
        (graphOf plan.plan t).minutes issues = minutes) ↔
      ∃ chain, plan.Chain chain ∧ specMinutes chain = minutes := by
  -- A chain of nodes and one of issues correspond place by place, with the durations the estimates
  -- are read back as.
  constructor
  · intro ⟨issues, hissues, hminutes⟩
    obtain ⟨chain, hchain⟩ := Schedule.exists_forall₂ (c := issues)
      (m := fun issue node => Becomes plan now actor t pairs node issue) fun issue hissue => by
        obtain ⟨p, hp, hp'⟩ := (hsown.planNode hfree).mp
            (mem_graphOf.mp (hissues.nodes issue hissue))
        exact ⟨p.1, p, hp, rfl, hp'⟩
    refine ⟨chain, ⟨?_, fun node hnode => ?_⟩, ?_⟩
    · refine Schedule.isChain_forall₂ (fun parent issue dep node hdep hnode hlink => ?_) hchain
        hissues.links
      exact (dependsOn_becomes hplan hwf hsown hfree hdep hnode).mp hlink
    · obtain ⟨issue, -, p, hp, rfl, -⟩ := (Schedule.forall₂_mem hchain).2 node hnode
      exact hplan.mem hp
    · rw [← hminutes, minutes_becomes hplan hfits hchain.flip]
  · intro ⟨chain, hchain, hminutes⟩
    obtain ⟨issues, hissues⟩ := Schedule.exists_forall₂ (c := chain)
      (m := Becomes plan now actor t pairs) fun node hnode => by
        obtain ⟨p, hp, hp'⟩ := hplan.mem_of_node (hchain.nodes node hnode)
        exact ⟨_, p, hp, hp', rfl⟩
    refine ⟨issues, ⟨?_, fun issue hissue => ?_⟩, ?_⟩
    · refine Schedule.isChain_forall₂ (fun dep node parent issue hdep hnode hlink => ?_) hissues
        hchain.links
      exact (dependsOn_becomes hplan hwf hsown hfree hdep hnode).mpr hlink
    · obtain ⟨node, -, p, hp, -, hp'⟩ := (Schedule.forall₂_mem hissues).2 issue hissue
      exact mem_graphOf.mpr ((hsown.planNode hfree).mpr ⟨p, hp, hp'⟩)
    · rw [← hminutes, minutes_becomes hplan hfits hissues]

end

/-! ### Plans that were written -/

/-- The schedule of a plan that has been written fits its numbers exactly when no chain of the
spec is too long. -/
theorem gantt_fits_iff {cfg : Db.Config} {plan : ResolvedPlan} {draws : String → List String}
    {written : Int} {actor : String} {report : CreateReport} {s s' : Locked Tables}
    (hs : Reachable cfg s)
    (hcreate : runPlan cfg (create cfg plan draws written actor) s = (.ok report, s'))
    (hestimates : ∀ node ∈ plan.nodes, ∀ minutes, node.estimate = some minutes → IsI64 minutes)
    {now : Int} (hnow : IsI64 now) :
    ∃ graph g, Db.runM cfg (load plan.plan) s' = (.ok graph, s') ∧ gantt graph now = .ok g ∧
      (graph.Fits now ↔ ShortChains plan now) := by
  have hwf := hs.wellFormed
  obtain ⟨pairs, t, rfl, hplan, hfree, hsown⟩ := create_ok hs hcreate
  obtain ⟨order, horder⟩ := hsown.topo hplan hwf hfree
  refine ⟨graphOf plan.plan t, _, ?_, ganttWith_eq_ok.mpr ⟨order, horder, rfl⟩, ?_⟩
  · rw [load_eq, hsown.loads hplan hwf hfree]
  obtain ⟨node, hnode⟩ := List.exists_mem_of_ne_nil _ hplan.valid.nonempty
  obtain ⟨p, hp, -⟩ := hplan.mem_of_node hnode
  have hmem := mem_graphOf.mpr ((hsown.planNode hfree).mpr ⟨p, hp, rfl⟩)
  obtain ⟨hle, issues, hissues, htotal⟩ := @PlanGraph.chart_total _ order now graphOf_nodup horder
  rw [PlanGraph.fits_iff horder hnow (List.ne_nil_of_mem hmem)]
  have hchains := chains_correspond hplan hwf hsown hfree hestimates
  -- The total is the minutes of the longest chain, so the bound on the total is one on every chain.
  constructor
  · intro ⟨hscaled, hshifted⟩ chain hchain
    obtain ⟨issues, hissues, hminutes⟩ := (hchains _).mpr ⟨chain, hchain, rfl⟩
    have hmost := hle issues hissues
    rw [hminutes] at hmost
    change _ ≤ (graphOf plan.plan t).total _ order at hmost
    omega
  · intro hshort
    obtain ⟨chain, hchain, hminutes⟩ := (hchains _).mp ⟨issues, hissues, rfl⟩
    have hlongest := hshort chain hchain
    rw [hminutes, htotal] at hlongest
    exact hlongest

/-- A plan of one node with the longest estimate there is. -/
def longPlan : ResolvedPlan :=
  ⟨"plan", "p", [{ key := "a", title := "t", estimate := some (2 ^ 63 - 1) }]⟩

theorem long_estimate :
    let r := runPlan {} (create {} longPlan (fun _ => ["x"]) 10 "me") unplanned
    validate longPlan = [] ∧ r.1.toOption.isSome ∧
      ∃ graph, Db.runM {} (load "plan") r.2 = (.ok graph, r.2) ∧ ¬ graph.Fits 0 := by
  intro r
  have hs : Reachable {} unplanned := ⟨"s", [.op (.ensureProject "p" "/p" "p" 0)], rfl⟩
  have hreturned : r.1.toOption.isSome := by decide +kernel
  obtain ⟨report, hreport⟩ := Option.isSome_iff_exists.mp hreturned
  obtain ⟨pairs, t, ht, hplan, hfree, hsown⟩ :=
    create_ok hs (Prod.ext (Outcome.toOption_eq_some.mp hreport) rfl : r = (.ok report, r.2))
  have hstate : r.2.state = t := by rw [ht, Locked.new_state]
  have hload : Db.runM {} (load "plan") r.2 = (.ok (graphOf "plan" r.2.state), r.2) := by
    rw [hstate, ht, load_eq]
    exact Prod.ext (hsown.loads hplan hs.wellFormed hfree) rfl
  refine ⟨by decide +kernel, hreturned, graphOf "plan" r.2.state, hload, fun hfits => ?_⟩
  have hscaled := hfits [0] (by decide +kernel) 0 (by decide +kernel) ((2 ^ 63 - 1) * 60)
    (by decide +kernel)
  exact absurd hscaled (by decide)

/-- Half an hour, and three quarters after it, fit. -/
theorem short_estimate : ∃ graph g, Db.runM {} (load "plan")
      (runPlan {} (create {} chainPlan (suffixes true) 10 "me") unplanned).2 =
        (.ok graph, (runPlan {} (create {} chainPlan (suffixes true) 10 "me") unplanned).2) ∧
    gantt graph 253402300799 = .ok g ∧
    (graph.Fits 253402300799 ↔ ShortChains chainPlan 253402300799) := by
  have hs : Reachable {} unplanned := ⟨"s", [.op (.ensureProject "p" "/p" "p" 0)], rfl⟩
  have hreturned : (runPlan {} (create {} chainPlan (suffixes true) 10 "me")
      unplanned).1.toOption.isSome := by
    decide +kernel
  obtain ⟨report, hreport⟩ := Option.isSome_iff_exists.mp hreturned
  refine @gantt_fits_iff {} chainPlan (suffixes true) 10 "me" report unplanned _ hs
    (Prod.ext (Outcome.toOption_eq_some.mp hreport) rfl) ?_ 253402300799 (by decide)
  intro node hnode minutes hminutes
  rcases List.mem_pair.mp hnode with rfl | rfl
  · cases hminutes
  · cases hminutes
    decide

end Marbles.Plan
