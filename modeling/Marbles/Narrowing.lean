import Marbles.Agreement
import Marbles.Db.Dag

/-!
# Charts of fewer issues

A chart is drawn over a scope, and a dependency that leaves the scope is not scheduled. So a chart
of fewer issues is never the slower one: each of its bars starts and ends no later than in the chart
of more issues, and where no dependency leaves the smaller scope, exactly then.

That is a fact about exact charts. The endpoint draws them as long as the numbers of the wider chart
fit, and those of the narrower one fit with them, since it has no chains of its own. On a store no
chart is refused for a cycle. `views_gantt_narrow` is about the endpoint, in every build.

Bars are compared through chains: `chart_finish` says that a bar ends when the longest chain to
its node does, and a chain of the smaller graph is one of the larger. When the smaller graph is
closed under dependencies the converse holds too, and the bars are equal. What is said of 64-bit
numbers then follows from `EndsInTime` being about chains as well.
-/

namespace Marbles.Plan

namespace PlanGraph

/-! ### When a bar ends -/

section

variable {graph : PlanGraph} {order : List Nat} {now : Int}

/-- The places of a chain up to a node are places up to the place of the node. -/
theorem forall₂_snoc {β γ : Type} {m : β → γ → Prop} {c : List β} {chain : List γ} {x : γ}
    (h : List.Forall₂ m c (chain ++ [x])) :
    ∃ c' i, c = c' ++ [i] ∧ List.Forall₂ m c' chain ∧ m i x := by
  have hfirst := List.forall₂_take_append c chain [x] h
  have hlast := List.forall₂_drop_append c chain [x] h
  obtain ⟨i, rest, hi, hrest, hdrop⟩ := List.forall₂_cons_right_iff.mp hlast
  rw [List.forall₂_nil_right_iff] at hrest
  subst hrest
  exact ⟨_, i, by rw [← hdrop, List.take_append_drop], hfirst, hi⟩

variable (hids : (graph.nodes.map (·.id)).Nodup) (h : graph.topo = .ok order)
include hids h

/-- A bar ends when the longest chain to its node does. -/
theorem chart_finish {bar : Issue × GanttNode}
    (hbar : bar ∈ graph.bars (graph.chart order graph.estimates now)) :
    (∀ chain, graph.Chain (chain ++ [bar.1]) → graph.minutes (chain ++ [bar.1]) ≤ bar.2.finishMin) ∧
    ∃ chain, graph.Chain (chain ++ [bar.1]) ∧
      graph.minutes (chain ++ [bar.1]) = bar.2.finishMin := by
  obtain ⟨i, hi⟩ := List.mem_iff_getElem?.mp hbar
  obtain ⟨hissue, hnode⟩ := bars_getElem?.mp hi
  have hfinish : bar.2.finishMin = (graph.times (fun i => (graph.estimates i).1) order).finish i :=
    hnode ▸ rfl
  have hearliest := earliest h fun i => (graph.estimates i).1
  rw [hfinish]
  constructor
  · intro chain hchain
    obtain ⟨c, hc, hplaces⟩ := hchain.places hids h
    obtain ⟨c, j, rfl, -, hj⟩ := forall₂_snoc hplaces
    obtain rfl := place_unique hids hissue hj
    rw [minutes_eq_length hplaces]
    exact hearliest.length_le_finish hc
  · have hmem := (mem_order h).mpr (List.getElem?_eq_some_iff.mp hissue).1
    obtain ⟨c, hc, hlength⟩ := hearliest.exists_length_eq (ordered h) i hmem
    obtain ⟨nodes, hchain, hplaces⟩ := exists_chain hids h hc
    obtain ⟨chain, issue, rfl, -, hlast⟩ := forall₂_snoc hplaces.flip
    obtain rfl := Option.some.inj (hissue.symm.trans hlast)
    exact ⟨chain, hchain, (minutes_eq_length hplaces).trans hlength⟩

end

/-! ### Two graphs -/

/-- The nodes of a graph are nodes of another, with the same default estimate. -/
structure Within (inner outer : PlanGraph) : Prop where
  nodes : ∀ issue ∈ inner.nodes, issue ∈ outer.nodes
  estimate : inner.defaultEstimate = outer.defaultEstimate

/-- No dependency of the inner graph on a node of the outer one is left out. -/
def Closed (inner outer : PlanGraph) : Prop :=
  ∀ issue ∈ inner.nodes, ∀ parent ∈ outer.nodes, parent.id ∈ depIds issue → parent ∈ inner.nodes

/-- What a node of a closed graph waits for, however indirectly, is in the graph. -/
theorem Closed.chain {inner outer : PlanGraph} (hclosed : Closed inner outer) {chain : List Issue}
    {issue : Issue}
    (hissue : issue ∈ inner.nodes) (h : outer.Chain (chain ++ [issue])) :
    inner.Chain (chain ++ [issue]) := by
  induction chain using List.reverseRecOn generalizing issue with
  | nil =>
      refine ⟨List.isChain_singleton _, fun node hnode => ?_⟩
      exact List.mem_singleton.mp hnode ▸ hissue
  | append_singleton chain parent ih =>
      have hlinks := h.links
      rw [List.append_assoc, List.singleton_append, List.isChain_append_cons_cons] at hlinks
      obtain ⟨hinit, hdepends, -⟩ := hlinks
      have hparent := hclosed issue hissue parent hdepends.1 hdepends.2.2
      have hchain := ih hparent ⟨hinit, fun node hnode =>
        h.nodes node (List.mem_append_left _ hnode)⟩
      refine ⟨?_, fun node hnode => ?_⟩
      · rw [List.append_assoc, List.singleton_append, List.isChain_append_cons_cons]
        exact ⟨hchain.links, ⟨hparent, hissue, hdepends.2.2⟩, List.isChain_singleton _⟩
      · rcases List.mem_append.mp hnode with hnode | hnode
        · exact hchain.nodes node hnode
        · exact List.mem_singleton.mp hnode ▸ hissue

namespace Within

variable {inner outer : PlanGraph} (hwithin : Within inner outer)
include hwithin

theorem dependsOn {parent issue : Issue} (h : inner.DependsOn parent issue) :
    outer.DependsOn parent issue :=
  ⟨hwithin.nodes _ h.1, hwithin.nodes _ h.2.1, h.2.2⟩

theorem chain {chain : List Issue} (h : inner.Chain chain) : outer.Chain chain where
  links := h.links.imp fun _ _ => hwithin.dependsOn
  nodes := fun issue hissue => hwithin.nodes issue (h.nodes issue hissue)

theorem estimate_eq (issue : Issue) : inner.estimate issue = outer.estimate issue := by
  rw [PlanGraph.estimate, PlanGraph.estimate, hwithin.estimate]

theorem minutes_eq (chain : List Issue) : inner.minutes chain = outer.minutes chain := by
  simp only [minutes, hwithin.estimate_eq]

/-- The inner graph has no chains of its own. -/
theorem endsInTime (hinner : (inner.nodes.map (·.id)).Nodup)
    (houter : (outer.nodes.map (·.id)).Nodup)
    {order order' : List Nat} (h : outer.topo = .ok order) (h' : inner.topo = .ok order')
    {now : Int}
    (hends : outer.EndsInTime now) : inner.EndsInTime now := by
  refine (endsInTime_iff_chains h' hinner).mpr fun c hc => ?_
  rw [hwithin.minutes_eq]
  exact (endsInTime_iff_chains h houter).mp hends c (hwithin.chain hc)

end Within

end PlanGraph

/-- What a chart of fewer issues has in common with a chart of more. A bar is next to the issue it
is drawn for. -/
structure Narrows (inner outer : PlanGraph) (narrow wide : Gantt) : Prop where
  bars : ∀ bar ∈ inner.bars narrow, ∃ bar' ∈ outer.bars wide, bar'.1 = bar.1 ∧
    bar'.2.id = bar.2.id ∧ bar'.2.estimate = bar.2.estimate ∧
    bar.2.startMin ≤ bar'.2.startMin ∧ bar.2.finishMin ≤ bar'.2.finishMin
  total : narrow.totalMinutes ≤ wide.totalMinutes
  closed : inner.Closed outer → ∀ bar ∈ inner.bars narrow, ∀ bar' ∈ outer.bars wide,
    bar'.1 = bar.1 → bar.2.startMin = bar'.2.startMin ∧ bar.2.finishMin = bar'.2.finishMin

namespace PlanGraph

/-- A bar shows its issue. -/
theorem bar_of_mem {graph : PlanGraph} {order : List Nat} {now : Int} {bar : Issue × GanttNode}
    (hbar : bar ∈ graph.bars (graph.chart order graph.estimates now)) :
    bar.1 ∈ graph.nodes ∧ bar.2.id = bar.1.id ∧ bar.2.estimate = (graph.estimate bar.1).1 := by
  obtain ⟨i, hi⟩ := List.mem_iff_getElem?.mp hbar
  obtain ⟨hissue, hnode⟩ := bars_getElem?.mp hi
  refine ⟨List.mem_of_getElem? hissue, hnode ▸ rfl, ?_⟩
  rw [← hnode]
  change (graph.estimates i).1 = _
  rw [estimates, hissue]
  rfl

namespace Within

variable {inner outer : PlanGraph} (hwithin : Within inner outer)
  (hinner : (inner.nodes.map (·.id)).Nodup) (houter : (outer.nodes.map (·.id)).Nodup)
include hwithin hinner houter

theorem narrows {order order' : List Nat} (h : outer.topo = .ok order)
    (h' : inner.topo = .ok order')
    (now : Int) : Narrows inner outer (inner.chart order' inner.estimates now)
      (outer.chart order outer.estimates now) := by
  have hfinish : ∀ bar ∈ inner.bars (inner.chart order' inner.estimates now),
      ∀ bar' ∈ outer.bars (outer.chart order outer.estimates now), bar'.1 = bar.1 →
        bar.2.finishMin ≤ bar'.2.finishMin := by
    intro bar hbar bar' hbar' hsame
    obtain ⟨-, chain, hchain, hlast⟩ := chart_finish hinner h' hbar
    rw [← hlast, hwithin.minutes_eq, ← hsame]
    exact (chart_finish houter h hbar').1 chain (hsame ▸ hwithin.chain hchain)
  -- a bar starts as long before its end as its issue takes, on both charts
  have hstart : ∀ bar ∈ inner.bars (inner.chart order' inner.estimates now),
      ∀ bar' ∈ outer.bars (outer.chart order outer.estimates now), bar'.1 = bar.1 →
        bar.2.finishMin - bar.2.startMin = bar'.2.finishMin - bar'.2.startMin := by
    intro bar hbar bar' hbar' hsame
    have hbar := (chart_starts hinner h' hbar).finish
    have hbar' := (chart_starts houter h hbar').finish
    rw [hsame, ← hwithin.estimate_eq] at hbar'
    omega
  refine ⟨fun bar hbar => ?_, ?_, fun hclosed bar hbar bar' hbar' hsame => ?_⟩
  · obtain ⟨hmem, hid, hestimate⟩ := bar_of_mem hbar
    obtain ⟨i, hi⟩ := List.mem_iff_getElem?.mp (hwithin.nodes _ hmem)
    obtain ⟨bar', hbar'⟩ := @exists_bar outer order outer.estimates now i
      (List.getElem?_eq_some_iff.mp hi).1
    have hsame : bar'.1 = bar.1 := Option.some.inj ((bars_getElem?.mp hbar').1.symm.trans hi)
    have hmem' := List.mem_of_getElem? hbar'
    obtain ⟨-, hid', hestimate'⟩ := bar_of_mem hmem'
    have hend := hfinish bar hbar bar' hmem' hsame
    have hbegin := hstart bar hbar bar' hmem' hsame
    refine ⟨bar', hmem', hsame, by rw [hid, hid', hsame], ?_, by omega, hend⟩
    rw [hestimate, hestimate', hsame, hwithin.estimate_eq]
  · obtain ⟨-, chain, hchain, htotal⟩ := @chart_total inner order' now hinner h'
    rw [← htotal, hwithin.minutes_eq]
    exact (@chart_total outer order now houter h).1 chain (hwithin.chain hchain)
  · have hbegin := hstart bar hbar bar' hbar' hsame
    have hle := hfinish bar hbar bar' hbar' hsame
    obtain ⟨-, chain, hchain, hlast⟩ := chart_finish houter h hbar'
    rw [hsame] at hchain hlast
    have hge := (chart_finish hinner h' hbar).1 chain (hclosed.chain (bar_of_mem hbar).1 hchain)
    rw [hwithin.minutes_eq, hlast] at hge
    constructor <;> omega

end Within

end PlanGraph

/-! ### The chart of a scope -/

/-- The graph whose chart `ganttScoped` draws. -/
def scopedGraph (allIssues selected : List Issue) (scope : GanttScope) (includeClosed : Bool)
    (defaultEstimateMin : Int) : PlanGraph :=
  ⟨(scope.plan <|> scope.project <|> scope.folder).getD "all", scheduled selected includeClosed,
    allIssues.map fun issue => (issue.id, issue.status), max defaultEstimateMin 1⟩

theorem computes_ganttScoped {allIssues selected : List Issue} {scope : GanttScope}
    {includeClosed : Bool} {defaultEstimateMin now : Int} {order : List Nat}
    (h : (scopedGraph allIssues selected scope includeClosed defaultEstimateMin).topo = .ok order)
    (hnow : IsI64 now) :
    Overflow.Computes
      (fun mode => ganttScoped mode allIssues selected scope includeClosed defaultEstimateMin now)
      ((scopedGraph allIssues selected scope includeClosed defaultEstimateMin).EndsInTime now)
      ⟨(scopedGraph allIssues selected scope includeClosed defaultEstimateMin).chart order
        (scopedGraph allIssues selected scope includeClosed defaultEstimateMin).estimates now,
        scope,
        max defaultEstimateMin 1⟩ := by
  unfold ganttScoped PlanGraph.scoped
  change Overflow.Computes (fun mode => do
    let graph ← (do
      let _ ← (scopedGraph allIssues selected scope includeClosed defaultEstimateMin).topo
      pure (scopedGraph allIssues selected scope includeClosed defaultEstimateMin) :
        Result PlanGraph)
    let chart ← ganttI64 mode graph now
    pure (⟨chart, scope, max defaultEstimateMin 1⟩ : GanttView)) _ _
  rw [h]
  exact (computes_ganttI64 h hnow).map _

@[simp] theorem mem_scheduled {selected : List Issue} {includeClosed : Bool} {issue : Issue} :
    issue ∈ scheduled selected includeClosed ↔ issue ∈ selected ∧
      issue.issueType ≠ Report.goalType ∧ (includeClosed = true ∨ issue.status ≠ "closed") := by
  rw [scheduled, Sorting.mem_sortOn, List.mem_filter]
  simp

theorem nodup_scheduled {selected : List Issue} {includeClosed : Bool}
    (h : (selected.map (·.id)).Nodup) : ((scheduled selected includeClosed).map (·.id)).Nodup :=
  ((Sorting.perm_sortOn _ _).map _).nodup_iff.mpr (h.sublist (List.filter_sublist.map _))

end Marbles.Plan

namespace Marbles.Report

open Db (Tables Reachable)
open Plan (GanttView Narrows PlanGraph ganttScoped scopedGraph)

/-! ### The endpoint -/

/-- The body of a request, with its defaults. -/
structure ViewsGanttBody where
  project : Option String := none
  folder : Option String := none
  plan : Option String := none
  includeClosed : Bool := false
  defaultEstimateMin : Int := 60

/-- The endpoint. The default estimate is raised to 1 here and again below. -/
def viewsGantt (mode : Overflow) (body : ViewsGanttBody) (now : Int) : Db.DbM GanttView := do
  let all ← Db.call (.list none true none)
  let projects ← viewProjects
  let selected := scopeIssues all projects ⟨body.project, body.folder, body.plan⟩
  Db.liftResult (ganttScoped mode all selected ⟨body.project, body.folder, body.plan⟩
    body.includeClosed (max body.defaultEstimateMin 1) now)

/-- The graph whose chart the endpoint draws. -/
def graphOf (body : ViewsGanttBody) (t : Tables) : PlanGraph :=
  scopedGraph (issuesOf t)
    (scopeIssues (issuesOf t) (projectsOf t) ⟨body.project, body.folder, body.plan⟩)
    ⟨body.project, body.folder, body.plan⟩ body.includeClosed (max body.defaultEstimateMin 1)

theorem viewsGantt_eq (mode : Overflow) (cfg : Db.Config) (body : ViewsGanttBody) (now : Int)
    (t : Tables) : Db.runM cfg (viewsGantt mode body now) (.new t) =
      (ganttScoped mode (issuesOf t)
        (scopeIssues (issuesOf t) (projectsOf t) ⟨body.project, body.folder, body.plan⟩)
        ⟨body.project, body.folder, body.plan⟩ body.includeClosed
        (max body.defaultEstimateMin 1) now,
        .new t) := rfl

/-- Every filter of the one is a filter of the other. -/
structure ViewsGanttBody.Narrower (body' body : ViewsGanttBody) : Prop where
  project : body.project = none ∨ body'.project = body.project
  folder : body.folder = none ∨ body'.folder = body.folder
  plan : body.plan = none ∨ body'.plan = body.plan
  includeClosed : body'.includeClosed = true → body.includeClosed = true
  estimate : max body'.defaultEstimateMin 1 = max body.defaultEstimateMin 1

theorem all_of_narrower {p : String → Bool} {filter filter' : Option String}
    (h : filter = none ∨ filter' = filter) (hp : filter'.all p = true) : filter.all p = true := by
  rcases h with rfl | rfl
  · rfl
  · exact hp

theorem graphOf_within {body body' : ViewsGanttBody} (h : body'.Narrower body) (t : Tables) :
    (graphOf body' t).Within (graphOf body t) where
  nodes := by
    intro issue hissue
    obtain ⟨hselected, hgoal, hclosed⟩ := Plan.mem_scheduled.mp hissue
    refine Plan.mem_scheduled.mpr ⟨?_, hgoal, hclosed.imp_left h.includeClosed⟩
    obtain ⟨hmem, hscope⟩ := List.mem_filter.mp hselected
    simp only [Bool.and_eq_true] at hscope
    obtain ⟨⟨hproject, hfolder⟩, hplan⟩ := hscope
    refine List.mem_filter.mpr ⟨hmem, ?_⟩
    simp only [Bool.and_eq_true]
    exact ⟨⟨all_of_narrower h.project hproject, all_of_narrower h.folder hfolder⟩,
      all_of_narrower h.plan hplan⟩
  estimate := by
    change max (max body'.defaultEstimateMin 1) 1 = max (max body.defaultEstimateMin 1) 1
    rw [h.estimate]

theorem mem_graphOf {body : ViewsGanttBody} {t : Tables} {issue : Issue}
    (h : issue ∈ (graphOf body t).nodes) : issue ∈ issuesOf t :=
  (List.mem_filter.mp (Plan.mem_scheduled.mp h).1).1

theorem nodup_graphOf (body : ViewsGanttBody) (t : Tables) :
    ((graphOf body t).nodes.map (·.id)).Nodup := by
  refine Plan.nodup_scheduled (List.Nodup.sublist (List.filter_sublist.map _) ?_)
  rw [issuesOf, Plan.listQuery_all, List.map_map]
  exact Db.nodup_select ..

/-- The dependencies of a chart are dependencies of the store. -/
theorem dependsOn_of_graphOf {body : ViewsGanttBody} {t : Tables} {parent issue : Issue}
    (h : (graphOf body t).DependsOn parent issue) : t.DependsOn issue.id parent.id := by
  obtain ⟨-, hissue, hdep⟩ := h
  obtain ⟨row, -, hview⟩ := Plan.mem_listQuery_all.mp (mem_graphOf hissue)
  rw [← hview, PlanGraph.depIds, List.mem_filterMap] at hdep
  obtain ⟨dep, hdep, hid⟩ := hdep
  obtain ⟨id, hmem, rfl⟩ := List.mem_map.mp hdep
  cases hid
  rw [← Db.Tables.mem_dependsOn]
  exact hmem

/-- So every chart of a store can be drawn. -/
theorem exists_topo_graphOf {t : Tables} (h : Db.WellFormed t) (body : ViewsGanttBody) :
    ∃ order, (graphOf body t).topo = .ok order := by
  refine PlanGraph.topo_of_acyclic ((PlanGraph.acyclic_iff (nodup_graphOf body t)).mpr ?_)
  refine h.acyclic.swap.along (m := fun issue id => issue.id = id)
    (fun _ _ _ hx hy => hx.symm.trans hy) fun parent issue hdep => ?_
  exact ⟨parent.id, issue.id, rfl, rfl, dependsOn_of_graphOf hdep⟩

/-- Where the chart of a scope ends in time, every build draws it and the chart of every narrower
scope. None of the narrower bars starts or ends later than in the wider chart, and where no
dependency leaves the narrower scope its bars are where they were. A chain of the narrower chart is
one of the wider, so what fits there fits here. -/
theorem views_gantt_narrow {cfg : Db.Config} {s : Locked Tables} (hs : Reachable cfg s)
    (hhealthy : s.poisoned = false) {body body' : ViewsGanttBody} (hnarrow : body'.Narrower body)
    {now : Int} (hnow : IsI64 now) (hends : (graphOf body s.state).EndsInTime now)
    (mode : Overflow) : ∃ view view', (Db.runM cfg (viewsGantt mode body now) s).1 = .ok view ∧
      (Db.runM cfg (viewsGantt mode body' now) s).1 = .ok view' ∧
      Narrows (graphOf body' s.state) (graphOf body s.state) view'.gantt view.gantt := by
  have hwell : Db.WellFormed s.state := hs.wellFormed
  obtain ⟨order, horder⟩ := exists_topo_graphOf hwell body
  obtain ⟨order', horder'⟩ := exists_topo_graphOf hwell body'
  have hwithin := graphOf_within hnarrow s.state
  have hids := nodup_graphOf body s.state
  have hids' := nodup_graphOf body' s.state
  have hends' := hwithin.endsInTime hids' hids horder horder' hends
  rw [Locked.eq_new hhealthy, viewsGantt_eq, viewsGantt_eq,
    (Plan.computes_ganttScoped horder hnow).exact hends mode,
    (Plan.computes_ganttScoped horder' hnow).exact hends' mode]
  exact ⟨_, _, rfl, rfl, hwithin.narrows hids' hids horder horder' now⟩

/-- Two projects, with a dependency from the one to the other. -/
def crossed : Locked Tables := Db.Action.run {} [.op (.ensureProject "p" "/p" "p" 0),
  .op (.ensureProject "q" "/q" "q" 0),
  .op (.create { id := some "p-1", project := some "p", title := "t" } [] 100),
  .op (.create { id := some "q-1", project := some "q", title := "u" } [] 200),
  .op (.addDep "p-1" "q-1" "me" 300)] (Db.opened "s")

theorem reachable_crossed : Reachable {} crossed := ⟨"s", _, rfl⟩

theorem crossed_endsInTime : (graphOf {} crossed.state).EndsInTime 400 :=
  (PlanGraph.endsInTime_iff (by decide +kernel : (graphOf {} crossed.state).topo = .ok [1, 0])).mpr
    (by decide +kernel)

theorem crossed_narrow : ∃ view view',
    (Db.runM {} (viewsGantt .panics {} 400) crossed).1 = .ok view ∧
    (Db.runM {} (viewsGantt .panics { project := some "p" } 400) crossed).1 = .ok view' ∧
    Narrows (graphOf { project := some "p" } crossed.state) (graphOf {} crossed.state) view'.gantt
      view.gantt :=
  @views_gantt_narrow {} crossed reachable_crossed (by decide +kernel) {} { project := some "p" }
    ⟨Or.inl rfl, Or.inl rfl, Or.inl rfl, fun h => h, rfl⟩ 400 (by decide) crossed_endsInTime .panics

end Marbles.Report
