import Marbles.PlanOrder
import Marbles.Lib.Critical
import Marbles.Lib.Sweep

/-!
# The schedule of a plan

`gantt` schedules the nodes of a plan by their estimates: a forward pass for the earliest
times, a backward pass for the slack, a walk back along the nodes without slack, and a sweep
for the peak.

This is the exact chart: minutes and instants are unbounded integers here, which is what the
results about critical paths and slack are about. The source computes in 64 bits. `GanttI64.lean`
has that function, and says when it draws the chart that is defined here.

Positions in the list of nodes stand for nodes, as in the source. The passes are instances of
`Schedule`, which is about any acyclic graph with durations, and the sweep is one of `Sweep`; what
is proved here is that the graph of a plan meets their assumptions and how the results read in
terms of bars. A chart with other durations (`ganttWith`) is what the slack of a node is measured
against.
-/

namespace Marbles.Plan

open Schedule (Times)

/-- In progress, and not under a claim that has run out. -/
def isRunning (issue : Issue) (now : Int) : Bool :=
  issue.status = runningStatus ∧ (issue.assignee.isNone ∨ isLiveClaim issue now)

/-- A node of a chart, with its times. Minutes are counted from the start of the chart, and instants
are epoch seconds. -/
structure GanttNode where
  id : String
  key : String
  title : String
  status : String
  repo : Option String
  conflictGroup : Option String
  estimate : Int
  /-- `metadata` or `default`. -/
  estimateSource : String
  /-- Minutes from the start of the plan. -/
  startMin : Int
  finishMin : Int
  slackMin : Int
  critical : Bool
  startAt : Int
  finishAt : Int
  deriving DecidableEq

/-- The chart of a plan: the times of its nodes, and what they amount to. Bars and path are both
derived from the times, so that they agree is a theorem. -/
structure Gantt where
  plan : String
  startedAt : Int
  nodes : List GanttNode
  criticalPath : List String
  criticalPathMinutes : Int
  totalMinutes : Int
  currentConcurrency : Nat
  peakConcurrency : Nat
  deriving DecidableEq

namespace PlanGraph

/-- The duration of a node, and where it comes from. -/
def estimate (graph : PlanGraph) (issue : Issue) : Int × String :=
  estimateOfWithDefault issue graph.defaultEstimate

/-- The duration at a place, and where it comes from. A place that is not there takes no time. -/
def estimates (graph : PlanGraph) (i : Nat) : Int × String :=
  ((graph.nodes[i]?).map graph.estimate).getD (0, "")

variable (graph : PlanGraph) (dur : Nat → Int) (order : List Nat)

/-- The places of all nodes. -/
def places : List Nat := List.range graph.nodes.length

/-- The forward pass: a node starts when the last of its dependencies finishes. -/
def times : Times Nat := Schedule.forward graph.parentsAt dur order

/-- The plan ends with the node that finishes last. -/
def total : Int := Schedule.makespan (graph.times dur order).finish graph.places

/-- The latest finish of each node before it delays a dependent, or the plan. -/
def latestFinish : Nat → Int :=
  Schedule.backward graph.parentsAt dur (graph.total dur order) order

/-- How long the node can be put off without delaying the plan. -/
def slack (i : Nat) : Int :=
  Schedule.slack (graph.times dur order) (graph.latestFinish dur order) i

/-- The places along the critical path. -/
def criticalPlaces : List Nat :=
  Schedule.criticalPath graph.parentsAt (graph.times dur order) (graph.latestFinish dur order)
    graph.places

/-- From start to finish, for each node. -/
def intervals : List (Int × Int) :=
  graph.places.map fun i => ((graph.times dur order).start i, (graph.times dur order).finish i)

/-- The node at a place. It is critical when it has no slack. -/
def ganttNode (source : String) (now : Int) (issue : Issue) (i : Nat) : GanttNode where
  id := issue.id
  key := keyOf issue
  title := issue.title
  status := issue.status
  repo := metaStr issue metaRepo
  conflictGroup := conflictGroup issue
  estimate := dur i
  estimateSource := source
  startMin := (graph.times dur order).start i
  finishMin := (graph.times dur order).finish i
  slackMin := graph.slack dur order i
  critical := graph.slack dur order i = 0
  startAt := now + (graph.times dur order).start i * 60
  finishAt := now + (graph.times dur order).finish i * 60

/-- The chart over given durations. The durations are an argument, since the same chart is drawn
over other estimates too. -/
def chart (estimates : Nat → Int × String) (now : Int) : Gantt :=
  let dur := fun i => (estimates i).1
  let criticalPath := (graph.criticalPlaces dur order).filterMap fun i =>
    (graph.nodes[i]?).map (·.id)
  { plan := graph.plan
    startedAt := now
    nodes := graph.nodes.zipIdx.map fun node =>
      graph.ganttNode dur order (estimates node.2).2 now node.1 node.2
    criticalPath := criticalPath
    criticalPathMinutes := ((criticalPath.filterMap graph.index).map dur).sum
    totalMinutes := graph.total dur order
    currentConcurrency := graph.nodes.countP fun issue => isRunning issue now
    peakConcurrency := (Sweep.peak (graph.intervals dur order)).toNat }

end PlanGraph

/-- The chart with these durations, when the plan has an order. -/
def ganttWith (graph : PlanGraph) (estimates : Nat → Int × String) (now : Int) : Result Gantt := do
  let order ← graph.topo
  pure (graph.chart order estimates now)

/-- The chart with the durations the nodes state. -/
def gantt (graph : PlanGraph) (now : Int) : Result Gantt := ganttWith graph graph.estimates now

namespace PlanGraph

variable {graph : PlanGraph} {dur : Nat → Int} {order : List Nat}

theorem estimate_pos (issue : Issue) : 0 < (graph.estimate issue).1 := by
  unfold estimate estimateOfWithDefault metadataEstimate
  cases hmeta : (metaI64 issue metaEstimate).filter (· > 0) with
  | none =>
      exact Int.lt_of_lt_of_le (by decide) (Int.le_max_right ..)
  | some minutes => simpa using (Option.filter_eq_some_iff.mp hmeta).2

theorem estimates_pos {i : Nat} (hi : i < graph.nodes.length) : 0 < (graph.estimates i).1 := by
  rw [estimates, List.getElem?_eq_getElem hi]
  exact estimate_pos _

/-! ### The two passes -/

section Passes

variable (h : graph.topo = .ok order)
include h

theorem mem_order {i : Nat} : i ∈ order ↔ i < graph.nodes.length :=
  (topo_perm h).mem_iff.trans List.mem_range

theorem ordered : Schedule.Ordered graph.parentsAt order where
  nodup := (topo_perm h).nodup_iff.mpr List.nodup_range
  before pre i post hsplit p hp :=
    (Topo.sort_greedy edges_bounded (topo_eq_ok.mp h) pre i post hsplit).1.parents p
      (mem_edges.mpr hp)

theorem earliest (dur : Nat → Int) : Schedule.Earliest graph.parentsAt dur order
    (graph.times dur order) :=
  Schedule.forward_earliest (ordered h)

theorem total_eq (dur : Nat → Int) : graph.total dur order =
    Schedule.makespan (graph.times dur order).finish order :=
  Schedule.makespan_congr fun _ => (topo_perm h).mem_iff.symm

theorem latest (dur : Nat → Int) : Schedule.Latest graph.parentsAt dur order
    (Schedule.makespan (graph.times dur order).finish order) (graph.latestFinish dur order) := by
  rw [← total_eq h dur]
  exact Schedule.backward_latest (ordered h)

theorem slack_eq {i : Nat} (hi : i < graph.nodes.length) : graph.slack dur order i =
    graph.latestFinish dur order i - (graph.times dur order).finish i := by
  have hi := (mem_order h).mpr hi
  have hle := (latest h dur).finish_le (earliest h dur) (ordered h)
    (Schedule.makespan_spec _ (List.ne_nil_of_mem hi)).1 i hi
  exact Int.max_eq_left (Int.sub_nonneg.mpr hle)

/-- The walk back has no bound in the source; it comes to an end by itself, and every larger
fuel gives the same path. -/
theorem criticalPlaces_ends (dur : Nat → Int) (hdur : ∀ i < graph.nodes.length, 0 < dur i)
    (hne : graph.nodes ≠ []) : ∃ cursor, ∀ fuel ≥ graph.nodes.length,
      Schedule.backtrack (Schedule.criticalParent graph.parentsAt (graph.times dur order)
        (graph.latestFinish dur order)) fuel cursor = graph.criticalPlaces dur order := by
  have horder : order ≠ [] := fun hnil => hne (List.length_eq_zero_iff.mp (by
    simpa [hnil] using (topo_perm h).length_eq.symm))
  obtain ⟨c, cursor, -, -, -, -, hpath, hwalk⟩ := Schedule.criticalPath_walk (ordered h)
    (fun i hi => hdur i ((mem_order h).mp hi)) (earliest h dur) (latest h dur) (topo_perm h) horder
  refine ⟨cursor, fun fuel hfuel => ?_⟩
  obtain ⟨k, rfl⟩ := Nat.exists_eq_add_of_le hfuel
  have hk := hwalk k
  rw [List.length_range] at hk
  rw [hk]
  exact hpath.symm

end Passes

/-! ### Reading the chart -/

variable {estimates : Nat → Int × String} {now : Int}

theorem chart_getElem? {i : Nat} {node : GanttNode} :
    (graph.chart order estimates now).nodes[i]? = some node ↔
      ∃ issue, graph.nodes[i]? = some issue ∧
        graph.ganttNode (fun i => (estimates i).1) order (estimates i).2 now issue i = node := by
  unfold chart
  simp only [List.getElem?_map, List.getElem?_zipIdx, Nat.zero_add]
  cases graph.nodes[i]? with
  | none => simp
  | some issue => simp

@[simp] theorem chart_ids :
    (graph.chart order estimates now).nodes.map (·.id) = graph.nodes.map (·.id) := by
  show (graph.nodes.zipIdx.map _).map _ = _
  rw [List.map_map]
  conv_rhs => rw [← List.zipIdx_map_fst 0 graph.nodes, List.map_map]
  rfl

@[simp] theorem chart_intervals : (graph.chart order estimates now).nodes.map
    (fun node => (node.startMin, node.finishMin)) =
      graph.intervals (fun i => (estimates i).1) order := by
  have hplaces : graph.places = graph.nodes.zipIdx.map Prod.snd := by
    rw [places, List.zipIdx_map_snd, List.range_eq_range']
  rw [intervals, hplaces, List.map_map]
  exact List.map_map

end PlanGraph

theorem ganttWith_eq_ok {graph : PlanGraph} {estimates : Nat → Int × String} {now : Int}
    {g : Gantt} :
    ganttWith graph estimates now = .ok g ↔
      ∃ order, graph.topo = .ok order ∧ graph.chart order estimates now = g := by
  unfold ganttWith
  cases graph.topo with
  | error e => exact ⟨fun h => absurd h (by simp [bind, Except.bind]), fun ⟨_, h, _⟩ => by cases h⟩
  | ok order =>
      constructor
      · intro h
        exact ⟨order, rfl, Except.ok.inj h⟩
      · intro ⟨order', horder', hg⟩
        cases horder'
        exact congrArg Except.ok hg

/-! ### The critical path -/

namespace PlanGraph

/-- Nodes of the graph, each of which depends on the one before it. -/
structure Chain (graph : PlanGraph) (chain : List Issue) : Prop where
  links : chain.IsChain graph.DependsOn
  nodes : ∀ issue ∈ chain, issue ∈ graph.nodes

/-- How long a chain takes. -/
def minutes (graph : PlanGraph) (chain : List Issue) : Int :=
  (chain.map fun issue => (graph.estimate issue).1).sum

/-- The nodes next to their bars in the chart. -/
def bars (graph : PlanGraph) (g : Gantt) : List (Issue × GanttNode) := graph.nodes.zip g.nodes

/-- The critical path of a chart, from 0 to the end without gap or slack. Stated of the bars, so
that a reader of the chart can check it. -/
structure Critical (graph : PlanGraph) (g : Gantt) (path : List (Issue × GanttNode)) : Prop where
  bars : ∀ bar ∈ path, bar ∈ graph.bars g
  ids : path.map (fun bar => bar.2.id) = g.criticalPath
  links : path.IsChain fun bar bar' =>
    bar.1.id ∈ depIds bar'.1 ∧ bar'.2.startMin = bar.2.finishMin
  slack : ∀ bar ∈ path, bar.2.slackMin = 0
  first : ∀ bar ∈ path.head?, bar.2.startMin = 0
  last : ∀ bar ∈ path.getLast?, bar.2.finishMin = g.totalMinutes
  nonempty : graph.nodes ≠ [] → path ≠ []

/-- The node starts when the last of its dependencies in the graph finishes, at 0 when it has
none. -/
structure StartsEarliest (graph : PlanGraph) (g : Gantt) (bar : Issue × GanttNode) : Prop where
  finish : bar.2.finishMin = bar.2.startMin + (graph.estimate bar.1).1
  after : ∀ dep ∈ graph.bars g, dep.1.id ∈ depIds bar.1 → dep.2.finishMin ≤ bar.2.startMin
  tight : (bar.2.startMin = 0 ∧ ∀ dep ∈ graph.bars g, dep.1.id ∉ depIds bar.1) ∨
    ∃ dep ∈ graph.bars g, dep.1.id ∈ depIds bar.1 ∧ bar.2.startMin = dep.2.finishMin

variable {graph : PlanGraph} {order : List Nat} {estimates : Nat → Int × String} {now : Int}

theorem bars_getElem? {i : Nat} {bar : Issue × GanttNode} :
    (graph.bars (graph.chart order estimates now))[i]? = some bar ↔
      graph.nodes[i]? = some bar.1 ∧
        graph.ganttNode (fun i => (estimates i).1) order (estimates i).2 now bar.1 i = bar.2 := by
  rw [bars, List.getElem?_zip_eq_some, chart_getElem?]
  constructor
  · intro ⟨hissue, issue, hissue', hnode⟩
    obtain rfl := Option.some.inj (hissue.symm.trans hissue')
    exact ⟨hissue, hnode⟩
  · exact fun ⟨hissue, hnode⟩ => ⟨hissue, bar.1, hissue, hnode⟩

/-- Every place of the graph has a bar. -/
theorem exists_bar {i : Nat} (hi : i < graph.nodes.length) :
    ∃ bar, (graph.bars (graph.chart order estimates now))[i]? = some bar :=
  ⟨(graph.nodes[i], graph.ganttNode (fun i => (estimates i).1) order (estimates i).2 now
    graph.nodes[i] i), bars_getElem?.mpr ⟨List.getElem?_eq_getElem hi, rfl⟩⟩

/-- The nodes of the places. -/
def At (graph : PlanGraph) (i : Nat) (issue : Issue) : Prop := graph.nodes[i]? = some issue

theorem minutes_eq_length {c : List Nat} {chain : List Issue}
    (h : List.Forall₂ graph.At c chain) :
    graph.minutes chain = Schedule.length (fun i => (graph.estimates i).1) c := by
  induction h with
  | nil => rfl
  | cons hi _ ih =>
      rw [Schedule.length_cons, ← ih, estimates, hi]
      rfl

section Distinct

variable (hids : (graph.nodes.map (·.id)).Nodup) (h : graph.topo = .ok order)
include hids h

/-- A chain of nodes is a chain of places. -/
theorem Chain.places {chain : List Issue} (hchain : graph.Chain chain) :
    ∃ c, Schedule.Chain graph.parentsAt order c ∧ List.Forall₂ graph.At c chain := by
  obtain ⟨c, hc⟩ := Schedule.exists_forall₂ (m := fun issue i => graph.At i issue) fun issue hmem =>
    List.mem_iff_getElem?.mp (hchain.nodes issue hmem)
  refine ⟨c, ⟨?_, fun i hi => ?_⟩, hc.flip⟩
  · refine Schedule.isChain_forall₂ (fun a b x y ha hb hab => ?_) hc hchain.links
    exact (mem_parentsAt_iff hids hb ha).mpr hab.2.2
  · obtain ⟨issue, -, hissue⟩ := (Schedule.forall₂_mem hc).2 i hi
    exact (mem_order h).mpr (List.getElem?_eq_some_iff.mp hissue).1

/-- A chain of places is a chain of nodes. -/
theorem exists_chain {c : List Nat} (hc : Schedule.Chain graph.parentsAt order c) :
    ∃ chain, graph.Chain chain ∧ List.Forall₂ graph.At c chain := by
  obtain ⟨chain, hchain⟩ := Schedule.exists_forall₂ (m := graph.At) fun i hi =>
    ⟨_, List.getElem?_eq_getElem ((mem_order h).mp (hc.tasks i hi))⟩
  refine ⟨chain, ⟨?_, fun issue hissue => ?_⟩, hchain⟩
  · refine Schedule.isChain_forall₂ (fun a b x y ha hb hab => ?_) hchain hc.links
    exact ⟨List.mem_of_getElem? ha, List.mem_of_getElem? hb, (mem_parentsAt_iff hids hb ha).mp hab⟩
  · obtain ⟨i, -, hi⟩ := (Schedule.forall₂_mem hchain).2 issue hissue
    exact List.mem_of_getElem? hi

/-- The whole plan takes as long as the longest chain. -/
theorem chart_total : (∀ chain, graph.Chain chain →
      graph.minutes chain ≤ (graph.chart order graph.estimates now).totalMinutes) ∧
    ∃ chain, graph.Chain chain ∧
      graph.minutes chain = (graph.chart order graph.estimates now).totalMinutes := by
  have hdur : ∀ i ∈ order, 0 ≤ (graph.estimates i).1 := fun i hi =>
    Int.le_of_lt (estimates_pos ((mem_order h).mp hi))
  have htotal := total_eq h fun i => (graph.estimates i).1
  have hearliest := earliest h fun i => (graph.estimates i).1
  constructor
  · intro chain hchain
    obtain ⟨c, hc, hplaces⟩ := hchain.places hids h
    rw [minutes_eq_length hplaces]
    exact Int.le_trans (hearliest.length_le_makespan hc hdur) (Int.le_of_eq htotal.symm)
  · obtain ⟨c, hc, hlength⟩ := hearliest.exists_length_eq_makespan (ordered h)
    obtain ⟨chain, hchain, hplaces⟩ := exists_chain hids h hc
    exact ⟨chain, hchain, by rw [minutes_eq_length hplaces, hlength]; exact htotal.symm⟩

/-- The critical path, bar by bar. -/
theorem chart_critical : ∃ path,
    graph.Critical (graph.chart order graph.estimates now) path ∧
      (graph.chart order graph.estimates now).criticalPathMinutes =
        (graph.chart order graph.estimates now).totalMinutes := by
  let dur := fun i => (graph.estimates i).1
  have htotal := total_eq h dur
  obtain ⟨hchain, hcritical, hlast, hlength, hne⟩ :=
    Schedule.criticalPath_spec (ordered h) (fun i hi => estimates_pos ((mem_order h).mp hi))
      (earliest h dur) (latest h dur) (topo_perm h)
  change Schedule.Chain _ _ (graph.criticalPlaces dur order) at hchain
  change Schedule.Critical _ _ _ (graph.criticalPlaces dur order) at hcritical
  change ∀ i ∈ (graph.criticalPlaces dur order).getLast?, _ at hlast
  change Schedule.length dur (graph.criticalPlaces dur order) = _ at hlength
  change _ → graph.criticalPlaces dur order ≠ [] at hne
  obtain ⟨path, hpath⟩ := Schedule.exists_forall₂ (c := graph.criticalPlaces dur order)
    (m := fun i bar => (graph.bars (graph.chart order graph.estimates now))[i]? = some bar)
    fun i hi => exists_bar ((mem_order h).mp (hchain.tasks i hi))
  obtain ⟨-, hplaces⟩ := Schedule.forall₂_mem hpath
  have hids' : (graph.chart order graph.estimates now).criticalPath =
      path.map fun bar => bar.2.id := by
    refine Schedule.filterMap_forall₂ (fun i bar hbar => ?_) hpath
    obtain ⟨hissue, hnode⟩ := bars_getElem?.mp hbar
    rw [hissue, ← hnode]
    rfl
  refine ⟨path, ⟨fun bar hbar => ?_, hids'.symm, ?_, fun bar hbar => ?_, fun bar hbar => ?_,
    fun bar hbar => ?_, fun hnodes hnil => ?_⟩, ?_⟩
  · obtain ⟨i, -, hi⟩ := hplaces bar hbar
    exact List.mem_of_getElem? hi
  · refine Schedule.isChain_forall₂ (fun i j bar bar' hi hj hlink => ?_) hpath hcritical.links
    obtain ⟨hissue, hnode⟩ := bars_getElem?.mp hi
    obtain ⟨hissue', hnode'⟩ := bars_getElem?.mp hj
    refine ⟨(mem_parentsAt_iff hids hissue' hissue).mp hlink.1, ?_⟩
    rw [← hnode, ← hnode']
    exact hlink.2.symm
  · obtain ⟨i, hi, hbar⟩ := hplaces bar hbar
    rw [← (bars_getElem?.mp hbar).2]
    exact hcritical.slack i hi
  · obtain ⟨i, hi, hbar⟩ := Schedule.forall₂_head hpath hbar
    rw [← (bars_getElem?.mp hbar).2]
    exact hcritical.first i hi
  · obtain ⟨i, hi, hbar⟩ := Schedule.forall₂_getLast hpath hbar
    rw [← (bars_getElem?.mp hbar).2]
    exact (hlast i hi).trans htotal.symm
  · subst hnil
    refine hne (fun hnil => hnodes ?_) (List.forall₂_nil_right_iff.mp hpath)
    have hlength := (topo_perm h).length_eq
    rw [hnil, List.length_range] at hlength
    exact List.length_eq_zero_iff.mp hlength.symm
  · -- the ids of the path lead back to its places
    have hindex : (path.map fun bar => bar.2.id).filterMap graph.index =
        graph.criticalPlaces dur order := by
      rw [List.filterMap_map]
      refine (Schedule.filterMap_forall₂ (g := id) (fun bar i hbar => ?_) hpath.flip).trans
        (List.map_id _)
      obtain ⟨hissue, hnode⟩ := bars_getElem?.mp hbar
      rw [Function.comp_apply, ← hnode]
      exact index_of_getElem? hids hissue
    show (((graph.chart order graph.estimates now).criticalPath.filterMap
      graph.index).map dur).sum = graph.total dur order
    rw [hids', hindex]
    exact hlength.trans htotal.symm

/-- Every bar starts when the last of its dependencies is over. -/
theorem chart_starts {bar : Issue × GanttNode}
    (hbar : bar ∈ graph.bars (graph.chart order graph.estimates now)) :
    graph.StartsEarliest (graph.chart order graph.estimates now) bar := by
  let dur := fun i => (graph.estimates i).1
  obtain ⟨i, hi⟩ := List.mem_iff_getElem?.mp hbar
  obtain ⟨hissue, hnode⟩ := bars_getElem?.mp hi
  have hi := (mem_order h).mpr (List.getElem?_eq_some_iff.mp hissue).1
  have hearliest := earliest h dur
  -- a dependency of the node, by its bar or by its place
  have hdep : ∀ dep p, (graph.bars (graph.chart order graph.estimates now))[p]? = some dep →
      (dep.1.id ∈ depIds bar.1 ↔ p ∈ graph.parentsAt i) ∧
        dep.2.finishMin = (graph.times dur order).finish p := by
    intro dep p hp
    obtain ⟨hparent, hbar⟩ := bars_getElem?.mp hp
    exact ⟨(mem_parentsAt_iff hids hissue hparent).symm, hbar ▸ rfl⟩
  have hstart : bar.2.startMin = (graph.times dur order).start i := hnode ▸ rfl
  have hfinish : bar.2.finishMin = (graph.times dur order).finish i := hnode ▸ rfl
  refine ⟨?_, fun dep hmem hdepends => ?_, ?_⟩
  · rw [hstart, hfinish, hearliest.finish i hi]
    show _ + (graph.estimates i).1 = _
    rw [estimates, hissue]
    rfl
  · obtain ⟨p, hp⟩ := List.mem_iff_getElem?.mp hmem
    obtain ⟨hparent, hover⟩ := hdep dep p hp
    rw [hover, hstart]
    exact hearliest.finish_le_start hi (hparent.mp hdepends)
  · have hpos : ∀ p ∈ graph.parentsAt i, 0 < (graph.times dur order).finish p := by
      intro p hp
      have hp := (ordered h).deps_mem hi hp
      have hp' := hearliest.finish p hp
      have hstart := hearliest.start_nonneg hp
      have hdur : 0 < dur p := estimates_pos ((mem_order h).mp hp)
      omega
    rcases hearliest.start_tight hi with hzero | ⟨p, hp, heq⟩
    · refine Or.inl ⟨hstart.trans hzero, fun dep hmem hdepends => ?_⟩
      obtain ⟨p, hp⟩ := List.mem_iff_getElem?.mp hmem
      have hparent := (hdep dep p hp).1.mp hdepends
      have hlt := hpos p hparent
      have hle := hearliest.finish_le_start hi hparent
      omega
    · obtain ⟨dep, hp'⟩ : ∃ dep, (graph.bars (graph.chart order graph.estimates now))[p]? =
          some dep :=
        exists_bar ((mem_order h).mp ((ordered h).deps_mem hi hp))
      obtain ⟨hparent, hover⟩ := hdep dep p hp'
      exact Or.inr ⟨dep, List.mem_of_getElem? hp', hparent.mpr hp, by rw [hstart, hover, heq]⟩

end Distinct

end PlanGraph

/-- A plan without cycles takes as long as its longest chain of dependencies, the critical path is
such a chain, and every node starts as early as its dependencies allow. The chain is one of
dependencies between nodes of the plan; what lies outside does not take time here. -/
theorem gantt_critical (graph : PlanGraph) (hids : (graph.nodes.map (·.id)).Nodup)
    (hacyclic : Graph.Acyclic graph.DependsOn) (now : Int) :
    ∃ g, gantt graph now = .ok g ∧ g.nodes.map (·.id) = graph.nodes.map (·.id) ∧
      ((∀ chain, graph.Chain chain → graph.minutes chain ≤ g.totalMinutes) ∧
        ∃ chain, graph.Chain chain ∧ graph.minutes chain = g.totalMinutes) ∧
      g.criticalPathMinutes = g.totalMinutes ∧
      (∃ path, graph.Critical g path) ∧
      ∀ bar ∈ graph.bars g, graph.StartsEarliest g bar := by
  obtain ⟨order, horder⟩ := PlanGraph.topo_of_acyclic ((PlanGraph.acyclic_iff hids).mpr hacyclic)
  obtain ⟨path, hpath, hminutes⟩ := @PlanGraph.chart_critical graph order now hids horder
  exact ⟨_, ganttWith_eq_ok.mpr ⟨order, horder, rfl⟩, PlanGraph.chart_ids,
    PlanGraph.chart_total hids horder, hminutes, ⟨path, hpath⟩,
    fun bar hbar => PlanGraph.chart_starts hids horder hbar⟩

/-- Two nodes in a chain, one after the other. -/
theorem dependentFirst_critical : ∃ g, gantt dependentFirst 0 = .ok g ∧
    g.criticalPathMinutes = g.totalMinutes ∧ ∃ path, dependentFirst.Critical g path := by
  obtain ⟨g, hg, -, -, hminutes, hpath, -⟩ := gantt_critical dependentFirst (by decide)
    ((PlanGraph.acyclic_iff (by decide)).mp dependentFirst_acyclic) 0
  exact ⟨g, hg, hminutes, hpath⟩

/-! ### Peak concurrency -/

/-- How many nodes are scheduled at an instant. -/
def Gantt.scheduledAt (g : Gantt) (time : Int) : Nat :=
  g.nodes.countP fun node => node.startMin ≤ time ∧ time < node.finishMin

theorem PlanGraph.intervals_lt {graph : PlanGraph} {order : List Nat} (h : graph.topo = .ok order) :
    ∀ interval ∈ graph.intervals (fun i => (graph.estimates i).1) order,
    interval.1 < interval.2 := by
  intro interval hmem
  obtain ⟨i, hi, rfl⟩ := List.mem_map.mp hmem
  have hi := List.mem_range.mp hi
  have hfinish := (PlanGraph.earliest h fun i => (graph.estimates i).1).finish i
    ((PlanGraph.mem_order h).mpr hi)
  have hpos := PlanGraph.estimates_pos hi
  dsimp only at hfinish hpos ⊢
  omega

/-- The peak of a chart is reached, and never exceeded. -/
def Gantt.PeakExact (g : Gantt) : Prop :=
  (∀ time, g.scheduledAt time ≤ g.peakConcurrency) ∧ ∃ time, g.peakConcurrency = g.scheduledAt time

theorem PlanGraph.chart_peak {graph : PlanGraph} {order : List Nat} (h : graph.topo = .ok order)
    (now : Int) : (graph.chart order graph.estimates now).PeakExact := by
  obtain ⟨hle, time, htime⟩ := Sweep.peak_spec (PlanGraph.intervals_lt h)
  have haround : ∀ time, (graph.chart order graph.estimates now).scheduledAt time =
      Sweep.around (graph.intervals (fun i => (graph.estimates i).1) order) time := by
    intro time
    rw [← @PlanGraph.chart_intervals graph order graph.estimates now, Sweep.around, List.countP_map]
    rfl
  have hpeak : (graph.chart order graph.estimates now).peakConcurrency =
      (Sweep.peak (graph.intervals (fun i => (graph.estimates i).1) order)).toNat := rfl
  refine ⟨fun t => ?_, time, ?_⟩
  · have h := hle t
    rw [haround, hpeak]
    omega
  · rw [haround, hpeak, htime, Int.toNat_natCast]

/-! ### Slack -/

/-- The same nodes with the same dependencies, whatever else they say. -/
def PlanGraph.SameShape (graph graph' : PlanGraph) : Prop :=
  graph'.nodes.map (fun node => (node.id, PlanGraph.depIds node)) =
    graph.nodes.map fun node => (node.id, PlanGraph.depIds node)

namespace PlanGraph.SameShape

variable {graph graph' : PlanGraph} (h : graph.SameShape graph')
include h

theorem length : graph'.nodes.length = graph.nodes.length := by
  simpa using congrArg List.length h

theorem index (id : String) : graph'.index id = graph.index id := by
  have hshape : ∀ g : PlanGraph, g.index id =
      (((g.nodes.map fun node => (node.id, PlanGraph.depIds node)).zipIdx.reverse.find?
        fun node => node.1.1 = id).map Prod.snd) := by
    intro g
    rw [List.zipIdx_map, ← List.map_reverse, List.find?_map, Option.map_map]
    rfl
  rw [hshape graph, hshape graph', h]

theorem parentsAt (i : Nat) : graph'.parentsAt i = graph.parentsAt i := by
  have hshape : ∀ g : PlanGraph, g.parentsAt i =
      (((g.nodes.map fun node => (node.id, PlanGraph.depIds node))[i]?).map
        fun node => node.2.filterMap g.index).getD [] := by
    intro g
    rw [List.getElem?_map, Option.map_map]
    rfl
  rw [hshape graph, hshape graph', h, funext (index h)]

theorem edges : graph'.edges = graph.edges := by
  have hshape : ∀ g : PlanGraph, g.edges =
      (g.nodes.map fun node => (node.id, PlanGraph.depIds node)).zipIdx.flatMap fun node =>
        (node.1.2.filterMap g.index).map fun parent => (parent, node.2) := by
    intro g
    rw [List.zipIdx_map, List.flatMap_map]
    rfl
  rw [hshape graph, hshape graph', h, funext (index h)]

theorem topo {order : List Nat} : graph'.topo = .ok order ↔ graph.topo = .ok order := by
  rw [topo_eq_ok, topo_eq_ok, h.length, h.edges]

end PlanGraph.SameShape

/-- Let one node of a plan take longer: the whole plan takes longer by what exceeds the slack of the
node. The other nodes keep their durations, and the graph its edges. -/
theorem gantt_slack (graph : PlanGraph) (hacyclic : Graph.Acyclic (Graph.Edge graph.edges))
    (now : Int) : ∃ g, gantt graph now = .ok g ∧
      ∀ i node d, g.nodes[i]? = some node → 0 ≤ d →
        ∀ graph' estimates' now', graph.SameShape graph' →
          (∀ j < graph.nodes.length, (estimates' j).1 = (graph.estimates j).1 + if j = i then d
          else 0) →
          ∃ g', ganttWith graph' estimates' now' = .ok g' ∧
            g'.totalMinutes = g.totalMinutes + max 0 (d - node.slackMin) := by
  obtain ⟨order, horder⟩ := PlanGraph.topo_of_acyclic hacyclic
  refine ⟨_, ganttWith_eq_ok.mpr ⟨order, horder, rfl⟩, ?_⟩
  intro i node d hnode hd graph' estimates' now' hshape hestimates
  obtain ⟨issue, hissue, rfl⟩ := PlanGraph.chart_getElem?.mp hnode
  have horder' := hshape.topo.mpr horder
  refine ⟨_, ganttWith_eq_ok.mpr ⟨order, horder', rfl⟩, ?_⟩
  have hi := (List.getElem?_eq_some_iff.mp hissue).1
  let dur := fun j => (graph.estimates j).1
  have hdur : ∀ j ∈ order, 0 ≤ dur j := fun j hj =>
    Int.le_of_lt (PlanGraph.estimates_pos ((PlanGraph.mem_order horder).mp hj))
  -- The lengthened chart is the earliest schedule for the durations with d more at i.
  have hearliest : Schedule.Earliest graph.parentsAt (Function.update dur i (dur i + d)) order
      (graph'.times (fun j => (estimates' j).1) order) := by
    have h := PlanGraph.earliest horder' fun j => (estimates' j).1
    rw [funext hshape.parentsAt] at h
    refine h.congr fun j hj => ?_
    rw [hestimates j ((PlanGraph.mem_order horder).mp hj)]
    rcases eq_or_ne j i with rfl | hne
    · rw [Function.update_self, if_pos rfl]
    · rw [Function.update_of_ne hne, if_neg hne]
      exact Int.add_zero _
  have hstretch := Schedule.makespan_stretch (PlanGraph.ordered horder) hdur
    (PlanGraph.earliest horder dur) (PlanGraph.latest horder dur)
    ((PlanGraph.mem_order horder).mpr hi) hd hearliest
  show graph'.total (fun j => (estimates' j).1) order = graph.total dur order +
    max 0 (d - graph.slack dur order i)
  rw [PlanGraph.total_eq horder', PlanGraph.total_eq horder, hstretch, PlanGraph.slack_eq horder hi]

/-- The dependent takes five minutes longer. -/
theorem dependentFirst_slack : ∃ g node g', gantt dependentFirst 0 = .ok g ∧
    g.nodes[0]? = some node ∧
    ganttWith dependentFirst (fun j =>
      ((dependentFirst.estimates j).1 + if j = 0 then 5 else 0, "metadata")) 0 = .ok g' ∧
    g'.totalMinutes = g.totalMinutes + max 0 (5 - node.slackMin) := by
  obtain ⟨g, hg, hslack⟩ := gantt_slack dependentFirst dependentFirst_acyclic 0
  obtain ⟨order, -, rfl⟩ := ganttWith_eq_ok.mp hg
  obtain ⟨node, hnode⟩ : ∃ node,
      (dependentFirst.chart order dependentFirst.estimates 0).nodes[0]? = some node := ⟨_, rfl⟩
  obtain ⟨g', hg', htotal⟩ := hslack 0 node 5 hnode (by decide) dependentFirst
    (fun j => ((dependentFirst.estimates j).1 + if j = 0 then 5 else 0, "metadata")) 0 rfl
    fun j _ => rfl
  exact ⟨_, node, g', hg, hnode, hg', htotal⟩

end Marbles.Plan
