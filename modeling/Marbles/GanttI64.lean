import Marbles.Gantt
import Marbles.Lib.Overflow
import Mathlib.Algebra.Order.BigOperators.Group.List

/-!
# The schedule in 64 bits

The chart of `Gantt.lean` is computed in exact integers. The source computes in `i64`: minutes along
the two passes and along the critical path, seconds for the bars. Nothing on the way from a
specification to `gantt` bounds an estimate, so the numbers can grow out of that range. A debug
build then panics. A release build goes on with wrapped numbers, and draws bars that end before
they start.

`ganttI64` is the function as the source computes it, for either kind of build. It keeps the shape
of the exact one, with every addition and subtraction of the source replaced by `Overflow.i64`, so
that `Overflow.Computes` carries one to the other step by step. The outcome is `computes_ganttI64`:
both are the same as long as no chain of dependencies is too long, and a debug build returns in no
other case.

The condition `EndsInTime` is about chains and not about the schedule, so that it can be read off
a specification. It is exact for a debug build. A release build may still draw the exact chart
beyond it, as wrapping twice can cancel out.
-/

namespace Overflow

open Marbles

/-- An operation on `i64`, from its exact value. -/
def i64 (mode : Overflow) (n : Int) : Result Int := mode.result IsI64 wrapI64 n

theorem computes_i64 (n : Int) : Computes (fun mode => mode.i64 n) (IsI64 n) n :=
  computes_result IsI64 wrapI64 n

end Overflow

namespace Marbles.Plan

open Schedule (Times)
open Overflow (Computes)

namespace PlanGraph

/-! ### The source -/

section Source

variable (mode : Overflow) (graph : PlanGraph) (dur : Nat → Int)

/-- One turn of the forward pass. The maximum over the dependencies cannot overflow, the sum can. -/
def placeI64 (t : Times Nat) (i : Nat) : Result (Times Nat) := do
  let s := Schedule.lastFinish t.finish (graph.parentsAt i)
  let finish ← mode.i64 (s + dur i)
  pure ⟨Function.update t.start i s, Function.update t.finish i finish⟩

/-- The forward pass over the whole order. -/
def timesI64 (order : List Nat) : Result (Times Nat) :=
  order.foldlM (graph.placeI64 mode dur) ⟨fun _ => 0, fun _ => 0⟩

/-- One turn of the backward pass. -/
def retreatI64 (latest : Nat → Int) (i : Nat) : Result (Nat → Int) := do
  let latestStart ← mode.i64 (latest i - dur i)
  pure ((graph.parentsAt i).foldl (Schedule.tighten latestStart) latest)

/-- The backward pass. It starts from the end of the plan, at every node. -/
def latestFinishI64 (total : Int) (order : List Nat) : Result (Nat → Int) :=
  order.reverse.foldlM (graph.retreatI64 mode dur) fun _ => total

/-- The slack of every place. -/
def slacksI64 (t : Times Nat) (latest : Nat → Int) : Result (List Int) :=
  graph.places.mapM fun i => do
    let left ← mode.i64 (latest i - t.finish i)
    pure (max left 0)

/-- The walk back along the places without slack. It compares and adds nothing. -/
def criticalFrom (t : Times Nat) (slack : Nat → Int) : List Nat :=
  match Schedule.lastMax t.finish (graph.places.filter fun i => slack i = 0) with
  | none => []
  | some cursor => Schedule.backtrack (fun i => Schedule.lastMax t.finish
      ((graph.parentsAt i).filter fun p => slack p = 0)) graph.nodes.length cursor

/-- Some minutes after `now`, in seconds. -/
def instantI64 (now minutes : Int) : Result Int := do
  let seconds ← mode.i64 (minutes * 60)
  mode.i64 (now + seconds)

/-- The node at a place; its times are computed again, in seconds. The order of the operations is
that of the source, since the first that overflows panics. -/
def ganttNodeI64 (t : Times Nat) (slack : Nat → Int) (source : String) (now : Int) (issue : Issue)
    (i : Nat) : Result GanttNode := do
  let startAt ← instantI64 mode now (t.start i)
  let finishAt ← instantI64 mode now (t.finish i)
  pure
    { id := issue.id
      key := keyOf issue
      title := issue.title
      status := issue.status
      repo := metaStr issue metaRepo
      conflictGroup := conflictGroup issue
      estimate := dur i
      estimateSource := source
      startMin := t.start i
      finishMin := t.finish i
      slackMin := slack i
      critical := slack i = 0
      startAt := startAt
      finishAt := finishAt }

/-- The sum of an iterator. -/
def sumI64 (minutes : List Int) : Result Int :=
  minutes.foldlM (fun sum n => mode.i64 (sum + n)) 0

/-- The chart, pass by pass, as the source computes it. With `panics` the first sum that overflows
ends it. -/
def chartI64 (order : List Nat) (now : Int) : Result Gantt := do
  let dur := fun i => (graph.estimates i).1
  let t ← graph.timesI64 mode dur order
  let total := Schedule.makespan t.finish graph.places
  let latest ← graph.latestFinishI64 mode dur total order
  let slacks ← graph.slacksI64 mode t latest
  let slack := fun i => (slacks[i]?).getD 0
  let criticalPath := (graph.criticalFrom t slack).filterMap fun i => (graph.nodes[i]?).map (·.id)
  -- the running sum of the sweep stays between minus and plus the number of nodes
  let peak := Sweep.peak (graph.places.map fun i => (t.start i, t.finish i))
  let nodes ← graph.nodes.zipIdx.mapM fun node =>
    ganttNodeI64 mode dur t slack (graph.estimates node.2).2 now node.1 node.2
  let criticalPathMinutes ← sumI64 mode ((criticalPath.filterMap graph.index).map dur)
  pure
    { plan := graph.plan
      startedAt := now
      nodes := nodes
      criticalPath := criticalPath
      criticalPathMinutes := criticalPathMinutes
      totalMinutes := total
      currentConcurrency := graph.nodes.countP fun issue => isRunning issue now
      peakConcurrency := peak.toNat }

end Source

/-! ### Against the exact passes -/

section Passes

variable {graph : PlanGraph} {dur : Nat → Int} {order : List Nat} (h : graph.topo = .ok order)
include h

theorem computes_times : Computes (fun mode => graph.timesI64 mode dur order)
    (∀ i ∈ order, IsI64 ((graph.times dur order).finish i)) (graph.times dur order) := by
  refine (Computes.foldlM (g := Schedule.place graph.parentsAt dur)
    (fun _ _ => (Overflow.computes_i64 _).map _) order _).congr ⟨fun hsteps i hi => ?_,
      fun hall pre i post hsplit => ?_⟩
  · obtain ⟨pre, post, hsplit⟩ := List.append_of_mem hi
    rw [times, Schedule.forward_at (ordered h) hsplit]
    exact hsteps pre i post hsplit
  · have hi := hall i (hsplit ▸ List.mem_append_right _ List.mem_cons_self)
    rw [times, Schedule.forward_at (ordered h) hsplit] at hi
    exact hi

theorem computes_latestFinish :
    Computes (fun mode => graph.latestFinishI64 mode dur (graph.total dur order) order)
      (∀ i ∈ order, IsI64 (graph.latestFinish dur order i - dur i))
      (graph.latestFinish dur order) := by
  -- the pass runs over the reversed order, so what it has behind it is a suffix of the order
  have hsuffix : ∀ {pre : List Nat} {i : Nat} {post : List Nat}, order = pre ++ i :: post →
      graph.latestFinish dur order i = (post.reverse.foldl
        (Schedule.retreat graph.parentsAt dur) fun _ => graph.total dur order) i :=
    fun hsplit => Schedule.backward_at (ordered h) hsplit
  refine (Computes.foldlM (g := Schedule.retreat graph.parentsAt dur)
    (fun _ _ => (Overflow.computes_i64 _).map _) order.reverse _).congr
      ⟨fun hsteps i hi => ?_, fun hall pre i post hsplit => ?_⟩
  · obtain ⟨pre, post, hsplit⟩ := List.append_of_mem hi
    rw [hsuffix hsplit]
    refine hsteps post.reverse i pre.reverse ?_
    rw [hsplit, List.reverse_append, List.reverse_cons, List.append_assoc, List.singleton_append]
  · have hsplit' : order = post.reverse ++ i :: pre.reverse := by
      rw [← List.reverse_reverse order, hsplit, List.reverse_append, List.reverse_cons,
        List.append_assoc, List.singleton_append]
    have hi := hall i (hsplit' ▸ List.mem_append_right _ List.mem_cons_self)
    rw [hsuffix hsplit', List.reverse_reverse] at hi
    exact hi

omit h in
theorem computes_slacks : Computes
    (fun mode => graph.slacksI64 mode (graph.times dur order) (graph.latestFinish dur order))
    (∀ i ∈ graph.places,
      IsI64 (graph.latestFinish dur order i - (graph.times dur order).finish i))
    (graph.places.map (graph.slack dur order)) :=
  Computes.mapM fun _ _ => (Overflow.computes_i64 _).map (max · 0)

omit h in
/-- The walk looks at the slack of places only. -/
theorem criticalFrom_eq {left : Nat → Int}
    (hleft : ∀ i < graph.nodes.length, left i = graph.slack dur order i) :
    graph.criticalFrom (graph.times dur order) left = graph.criticalPlaces dur order := by
  have hfilter : ∀ l : List Nat, (∀ i ∈ l, i < graph.nodes.length) →
      (l.filter fun i => left i = 0) = l.filter fun i => graph.slack dur order i = 0 :=
    fun l hl => List.filter_congr fun i hi => by rw [hleft i (hl i hi)]
  have hparents : ∀ i, ∀ p ∈ graph.parentsAt i, p < graph.nodes.length := fun i p hp =>
    (edges_bounded (p, i) (mem_edges.mpr hp)).1
  unfold criticalFrom criticalPlaces Schedule.criticalPath
  rw [hfilter graph.places fun i hi => List.mem_range.mp hi,
    funext fun i => congrArg (Schedule.lastMax _) (hfilter _ (hparents i))]
  unfold slack
  cases Schedule.lastMax (graph.times dur order).finish (graph.places.filter fun i =>
      Schedule.slack (graph.times dur order) (graph.latestFinish dur order) i = 0) with
  | none => rfl
  | some cursor =>
      show _ = Schedule.backtrack _ graph.places.length cursor
      rw [places, List.length_range]
      rfl

end Passes

/-! ### When everything fits -/

/-- No chain of dependencies takes too long to be told in seconds, be it from 0 or from `now`. The
chain is one of places, since nothing here asks for distinct ids. -/
def EndsInTime (graph : PlanGraph) (now : Int) : Prop :=
  ∀ c, Schedule.Chain graph.parentsAt graph.places c →
    Schedule.length (fun i => (graph.estimates i).1) c * 60 < 2 ^ 63 ∧
      now + Schedule.length (fun i => (graph.estimates i).1) c * 60 < 2 ^ 63

section Fitting

variable {graph : PlanGraph} {order : List Nat} {now : Int} (h : graph.topo = .ok order)
include h

theorem chain_order {c : List Nat} :
    Schedule.Chain graph.parentsAt graph.places c ↔ Schedule.Chain graph.parentsAt order c :=
  ⟨fun hc => ⟨hc.links, fun i hi => (topo_perm h).mem_iff.mpr (hc.tasks i hi)⟩,
    fun hc => ⟨hc.links, fun i hi => (topo_perm h).mem_iff.mp (hc.tasks i hi)⟩⟩

/-- The longest chain ends with the schedule. -/
theorem endsInTime_iff : graph.EndsInTime now ↔
    graph.total (fun i => (graph.estimates i).1) order * 60 < 2 ^ 63 ∧
      now + graph.total (fun i => (graph.estimates i).1) order * 60 < 2 ^ 63 := by
  have hearliest := earliest h fun i => (graph.estimates i).1
  rw [total_eq h]
  constructor
  · intro hchains
    obtain ⟨c, hc, hlength⟩ := hearliest.exists_length_eq_makespan (ordered h)
    exact hlength ▸ hchains c ((chain_order h).mpr hc)
  · intro hends c hc
    have hle := hearliest.length_le_makespan ((chain_order h).mp hc) fun i hi =>
      Int.le_of_lt (estimates_pos ((mem_order h).mp hi))
    omega

/-- With distinct ids the chains are those of the nodes. -/
theorem endsInTime_iff_chains (hids : (graph.nodes.map (·.id)).Nodup) : graph.EndsInTime now ↔
    ∀ chain, graph.Chain chain →
      graph.minutes chain * 60 < 2 ^ 63 ∧ now + graph.minutes chain * 60 < 2 ^ 63 := by
  constructor
  · intro hends chain hchain
    obtain ⟨c, hc, hplaces⟩ := hchain.places hids h
    exact minutes_eq_length hplaces ▸ hends c ((chain_order h).mpr hc)
  · intro hends c hc
    obtain ⟨chain, hchain, hplaces⟩ := exists_chain hids h ((chain_order h).mp hc)
    exact minutes_eq_length hplaces ▸ hends chain hchain

/-- How the numbers of a place lie. -/
theorem bounds (dur : Nat → Int) (hdur : ∀ i < graph.nodes.length, 0 < dur i) {i : Nat}
    (hi : i < graph.nodes.length) :
    0 ≤ (graph.times dur order).start i ∧ 0 < dur i ∧
      (graph.times dur order).finish i = (graph.times dur order).start i + dur i ∧
      (graph.times dur order).finish i ≤ graph.latestFinish dur order i ∧
      graph.latestFinish dur order i ≤ graph.total dur order := by
  have hmem := (mem_order h).mpr hi
  have hearliest := earliest h dur
  have hlatest := latest h dur
  have hmax := (Schedule.makespan_spec (graph.times dur order).finish (List.ne_nil_of_mem hmem)).1
  refine ⟨hearliest.start_nonneg hmem, hdur i hi, hearliest.finish i hmem,
    hlatest.finish_le hearliest (ordered h) hmax i hmem, ?_⟩
  exact total_eq h dur ▸ hlatest.le_total i

omit h in
/-- The id of a place that others depend on leads back to the place. -/
theorem index_parent {i p : Nat} (hp : p ∈ graph.parentsAt i) :
    ((graph.nodes[p]?).map (·.id)).bind graph.index = some p := by
  obtain ⟨-, -, dep, -, hdep⟩ := mem_parentsAt.mp hp
  obtain ⟨parent, hparent, rfl⟩ := index_eq_some hdep
  rw [hparent]
  exact hdep

/-- The minutes along the critical path are added up over its ids. Only the last of them may be the
id of another place as well, so the sum is never more than twice the total. -/
theorem criticalMinutes_le :
    let dur := fun i => (graph.estimates i).1
    let minutes := (((graph.criticalPlaces dur order).filterMap fun i =>
      (graph.nodes[i]?).map (·.id)).filterMap graph.index).map dur
    (∀ n ∈ minutes, 0 < n) ∧ minutes.sum ≤ 2 * graph.total dur order := by
  intro dur minutes
  have hdur : ∀ i < graph.nodes.length, 0 < dur i := fun i hi => estimates_pos hi
  have hplace : ∀ {id : String} {i : Nat}, graph.index id = some i → i < graph.nodes.length := by
    intro id i hid
    obtain ⟨issue, hissue, -⟩ := index_eq_some hid
    exact (List.getElem?_eq_some_iff.mp hissue).1
  constructor
  · intro n hn
    obtain ⟨i, hi, rfl⟩ := List.mem_map.mp hn
    obtain ⟨id, -, hid⟩ := List.mem_filterMap.mp hi
    exact hdur i (hplace hid)
  obtain ⟨hchain, hcritical, -, hlength, -⟩ := Schedule.criticalPath_spec (ordered h)
    (fun i hi => hdur i ((mem_order h).mp hi)) (earliest h dur) (latest h dur) (topo_perm h)
  change Schedule.Chain _ _ (graph.criticalPlaces dur order) at hchain
  change Schedule.Critical _ _ _ (graph.criticalPlaces dur order) at hcritical
  change Schedule.length dur (graph.criticalPlaces dur order) = _ at hlength
  rw [← total_eq h dur] at hlength
  show ((((graph.criticalPlaces dur order).filterMap _).filterMap graph.index).map dur).sum ≤ _
  rcases List.eq_nil_or_concat (graph.criticalPlaces dur order) with hnil | ⟨c, i, hpath⟩
  · rw [hnil] at hlength ⊢
    rw [← hlength]
    exact Int.le_refl 0
  rw [List.concat_eq_append] at hpath
  rw [hpath] at hchain hcritical hlength ⊢
  -- every place before the last is a dependency of the one after it
  have hback : c.filterMap (fun p => ((graph.nodes[p]?).map (·.id)).bind graph.index) = c := by
    refine (List.filterMap_congr fun p hp => ?_).trans List.filterMap_some
    obtain ⟨pre, post, rfl⟩ := List.append_of_mem hp
    have hlinks := hcritical.links
    rw [List.append_assoc, List.cons_append, List.isChain_split] at hlinks
    cases post with
    | nil => exact index_parent (List.isChain_cons_cons.mp hlinks.2).1.1
    | cons j post => exact index_parent (List.isChain_cons_cons.mp hlinks.2).1.1
  rw [List.filterMap_filterMap, List.filterMap_append, hback, List.map_append, List.sum_append]
  rw [Schedule.length_append, Schedule.length_cons, Schedule.length_nil] at hlength
  change Schedule.length dur c + _ ≤ _
  have hi := (mem_order h).mp (hchain.tasks i (by simp))
  obtain ⟨hstart, hpos, hfinish, hle, hend⟩ := bounds h dur hdur hi
  rw [List.filterMap_cons, List.filterMap_nil]
  cases hnamesake : ((graph.nodes[i]?).map (·.id)).bind graph.index with
  | none =>
      simp only [List.map_nil, List.sum_nil]
      omega
  | some j =>
      obtain ⟨id, -, hid⟩ := Option.bind_eq_some_iff.mp hnamesake
      obtain ⟨hstart', -, hfinish', hle', hend'⟩ := bounds h dur hdur (hplace hid)
      simp only [List.map_cons, List.map_nil, List.sum_cons, List.sum_nil]
      omega

omit h in
theorem computes_node {dur : Nat → Int} {left : Nat → Int} {i : Nat}
    (hleft : left i = graph.slack dur order i) (source : String) (issue : Issue) :
    Computes (fun mode => ganttNodeI64 mode dur (graph.times dur order) left source now issue i)
      ((IsI64 ((graph.times dur order).start i * 60) ∧
          IsI64 (now + (graph.times dur order).start i * 60)) ∧
        IsI64 ((graph.times dur order).finish i * 60) ∧
          IsI64 (now + (graph.times dur order).finish i * 60))
      (graph.ganttNode dur order source now issue i) := by
  have hinstant : ∀ minutes, Computes (fun mode => instantI64 mode now minutes)
      (IsI64 (minutes * 60) ∧ IsI64 (now + minutes * 60)) (now + minutes * 60) := fun minutes =>
    (Overflow.computes_i64 _).bind (Overflow.computes_i64 _)
  simp only [ganttNode, ← hleft]
  exact (hinstant _).bind ((hinstant _).map _)

omit h in
theorem computes_sum (minutes : List Int) : Computes (fun mode => sumI64 mode minutes)
    (∀ pre n post, minutes = pre ++ n :: post → IsI64 (pre.sum + n)) minutes.sum := by
  simp only [List.sum_eq_foldl]
  exact Computes.foldlM (fun _ _ => Overflow.computes_i64 _) minutes 0

omit h in
/-- Sums of positive numbers grow, so they all fit when the last one does. -/
theorem isI64_partialSum {minutes pre post : List Int} {n : Int} (hpos : ∀ n ∈ minutes, 0 < n)
    (hsum : minutes.sum < 2 ^ 63) (hsplit : minutes = pre ++ n :: post) : IsI64 (pre.sum + n) := by
  subst hsplit
  have hpre : 0 ≤ pre.sum := List.sum_nonneg fun m hm =>
    Int.le_of_lt (hpos m (List.mem_append_left _ hm))
  have hpost : 0 ≤ post.sum := List.sum_nonneg fun m hm =>
    Int.le_of_lt (hpos m (List.mem_append_right _ (List.mem_cons_of_mem _ hm)))
  have hn : 0 < n := hpos n (List.mem_append_right _ List.mem_cons_self)
  rw [List.sum_append, List.sum_cons] at hsum
  unfold IsI64
  omega

/-- A build draws the exact chart as long as the longest chain ends in time, and a build with checks
draws none otherwise. -/
theorem computes_chart (hnow : IsI64 now) : Computes (fun mode => graph.chartI64 mode order now)
    (graph.EndsInTime now) (graph.chart order graph.estimates now) := by
  have hends := @endsInTime_iff graph order now h
  obtain ⟨hminutes, hsum⟩ := criticalMinutes_le h
  have hdur : ∀ i < graph.nodes.length, 0 < (fun i => (graph.estimates i).1) i :=
    fun i hi => estimates_pos hi
  unfold chartI64 chart
  dsimp only at hminutes hsum ⊢
  generalize (fun i => (graph.estimates i).1) = dur at *
  -- the slack of a place is looked up in the list of all
  have hleft : ∀ i < graph.nodes.length,
      ((graph.places.map (graph.slack dur order))[i]?).getD 0 = graph.slack dur order i := by
    intro i hi
    rw [List.getElem?_map, places, List.getElem?_range hi]
    rfl
  have hnodes := Computes.mapM fun (node : Issue × Nat) (hnode : node ∈ graph.nodes.zipIdx) =>
    @computes_node graph order now dur
      (fun i => ((graph.places.map (graph.slack dur order))[i]?).getD 0) node.2 (hleft node.2
        (List.getElem?_eq_some_iff.mp (List.mem_zipIdx_iff_getElem?.mp hnode)).1)
      (graph.estimates node.2).2 node.1
  have hpath := criticalFrom_eq hleft
  refine ((computes_times h).bind ((computes_latestFinish h).bind (computes_slacks.bind
    (hnodes.bind (p := _) (q := ∀ pre n post, (((graph.criticalPlaces dur order).filterMap fun i =>
      (graph.nodes[i]?).map (·.id)).filterMap graph.index).map dur = pre ++ n :: post →
        IsI64 (pre.sum + n)) ?_)))).congr ?_
  · rw [hpath]
    exact (computes_sum _).map _
  rw [hends]
  constructor
  · rintro ⟨-, -, -, hbars, -⟩
    rcases eq_or_ne graph.places [] with hnil | hne
    · have hnothing : graph.total dur order = 0 := by rw [total, hnil]; rfl
      rw [hnothing]
      exact ⟨by decide, by simpa using hnow.2⟩
    · obtain ⟨-, last, hlast, hmax⟩ := Schedule.makespan_spec (graph.times dur order).finish hne
      change graph.total dur order = _ at hmax
      have hi := List.mem_range.mp hlast
      have hbar := (hbars (graph.nodes[last], last) (List.mem_zipIdx_iff_getElem?.mpr
        (List.getElem?_eq_getElem hi))).2
      rw [hmax]
      exact ⟨hbar.1.2, hbar.2.2⟩
  · rintro ⟨hscaled, hshifted⟩
    have hbounds := fun {i : Nat} (hi : i < graph.nodes.length) => bounds h dur hdur hi
    refine ⟨fun i hi => ?_, fun i hi => ?_, fun i hi => ?_, fun node hnode => ?_,
      fun pre n post hsplit => isI64_partialSum hminutes (by omega) hsplit⟩
    · have hi := hbounds ((mem_order h).mp hi)
      unfold IsI64
      omega
    · have hi := hbounds ((mem_order h).mp hi)
      unfold IsI64
      omega
    · have hi := hbounds (List.mem_range.mp hi)
      unfold IsI64
      omega
    · have hi := hbounds
        (List.getElem?_eq_some_iff.mp (List.mem_zipIdx_iff_getElem?.mp hnode)).1
      obtain ⟨hleast, -⟩ := hnow
      unfold IsI64
      omega

end Fitting

end PlanGraph

/-- The chart as a build of the source draws it. -/
def ganttI64 (mode : Overflow) (graph : PlanGraph) (now : Int) : Result Gantt := do
  let order ← graph.topo
  graph.chartI64 mode order now

theorem computes_ganttI64 {graph : PlanGraph} {order : List Nat} {now : Int}
    (h : graph.topo = .ok order) (hnow : IsI64 now) :
    Computes (fun mode => ganttI64 mode graph now) (graph.EndsInTime now)
      (graph.chart order graph.estimates now) := by
  unfold ganttI64
  rw [h]
  exact PlanGraph.computes_chart h hnow

/-- Every build has a bar for each node, whatever its numbers are. -/
theorem ganttI64_ids {mode : Overflow} {graph : PlanGraph} {now : Int} {g : Gantt}
    (hg : ganttI64 mode graph now = .ok g) : g.nodes.map (·.id) = graph.nodes.map (·.id) := by
  obtain ⟨order, -, hg⟩ := Outcome.bind_eq_ok.mp hg
  obtain ⟨t, -, hg⟩ := Outcome.bind_eq_ok.mp hg
  obtain ⟨latest, -, hg⟩ := Outcome.bind_eq_ok.mp hg
  obtain ⟨slacks, -, hg⟩ := Outcome.bind_eq_ok.mp hg
  obtain ⟨nodes, hnodes, hg⟩ := Outcome.bind_eq_ok.mp hg
  obtain ⟨minutes, -, hg⟩ := Outcome.bind_eq_ok.mp hg
  cases hg
  have hids := Outcome.map_of_mapM (p := (·.id)) (q := (·.1.id)) hnodes fun node _ bar hbar => by
    obtain ⟨startAt, -, hbar⟩ := Outcome.bind_eq_ok.mp hbar
    obtain ⟨finishAt, -, hbar⟩ := Outcome.bind_eq_ok.mp hbar
    cases hbar
    rfl
  refine hids.trans ?_
  conv_rhs => rw [← List.zipIdx_map_fst 0 graph.nodes, List.map_map]
  rfl

/-! ### Peak concurrency -/

/-- All builds give the exact peak of a plan without cycles as long as no chain of dependencies
takes too long. When one does, a debug build panics. -/
theorem gantt_peak (graph : PlanGraph) (hacyclic : Graph.Acyclic (Graph.Edge graph.edges))
    {now : Int} (hnow : IsI64 now) :
    (∀ mode, ∃ g, ganttI64 mode graph now = .ok g ∧ g.PeakExact) ↔ graph.EndsInTime now := by
  obtain ⟨order, horder⟩ := PlanGraph.topo_of_acyclic hacyclic
  exact (computes_ganttI64 horder hnow).forall_iff (PlanGraph.chart_peak horder now)

/-- A node of the longest estimate there is, and one that waits for it. -/
def endless : PlanGraph :=
  ⟨"v2", [bareIssue "a" [] [(metaEstimate, .num (2 ^ 63 - 1))],
    bareIssue "b" ["a"] [(metaEstimate, .num (2 ^ 63 - 1))]], [], 30⟩

/-- A debug build panics. In a release build the second bar ends two minutes before the start of
the plan, so the sweep takes it off before anything has begun: the peak is 0 although the first node
runs at 0. -/
theorem endless_peak : Graph.Acyclic (Graph.Edge endless.edges) ∧
    ganttI64 .panics endless 0 = Outcome.abort ∧
    ∃ g, ganttI64 .wraps endless 0 = .ok g ∧ g.nodes.map (·.finishMin) = [2 ^ 63 - 1, -2] ∧
      g.peakConcurrency = 0 ∧ g.scheduledAt 0 = 1 ∧ ¬ g.PeakExact := by
  have hacyclic : Graph.Acyclic (Graph.Edge endless.edges) :=
    (Topo.sort_isSome_iff PlanGraph.edges_bounded).mp ⟨[0, 1], by decide +kernel⟩
  have hdrawn : ((ganttI64 .wraps endless 0).toOption.map fun g =>
      (g.nodes.map (·.finishMin), g.peakConcurrency, g.scheduledAt 0)) =
        some ([2 ^ 63 - 1, -2], 0, 1) := by
    decide +kernel
  obtain ⟨g, hg, hvalues⟩ := Option.map_eq_some_iff.mp hdrawn
  obtain ⟨hfinish, hpeak, hrunning⟩ : g.nodes.map (·.finishMin) = [2 ^ 63 - 1, -2] ∧
      g.peakConcurrency = 0 ∧ g.scheduledAt 0 = 1 := by
    simpa only [Prod.mk.injEq] using hvalues
  refine ⟨hacyclic, ?_, g, Outcome.toOption_eq_some.mp hg, hfinish, hpeak, hrunning,
    fun hexact => ?_⟩
  · decide +kernel
  · have hle := hexact.1 0
    omega

/-- Half an hour after half an hour is soon over. -/
theorem dependentFirst_endsInTime : dependentFirst.EndsInTime 0 :=
  (PlanGraph.endsInTime_iff (by decide +kernel : dependentFirst.topo = .ok [1, 0])).mpr
    (by decide +kernel)

theorem dependentFirst_peak : ∃ g, ganttI64 .wraps dependentFirst 0 = .ok g ∧ g.PeakExact :=
  (gantt_peak dependentFirst dependentFirst_acyclic (by decide)).mpr dependentFirst_endsInTime
    .wraps

end Marbles.Plan
