import Marbles.View.Document

/-!
# The rows of the critical path

The viewer finds the nodes of the critical path in one map that it fills with the ids and the keys
of all nodes. A key is chosen by the author of a plan, so it may be the id of another node, and the
node that is listed last wins. `criticalRows_iff` says when the rows are those of the right nodes.

Building the map node by node makes the last node with a name win. The condition asks that each id
of the path leads back to its own node, and it is stated about the nodes of the chart, where an
author or an exporter can check it.
-/

namespace Marbles.View

open Json (Value)
open Plan (Gantt GanttNode)

/-- What a row of the critical path is to show of its node. -/
def nodeRow (node : GanttNode) : Value :=
  .arr [.str (toString node.startMin ++ "m"), .str (toString node.finishMin ++ "m"),
    .str "critical", .str node.status, .str node.key, .str node.title,
    .str (toString node.estimate)]

/-- One row for each of the first ten ids of the critical path, in order, of the node with that
id. -/
def CriticalRows (gantt : Gantt) (rows : List Value) : Prop :=
  List.Forall₂ (fun id row => ∃ node ∈ gantt.nodes, node.id = id ∧ row = nodeRow node)
    (gantt.criticalPath.take maxGanttRows) rows

/-- The numbers of a node are 64 bits wide. -/
structure Fits (node : GanttNode) : Prop where
  start : IsI64 node.startMin
  finish : IsI64 node.finishMin
  estimate : IsI64 node.estimate

/-- The last node that has a text as its id or as its key. -/
def lastNamed (nodes : List GanttNode) (id : String) : Option GanttNode :=
  nodes.reverse.find? fun node => node.id = id ∨ node.key = id

/-! ### Reading the nodes back -/

theorem field_nodeJson (node : GanttNode) :
    ((nodeJson node).field "id" = .str node.id ∧ (nodeJson node).field "key" = .str node.key ∧
      (nodeJson node).field "title" = .str node.title ∧
      (nodeJson node).field "status" = .str node.status) ∧
    (nodeJson node).field "estimate" = .num node.estimate ∧
      (nodeJson node).field "start_min" = .num node.startMin ∧
      (nodeJson node).field "finish_min" = .num node.finishMin := by
  refine ⟨⟨rfl, rfl, rfl, rfl⟩, ?_⟩
  unfold nodeJson
  cases node.repo <;> cases node.conflictGroup <;> exact ⟨rfl, rfl, rfl⟩

theorem ganttRow_nodeJson {node : GanttNode} (h : Fits node) :
    ganttRow (nodeJson node) = nodeRow node := by
  obtain ⟨⟨-, hkey, htitle, hstatus⟩, hestimate, hstart, hfinish⟩ := field_nodeJson node
  rw [ganttRow, hkey, htitle, hstatus, hestimate, hstart, hfinish, number_num h.start,
    number_num h.finish, estimate_num h.estimate]
  rfl

/-- The map holds under each text the last node of that name. -/
@[simp] theorem byId_nodeJson (nodes : List GanttNode) (id : String) :
    byId (nodes.map nodeJson) id = (lastNamed nodes id).map nodeJson := by
  induction nodes using List.reverseRecOn with
  | nil => rfl
  | append_singleton nodes node ih =>
      obtain ⟨⟨hid, hkey, -, -⟩, -⟩ := field_nodeJson node
      have hstep : byId ((nodes ++ [node]).map nodeJson) =
          Function.update (Function.update (byId (nodes.map nodeJson)) node.id
            (some (nodeJson node))) node.key (some (nodeJson node)) := by
        rw [byId, List.map_append, List.foldl_append, ← byId]
        simp [hid, hkey]
      rw [hstep, lastNamed, List.reverse_append, List.reverse_singleton, List.singleton_append,
        List.find?_cons]
      by_cases hk : id = node.key
      · rw [hk, Function.update_self]
        simp
      · rw [Function.update_of_ne hk]
        by_cases hi : id = node.id
        · rw [hi, Function.update_self]
          simp
        · rw [Function.update_of_ne hi, ih]
          simp [Ne.symm hk, Ne.symm hi, lastNamed]

theorem ganttRows_eq {gantt : Gantt} (h : ∀ node ∈ gantt.nodes, Fits node) :
    ganttRows (ganttJson gantt) = (gantt.criticalPath.take maxGanttRows).filterMap fun id =>
      (lastNamed gantt.nodes id).map nodeRow := by
  have hpath : (gantt.criticalPath.map Value.str).filterMap Value.asStr = gantt.criticalPath := by
    rw [List.filterMap_map]
    exact List.filterMap_some
  have hrow : ∀ id, (byId (gantt.nodes.map nodeJson) id).map ganttRow =
      (lastNamed gantt.nodes id).map nodeRow := by
    intro id
    rw [byId_nodeJson, Option.map_map]
    cases hlast : lastNamed gantt.nodes id with
    | none => rfl
    | some node =>
        have hmem : node ∈ gantt.nodes := List.mem_reverse.mp (List.mem_of_find?_eq_some hlast)
        exact congrArg some (ganttRow_nodeJson (h node hmem))
  change ((List.filterMap Value.asStr (gantt.criticalPath.map Value.str)).take
    maxGanttRows).filterMap (fun id => (byId (gantt.nodes.map nodeJson) id).map ganttRow) = _
  rw [hpath]
  exact List.filterMap_congr fun id _ => hrow id

/-! ### When the rows are right -/

/-- What is kept of a list stands against the list when nothing was dropped. -/
theorem forall₂_filterMap {α β : Type} {R : α → β → Prop} {f : α → Option β} {l : List α} :
    List.Forall₂ R l (l.filterMap f) ↔ ∀ a ∈ l, ∃ b, f a = some b ∧ R a b := by
  induction l with
  | nil => exact ⟨fun _ => nofun, fun _ => .nil⟩
  | cons a l ih =>
      rw [List.forall_mem_cons, ← ih]
      cases hf : f a with
      | none =>
          rw [List.filterMap_cons_none hf]
          refine ⟨fun h => ?_, fun h => ?_⟩
          · have hlength := h.length_eq
            have hle := List.length_filterMap_le f l
            rw [List.length_cons] at hlength
            omega
          · obtain ⟨⟨b, hb, -⟩, -⟩ := h
            cases hb
      | some b =>
          rw [List.filterMap_cons_some hf, List.forall₂_cons]
          refine and_congr_left fun _ => ⟨fun h => ⟨b, rfl, h⟩, fun h => ?_⟩
          obtain ⟨b', hb, hR⟩ := h
          exact Option.some.inj hb ▸ hR

theorem render_gantt {dashboard : Value} {tables : Tables}
    (h : render dashboard = .ok (.tables tables)) :
    tables.gantt = ganttRows (dashboard.field "gantt") := by
  unfold render at h
  split at h
  · cases h
  · have hproject := Except.ok.inj h
    unfold project at hproject
    dsimp only at hproject
    split at hproject
    · cases hproject
    · rw [← Document.tables.inj hproject]

/-- The rows are right exactly when each of the ids has its node, and no later node that has the id
as its key makes another row. One map holds ids and keys, and the last entry under a name is the one
that is found. -/
theorem criticalRows_iff {dashboard : Value} {gantt : Gantt} {tables : Tables}
    (hfits : ∀ node ∈ gantt.nodes, Fits node) (hgantt : dashboard.field "gantt" = ganttJson gantt)
    (hrender : render dashboard = .ok (.tables tables)) :
    CriticalRows gantt tables.gantt ↔
      ∀ id ∈ gantt.criticalPath.take maxGanttRows, ∃ node ∈ gantt.nodes, node.id = id ∧
        ∃ last, lastNamed gantt.nodes id = some last ∧ nodeRow last = nodeRow node := by
  rw [CriticalRows, render_gantt hrender, hgantt, ganttRows_eq hfits, forall₂_filterMap]
  refine forall₂_congr fun id _ => ⟨fun h => ?_, fun h => ?_⟩
  · obtain ⟨row, hrow, node, hnode, hid, hsame⟩ := h
    obtain ⟨last, hlast, rfl⟩ := Option.map_eq_some_iff.mp hrow
    exact ⟨node, hnode, hid, last, hlast, hsame⟩
  · obtain ⟨node, hnode, hid, last, hlast, hsame⟩ := h
    exact ⟨nodeRow last, by rw [hlast]; rfl, node, hnode, hid, hsame⟩

/-! ### A key that is the id of another node -/

/-- A bar of thirty minutes. -/
def bar (id key title : String) (startMin : Int) : GanttNode where
  id := id
  key := key
  title := title
  status := "open"
  repo := none
  conflictGroup := none
  estimate := 30
  estimateSource := "default"
  startMin := startMin
  finishMin := startMin + 30
  slackMin := 0
  critical := true
  startAt := startMin * 60
  finishAt := (startMin + 30) * 60

/-- Two issues one after the other, with the given keys. -/
def twoBars (key key' : String) : Gantt where
  plan := "p"
  startedAt := 0
  nodes := [bar "p-1" key "first" 0, bar "p-2" key' "second" 30]
  criticalPath := ["p-1", "p-2"]
  criticalPathMinutes := 60
  totalMinutes := 60
  currentConcurrency := 0
  peakConcurrency := 1

/-- The dashboard of a chart alone, without a board. -/
def shown (gantt : Gantt) : Value :=
  .obj [("schema", .str "marbles.view.dashboard.v1"), ("gantt", ganttJson gantt)]

theorem render_shown (gantt : Gantt) : ∃ tables, render (shown gantt) = .ok (.tables tables) :=
  ⟨_, rfl⟩

theorem bar_fits {id key title : String} {startMin : Int} (h : 0 ≤ startMin ∧ startMin ≤ 30) :
    Fits (bar id key title startMin) := by
  constructor <;> simp only [bar, IsI64] <;> omega

theorem twoBars_fits (key key' : String) : ∀ node ∈ (twoBars key key').nodes, Fits node := by
  intro node hnode
  rcases List.mem_cons.mp hnode with rfl | hnode
  · exact bar_fits (by decide)
  · rw [List.mem_singleton.mp hnode]
    exact bar_fits (by decide)

/-- The second bar has the id of the first as its key, and is shown twice. -/
theorem key_shadows_id : ∃ tables, render (shown (twoBars "one" "p-1")) = .ok (.tables tables) ∧
    tables.gantt = [nodeRow (bar "p-2" "p-1" "second" 30), nodeRow (bar "p-2" "p-1" "second" 30)] ∧
      ¬ CriticalRows (twoBars "one" "p-1") tables.gantt := by
  obtain ⟨tables, hrender⟩ := render_shown (twoBars "one" "p-1")
  refine ⟨tables, hrender, ?_, fun h => ?_⟩
  · rw [render_gantt hrender]
    decide +kernel
  have hcond := (criticalRows_iff (twoBars_fits _ _) rfl hrender).mp h
  obtain ⟨node, hnode, hid, last, hlast, hrow⟩ := hcond "p-1" (by decide)
  have hfirst : node = bar "p-1" "one" "first" 0 := by
    rcases List.mem_cons.mp hnode with rfl | hnode
    · rfl
    · rw [List.mem_singleton.mp hnode] at hid
      exact absurd hid (by decide)
  have hsecond : last = bar "p-2" "p-1" "second" 30 :=
    Option.some.inj (hlast.symm.trans (by decide +kernel))
  rw [hfirst, hsecond] at hrow
  revert hrow
  decide +kernel

/-- With keys of their own both are shown. -/
theorem own_keys_shown : ∃ tables, render (shown (twoBars "one" "two")) = .ok (.tables tables) ∧
    CriticalRows (twoBars "one" "two") tables.gantt := by
  obtain ⟨tables, hrender⟩ := render_shown (twoBars "one" "two")
  refine ⟨tables, hrender, (criticalRows_iff (twoBars_fits _ _) rfl hrender).mpr fun id hid => ?_⟩
  rcases List.mem_cons.mp hid with rfl | hid
  · exact ⟨bar "p-1" "one" "first" 0, by decide, rfl, _, by decide +kernel, rfl⟩
  · obtain rfl := List.mem_singleton.mp hid
    exact ⟨bar "p-2" "two" "second" 30, by decide, rfl, _, by decide +kernel, rfl⟩

end Marbles.View
