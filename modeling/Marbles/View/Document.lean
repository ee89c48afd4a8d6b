import Marbles.Dashboard
import Marbles.View.Timestamp

/-!
# The document of the viewer

`render` turns the JSON of a dashboard into the tables that are shown. It reads the JSON alone,
field by field, and takes what is missing or of another type for zero, an empty text or nothing. The
metric board and the series of the burndown, which are drawn from fractions, are left out.

Rows are compared as JSON, with the same cells in the same order. The reading functions never
fail, and that is part of what is modelled: a dashboard of another version shows blanks and zeros
and no error, apart from its schema.
-/

namespace Marbles.View

open Json (Value)
open Plan (Gantt GanttNode)
open Report (Dashboard ScrumCard ScrumColumn)

/-- The document has a fixed size; what does not fit is not shown. -/
def maxReadyRows : Nat := 18

/-- The rows of the table in flight. -/
def maxFlowRows : Nat := 10

/-- The rows of the critical path. -/
def maxGanttRows : Nat := 10

/-! ### Reading -/

/-- `as_i64`, with 0 for what is no number. -/
def number (value : Value) : Int := value.asI64.getD 0

/-- `as_str`, with the empty text for what is no string. -/
def text (value : Value) : String := value.asStr.getD ""

/-- An estimate that is missing is left blank, where a number would read as 0. -/
def estimate (value : Value) : String := (value.asI64.map toString).getD ""

/-- The row of a card under the status of its table; the JSON of a card has none. -/
def cardRow (card : Value) (status : String) : Value :=
  .arr [.str status, .str (text (card.field "id")), .str (text (card.field "project")),
    .str (text (card.field "title")), .str (text (card.field "assignee")),
    .str (toString (number (card.field "blocked_by"))), .str (estimate (card.field "estimate"))]

/-- The cards of the ready table and of the table in flight, from the columns. The last column of a
status is the one that counts. -/
def laneCards (columns : List Value) : List Value × List Value :=
  columns.foldl (fun (ready, inFlight) column =>
    let status := text (column.field "status")
    let cards := ((column.field "cards").asArray).getD []
    if status = "open" then
      (cards.filter fun card => number (card.field "blocked_by") = 0, inFlight)
    else if status = "in_progress" then (ready, cards)
    else (ready, inFlight)) ([], [])

/-- The map `by_id`: every node under its id, and then under its key. -/
def byId (nodes : List Value) : String → Option Value :=
  nodes.foldl (fun map node =>
    ["id", "key"].foldl (fun map key => match (node.field key).asStr with
      | some id => Function.update map id (some node)
      | none => map) map) fun _ => none

/-- The row of a node. Only nodes on the critical path get one. -/
def ganttRow (node : Value) : Value :=
  .arr [.str (toString (number (node.field "start_min")) ++ "m"),
    .str (toString (number (node.field "finish_min")) ++ "m"), .str "critical",
      .str (text (node.field "status")), .str (text (node.field "key")),
    .str (text (node.field "title")), .str (estimate (node.field "estimate"))]

/-- The path is cut before its ids are looked up, so an id without a node takes up a row that is not
shown. -/
def ganttRows (gantt : Value) : List Value :=
  let byId := byId ((gantt.field "nodes").asArray.getD [])
  match (gantt.field "critical_path").asArray with
  | some path =>
      ((path.filterMap Value.asStr).take maxGanttRows).filterMap fun id => (byId id).map ganttRow
  | none => []

/-! ### The document -/

/-- The tables that are shown, with the time and the revision of the dashboard. -/
structure Tables where
  revision : Int
  observedAt : String
  ready : List Value
  flow : List Value
  gantt : List Value

/-- The burndown has no tables of its own: it is drawn from the history elsewhere. -/
inductive Document where
  | tables (tables : Tables)
  | burndown (revision : Int) (observedAt : String)

/-- The document of a dashboard. A revision that is no `u64` reads as 1. -/
def project (dashboard : Value) : Document :=
  let revision := (((dashboard.field "view_revision").asInt).filter fun n =>
    0 ≤ n ∧ n < 2 ^ 64).getD 1
  let observedAt := observedAt (number (dashboard.field "generated_at"))
  if (dashboard.field "view_mode").asStr = some "burndown" then .burndown revision observedAt
  else
    let columns := (((dashboard.field "scrum").field "columns").asArray).getD []
    let (ready, inFlight) := laneCards columns
    .tables
      { revision
        observedAt
        ready := (ready.take maxReadyRows).map fun card => cardRow card "open"
        flow := (inFlight.take maxFlowRows).map fun card => cardRow card "in_progress"
        gantt := ganttRows (dashboard.field "gantt") }

/-- Only the schema is checked; every field below it has a default. -/
def render (dashboard : Value) : Except String Document :=
  if (dashboard.field "schema").asStr ≠ some "marbles.view.dashboard.v1" then
    .error ("unexpected dashboard schema: " ++ (dashboard.field "schema").text)
  else .ok (project dashboard)

/-! ### The JSON of a dashboard -/

/-- A card as it is serialized: an absent value is written as `null`. -/
def cardJson (card : ScrumCard) : Value :=
  .obj [("id", .str card.id), ("title", .str card.title), ("project", .str card.project),
    ("priority", .num card.priority), ("issue_type", .str card.issueType),
    ("assignee", .ofStr? card.assignee), ("labels", .arr (card.labels.map .str)),
    ("epic", .ofStr? card.epic), ("blocked_by", .num card.blockedBy),
    ("age_seconds", .num card.ageSeconds), ("estimate", .ofInt? card.estimate),
    ("plan", .ofStr? card.plan)]

/-- A column with its cards. -/
def columnJson (column : ScrumColumn) : Value :=
  .obj [("status", .str column.status), ("title", .str column.title), ("count", .num column.count),
    ("wip_limit", .ofInt? column.wipLimit), ("cards", .arr (column.cards.map cardJson))]

/-- A field that is only written when it is there. -/
def optional (key : String) (value : Option String) : List (String × Value) :=
  (value.map fun s => (key, .str s)).toList

/-- A node as it is serialized. The repository and the group are left out when they are absent. -/
def nodeJson (node : GanttNode) : Value :=
  .obj ([("id", .str node.id), ("key", .str node.key), ("title", .str node.title),
    ("status", .str node.status)] ++ optional "repo" node.repo ++
      optional "conflict_group" node.conflictGroup ++
    [("estimate", .num node.estimate), ("estimate_source", .str node.estimateSource),
      ("start_min", .num node.startMin), ("finish_min", .num node.finishMin),
      ("slack_min", .num node.slackMin), ("critical", .bool node.critical),
      ("start_at", .num node.startAt), ("finish_at", .num node.finishAt)])

/-- The chart with its nodes in the order of the plan. -/
def ganttJson (gantt : Gantt) : Value :=
  .obj [("plan", .str gantt.plan), ("started_at", .num gantt.startedAt),
    ("nodes", .arr (gantt.nodes.map nodeJson)),
    ("critical_path", .arr (gantt.criticalPath.map .str)),
    ("critical_path_minutes", .num gantt.criticalPathMinutes),
    ("total_minutes", .num gantt.totalMinutes),
    ("current_concurrency", .num gantt.currentConcurrency),
    ("peak_concurrency", .num gantt.peakConcurrency)]

/-- What the tables are made from of the JSON of a dashboard, with the revision and the mode that
are added before it is shown. -/
def dashboardJson (d : Dashboard) (revision : Nat) (mode : String) : Value :=
  .obj [("schema", .str d.schema), ("generated_at", .num d.generatedAt),
    ("scrum", .obj [("columns", .arr (d.scrum.columns.map columnJson))]),
    ("gantt", ganttJson d.gantt), ("view_revision", .num revision), ("view_mode", .str mode)]

/-! ### What is read back -/

theorem number_num {n : Int} (h : IsI64 n) : number (.num n) = n := by
  rw [number, Value.asI64, Value.asInt_num, Option.filter_some, if_pos (by simpa [IsI64] using h),
    Option.getD_some]

theorem estimate_num {n : Int} (h : IsI64 n) : estimate (.num n) = toString n := by
  rw [estimate, Value.asI64, Value.asInt_num, Option.filter_some, if_pos (by simpa [IsI64] using h),
    Option.map_some, Option.getD_some]

end Marbles.View
