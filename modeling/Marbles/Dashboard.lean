import Marbles.Db.Ops
import Marbles.GanttI64
import Marbles.Report

/-!
# The dashboard

Views over the issues of one scope: the scrum board, the chart of a scope, and the dashboard that
puts them next to the portfolio. Statuses of dependencies come from the whole store. The views
compute from lists; `viewsDashboard` is the endpoint that reads the lists from a store.

The functions follow `report.rs` and the second half of `plan.rs` in that they take decoded issues
and return values to be serialized; nothing here reads a row. Arithmetic on times wraps or
saturates where the source uses the operations that do. The chart is given the kind of build it is
drawn by, which only matters for numbers that `i64` does not hold.
-/

namespace Marbles.Plan

open Sorting (sortOn)

/-! ### The chart of a scope -/

/-- A graph over given nodes, refused when they wait for each other in a circle. -/
def PlanGraph.scoped (name : String) (nodes : List Issue) (statusOf : List (String × String))
    (defaultEstimate : Int) : Result PlanGraph := do
  let graph : PlanGraph := ⟨name, nodes, statusOf, max defaultEstimate 1⟩
  let _ ← graph.topo
  pure graph

/-- The scope a chart was asked for, as it is reported with the chart. -/
structure GanttScope where
  project : Option String
  folder : Option String
  plan : Option String
  deriving DecidableEq

/-- A chart with what it was drawn for. -/
structure GanttView where
  gantt : Gantt
  scope : GanttScope
  defaultEstimateMin : Int

/-- The issues a chart has bars for, in plan order. -/
def scheduled (selected : List Issue) (includeClosed : Bool) : List Issue :=
  sortOn planKey (selected.filter fun issue =>
    issue.issueType ≠ Report.goalType && (includeClosed || issue.status ≠ "closed"))

/-- The chart of the selected issues. The statuses are those of all issues, since a blocker may lie
outside the scope. -/
def ganttScoped (mode : Overflow) (allIssues selected : List Issue) (scope : GanttScope)
    (includeClosed : Bool) (defaultEstimateMin now : Int) : Result GanttView := do
  let statusOf := allIssues.map fun issue => (issue.id, issue.status)
  let name := (scope.plan <|> scope.project <|> scope.folder).getD "all"
  let graph ← PlanGraph.scoped name (scheduled selected includeClosed) statusOf defaultEstimateMin
  let chart ← ganttI64 mode graph now
  pure ⟨chart, scope, max defaultEstimateMin 1⟩

end Marbles.Plan

namespace Marbles.Report

open Buckets (bucket)
open Plan (Gantt planNameOf metadataEstimate ganttScoped)
open Sorting (sortOn)

/-! ### Scopes -/

/-- What a view is restricted to; `none` is no restriction. -/
structure ViewScope where
  project : Option String := none
  folder : Option String := none
  plan : Option String := none
  deriving DecidableEq

/-- The projects filed in a folder. -/
def folderProjects (projects : List ProjectInfo) (folder : String) : List String :=
  (projects.filter fun project => project.folder = some folder).map (·.slug)

/-- The issues of a scope. -/
def scopeIssues (issues : List Issue) (projects : List ProjectInfo) (scope : ViewScope) :
    List Issue :=
  issues.filter fun issue =>
    scope.project.all (issue.project = ·) &&
      scope.folder.all (fun folder => issue.project ∈ folderProjects projects folder) &&
      scope.plan.all (planNameOf issue = some ·)

/-- The projects of a scope. A plan has the projects of its issues. -/
def selectedProjects (projects : List ProjectInfo) (selected : List Issue) (scope : ViewScope) :
    List ProjectInfo :=
  projects.filter fun project =>
    scope.project.all (project.slug = ·) && scope.folder.all (project.folder = some ·) &&
      (scope.plan.isNone || project.slug ∈ selected.map (·.project))

/-! ### The scrum board -/

/-- A card of the board. -/
structure ScrumCard where
  id : String
  title : String
  project : String
  priority : Int
  issueType : String
  assignee : Option String
  labels : List String
  epic : Option String
  blockedBy : Int
  ageSeconds : Int
  estimate : Option Int
  plan : Option String

/-- The cards of one status, and how many they are. -/
structure ScrumColumn where
  status : String
  title : String
  count : Int
  wipLimit : Option Int
  cards : List ScrumCard

/-- The columns of one project. -/
structure ScrumSwimlane where
  key : String
  title : String
  columns : List ScrumColumn

/-- The columns of all the work, and the same work in swimlanes. -/
structure ScrumBoard where
  columns : List ScrumColumn
  swimlanes : List ScrumSwimlane

/-- What a column is called. The open ones are called ready, whether they are or not. The texts are
part of the answer, so they are kept as the source has them. -/
def columnTitle : String → String
  | "open" => "Ready"
  | "in_progress" => "In progress"
  | "review" => "Review"
  | "blocked" => "Blocked"
  | "deferred" => "Deferred"
  | "closed" => "Closed"
  | _ => "Unknown"

/-- The dependencies that still block an issue. One that is not in the store counts. -/
def blockedBy (issue : Issue) (statuses : Table String String) : Int :=
  issue.dependencies.countP fun dep => (dep.dependsOnId.bind statuses.find).all (· ≠ "closed")

/-- The card of an issue. A creation time in the future gives an age of 0. -/
def scrumCard (statuses : Table String String) (now : Int) (issue : Issue) : ScrumCard where
  id := issue.id
  title := issue.title
  project := issue.project
  priority := issue.priority
  issueType := issue.issueType
  assignee := issue.assignee
  labels := issue.labels
  epic := issue.parent
  blockedBy := blockedBy issue statuses
  ageSeconds := max (wrapI64 (now - issue.createdAt)) 0
  estimate := metadataEstimate issue
  plan := planNameOf issue

/-- One column for every status, in their order. -/
def scrumColumns (work : List Issue) (statuses : Table String String) (now : Int) :
    List ScrumColumn :=
  allStatuses.map fun status =>
    let cards := (bucket (·.status) work status).map (scrumCard statuses now)
    ⟨status, columnTitle status, cards.length, none, cards⟩

/-- The board of some issues, and again project by project. -/
def scrum (selected allIssues : List Issue) (now : Int) : ScrumBoard :=
  let statuses := statusesOf allIssues
  let work :=
    sortOn (fun issue => listKey issue.priority issue.createdAt issue.id) (workOf selected)
  { columns := scrumColumns work statuses now
    swimlanes := (distinct (work.map (·.project))).map fun project =>
      ⟨project, project, scrumColumns (bucket (·.project) work project) statuses now⟩ }

/-! ### The dashboard -/

/-- The numbers at the top of a dashboard. -/
structure DashboardTotals where
  total : Int
  «open» : Int
  inProgress : Int
  review : Int
  blocked : Int
  closed : Int
  ready : Int
  stale : Int
  percentDone : Float

/-- A dashboard: the reports over one scope at one time. Everything in it is of one listing and one
time, so that its parts can be compared. -/
structure Dashboard where
  schema : String
  generatedAt : Int
  scope : ViewScope
  totals : DashboardTotals
  portfolio : Portfolio
  burndown : Burndown
  scrum : ScrumBoard
  gantt : Gantt

/-- The totals of some work. Here a negative number of days is none. -/
def dashboardTotals (work allIssues : List Issue) (now staleDays : Int) : DashboardTotals :=
  let progress := Progress.fromIssues work
  let statuses := statusesOf allIssues
  { total := progress.total
    «open» := progress.«open»
    inProgress := progress.inProgress
    review := progress.review
    blocked := progress.blocked
    closed := progress.closed
    ready := work.countP fun issue => isReady issue statuses now
    stale := work.countP fun issue => isStale issue (staleCutoff now (max staleDays 0))
    percentDone := progress.percentDone }

/-- All reports are made of one listing, so that they agree on the issues there are. -/
def dashboard (mode : Overflow) (projects : List ProjectInfo) (folders : List Folder)
    (allIssues : List Issue) (scope : ViewScope) (days staleDays defaultEstimateMin now : Int) :
    Result Dashboard := do
  let days := max days 1
  let selected := scopeIssues allIssues projects scope
  let work := workOf selected
  let view ← ganttScoped mode allIssues selected ⟨scope.project, scope.folder, scope.plan⟩ false
    defaultEstimateMin now
  pure
    { schema := "marbles.view.dashboard.v1"
      generatedAt := now
      scope := scope
      totals := dashboardTotals work allIssues now staleDays
      portfolio := portfolioWithUniverse (selectedProjects projects selected scope) folders selected
        allIssues now days staleDays
      burndown := burndown work days now
      scrum := scrum selected allIssues now
      gantt := view.gantt }

/-! ### The endpoint -/

/-- The body of a request, with its defaults. -/
structure ViewsDashboardBody where
  project : Option String := none
  folder : Option String := none
  plan : Option String := none
  days : Int := 14
  staleDays : Int := 7

/-- The projects of a store, each with the folder it is filed in. -/
def projectInfos (rows : List (String × String × String)) (view : FolderView) : List ProjectInfo :=
  rows.map fun row => ⟨row.1, row.2.1, row.2.2,
    (view.projects.find? fun project => project.project = row.1).map (·.folder)⟩

/-- Two calls of the store: a project may be moved in between. -/
def viewProjects : Db.DbM (List ProjectInfo) := do
  let rows ← Db.call .projects
  let folders ← Db.call .folderView
  pure (projectInfos rows folders)

/-- The endpoint. Issues, projects and folders are read one after another. Another caller may write
in between, but all issues come from the first of the three. -/
def viewsDashboard (mode : Overflow) (body : ViewsDashboardBody) (now : Int) :
    Db.DbM Dashboard := do
  let all ← Db.call (.list none true none)
  let projects ← viewProjects
  let folders ← Db.call .folderView
  Db.liftResult (dashboard mode projects folders.folders all
    ⟨body.project, body.folder, body.plan⟩ body.days body.staleDays Plan.defaultEstimateMinutes
    now)

end Marbles.Report
