import Marbles.Lib.Buckets
import Marbles.Lib.Forest
import Marbles.Lib.Graph
import Marbles.Lib.Table
import Marbles.Store

/-!
# Portfolio reports

The reports of `report.rs` over one page of issues: how far the work has come, what is below a
goal, the burndown, and the rollups of projects and folders. Nothing here is stored. Rates and
percentages are floating point numbers, computed as the source computes them.

Rates and percentages are floating-point numbers, computed by the same operations in the same
order; nothing is proved about them. Counts are integers, and sums over them are what the results
about the portfolio and the dashboard are about. Ages wrap and cutoffs saturate like in the
source.
-/

namespace Marbles.Report

open Buckets (bucket)
open Sorting (sortOn)

/-- The type of a container. It is not work. -/
def goalType : String := "goal"

/-! ### Progress -/

/-- How many issues are in each status, and of each kind. -/
structure Progress where
  total : Int := 0
  «open» : Int := 0
  inProgress : Int := 0
  review : Int := 0
  blocked : Int := 0
  deferred : Int := 0
  closed : Int := 0
  epics : Int := 0
  tasks : Int := 0
  /-- Closed of all, from 0 to 100, with one decimal. -/
  percentDone : Float := 0

/-- One more issue. -/
def Progress.count (out : Progress) (issue : Issue) : Progress :=
  let out := { out with total := out.total + 1 }
  let out := match issue.status with
    | "open" => { out with «open» := out.«open» + 1 }
    | "in_progress" => { out with inProgress := out.inProgress + 1 }
    | "review" => { out with review := out.review + 1 }
    | "blocked" => { out with blocked := out.blocked + 1 }
    | "deferred" => { out with deferred := out.deferred + 1 }
    | "closed" => { out with closed := out.closed + 1 }
    | _ => out
  match issue.issueType with
  | "epic" => { out with epics := out.epics + 1 }
  | "goal" => out
  | _ => { out with tasks := out.tasks + 1 }

/-- The percentage is computed once, at the end. -/
def Progress.fromIssues (issues : List Issue) : Progress :=
  let out := issues.foldl Progress.count {}
  { out with percentDone :=
      if out.total = 0 then 0
      else (Float.ofInt out.closed / Float.ofInt out.total * 1000).round / 10 }

/-! ### Goals -/

/-- From a parent to a child. -/
def parentEdges (issues : List Issue) : List (String × String) :=
  issues.filterMap fun issue => issue.parent.map fun parent => (parent, issue.id)

/-- The root and every issue below it. -/
def descendantIds (issues : List Issue) (root : String) : List String :=
  Graph.below (parentEdges issues) root

/-- The root is the container: only what is below it counts. -/
def progressFor (issues : List Issue) (root : String) : Progress :=
  .fromIssues (issues.filter fun issue => issue.id ≠ root ∧ issue.id ∈ descendantIds issues root)

/-- A goal with the progress of what is below it. -/
structure GoalSummary where
  id : String
  title : String
  status : String
  priority : Int
  project : String
  progress : Progress

/-- The goals of a project, or of all. Progress counts issues of other projects too. -/
def goalSummaries (issues : List Issue) (project : Option String) : List GoalSummary :=
  let goals := issues.filter fun issue => issue.issueType = goalType ∧
      project.all (issue.project = ·)
  sortOn (fun goal => toLex (goal.priority, goal.id)) (goals.map fun goal =>
    ⟨goal.id, goal.title, goal.status, goal.priority, goal.project, progressFor issues goal.id⟩)

/-! ### Goal trees -/

/-- The children of an issue, in the order they are shown. -/
def kids (issues : List Issue) (parent : String) : List Issue :=
  sortOn (fun issue => toLex (issue.priority, issue.id))
    (issues.filter fun issue => issue.parent = some parent)

/-- One line of a tree. An issue without a type is shown as a task. -/
def treeLine (depth : Nat) (issue : Issue) : String :=
  let indent := String.join (List.replicate depth "  ")
  let kind := if issue.issueType = "" then "task" else issue.issueType
  s!"{indent}{issue.id} [{issue.status}] {issue.title} ({kind}, p{issue.priority})"

/-- One goal and its children, depth first. The recursion of the source keeps no record of the
issues it has been to; `fuel` bounds its depth, and `none` is the case that it goes deeper. -/
def treeLines (issues : List Issue) (root : String) (fuel : Nat) : Option (List String) :=
  match issues.find? fun issue => issue.id = root with
  | none => some []
  | some issue => Forest.walk (fun issue => kids issues issue.id) treeLine fuel 0 issue []

/-! ### Burndown -/

/-- The counts at the end of a day. -/
structure BurndownDay where
  scope : Int
  done : Int
  remaining : Int
  idealRemaining : Int

/-- The days of a window, and the rate over it. The rate is none where nothing was closed in the
window, and then so is the projection. -/
structure Burndown where
  days : Int
  scope : Int
  done : Int
  remaining : Int
  burnPerDay : Option Float
  projectedDaysToZero : Option Float
  points : List BurndownDay

/-- How many issues there were at a time. -/
def createdBy (issues : List Issue) (t : Int) : Int :=
  issues.countP fun issue => issue.createdAt ≤ t

/-- How many of them were closed by then, going by what is closed now. -/
def closedBy (issues : List Issue) (t : Int) : Int :=
  issues.countP fun issue => issue.closedAt.any (· ≤ t)

/-- The end of one day of the window. -/
def burndownDay (issues : List Issue) (days start now : Int) (d : Nat) : BurndownDay :=
  let t := min (start + satI64 (d * 86400)) now
  let scope := createdBy issues t
  let done := closedBy (issues.filter fun issue => issue.createdAt ≤ t) t
  let ideal := (Float.ofInt issues.length * (1 - Float.ofNat d / Float.ofInt days)).round
  ⟨scope, done, max (scope - done) 0, max ideal.toInt64.toInt 0⟩

/-- The burndown of the last days. The rate is that of the window, and only there if something was
closed in it. -/
def burndown (issues : List Issue) (days now : Int) : Burndown :=
  let days := max days 1
  let start := satI64 (now - satI64 (days * 86400))
  let doneAtStart := closedBy issues start
  let doneNow := closedBy issues now
  let elapsedDays := Float.ofInt (now - start) / 86400
  let burnPerDay :=
    if 0 < elapsedDays ∧ doneAtStart < doneNow then
      some (Float.ofInt (doneNow - doneAtStart) / elapsedDays)
    else none
  let remaining := max ((issues.length : Int) - doneNow) 0
  { days := days
    scope := issues.length
    done := doneNow
    remaining := remaining
    burnPerDay := burnPerDay
    projectedDaysToZero := (burnPerDay.filter (0 < ·)).map (Float.ofInt remaining / ·)
    points := (List.range (days.toNat + 1)).map (burndownDay issues days start now) }

/-! ### Rollups -/

/-- A project, and the folder it is filed in. -/
structure ProjectInfo where
  slug : String
  root : String
  idPrefix : String
  folder : Option String

/-- The numbers of a project. The ages are none where there is nothing to age. -/
structure ProjectRollup where
  slug : String
  folder : Option String
  idPrefix : String
  progress : Progress
  ready : Int
  oldestReadyAgeSecs : Option Int
  stale : Int
  oldestReviewAgeSecs : Option Int
  burnPerDay : Option Float
  goals : List GoalSummary

/-- The numbers of a folder, over all its projects. `slug` is an option because the source has it
so; every folder here has one. -/
structure FolderRollup where
  slug : Option String
  name : String
  parent : Option String
  projects : List ProjectRollup
  progress : Progress
  ready : Int
  stale : Int
  burnPerDay : Option Float

/-- The numbers of everything in the scope. -/
structure PortfolioTotals where
  projects : Int
  progress : Progress
  ready : Int
  stale : Int
  burnPerDay : Option Float

/-- The projects by folder. -/
structure Portfolio where
  generatedAt : Int
  days : Int
  staleDays : Int
  folders : List FolderRollup
  unfiled : List ProjectRollup
  totals : PortfolioTotals

/-- The status of every issue, by its id. -/
def statusesOf (issues : List Issue) : Table String String :=
  issues.foldl (fun statuses issue => statuses.upsert issue.id issue.status fun _ => issue.status)
    .empty

/-- Open, past its grace, not under a live claim, and waiting for no issue that is there. -/
def isReady (issue : Issue) (statuses : Table String String) (now : Int) : Bool :=
  if issue.issueType = goalType ∨ issue.status ≠ "open" then false
  else if issue.availableAt.any (· > now) then false
  else if issue.assignee.isSome ∧ issue.expiresAt.all (· > now) then false
  else issue.dependencies.all fun dep => (dep.dependsOnId.bind statuses.find).all (· = "closed")

/-- What is not a goal. -/
def workOf (issues : List Issue) : List Issue :=
  issues.filter fun issue => issue.issueType ≠ goalType

/-- What was touched before this is stale. -/
def staleCutoff (now staleDays : Int) : Int := satI64 (now - satI64 (staleDays * 86400))

/-- Only what is to be worked on can be stale. -/
def isStale (issue : Issue) (cutoff : Int) : Bool :=
  (issue.status = "open" ∨ issue.status = "in_progress") ∧ issue.updatedAt < cutoff

/-- The age of what is oldest by a given time. -/
def oldestAge (now : Int) (times : List Int) : Option Int :=
  (times.map fun time => max (wrapI64 (now - time)) 0).max?

/-- The numbers of a project at a time. The statuses are those of all issues, because a dependency
may be an issue of another project. -/
def projectRollup (project : ProjectInfo) (issues : List Issue) (statuses : Table String String)
    (now days staleDays : Int) : ProjectRollup :=
  let work := workOf issues
  let ready := work.filter fun issue => isReady issue statuses now
  let review := work.filter fun issue => issue.status = "review"
  { slug := project.slug
    folder := project.folder
    idPrefix := project.idPrefix
    progress := .fromIssues work
    ready := ready.length
    oldestReadyAgeSecs := oldestAge now (ready.map (·.createdAt))
    stale := work.countP fun issue => isStale issue (staleCutoff now staleDays)
    oldestReviewAgeSecs := oldestAge now (review.map (·.updatedAt))
    burnPerDay := (burndown work days now).burnPerDay
    goals := (goalSummaries issues (some project.slug)).filter fun goal => goal.status ≠ "closed" }

/-- The projects of one folder, with the issues of all of them. -/
def folderRollup (issues : List Issue) (now days : Int) (folder : Folder)
    (inFolder : List ProjectRollup) : FolderRollup :=
  let folderIssues := workOf (inFolder.flatMap fun project =>
    bucket (·.project) issues project.slug)
  { slug := some folder.slug
    name := folder.name
    parent := folder.parent
    projects := inFolder
    progress := .fromIssues folderIssues
    ready := (inFolder.map (·.ready)).sum
    stale := (inFolder.map (·.stale)).sum
    burnPerDay := (burndown folderIssues days now).burnPerDay }

/-- The rollup of every project, in the order of their names. -/
def rollups (projects : List ProjectInfo) (issues statusUniverse : List Issue)
    (now days staleDays : Int) : List ProjectRollup :=
  sortOn (·.slug) (projects.map fun project =>
    projectRollup project (bucket (·.project) issues project.slug) (statusesOf statusUniverse) now
      days staleDays)

/-- The portfolio of some issues, whose dependencies have their statuses in the whole store. -/
def portfolioWithUniverse (projects : List ProjectInfo) (folders : List Folder)
    (issues statusUniverse : List Issue) (now days staleDays : Int) : Portfolio :=
  let rollups := rollups projects issues statusUniverse now days staleDays
  let folderRollups := folders.filterMap fun folder =>
    let inFolder := rollups.filter fun project => project.folder = some folder.slug
    if inFolder.isEmpty then none else some (folderRollup issues now days folder inFolder)
  let work := workOf issues
  { generatedAt := now
    days := days
    staleDays := staleDays
    folders := sortOn (·.name) folderRollups
    unfiled := rollups.filter fun project =>
      project.folder.isNone || !folders.any fun folder => some folder.slug = project.folder
    totals :=
      { projects := projects.length
        progress := .fromIssues work
        ready := (rollups.map (·.ready)).sum
        stale := (rollups.map (·.stale)).sum
        burnPerDay := (burndown work days now).burnPerDay } }

/-- The portfolio of a whole page. -/
def portfolio (projects : List ProjectInfo) (folders : List Folder) (issues : List Issue)
    (now days staleDays : Int) : Portfolio :=
  portfolioWithUniverse projects folders issues issues now days staleDays

/-! ### What the parts say -/

/-- What is below a goal is what its children lead to. -/
theorem mem_descendantIds {issues : List Issue} {root id : String} :
    id ∈ descendantIds issues root ↔
      Relation.ReflTransGen (fun parent child => ∃ issue ∈ issues, issue.parent = some parent ∧
        issue.id = child) root id := by
  have hedge : Graph.Edge (parentEdges issues) = fun parent child =>
      ∃ issue ∈ issues, issue.parent = some parent ∧ issue.id = child := by
    funext parent child
    refine propext (List.mem_filterMap.trans (exists_congr fun issue => ?_))
    refine and_congr_right fun _ => ?_
    simp
  rw [descendantIds, Graph.mem_below, hedge]

/-- Only the total of the progress is needed here. -/
@[simp] theorem Progress.total_count (out : Progress) (issue : Issue) :
    (out.count issue).total = out.total + 1 := by
  unfold Progress.count
  dsimp only
  split <;> split <;> rfl

@[simp] theorem Progress.total_fromIssues (issues : List Issue) :
    (Progress.fromIssues issues).total = issues.length := by
  have hfold : ∀ (issues : List Issue) (out : Progress),
      (issues.foldl Progress.count out).total = out.total + issues.length := by
    intro issues
    induction issues with
    | nil => exact fun out => (Int.add_zero _).symm
    | cons issue issues ih =>
        intro out
        rw [List.foldl_cons, ih, Progress.total_count, List.length_cons]
        omega
  have h := hfold issues {}
  rwa [Int.zero_add] at h

end Marbles.Report
