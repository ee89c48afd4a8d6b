import Marbles.Db.Ops
import Marbles.Lib.Topo

/-!
# Plans

A plan is a view over issues: the nodes are the issues whose metadata names the plan, the
edges are their dependencies. `load` reads the nodes from the store and refuses a plan
with a cycle; `ready` computes the frontier an executor consumes, at most one node of
each conflict group.

A node is *running* here when its status is `in_progress`. The lease columns only keep
the node itself from being offered.

Everything here is a function of a list of issues. Dependencies on issues outside the plan do not
order its nodes and still gate them, so the status of every issue of the store is kept in the
graph. Ids are looked up the way the source's map does it: of several nodes with one id the last
is found.
-/

namespace Marbles.Plan

open Json (Value)
open Sorting (sortOn)

/-! ### What the metadata says -/

def metaPlan : String := "plan"
def metaKey : String := "plan_key"
def metaDone : String := "done_means"
def metaRepo : String := "repo"
def metaGroup : String := "conflict_group"
def metaAcceptance : String := "acceptance"
def metaRisk : String := "risk"
def metaEstimate : String := "estimate"

/-- The duration of a node that does not say, in minutes. -/
def defaultEstimateMinutes : Int := 30

/-- The status that keeps a conflict group busy. -/
def runningStatus : String := "in_progress"

/-- A metadata field that is a text; a number under the key counts as missing. -/
def metaStr (issue : Issue) (key : String) : Option String :=
  (issue.metadata.get key).bind Value.asStr

/-- An integer, or a text that spells one. -/
def metaI64 (issue : Issue) (key : String) : Option Int :=
  (issue.metadata.get key).bind fun v =>
    v.asI64 <|> (v.asStr.bind fun s => parseI64 (trim s))

/-- The plan of an issue. Nothing but this field makes it a node of one. -/
def planNameOf (issue : Issue) : Option String := metaStr issue metaPlan

/-- The estimate the metadata carries, when it is usable. -/
def metadataEstimate (issue : Issue) : Option Int :=
  (metaI64 issue metaEstimate).filter (· > 0)

/-- The duration of a node, and where it came from. -/
def estimateOfWithDefault (issue : Issue) (default : Int) : Int × String :=
  match metadataEstimate issue with
  | some minutes => (minutes, "metadata")
  | none => (max default 1, "default")

/-- The group a node shares with nodes it must not run beside. An empty name is no group. -/
def conflictGroup (issue : Issue) : Option String := (metaStr issue metaGroup).filter (· ≠ "")

/-- Held, and not past the lease: a lapsed claim holds nothing back. -/
def isLiveClaim (issue : Issue) (now : Int) : Bool := heldAt issue.assignee issue.expiresAt now

/-- The spec key of a node, its id when it has none. -/
def keyOf (issue : Issue) : String := (metaStr issue metaKey).getD issue.id

/-- Plan order: priority, authoring order, spec key; the random id comes last. -/
def planKey (issue : Issue) : Int ×ₗ Int ×ₗ String ×ₗ String :=
  toLex (issue.priority, toLex (issue.createdAt, toLex (keyOf issue, issue.id)))

/-! ### The graph -/

/-- A node as the views of a plan report it. -/
structure NodeView where
  id : String
  key : String
  title : String
  status : String
  repo : Option String
  conflictGroup : Option String
  risk : Option String
  estimate : Int
  doneMeans : Option String
  acceptance : Option String
  /-- Dependencies that are nodes of the plan. -/
  deps : List String
  /-- Dependencies outside the plan. -/
  externalDeps : List String
  assignee : Option String
  priority : Option Int
  deriving DecidableEq

/-- The plan as loaded. `statusOf` covers the whole store, since a blocker may lie outside
the plan. -/
structure PlanGraph where
  plan : String
  nodes : List Issue
  statusOf : List (String × String)
  defaultEstimate : Int

namespace PlanGraph

/-- The dependencies that name an issue. -/
def depIds (issue : Issue) : List String := issue.dependencies.filterMap (·.dependsOnId)

/-- Is there a node with this id? -/
def isNode (graph : PlanGraph) (id : String) : Bool := id ∈ graph.nodes.map (·.id)

/-- The dependencies within the plan, which order its nodes. -/
def internalDeps (graph : PlanGraph) (issue : Issue) : List String :=
  (depIds issue).filter graph.isNode

/-- The dependencies outside the plan. They gate a node, and have no place in the order. -/
def externalDeps (graph : PlanGraph) (issue : Issue) : List String :=
  (depIds issue).filter fun id => !graph.isNode id

/-- The place of the node with this id; of several, the last. -/
def index (graph : PlanGraph) (id : String) : Option Nat :=
  (graph.nodes.zipIdx.reverse.find? fun node => node.1.id = id).map Prod.snd

/-- The places of the nodes an issue depends on. -/
def parents (graph : PlanGraph) (issue : Issue) : List Nat :=
  (depIds issue).filterMap graph.index

/-- The edges between nodes, each given by its place in the list. -/
def edges (graph : PlanGraph) : Topo.Edges :=
  graph.nodes.zipIdx.flatMap fun node =>
    (graph.parents node.1).map fun parent => (parent, node.2)

/-- Dependencies before dependents. -/
def topo (graph : PlanGraph) : Result (List Nat) :=
  Outcome.ofOption
    (.bad s!"plan {debugStr graph.plan} has a dependency cycle among its nodes")
    (Topo.sort graph.nodes.length graph.edges)

/-- The report of a node. -/
def nodeView (graph : PlanGraph) (issue : Issue) : NodeView where
  id := issue.id
  key := keyOf issue
  title := issue.title
  status := issue.status
  repo := metaStr issue metaRepo
  conflictGroup := conflictGroup issue
  risk := metaStr issue metaRisk
  estimate := (estimateOfWithDefault issue graph.defaultEstimate).1
  doneMeans := metaStr issue metaDone
  acceptance := metaStr issue metaAcceptance
  deps := graph.internalDeps issue
  externalDeps := graph.externalDeps issue
  assignee := issue.assignee
  priority := some issue.priority

/-- The stored status of an issue; one that is not there counts as open. -/
def status (graph : PlanGraph) (id : String) : String := (graph.statusOf.lookup id).getD "open"

/-- The graph of a plan among all the issues of a store. The statuses are those of all issues, since
a dependency may lie outside of the plan. -/
def ofIssues (planName : String) (all : List Issue) : Result PlanGraph := do
  let nodes := all.filter fun issue => planNameOf issue = some planName
  if nodes.isEmpty then Outcome.fail (.notFound s!"plan {planName}")
  else
    let graph := ⟨planName, sortOn planKey nodes, all.map fun issue => (issue.id, issue.status),
      defaultEstimateMinutes⟩
    let _ ← graph.topo
    pure graph

end PlanGraph

/-- Read a plan from the store, in one listing. -/
def load (planName : String) : Db.DbM PlanGraph := do
  let all ← Db.call (.list none true none)
  Db.liftResult (PlanGraph.ofIssues planName all)

/-! ### The frontier -/

/-- A node that is held back, and why. The first reason that applies is given, in the order of the
checks. -/
structure BlockedNode where
  id : String
  key : String
  title : String
  /-- `deps`, `conflict_group`, `claim`, `not_open` or `grace`. -/
  reason : String
  detail : String
  deriving DecidableEq

/-- The frontier of a plan. Every node of the plan is in exactly one of the two lists. -/
structure ReadyView where
  plan : String
  ready : List NodeView
  blocked : List BlockedNode
  /-- Conflict groups with a node in progress. -/
  busyGroups : Table String String
  totalNodes : Nat
  deriving DecidableEq

/-- The node held back for a reason. -/
def NodeView.block (node : NodeView) (reason detail : String) : BlockedNode :=
  ⟨node.id, node.key, node.title, reason, detail⟩

/-- The groups that are running, each with the last of its nodes in progress. -/
def busyGroups (views : List NodeView) : Table String String :=
  views.foldl (fun busy node => match node.conflictGroup with
    | some group =>
        if node.status = runningStatus then busy.upsert group node.id fun _ => node.id else busy
    | none => busy) .empty

/-- The dependencies of a node that are not closed. -/
def openDeps (graph : PlanGraph) (issue : Issue) : List String :=
  (graph.internalDeps issue ++ graph.externalDeps issue).filter fun dep =>
    graph.status dep ≠ "closed"

/-- Why a node may not be offered, whatever its group does. The order of the checks is part of the
answer, which names the first one that fails. -/
def gate (graph : PlanGraph) (now : Int) (issue : Issue) : Option (String × String) :=
  if issue.status ≠ "open" then some ("not_open", s!"status is {issue.status}")
  else if isLiveClaim issue now then
    some ("claim", "claimed by " ++ issue.assignee.getD "?")
  else if issue.availableAt.any (· > now) then
    some ("grace", s!"available in {wrapI64 (issue.availableAt.getD now - now)}s")
  else if openDeps graph issue ≠ [] then
    some ("deps", "waits on " ++ ", ".intercalate (openDeps graph issue))
  else none

/-- The nodes offered so far, the groups they use up, and those held back. -/
structure Frontier where
  chosenGroups : List String
  ready : List NodeView
  blocked : List BlockedNode

/-- Offer one more candidate unless its group is busy or has been offered already. So at most one
node of a group is on the frontier, the first in the order of the candidates. -/
def offer (busy : Table String String) (f : Frontier) (node : NodeView) : Frontier :=
  match node.conflictGroup with
  | none => { f with ready := f.ready ++ [node] }
  | some group => match busy.find group with
      | some running => { f with blocked := f.blocked ++ [node.block "conflict_group"
          s!"group {debugStr group} busy with running node {running}"] }
      | none =>
          if group ∈ f.chosenGroups then { f with blocked := f.blocked ++ [node.block
            "conflict_group" s!"group {debugStr group} already has a node in this frontier"] }
          else { f with chosenGroups := group :: f.chosenGroups, ready := f.ready ++ [node] }

/-- The nodes in the order of the indices. -/
def PlanGraph.walk (graph : PlanGraph) (order : List Nat) : List Issue :=
  order.filterMap fun i => graph.nodes[i]?

/-- The nodes that only their group can still hold back, in plan order. -/
def candidates (graph : PlanGraph) (now : Int) (order : List Nat) : List Issue :=
  sortOn planKey ((graph.walk order).filter fun issue => (gate graph now issue).isNone)

/-- The nodes that are held back in any case, in topological order. -/
def gated (graph : PlanGraph) (now : Int) (order : List Nat) : List BlockedNode :=
  (graph.walk order).filterMap fun issue =>
    (gate graph now issue).map fun why => (graph.nodeView issue).block why.1 why.2

/-- Every node is either offered or held back. The groups of running nodes are taken first, and then
one node of each group in plan order. -/
def ready (graph : PlanGraph) (now : Int) : Result ReadyView := do
  let order ← graph.topo
  let views := graph.nodes.map graph.nodeView
  let busy := busyGroups views
  let frontier := ((candidates graph now order).map graph.nodeView).foldl (offer busy)
    ⟨[], [], gated graph now order⟩
  pure ⟨graph.plan, frontier.ready, frontier.blocked, busy, views.length⟩

end Marbles.Plan
