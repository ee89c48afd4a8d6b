import Marbles.Plan

/-!
# Plan specs

A spec is the draft of a plan. `validate` reports every problem of a spec, and `create`
writes one that has none: it looks whether the name is taken, creates an issue for each
node and adds the dependencies. Each of these is a call of the store of its own.

Validation collects problems and does not stop at the first, and its texts are kept, since they
are what an author sees. The search for cycles colors keys like the source: 1 on the way, 2 when
done. Its fuel is not in the source; that it is never used up is shown where the search is
studied.
-/

namespace Marbles.Plan

open Json (Value Object)
open Db (DbI DbM)

/-- One node of a plan spec. The defaults are serde's, so a field that is left out is as good as an
empty one. -/
structure NodeSpec where
  key : String
  title : String
  description : String := ""
  /-- The plan's project when empty. -/
  project : String := ""
  repo : String := ""
  conflictGroup : String := ""
  risk : String := ""
  /-- Minutes. -/
  estimate : Option Int := none
  doneMeans : String := ""
  acceptance : String := ""
  /-- Keys of the nodes this one waits for. -/
  deps : List String := []
  priority : Option Int := none
  labels : List String := []

/-- A spec with its name and project. -/
structure ResolvedPlan where
  plan : String
  project : String
  nodes : List NodeSpec

/-- A node as `create` and `draft` report it. -/
structure CreatedNode where
  key : String
  id : String
  title : String
  project : String
  deps : List String
  metadata : Value
  deriving DecidableEq

/-- The child waits for the parent. -/
structure Edge where
  child : String
  parent : String
  deriving DecidableEq

/-- What was created, or what would be. -/
structure CreateReport where
  plan : String
  project : String
  nodes : List CreatedNode
  edges : List Edge
  deriving DecidableEq

/-! ### Validation -/

/-- Leaving the risk out is fine. -/
def validateRisk (risk : String) : Bool :=
  risk ∈ ["", "low", "medium", "high", "critical"]

/-- What is wrong with the fields of a node, after the keys of the nodes before it. All problems are
reported at once, since a plan is written by hand. -/
def nodeProblems (keys : List String) (node : NodeSpec) : List String :=
  (if trim node.key = "" then [s!"node {debugStr node.title} has an empty key"]
    else if node.key ∈ keys then [s!"duplicate node key {debugStr node.key}"] else []) ++
  (if trim node.title = "" then [s!"node {debugStr node.key} has an empty title"] else []) ++
  (if validateRisk node.risk then [] else
    [s!"node {debugStr node.key} has risk {debugStr node.risk} " ++
      "(expected low, medium, high, or critical)"]) ++
  if node.estimate.any (· ≤ 0) then [s!"node {debugStr node.key} has a non-positive estimate"]
    else []

/-- The keys of the nodes that have one. -/
def specKeys (nodes : List NodeSpec) : List String :=
  (nodes.filter fun node => trim node.key ≠ "").map NodeSpec.key

/-- The problems of the nodes, one after the other. -/
def nodesProblems : List String → List NodeSpec → List String
  | _, [] => []
  | keys, node :: nodes =>
      nodeProblems keys node ++ nodesProblems (keys ++ specKeys [node]) nodes

/-- What is wrong with the dependencies of a node. -/
def depProblems (keys : List String) (node : NodeSpec) : List String :=
  node.deps.filterMap fun dep =>
    if dep = node.key then some s!"node {debugStr node.key} depends on itself"
    else if dep ∈ keys then none
    else some s!"node {debugStr node.key} depends on unknown key {debugStr dep}"

/-- The node of a key; of two with one key the later counts. -/
def byKey (nodes : List NodeSpec) (key : String) : Option NodeSpec :=
  nodes.reverse.find? fun node => node.key = key

/-- The colors of the keys met so far, and the problems found. -/
structure Visit where
  color : String → Option Nat
  problems : List String

/-- Walk down from a key: 1 is the color of the keys on the way, 2 of those that are done.
Every nested visit colors a node that had no color, so the walk is never deeper than the
number of nodes. -/
def visit (nodes : List NodeSpec) : Nat → String → Visit → Visit
  | 0, _, s => s
  | fuel + 1, key, s => match s.color key with
      | some 1 => { s with problems := s.problems ++ [s!"dependency cycle at node {debugStr key}"] }
      | some 2 => s
      | _ =>
          let s := { s with color := Function.update s.color key (some 1) }
          let s := match byKey nodes key with
            | some node => node.deps.foldl (fun s dep =>
                if (byKey nodes dep).isSome then visit nodes fuel dep s else s) s
            | none => s
          { s with color := Function.update s.color key (some 2) }

/-- The cycles of the spec keys. -/
def cycleProblems (nodes : List NodeSpec) : List String :=
  (nodes.foldl (fun s node => visit nodes (nodes.length + 1) node.key s)
    ⟨fun _ => none, []⟩).problems

/-- Every problem of a spec. An empty list is what both `draft` and `create` ask for before anything
else. -/
def validate (plan : ResolvedPlan) : List String :=
  (if trim plan.plan = "" then ["plan name is empty"] else []) ++
  (if trim plan.project = "" then
    ["project is empty; pass --project or run inside a project"] else []) ++
  (if plan.nodes.isEmpty then ["plan has no nodes"] else []) ++
  nodesProblems [] plan.nodes ++
  plan.nodes.flatMap (depProblems (specKeys plan.nodes)) ++
  cycleProblems plan.nodes

/-! ### Metadata -/

/-- A field that is left out when it is empty. -/
def insertText (key value : String) (meta_ : Object) : Object :=
  if value = "" then meta_ else Object.insert key (.str value) meta_

/-- The metadata block of a node. A text that is empty is left out, so reading it back gives none.
-/
def metadataFor (plan : ResolvedPlan) (node : NodeSpec) : Object :=
  let meta_ := Object.insert metaKey (.str node.key) (Object.insert metaPlan (.str plan.plan) [])
  let meta_ := insertText metaDone node.doneMeans meta_
  let meta_ := insertText metaRepo node.repo meta_
  let meta_ := insertText metaGroup node.conflictGroup meta_
  let meta_ := insertText metaAcceptance node.acceptance meta_
  let meta_ := insertText metaRisk node.risk meta_
  Object.insert metaEstimate (.num (max (node.estimate.getD defaultEstimateMinutes) 1)) meta_

theorem get_insertText {key name value : String} {fields : Object} (h : name ≠ key) :
    Object.get name (insertText key value fields) = Object.get name fields := by
  unfold insertText
  split
  · rfl
  · rw [Object.get_insert, if_neg h]

/-- A node names its plan. -/
@[simp] theorem get_metadataFor (plan : ResolvedPlan) (node : NodeSpec) :
    Object.get metaPlan (metadataFor plan node) = some (.str plan.plan) := by
  unfold metadataFor
  rw [Object.get_insert, if_neg (by decide), get_insertText (by decide),
    get_insertText (by decide), get_insertText (by decide), get_insertText (by decide),
    get_insertText (by decide), Object.get_insert, if_neg (by decide), Object.get_insert,
      if_pos rfl]

/-! ### Creation -/

/-- What creating a plan does to the store; its errors are texts. -/
abbrev PlanM := ExceptT (Fault String) (Prog DbI)

/-- A call of the store; its errors are displayed. -/
def store {α : Type} (m : DbM α) : PlanM α := ExceptT.adapt (Fault.map Error.display) m

/-- The project of a node. -/
def projectOf (plan : ResolvedPlan) (node : NodeSpec) : String :=
  if node.project = "" then plan.project else node.project

/-- The issue a node becomes; it is visible at once. -/
def specOf (plan : ResolvedPlan) (node : NodeSpec) (now : Int) (actor : String) : NewIssue where
  title := node.title
  description := node.description
  issueType := "task"
  priority := node.priority.getD 2
  labels := node.labels
  project := some (projectOf plan node)
  availableAt := some now
  createdBy := some actor
  metadata := some (.obj (metadataFor plan node))

section

variable (cfg : Db.Config) (plan : ResolvedPlan) (draws : String → List String) (now : Int)
  (actor : String)

/-- Is there anything of the plan's name already? -/
def checkName : PlanM Unit := do
  let issues ← store (Db.call (.list none true none))
  let existing := issues.countP fun issue => planNameOf issue = some plan.plan
  if existing > 0 then
    throw (.fail (s!"plan {debugStr plan.plan} already has {existing} node(s); " ++
      "choose a new name or close the old plan"))
  else pure ()

/-- Create one node; `draws` are the suffixes drawn for its id. -/
def createNode (created : List CreatedNode) (node : NodeSpec) : PlanM (List CreatedNode) := do
  let id ← store (Db.create cfg (specOf plan node now actor) (draws node.key) now)
  pure (created ++ [⟨node.key, id, node.title, projectOf plan node, node.deps,
    .obj (metadataFor plan node)⟩])

/-- The id of a key; of two nodes with one key the later counts. -/
def idOf (created : List CreatedNode) (key : String) : PlanM String :=
  match created.reverse.find? fun node => node.key = key with
  | some node => pure node.id
  | none => throw .abort

/-- Add one dependency. -/
def addEdge (created : List CreatedNode) (child : String) (edges : List Edge) (dep : String) :
    PlanM (List Edge) := do
  let parent ← idOf created dep
  store (Db.addDep child parent actor now)
  pure (edges ++ [⟨child, parent⟩])

/-- Add the dependencies of one node. -/
def addEdges (created : List CreatedNode) (edges : List Edge) (node : NodeSpec) :
    PlanM (List Edge) := do
  let child ← idOf created node.key
  node.deps.foldlM (addEdge now actor created child) edges

/-- Write a plan whose name is not taken. The calls are separate, so an error in the middle leaves
the nodes created so far. -/
def create : PlanM CreateReport :=
  match validate plan with
  | [] => do
      checkName plan
      let created ← plan.nodes.foldlM (createNode cfg plan draws now actor) []
      let edges ← plan.nodes.foldlM (addEdges now actor created) []
      pure ⟨plan.plan, plan.project, created, edges⟩
  | problems => throw (.fail ("; ".intercalate problems))

end

end Marbles.Plan
