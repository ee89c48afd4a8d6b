import Marbles.Db.Ops

/-!
# The importers

`import.rs` loads a Beads list, `jsonl.rs` a Beads export. Both are programs over the
methods of the store, and both take some decisions on the error a method returned, which
is what `attempt` is for. A panic is not an error and is not caught.

The importers read the clock. Each place that reads it is a `ClockRead`, and `clock` says
what it saw there.

The export importer works in four phases, and writes nothing before the last check of the first
one has passed. Later phases can still fail halfway; a rerun then finds some rows there already,
and does not create them again. Both importers are told apart by namespaces, as their functions
have the same names in the source.
-/

namespace Marbles

open Json (Value Object)
open Db (DbM DbI)

/-- A program over the store with errors of its own. -/
abbrev ImportM (ε : Type) := ExceptT (Fault ε) (Prog DbI)

/-- An error as a value; a panic stays one. -/
def caught {ε α : Type} : Result α → Outcome ε (Except Error α)
  | .ok a => .ok (.ok a)
  | .error (.fail e) => .ok (.error e)
  | .error .abort => .error .abort

/-- Run a method and look at its error. -/
def attempt {ε α : Type} (m : DbM α) : ImportM ε (Except Error α) :=
  ExceptT.mk (m.run >>= fun r => .ret (caught r))

/-- Run a method and give up on its error. -/
def orElseFail {ε α : Type} (f : Error → ε) (m : DbM α) : ImportM ε α := do
  match ← attempt m with
  | .ok a => pure a
  | .error e => throw (.fail (f e))

/-! ### The list importer -/

namespace Import

/-- What an import has done so far. -/
structure Report where
  issues : Int := 0
  deps : Int := 0
  statused : Int := 0
  missingDeps : Int := 0
  deriving DecidableEq

/-- A place that reads the clock, in the row at an index. -/
inductive ClockRead where
  | createdAt (row : Nat)
  | statused (row : Nat)

section

variable (cfg : Db.Config) (project : String) (clock : ClockRead → Int)

/-- What a row is created as. -/
def specOf (row : Issue) : NewIssue where
  title := row.title
  description := row.description
  issueType := if row.issueType = "" then "task" else row.issueType
  priority := row.priority
  labels := row.labels
  parent := row.parent
  id := some row.id
  project := some project
  availableAt := some 0
  createdBy := some "marbles-import"

/-- Add one edge; an edge to an issue that is not there is counted and skipped. Its id is the row's
own, so a later row cannot make up for the edge. -/
def importDep (id : String) (createdAt : Int) (report : Report) (dep : Dependency) :
    ImportM String Report :=
  match dep.dependsOnId with
  | none => pure report
  | some parent => do
      match ← attempt (Db.addDep id parent "marbles-import" createdAt) with
      | .ok _ => pure { report with deps := report.deps + 1 }
      | .error (.notFound _) => pure { report with missingDeps := report.missingDeps + 1 }
      | .error e => throw (.fail e.display)

/-- The store must have used the id of the row. -/
def checkId (row : Issue) (id : String) : ImportM String Unit :=
  if id ≠ row.id then throw (.fail s!"import promised id {row.id} but got {id}") else pure ()

/-- A status other than open is set afterwards. -/
def importStatus (row : Issue) (now : Int) (report : Report) : ImportM String Report :=
  if row.status = "open" then pure report
  else do
    let _ ← orElseFail Error.display
      (Db.update row.id { status := some row.status } "marbles-import" now)
    pure { report with statused := report.statused + 1 }

/-- The issue, its edges and its status, in this order: an edge to a later row finds no issue yet.
-/
def importRow (report : Report) (entry : Issue × Nat) : ImportM String Report := do
  let (row, index) := entry
  let createdAt := if row.createdAt > 0 then row.createdAt else clock (.createdAt index)
  let id ← orElseFail Error.display (Db.create cfg (specOf project row) [] createdAt)
  checkId row id
  let report ← row.dependencies.foldlM (importDep row.id createdAt) report
  let report ← importStatus row (clock (.statused index)) report
  pure { report with issues := report.issues + 1 }

def «import» (rows : List Issue) : ImportM String Report :=
  rows.zipIdx.foldlM (importRow cfg project clock) {}

end

end Import

/-! ### The export importer -/

namespace Jsonl

/-- Why an import stops. Conflicts are collected before anything is written. -/
inductive ImportError where
  | bad (message : String)
  | db (error : Error)
  | conflicts (ids : List String)
  deriving DecidableEq

/-- What an import has done so far. It is carried from row to row, and what a failing import had
counted is lost. -/
structure ImportReport where
  imported : Int := 0
  exceptionClosed : Int := 0
  unchanged : Int := 0
  renamed : Int := 0
  deps : Int := 0
  missingDeps : Int := 0
  skippedMemories : Int := 0
  conflicts : List String := []
  deriving DecidableEq

/-- A place that reads the clock: in the row at an index, in a round of the closing loop. -/
inductive ClockRead where
  | createdAt (row : Nat)
  | linked (row dep : Nat)
  | closedAt (round row : Nat)
  | statused (round row : Nat)
  | exceptionClosed (row : Nat)

/-- The parts of the run that the rows do not determine: the clock, and the parser of
RFC 3339 timestamps. -/
structure Env where
  clock : ClockRead → Int
  parseRfc3339 : String → Except String Int

/-- A program of the importer over the store. -/
abbrev M := ImportM ImportError

/-! #### Reading rows -/

/-- A row that is not an issue. -/
def isSkip (row : Value) : Bool := (row.get "_skip").isSome

/-- The translation of statuses; an unknown one is an error, not a guess. An export of another
tracker may have statuses nobody has thought of. -/
def normalizeStatus : String → Except ImportError String
  | "open" | "backlog" => .ok "open"
  | "in_progress" | "started" => .ok "in_progress"
  | "review" | "inreview" | "in_review" => .ok "review"
  | "blocked" => .ok "blocked"
  | "deferred" => .ok "deferred"
  | "closed" | "done" | "resolved" => .ok "closed"
  | other => .error (.bad s!"unknown status {debugStr other}; add it to the mapping deliberately")

/-- The status text of a row, before translation. -/
def rawStatus (row : Value) : String := (row.field "status").asStr.getD "open"

/-- A timestamp that is missing reads the clock; one that is there must be readable. The clock is
read where the source reads it, so that a rerun may read another time. -/
def parseTs (env : Env) (read : ClockRead) : Option Value → Except ImportError Int
  | none | some .null => .ok (env.clock read)
  | some (.str text) => match env.parseRfc3339 text with
      | .ok n => .ok n
      | .error e => .error (.bad s!"timestamp {debugStr text}: {e}")
  | some (.num n) => match (Value.num n).asI64 with
      | some n => .ok n
      | none => .error (.bad "timestamp must be RFC3339 or integer epoch")
  | some other => .error (.bad s!"timestamp {other.text}")

/-- `str::trim_end`. -/
def trimEnd (s : String) : String :=
  String.ofList (s.toList.reverse.dropWhile isWhitespace).reverse

/-- A paragraph after what is there. -/
def paragraph (out text : String) : String := if out = "" then text else out ++ "\n\n" ++ text

/-- Append a field that has no column under a heading of its own. -/
def foldField (row : Value) (out : String) (field : String × String) : String :=
  match (row.field field.2).asStr.filter (trim · ≠ "") with
  | some text => paragraph out s!"## {field.1}\n\n{trim text}"
  | none => out

/-- The description with the fields that have no column here, and the comments, as sections. Nothing
of them is lost but the whitespace at their ends. -/
def composeDescription (row : Value) : String :=
  let out := trimEnd ((row.field "description").asStr.getD "")
  let out := [("Design", "design"), ("Acceptance criteria", "acceptance_criteria"),
    ("Notes", "notes")].foldl (foldField row) out
  match (row.field "comments").asArray.filter (!·.isEmpty) with
  | some comments =>
      let rendered := comments.map fun c =>
        "- " ++ (c.field "author").asStr.getD "?" ++ ": " ++ (c.field "text").asStr.getD ""
      paragraph out ("## Comments\n\n" ++ "\n".intercalate rendered)
  | none => out

/-- `str::strip_prefix`. -/
def stripPrefix (start s : String) : Option String :=
  if start.toList.isPrefixOf s.toList then some (.ofList (s.toList.drop start.toList.length))
  else none

/-- Rename an id from one prefix to another, if it has that prefix. -/
def rewrite (id source target : String) : String :=
  match stripPrefix (source ++ "-") id with
  | some tail => if '-' ∈ tail.toList then id else s!"{target}-{tail}"
  | none => id

/-- An id after the optional renaming. -/
def mapped (rename : Option (String × String)) (id : String) : String :=
  match rename with
  | some (source, target) => rewrite id source target
  | none => id

/-- The id an original id is stored under. -/
abbrev IdMap := List (String × String)

/-- A second row of an original id takes the place of the first. -/
def IdMap.insert (m : IdMap) (original id : String) : IdMap :=
  (original, id) :: m.filter fun e => e.1 ≠ original

/-- The original id of a row. -/
def originalId (row : Value) : String := (row.field "id").asStr.getD ""

/-- The stored id of a row; the source indexes the map and panics on a missing key. -/
def storedId (ids : IdMap) (row : Value) : M String :=
  match ids.lookup (originalId row) with
  | some id => pure id
  | none => throw .abort

/-! #### The four phases -/

section

variable (cfg : Db.Config) (env : Env) (project : String) (rename : Option (String × String))

/-- Lift a check that reads nothing. -/
def check {α : Type} : Except ImportError α → M α
  | .ok a => pure a
  | .error e => throw (.fail e)

/-- Phase 0, one row: conflicts are decided before any write. All rows are examined before the first
is written, so a conflict leaves the store as it was. -/
def examineRow (acc : ImportReport × IdMap) (row : Value) : M (ImportReport × IdMap) := do
  let (report, ids) := acc
  match (row.field "id").asStr with
  | none => throw (.fail (.bad "issue row without an id"))
  | some raw => do
      let id := mapped rename raw
      let _ ← check (normalizeStatus (rawStatus row))
      let ids := ids.insert raw id
      match ← attempt (Db.get id) with
      | .error _ => pure (report, ids)
      | .ok existing =>
          if existing.project = project ∧ existing.metadata.get "marbles_import" = some (.bool true)
          then pure ({ report with unchanged := report.unchanged + 1 }, ids)
          else
            let conflict := if raw ≠ id then s!"{raw} → {id} ({existing.project})"
              else s!"{id} (project {existing.project})"
            pure ({ report with conflicts := report.conflicts ++ [conflict] }, ids)

/-- The metadata a row is created with; it carries the mark of this importer. -/
def importMetadata (row : Value) : Object :=
  Object.insert "marbles_import" (.bool true) ((row.field "metadata").asObject.getD [])

/-- What a row is created as. -/
def specOf (id : String) (row : Value) : NewIssue where
  title := (row.field "title").asStr.getD "(untitled)"
  description := composeDescription row
  issueType := (row.field "issue_type").asStr.getD "task"
  priority := (row.field "priority").asI64.getD 2
  labels := ((row.field "labels").asArray.getD []).filterMap Value.asStr
  parent := (row.field "parent_id").asStr
  id := some id
  project := some project
  availableAt := some 0
  createdBy := (row.field "created_by").asStr
  metadata := some (.obj (importMetadata row))
  externalRef := (row.field "external_ref").asStr

/-- Phase 1, one row: create it open, unless it is there. A parent has to be there already, since
the row is created under it. -/
def createRow (ids : IdMap) (report : ImportReport) (entry : Value × Nat) : M ImportReport := do
  let (row, index) := entry
  let id ← storedId ids row
  let report := if id ≠ originalId row then { report with renamed := report.renamed + 1 }
      else report
  match ← attempt (Db.get id) with
  | .ok _ => pure report
  | .error _ => do
      let createdAt ← check (parseTs env (.createdAt index) (row.get "created_at"))
      let _ ← orElseFail .db (Db.create cfg (specOf project id row) [] createdAt)
      pure { report with imported := report.imported + 1 }

/-- The issue an edge of the export points at. -/
def edgeTarget (ids : IdMap) (target : String) : String :=
  let target := (stripPrefix "memory:" target).getD target
  (ids.lookup target).getD (mapped rename target)

/-- Phase 2, one edge. All rows are there by then, so the order of the rows does not matter for
edges. -/
def linkDep (ids : IdMap) (id : String) (row : Nat) (report : ImportReport)
    (entry : Value × Nat) : M ImportReport := do
  let (dep, index) := entry
  if (dep.field "type").asStr.any (· ≠ "blocks") then pure report
  else match (dep.field "depends_on_id").asStr with
    | none => pure report
    | some target =>
        let parent := edgeTarget rename ids target
        if parent = id then pure report
        else do
          match ← attempt (Db.addDep id parent "marbles-import"
              (env.clock (.linked row index))) with
          | .ok _ => pure { report with deps := report.deps + 1 }
          | .error (.notFound _) => pure { report with missingDeps := report.missingDeps + 1 }
          | .error e => throw (.fail (.db e))

/-- Phase 2, one row: its edges, when all issues are there. -/
def linkRow (ids : IdMap) (report : ImportReport) (entry : Value × Nat) : M ImportReport := do
  let (row, index) := entry
  let id ← storedId ids row
  ((row.field "dependencies").asArray.getD []).zipIdx.foldlM (linkDep env rename ids id index)
    report

/-- The receipt of a row that is closed by the export. -/
def closeEvidence (row : Value) : List Evidence :=
  let reason := (row.field "close_reason").asStr.filter (trim · ≠ "")
  let reference := (((row.field "metadata").get "external_ref").bind Value.asStr).or
    (row.field "external_ref").asStr
  Evidence.ack (reason.getD "imported closed from beads export") ::
    (reference.map Evidence.pr).toList

/-- A row waiting for its final status: the row, its index and its id. -/
structure Pending where
  row : Value
  index : Nat
  id : String

/-- When the row says it was closed. One that cannot be read is not an error here. -/
def closedAt (round : ClockRead) (row : Value) : Int :=
  match parseTs env round (row.get "closed_at") with
  | .ok n => n
  | .error _ => env.clock round

/-- Phase 3, one row of a round: has it made progress, and is it still waiting? A row that cannot be
closed yet waits for the next round. -/
def settleRow (round : Nat) (acc : Bool × List Pending) (p : Pending) :
    M (Bool × List Pending) := do
  let (progressed, failed) := acc
  let status ← check (normalizeStatus (rawStatus p.row))
  let current ← orElseFail .db (Db.get p.id)
  if status = "closed" ∧ current.status ≠ "closed" then do
    let at_ := closedAt env (.closedAt round p.index) p.row
    match ← attempt (Db.close p.id (p.row.field "close_reason").asStr (closeEvidence p.row)
        "marbles-import" at_) with
    | .ok _ => pure (true, failed)
    | .error (.bad message) =>
        if (splitOnce "still waits on".toList message.toList).isSome then
          pure (progressed, failed ++ [p])
        else throw (.fail (.db (.bad message)))
    | .error e => throw (.fail (.db e))
  else if status ≠ "open" ∧ status ≠ "closed" ∧ current.status = "open" then do
    let _ ← orElseFail .db (Db.update p.id { status := some status, availableAt := some 0 }
      "marbles-import" (env.clock (.statused round p.index)))
    pure (true, failed)
  else pure (progressed, failed)

/-- Phase 3: rounds until one makes no progress. A round that makes progress leaves fewer
rows waiting, so the fuel is never used up. -/
def settle : Nat → Nat → List Pending → M (List Pending)
  | 0, _, _ => throw .abort
  | fuel + 1, round, pending => do
      let (progressed, failed) ← pending.foldlM (settleRow env round) (false, [])
      if progressed then settle fuel (round + 1) failed else pure failed

/-- What the rounds could not close is closed past its blockers. -/
def closeException (report : ImportReport) (p : Pending) : M ImportReport := do
  let blockers := ((p.row.field "dependencies").asArray.getD []).filterMap fun d =>
    (d.field "depends_on_id").asStr
  let reason := "imported closed while open blockers remain: " ++ ",".intercalate blockers
  let _ ← orElseFail .db (Db.closeUnchecked p.id (p.row.field "close_reason").asStr
    [Evidence.ack reason] "marbles-import" (closedAt env (.exceptionClosed p.index) p.row))
  pure { report with exceptionClosed := report.exceptionClosed + 1 }

def «import» (rows : List Value) (dryRun : Bool) : M ImportReport := do
  let issues := (rows.filter (!isSkip ·)).zipIdx
  let (report, ids) ← issues.foldlM (fun acc r => examineRow project rename acc r.1) ({}, [])
  if report.conflicts ≠ [] then throw (.fail (.conflicts report.conflicts))
  else if dryRun then pure report
  else do
    let report ← issues.foldlM (createRow cfg env project ids) report
    let report ← issues.foldlM (linkRow env rename ids) report
    let pending ← issues.mapM fun r => do
      let id ← storedId ids r.1
      pure ({ row := r.1, index := r.2, id := id } : Pending)
    let pending ← settle env (pending.length + 1) 0 pending
    let report ← pending.foldlM (closeException env) report
    pure { report with skippedMemories := (rows.filter isSkip).length }

end

end Jsonl

end Marbles
