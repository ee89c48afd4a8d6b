import Marbles.Db.Tables

/-!
# Transaction bodies and queries

What each method of `Db` does while it holds the connection. A transaction body maps the
tables to a value and the tables it leaves; it writes nothing when it fails. What a
method does before or after it holds the connection is in `Marbles.Db.Ops`.

Each function is one closure that the source hands to `tx` or to the connection. The order of its
statements is kept, since the first error decides the answer. A query with an order is a sort by
the same key.
-/

namespace Marbles.Db

open Json (Value)
open Sorting (sortOn)

/-- What the store is opened with. -/
structure Config where
  policy : Policy := {}
  week : WorkWeek := {}

/-- What a transaction body does. -/
abbrev Tx (α : Type) := Tables → Result (α × Tables)

/-! ### Projects -/

/-- The slug is upserted, and only its root follows: prefix and creation time stay those of the
first call. The conflict clause is about the key only, so a root that another project has is an
error. -/
def ensureProjectTx (slug root idPrefix : String) (ts : Int) : Tx Unit := fun t =>
  if t.project.rows.any fun r => r.1 ≠ slug && r.2.root = root then
    Outcome.fail (.sqlite "UNIQUE constraint failed: project.root")
  else
    .ok ((), { t with project := t.project.upsert slug ⟨root, idPrefix, ts⟩ fun row =>
      { row with root := root } })

/-- Delete a project with its issues and all that mentions them. The assignment to a
folder goes with the project row (`ON DELETE CASCADE`). -/
def dropProjectTx (slug : String) : Tx ProjectRemoval := fun t =>
  if slug ∈ t.project.keys then
    let mine := fun id => (t.issue.find id).any fun row => row.project = slug
    .ok (⟨(t.issue.rows.filter fun r => r.2.project = slug).length⟩,
      { t with
        ledger := t.ledger.forget mine
        dep := t.dep.filter fun e _ => !(mine e.1 || mine e.2)
        remoteDep := t.remoteDep.filter fun e _ => !mine e.1
        issue := t.issue.filter fun _ row => row.project ≠ slug
        project := t.project.erase slug
        projectFolder := t.projectFolder.erase slug })
  else Outcome.fail (.noProject slug)

/-- `ORDER BY slug`. -/
def projectsQuery (t : Tables) : List (String × String × String) :=
  sortOn (fun p => p.1) (t.project.rows.map fun r => (r.1, r.2.root, r.2.idPrefix))

/-! ### Folders -/

/-- The parent edges of the folder tree. -/
def folderEdges (t : Tables) : List (String × String) :=
  t.folder.rows.filterMap fun r => r.2.parent.map fun p => (r.1, p)

/-- Attaching `slug` under a parent must not close a cycle. -/
def checkFolderParent (t : Tables) (slug : String) : Option String → Result Unit
  | none => .ok ()
  | some parent =>
      if parent = slug then Outcome.fail (.bad "a folder cannot be its own parent")
      else if parent ∉ t.folder.keys then Outcome.fail (.bad s!"no folder {parent}")
      else if Graph.reachesBreadthFirst (folderEdges t) parent slug then
        Outcome.fail (.bad s!"folder {slug} would become a descendant of itself")
      else .ok ()

/-- Name and parent follow the call; the time of creation stays. -/
def ensureFolderTx (slug name : String) (parent : Option String) (now : Int) : Tx Unit :=
  fun t => do
    checkFolderParent t slug parent
    pure ((), { t with folder := t.folder.upsert slug ⟨name, parent, now⟩ fun row =>
      { row with name := name, parent := parent } })

/-- A folder that trims to nothing takes the project out of its folder. The folder has to exist by
then, so that no filing points at nothing. -/
def setProjectFolderTx (project : String) (folder : Option String) (now : Int) : Tx Unit :=
  fun t =>
    if project ∉ t.project.keys then Outcome.fail (.noProject project)
    else match trimmed folder with
      | some folder =>
          if folder ∉ t.folder.keys then Outcome.fail (.bad s!"no folder {folder}")
          else .ok ((), { t with
            projectFolder := t.projectFolder.upsert project ⟨folder, now⟩ fun _ =>
              ⟨folder, now⟩ })
      | none => .ok ((), { t with projectFolder := t.projectFolder.erase project })

/-- Folders by name and then by slug, filings by project. -/
def folderViewQuery (t : Tables) : FolderView where
  folders := (sortOn (fun r => toLex (r.2.name, r.1)) t.folder.rows).map fun r =>
    ⟨r.1, r.2.name, r.2.parent, r.2.createdAt⟩
  projects := (sortOn (fun r => r.1) t.projectFolder.rows).map fun r => ⟨r.1, r.2.folder⟩

/-! ### Outbox -/

/-- `LIMIT` is applied to the events that are due, in key order. -/
def pendingEventsQuery (now : Int) (limit : Nat) (t : Tables) : List OutboundEvent :=
  let due := t.ledger.outbound.rows.filter fun r => r.2.deliveredAt = none &&
      r.2.nextAttemptAt ≤ now
  ((sortOn (fun r => r.1) due).take limit).map fun r =>
    ⟨r.1, r.2.storeId, r.2.issueId, r.2.project, r.2.occurredAt, r.2.event, r.2.attempts⟩

/-- No row changed is no error: an event that is marked already, or is not there, is left as it is.
-/
def markEventDeliveredTx (seq now : Int) : Tx Unit := fun t =>
  .ok ((), { t with ledger := t.ledger.mark fun k row =>
    if (k : Int) = seq ∧ row.deliveredAt = none then
      { row with
        deliveredAt := some now
        attempts := wrapI64 (row.attempts + 1)
        lastError := none }
    else row })

/-- The time of the next attempt is the caller's; the count goes up by one. An event that was
delivered in the meantime is left alone. -/
def markEventFailedTx (seq nextAttemptAt : Int) (error : String) : Tx Unit := fun t =>
  .ok ((), { t with ledger := t.ledger.mark fun k row =>
    if (k : Int) = seq ∧ row.deliveredAt = none then
      { row with
        attempts := wrapI64 (row.attempts + 1)
        nextAttemptAt := nextAttemptAt
        lastError := some error }
    else row })

/-! ### Creating and reading issues -/

/-- A parent is an issue of the same project. A hierarchy across projects could not be dropped with
one of them. -/
def checkParent (t : Tables) (project : String) : Option String → Result Unit
  | none => .ok ()
  | some parent => match t.issue.find parent with
      | none => Outcome.fail (.notFound parent)
      | some row =>
          if row.project = project then .ok ()
          else Outcome.fail (.bad (s!"parent {parent} belongs to project {row.project}, " ++
            s!"not {project}; hierarchy is project-local (use a dependency edge for " ++
            "cross-project blockers)"))

/-- Draw suffixes until one gives an id that is not taken. -/
def drawId (t : Tables) (idPrefix : String) : List String → Result String
  | [] => Outcome.abort
  | suffix :: draws =>
      let candidate := s!"{idPrefix}-{suffix}"
      if candidate ∈ t.issue.keys then drawId t idPrefix draws else .ok candidate

/-- The id asked for, if it is free, or a drawn one. -/
def chooseId (t : Tables) (idPrefix : String) (draws : List String) : Option String → Result String
  | some id =>
      if id ∈ t.issue.keys then Outcome.fail (.bad s!"issue id {id} already exists") else .ok id
  | none => drawId t idPrefix draws

/-- The row a new issue starts as. It starts open and unclaimed, and visible after the grace time
unless asked otherwise. -/
def newRow (spec : NewIssue) (project : String) (available : Int) (metadata : Json.Object)
    (now : Int) : IssueRow where
  project := project
  title := spec.title
  description := spec.description
  status := .«open»
  issueType := spec.issueType
  priority := spec.storedPriority
  parent := spec.parent
  labels := spec.labels
  assignee := none
  actorKind := none
  claimedAt := none
  expiresAt := none
  availableAt := some available
  createdBy := spec.createdBy.getD ""
  createdAt := now
  updatedAt := now
  closedAt := none
  closeReason := none
  evidence := []
  metadata := .obj metadata
  externalRef := spec.externalRef

/-- `draws` are the suffixes the generator comes up with. The generator itself is not modelled, so
the results hold for whatever it comes up with. -/
def createTx (spec : NewIssue) (project : String) (available : Int) (draws : List String)
    (now : Int) : Tx String := fun t => do
  let row ← Outcome.ofOption (.noProject project) (t.project.find project)
  checkParent t project spec.parent
  let id ← chooseId t row.idPrefix draws spec.id
  let metadata ← spec.storedMetadata
  let t := { t with issue := t.issue.insert id (newRow spec project available metadata now) }
  pure (id, t.logEvent id now (spec.createdBy.getD "system") "created" spec.title)

/-- An issue that is not there is the error every method reports for it. -/
def getQuery (id : String) (t : Tables) : Result Issue :=
  Outcome.ofOption (.notFound id) (t.rowToIssue id)

/-- The rows that satisfy `p`, in listing order. -/
def select (t : Tables) (p : String → IssueRow → Bool) : List (String × IssueRow) :=
  sortOn (fun r => listKey r.2.priority r.2.createdAt r.1)
    (t.issue.rows.filter fun r => p r.1 r.2)

/-- An optional filter of a query. -/
def matchesScope (scope : Option String) (value : String) : Bool := scope.all (· = value)

/-- One query: unlike `ready`, a list is of one moment. -/
def listQuery (project : Option String) (all : Bool) (onlyId : Option String) (t : Tables) :
    List Issue :=
  (select t fun id row =>
    (all || row.status ≠ .closed) && matchesScope project row.project &&
      matchesScope onlyId id).map fun r => t.view r.1 r.2

/-- Open, unblocked, past its grace, and not held by an unexpired claim. -/
def eligible (t : Tables) (project : Option String) (now : Int) (id : String) (row : IssueRow) :
    Bool :=
  row.status = .«open» && row.availableAt.all (· ≤ now) && matchesScope project row.project &&
    (t.openBlockers id).isEmpty && (row.assignee.isNone || row.expiresAt.any (· ≤ now))

/-- The ids `ready` selects; each is then read by a query of its own. -/
def readyIdsQuery (project : Option String) (now : Int) (t : Tables) : List String :=
  (select t (eligible t project now)).map Prod.fst

/-! ### Editing -/

/-- The columns an update writes, from the patched issue. The claim columns are not among them:
those are written by claims, heartbeats, releases, sweeps and closes. -/
def IssueRow.write (row : IssueRow) (issue : Issue) (status : Status) : IssueRow :=
  { row with
    title := issue.title
    description := issue.description
    priority := issue.priority
    status := status
    closedAt := issue.closedAt
    labels := issue.labels
    parent := issue.parent
    availableAt := issue.availableAt
    updatedAt := issue.updatedAt
    evidence := issue.evidence
    metadata := issue.metadata
    externalRef := issue.externalRef }

/-- The patch is applied to the issue as it is now, and all of its columns are written back. A
status that is no status is refused by the `CHECK` of the table. -/
def updateTx (cfg : Config) (id : String) (patch : IssuePatch) (actor : String) (now : Int) :
    Tx Unit := fun t => do
  let current ← Outcome.ofOption (.notFound id) (t.rowToIssue id)
  let next ← patch.apply cfg.policy now current
  let status ← Outcome.ofOption (.sqlite "CHECK constraint failed: issue")
    (Status.parse next.status)
  let t := t.setIssue id fun row => row.write next status
  let t := if patch.statusChanged current then
    t.logEvent id now actor "status" s!"→ {next.status}" else t
  pure ((), t.logEvent id now actor "updated" "")

/-- The event lists all labels, not the one that was added. -/
def setLabelsTx (id : String) (labels : List String) (actor : String) (now : Int) : Tx Unit :=
  fun t => do
    let _ ← Outcome.ofOption (.notFound id) (t.rowToIssue id)
    let t := t.setIssue id fun row => { row with labels := labels, updatedAt := now }
    pure ((), t.logEvent id now actor "labels" (",".intercalate labels))

/-! ### Dependencies -/

/-- The walk and the insert are under one lock, so no other edge can come in between and close a
cycle. An edge that is there already is recorded again. -/
def addDepTx (child parent actor : String) (now : Int) : Tx Unit := fun t => do
  let _ ← Outcome.ofOption (.notFound child) (t.rowToIssue child)
  let _ ← Outcome.ofOption (.notFound parent) (t.rowToIssue parent)
  if t.reachable parent child then Outcome.fail (.cycle child parent)
  else
    let t := { t with dep := t.dep.insert (child, parent) () }
    let t := t.setIssue child fun row => { row with updatedAt := now }
    pure ((), t.logEvent child now actor "depends_on" parent)

/-- Deleting no row is no error, and is recorded all the same. -/
def removeDepTx (child parent actor : String) (now : Int) : Tx Unit := fun t =>
  let t := { t with dep := t.dep.erase (child, parent) }
  .ok ((), t.logEvent child now actor "unblocked_from" parent)

/-- Keyed by the child and the reference: a later assertion about the same issue replaces the
earlier one, whichever is newer. -/
def addRemoteDepTx (child : String) (dependency : RemoteDependency) (actor : String)
    (now : Int) : Tx Unit := fun t => do
  let _ ← Outcome.ofOption (.notFound child) (t.rowToIssue child)
  let row : RemoteDepRow := ⟨dependency.storeId, dependency.remoteIssueId, dependency.state,
    dependency.assertedAt, dependency.observedAt, dependency.signature, dependency.keyId⟩
  let t := { t with
    remoteDep := t.remoteDep.upsert (child, dependency.canonicalRef) row fun _ => row }
  let t := t.setIssue child fun row => { row with updatedAt := now }
  pure ((), t.logEvent child now actor "depends_on_remote" dependency.canonicalRef)

/-- Deleting no row is no error, and is recorded all the same. -/
def removeRemoteDepTx (child canonicalRef actor : String) (now : Int) : Tx Unit := fun t =>
  let t := { t with remoteDep := t.remoteDep.erase (child, canonicalRef) }
  .ok ((), t.logEvent child now actor "unblocked_from_remote" canonicalRef)

/-- By reference, each with the assertion it was last given. -/
def remoteDependenciesQuery (child : String) (t : Tables) : List RemoteDependency :=
  (sortOn (fun r => r.1.2) (t.remoteDep.rows.filter fun r => r.1.1 = child)).map fun r =>
    ⟨r.1.2, r.2.storeId, r.2.remoteIssueId, r.2.state, r.2.assertedAt, r.2.observedAt,
      r.2.signature, r.2.keyId, none⟩

/-! ### Claims -/

/-- The claim columns of a granted claim. -/
def IssueRow.claim (row : IssueRow) (assignee kind : String) (now expiry : Int) : IssueRow :=
  { row with
    assignee := some assignee
    actorKind := some kind
    claimedAt := some now
    expiresAt := some expiry
    updatedAt := now }

/-- The claim columns cleared. -/
def IssueRow.unclaim (row : IssueRow) : IssueRow :=
  { row with assignee := none, actorKind := none, claimedAt := none, expiresAt := none }

/-- Holder and lease are checked and written under one lock, which is what keeps two claims apart.
The status of the issue is neither asked nor changed. -/
def claimTx (req : ClaimRequest) (ttl now : Int) : Tx ClaimReceipt := fun t => do
  let row ← Outcome.ofOption (.notFound req.id) (t.issue.find req.id)
  if heldAt row.assignee row.expiresAt now && row.assignee ≠ some req.assignee then
    Outcome.fail (.alreadyClaimed req.id (row.assignee.getD ""))
  else
    let expiry := wrapI64 (now + ttl)
    let t := t.setIssue req.id fun row =>
      row.claim req.assignee req.actorKind.asStr now expiry
    pure (⟨req.id, req.assignee, req.actorKind, expiry⟩,
      t.logEvent req.id now req.assignee "claimed" req.actorKind.asStr)

/-- Only the holder may heartbeat. The lease is computed while the connection is held. A panic in
the calendar there leaves the lock poisoned. -/
def touchTx (cfg : Config) (id assignee : String) (now : Int) : Tx Int := fun t => do
  let row ← Outcome.ofOption (.notFound id) (t.issue.find id)
  if row.assignee ≠ some assignee then
    Outcome.fail (.bad s!"{id} is not claimed by {assignee}")
  else match touchTtl (ActorKind.parse (row.actorKind.getD "agent")) cfg.week cfg.policy now with
    | none => Outcome.abort
    | some ttl =>
        let expiry := wrapI64 (now + ttl)
        let t := t.setIssue id fun row => { row with expiresAt := some expiry, updatedAt := now }
        pure (expiry, t.logEvent id now assignee "heartbeat" "")

/-- Anyone may release, and releasing an issue that is not there is recorded like any other. -/
def releaseTx (id actor : String) (now : Int) : Tx Unit := fun t =>
  let t := t.setIssue id fun row => { row.unclaim with updatedAt := now }
  .ok ((), t.logEvent id now actor "released" "")

/-- The claims that have lapsed, in the order the query returns them. The query has no
`ORDER BY`; `order` is the order in which the database happens to visit the issues. -/
def lapsed (t : Tables) (now : Int) (order : List String) : List (String × IssueRow) :=
  sortOn (fun r => order.idxOf r.1)
    (t.issue.rows.filter fun r => r.2.assignee.isSome && r.2.expiresAt.any (· ≤ now))

/-- One turn of the sweep: a human hold is escalated, any other claim is cleared. A human's lease is
only reported, since a person may well still be at work. -/
def sweepRow (now : Int) (acc : SweepReport × Tables) (claim : String × String × String) :
    SweepReport × Tables :=
  let (report, t) := acc
  let (id, assignee, kind) := claim
  if kind = ActorKind.human.asStr then
    ({ report with escalated := report.escalated ++ [s!"{id} ({assignee})"] },
      t.logEvent id now "sweeper" "escalated" assignee)
  else
    ({ report with requeued := report.requeued ++ [id] },
      (t.setIssue id IssueRow.unclaim).logEvent id now "sweeper" "claim_expired" assignee)

/-- The columns of a selected claim; a missing kind is not a text. -/
def claimColumns (r : String × IssueRow) : Result (String × String × String) :=
  match r.2.assignee, r.2.actorKind with
  | some assignee, some kind => .ok (r.1, assignee, kind)
  | _, _ => Outcome.fail (.sqlite "Invalid column type Null at index: 2, name: actor_kind")

/-- The claims are read first and then swept one by one, in one transaction: a claim without a kind
fails the sweep before anything is written. -/
def sweepTx (now : Int) (order : List String) : Tx SweepReport := fun t => do
  let claims ← (lapsed t now order).mapM claimColumns
  pure (claims.foldl (sweepRow now) (⟨[], []⟩, t))

/-! ### Terminal operations -/

/-- Refuse to close past a blocker that is still open. -/
def checkBlockersQuery (id : String) (t : Tables) : Result Unit :=
  match t.openBlockers id with
  | blocker :: _ => Outcome.fail (waitsOn id blocker)
  | [] => .ok ()

/-- A closed row: the receipt is merged in and the claim is cleared. Earlier receipts stay, so
closing again adds to the evidence and takes none away. -/
def IssueRow.close (row : IssueRow) (reason : Option String) (evidence : List Evidence)
    (now : Int) : IssueRow :=
  { row.unclaim with
    status := .closed
    closedAt := some now
    closeReason := reason
    evidence := mergeEvidence row.evidence evidence
    updatedAt := now }

/-- The gates are the caller's business. Closing an issue that is closed merges the evidence and
moves the time. -/
def closeUncheckedTx (id : String) (reason : Option String) (evidence : List Evidence)
    (actor : String) (now : Int) : Tx Unit := fun t => do
  let _ ← Outcome.ofOption (.sqlite "Query returned no rows") (t.issue.find id)
  let t := t.setIssue id fun row => row.close reason evidence now
  pure ((), t.logEvent id now actor "closed" (closedDetail reason evidence))

/-! ### History and statistics -/

/-- In the order in which the events were recorded. -/
def historyQuery (id : String) (t : Tables) : List HistoryEvent :=
  (t.ledger.history.select fun row => row.issueId = id).map fun row =>
    ⟨row.issueId, row.ts, row.actor, row.event, row.detail⟩

@[simp] theorem historyQuery_logEvent (t : Tables) (k id : String) (ts : Int)
    (actor event detail : String) :
    historyQuery id (t.logEvent k ts actor event detail) =
      historyQuery id t ++ if k = id then [⟨k, ts, actor, event, detail⟩] else [] := by
  unfold historyQuery
  rw [Tables.logEvent_history, Journal.select_append, List.map_append]
  by_cases hk : k = id
  · simp [hk]
  · simp [hk]

theorem historyQuery_congr {t t' : Tables} (h : t'.ledger.history = t.ledger.history)
    (id : String) : historyQuery id t' = historyQuery id t := by
  rw [historyQuery, h]
  rfl

/-- Counted here and not by the database, from the project and the status of every row. -/
def statsQuery (t : Tables) : Value :=
  statsValue (t.issue.rows.map fun r => (r.2.project, r.2.status.asStr))

end Marbles.Db
