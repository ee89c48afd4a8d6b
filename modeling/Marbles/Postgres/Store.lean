import Marbles.Db.Metrics
import Marbles.Postgres.Schema

/-!
# The methods of the hosted store

`PostgresStore` serves one company over the shared tables. A transaction body is written
statement by statement; a method runs transactions, each committing on its own, and
reads between them. A panic (an SQL `NULL` read as a text, a calendar walk that leaves the
calendar) is an abort and rolls the transaction back.

The bodies are written in the monad of a transaction, so that an error in the middle undoes what
was written before it without anything being said about it. The retry of the connection is a layer
around a body and has a module of its own; here a transaction is run once.
-/

namespace Marbles.Postgres

open Json (Value)
open Sorting (sortOn groupOn)
open Tenancy (query execute ofResult transaction)

/-- What a transaction body does. -/
abbrev Tx := StateT Database (Except (Fault Error))

/-- What a method does. -/
abbrev Method := ExceptT (Fault Error) (StateM Database)

/-- The hosted store is opened with the default policy and the default week. So leases can be
compared with those of the local store only under its default policy. -/
def policy : Policy := {}

/-- `WorkWeek::default()`: a tenant has no calendar of its own. -/
def week : WorkWeek := {}

/-- Read without a transaction. Two reads of one method may see different states, if somebody
commits in between. -/
def withClient {α : Type} (q : Database → Result α) : Method α := transaction (query q)

section Methods

variable (server : Server) (company : String)

/-! ### Events -/

/-- Append an event to the company's history, and to its outbox when the issue exists. Both are
written in one transaction with what they tell of. -/
def logEvent (id : String) (ts : Int) (actor event detail : String) : Tx Unit := do
  let seq ← query fun db => db.nextSeq company
  query fun db => checkKey "marbles_history" db.history (company, seq)
  execute fun db => { db with
    history := db.history.insert (company, seq) ⟨id, ts, actor, event, detail⟩ }
  match ← query fun db => .ok (db.issueRow company id) with
  | none => pure ()
  | some row =>
      query fun db => checkKey "marbles_outbound_event" db.outbound (company, seq)
      execute fun db => { db with
        outbound := db.outbound.insert (company, seq)
          ⟨company, id, row.project, ts, event, none, 0, ts, none⟩ }

/-- The limit is a `usize` and is bound as an `i64`, so a larger one is cut to the largest. -/
def pendingEventsQuery (now : Int) (limit : Nat) (db : Database) : List OutboundEvent :=
  let due := db.outbound.select company fun _ row =>
    row.deliveredAt = none && row.nextAttemptAt ≤ now
  ((sortOn (fun r => r.1.2) due).take (min limit (2 ^ 63 - 1))).map fun r =>
    ⟨r.1.2, r.2.storeId, r.2.issueId, r.2.project, r.2.occurredAt, r.2.event, r.2.attempts⟩

/-- The attempts an undelivered event will have had; `none` when there is no such event. -/
def nextAttempts (seq : Int) (db : Database) : Result (Option Int) :=
  match db.outbound.find (company, seq) with
  | none => .ok none
  | some row =>
      if row.deliveredAt = none then (bigint (row.attempts + 1)).map some else .ok none

/-- `UPDATE … SET attempts=attempts+1, … WHERE company_id=$1 AND seq=$2 AND delivered_at IS
NULL`. -/
def markEventTx (seq : Int) (set : Db.OutboundRow → Db.OutboundRow) : Tx Unit := do
  match ← query (nextAttempts company seq) with
  | none => pure ()
  | some attempts => execute fun db => { db with
      outbound := db.outbound.modify (company, seq) fun row =>
        set { row with attempts := attempts } }

/-- An event that is marked already, or is not there, is left as it is. -/
def markEventDeliveredTx (seq now : Int) : Tx Unit :=
  markEventTx company seq fun row => { row with deliveredAt := some now, lastError := none }

/-- The time of the next attempt is the caller's; the count goes up by one. -/
def markEventFailedTx (seq nextAttemptAt : Int) (error : String) : Tx Unit :=
  markEventTx company seq fun row =>
    { row with nextAttemptAt := nextAttemptAt, lastError := some error }

/-! ### Projects and folders -/

/-- The slug is upserted, and only its root follows: prefix and creation time stay those of the
first call. The conflict clause is about the key only, so a root that another project has is an
error. -/
def ensureProjectTx (slug root idPrefix : String) (ts : Int) : Tx Unit := do
  query fun db =>
    if (db.project.select company fun k row => k.2 ≠ slug && row.root = root).isEmpty then .ok ()
    else Outcome.fail (.postgres ("duplicate key value violates unique constraint " ++
      "\"marbles_project_company_id_root_key\""))
  execute fun db => { db with
    project := db.project.upsert (company, slug) ⟨root, idPrefix, ts⟩ fun row =>
      { row with root := root } }

/-- `ORDER BY slug`, which is the collation of the server and not the order of the bytes. -/
def projectsQuery (db : Database) : List (String × String × String) :=
  (sortOn (fun r => server.textOrder r.1.2) (db.project.select company fun _ _ => true)).map
    fun r => (r.1.2, r.2.root, r.2.idPrefix)

/-- Attaching `slug` under a parent must not close a cycle. -/
def checkFolderParent (slug : String) (parent : Option String) (db : Database) : Result Unit :=
  match parent with
  | none => .ok ()
  | some parent =>
      if parent = slug then Outcome.fail (.bad "a folder cannot be its own parent")
      else if (db.folder.find (company, parent)).isNone then
        Outcome.fail (.bad s!"no folder {parent}")
      else if db.folderReaches company parent slug then
        Outcome.fail (.bad s!"folder {slug} would become a descendant of itself")
      else .ok ()

/-- Name and parent follow the call; the time of creation stays. -/
def ensureFolderTx (slug name : String) (parent : Option String) (now : Int) : Tx Unit := do
  query (checkFolderParent company slug parent)
  execute fun db => { db with
    folder := db.folder.upsert (company, slug) ⟨name, parent, now⟩ fun row =>
      { row with name := name, parent := parent } }

/-- What is empty after trimming is refused before a transaction is begun. -/
def ensureFolder (folder : Folder) (now : Int) : Method Unit :=
  if trim folder.slug = "" then throw (.fail (.bad "folder slug is empty"))
  else if trim folder.name = "" then throw (.fail (.bad "folder name is empty"))
  else transaction (ensureFolderTx company (trim folder.slug) (trim folder.name)
    (trimmed folder.parent) now)

/-- The folder an assignment names has to be there. -/
def checkFolder (folder : Option String) (db : Database) : Result Unit :=
  match folder with
  | none => .ok ()
  | some folder =>
      if (db.folder.find (company, folder)).isNone then Outcome.fail (.bad s!"no folder {folder}")
      else .ok ()

/-- A folder that trims to nothing takes the project out of its folder. The project is asked for
first, so an unknown project is reported even when the folder is unknown too. -/
def setProjectFolderTx (project : String) (folder : Option String) (now : Int) : Tx Unit := do
  let _ ← query fun db =>
    Outcome.ofOption (.noProject project) (db.project.find (company, project))
  query (checkFolder company (trimmed folder))
  match trimmed folder with
  | some folder => execute fun db => { db with
      projectFolder := db.projectFolder.upsert (company, project) ⟨folder, now⟩ fun _ =>
        ⟨folder, now⟩ }
  | none => execute fun db => { db with
      projectFolder := db.projectFolder.erase (company, project) }

/-- Folders by name and then by slug; the filings by project. -/
def folderViewQuery (db : Database) : FolderView where
  folders := (sortOn (fun r => toLex (server.textOrder r.2.name, server.textOrder r.1.2))
    (db.folder.select company fun _ _ => true)).map fun r =>
      ⟨r.1.2, r.2.name, r.2.parent, r.2.createdAt⟩
  projects := (sortOn (fun r => server.textOrder r.1.2)
    (db.projectFolder.select company fun _ _ => true)).map fun r => ⟨r.1.2, r.2.folder⟩

/-! ### Creating and reading issues -/

/-- A parent is an issue of the same project. -/
def checkParent (project : String) (parent : Option String) (db : Database) : Result Unit :=
  match parent with
  | none => .ok ()
  | some parent => match db.issueRow company parent with
      | none => Outcome.fail (.notFound parent)
      | some row =>
          if row.project = project then .ok ()
          else Outcome.fail (.bad (s!"parent {parent} belongs to project {row.project}, " ++
            s!"not {project}; hierarchy is project-local (use a dependency edge for " ++
            "cross-project blockers)"))

/-- Draw suffixes until one gives an id that is not taken. -/
def drawId (idPrefix : String) (db : Database) : List String → Result String
  | [] => Outcome.abort
  | suffix :: draws =>
      let candidate := s!"{idPrefix}-{suffix}"
      if (db.issueRow company candidate).isNone then .ok candidate
      else drawId idPrefix db draws

/-- The id asked for, if it is free, or a drawn one. -/
def chooseId (idPrefix : String) (draws : List String) (id : Option String) (db : Database) :
    Result String :=
  match id with
  | some id =>
      if (db.issueRow company id).isNone then .ok id
      else Outcome.fail (.bad s!"issue id {id} already exists")
  | none => drawId company idPrefix db draws

/-- The row a new issue starts as. -/
def newRow (spec : NewIssue) (project : String) (available : Int) (metadata : Json.Object)
    (now : Int) : IssueRow where
  project := project
  title := spec.title
  description := spec.description
  status := .«open»
  issueType := spec.issueType
  priority := spec.storedPriority
  parent := spec.parent
  labelsJson := .encodes spec.labels
  assignee := none
  actorKind := none
  claimedAt := none
  expiresAt := none
  availableAt := some available
  createdBy := spec.createdBy.getD ""
  createdAt := now
  updatedAt := now
  closedAt := none
  closeReason := none
  evidenceJson := .encodes []
  metadataJson := .encodes (.obj metadata)
  externalRef := spec.externalRef

/-- `draws` are the suffixes the generator comes up with. The key is checked by the database, so an
id that was drawn twice fails and is not overwritten. -/
def createTx (spec : NewIssue) (project : String) (available : Int) (draws : List String)
    (now : Int) : Tx String := do
  let row ← query fun db =>
    Outcome.ofOption (.noProject project) (db.project.find (company, project))
  query (checkParent company project spec.parent)
  let id ← query (chooseId company row.idPrefix draws spec.id)
  let metadata ← ofResult spec.storedMetadata
  query fun db => checkKey "marbles_issue" db.issue (company, id)
  execute fun db => { db with
    issue := db.issue.insert (company, id) (newRow spec project available metadata now) }
  logEvent company id now (spec.createdBy.getD "") "created" spec.title
  pure id

/-- The caller has to name a project. The rest is looked up in the transaction that inserts the row;
the transactions of a company run one after the other, so no two of them choose one id. -/
def create (spec : NewIssue) (draws : List String) (now : Int) : Method String :=
  match spec.project with
  | none => throw (.fail (.bad "create requires a project"))
  | some project =>
      let available := spec.availableAt.getD (wrapI64 (now + policy.creationGraceSeconds))
      transaction (createTx company spec project available draws now)

/-- One issue, decoded together with its edges. -/
def get (id : String) : Method Issue := withClient fun db => db.getIssue server company id

/-- The ids of the rows that satisfy `p`, `ORDER BY priority,created_at,id`. -/
def selectIds (p : String × String → IssueRow → Bool) (db : Database) : List String :=
  (sortOn (fun r => toLex (r.2.priority, toLex (r.2.createdAt, server.textOrder r.1.2)))
    (db.issue.select company p)).map fun r => r.1.2

/-- An optional filter of a query. -/
def matchesScope (scope : Option String) (value : String) : Bool := scope.all (· = value)

/-- The ids first, and then one issue after the other: a column that is not JSON fails the whole
list. -/
def listQuery (project : Option String) (all : Bool) (onlyId : Option String) (db : Database) :
    Result (List Issue) :=
  (selectIds server company (fun k row =>
    (all || row.status ≠ .closed) && matchesScope project row.project &&
      matchesScope onlyId k.2) db).mapM fun id => db.getIssue server company id

/-- Open, unblocked, past its grace, and not held by an unexpired claim. -/
def eligible (project : Option String) (now : Int) (db : Database) (k : String × String)
    (row : IssueRow) : Bool :=
  row.status = .«open» && row.availableAt.all (· ≤ now) && matchesScope project row.project &&
    (db.openBlockers k.1 k.2).isEmpty && (row.assignee.isNone || row.expiresAt.any (· ≤ now))

/-- The ids first, and then one issue after the other, as in `list`. The lock on the connection is
held over all of it; the local store takes its lock anew for each issue. -/
def readyQuery (project : Option String) (now : Int) (db : Database) : Result (List Issue) :=
  (selectIds server company (eligible project now db) db).mapM fun id =>
    db.getIssue server company id

/-! ### Editing -/

/-- The columns an update writes, from the patched issue. -/
def IssueRow.write (row : IssueRow) (issue : Issue) (status : Status) : IssueRow :=
  { row with
    title := issue.title
    description := issue.description
    priority := issue.priority
    status := status
    closedAt := issue.closedAt
    labelsJson := .encodes issue.labels
    parent := issue.parent
    availableAt := issue.availableAt
    updatedAt := issue.updatedAt
    evidenceJson := .encodes issue.evidence
    metadataJson := .encodes issue.metadata
    externalRef := issue.externalRef }

/-- The patch is applied to the issue as it was read, and all of its columns are written back. A
status that is no status is refused by the `CHECK` of the table. -/
def updateTx (id : String) (patch : IssuePatch) (actor : String) (now : Int) : Tx Unit := do
  let current ← query fun db => db.getIssue server company id
  let next ← ofResult (patch.apply policy now current)
  let status ← ofResult (Outcome.ofOption
    (.postgres "new row for relation \"marbles_issue\" violates check constraint")
    (Status.parse next.status))
  execute fun db => db.setIssue company id fun row => row.write next status
  if patch.statusChanged current then
    logEvent company id now actor "status" s!"→ {next.status}"
  logEvent company id now actor "updated" ""

/-- The status is checked before the transaction, and the issue is read again after it: what is
returned may already be somebody else's. -/
def update (id : String) (patch : IssuePatch) (actor : String) (now : Int) : Method Issue := do
  transaction (ofResult patch.checkStatus)
  transaction (updateTx server company id patch actor now)
  get server company id

/-- `SELECT labels_json … FOR UPDATE`, decoded. -/
def labelsOf (id : String) (db : Database) : Result (List String) := do
  let row ← Outcome.ofOption (.notFound id) (db.issueRow company id)
  row.labelsJson.fromStr

/-- The labels are stored as one JSON text; the event lists all of them. -/
def setLabels (id : String) (labels : List String) (actor : String) (now : Int) : Tx Unit := do
  execute fun db => db.setIssue company id fun row =>
    { row with labelsJson := .encodes labels, updatedAt := now }
  logEvent company id now actor "labels" (",".intercalate labels)

/-- A label that is there already changes nothing, not even the time of the update. -/
def addLabelTx (id label actor : String) (now : Int) : Tx Unit := do
  let labels ← query (labelsOf company id)
  match addedLabel labels label with
  | some labels => setLabels company id labels actor now
  | none => pure ()

/-- Removing is recorded whether the label was there or not. -/
def removeLabelTx (id label actor : String) (now : Int) : Tx Unit := do
  let labels ← query (labelsOf company id)
  setLabels company id (removedLabel labels label) actor now

/-! ### Dependencies -/

/-- The issue is there. -/
def requireIssue (id : String) (db : Database) : Result Unit :=
  if (db.issueRow company id).isNone then Outcome.fail (.notFound id) else .ok ()

/-- Both issues are there, so the foreign keys of the edge hold. -/
def addDepTx (child parent actor : String) (now : Int) : Tx Unit := do
  query (requireIssue company child)
  query (requireIssue company parent)
  query fun db =>
    if db.reachable company parent child then Outcome.fail (.cycle child parent) else .ok ()
  execute fun db => { db with dep := db.dep.insert (company, depKey child parent) () }
  execute fun db => db.setIssue company child fun row => { row with updatedAt := now }
  logEvent company child now actor "depends_on" parent

/-- An edge to oneself is refused without asking the server. -/
def addDep (child parent actor : String) (now : Int) : Method Unit :=
  if child = parent then throw (.fail (.cycle child parent))
  else transaction (addDepTx company child parent actor now)

/-- Deleting no row is no error, and is recorded all the same. -/
def removeDepTx (child parent actor : String) (now : Int) : Tx Unit := do
  execute fun db => { db with dep := db.dep.erase (company, depKey child parent) }
  logEvent company child now actor "unblocked_from" parent

/-! ### Claims -/

/-- The claim columns of a granted claim. -/
def IssueRow.claim (row : IssueRow) (assignee kind : String) (now expiry : Int) : IssueRow :=
  { row with
    assignee := some assignee
    actorKind := some kind
    claimedAt := some now
    expiresAt := some expiry
    updatedAt := now }

/-- The claim columns cleared. -/
def IssueRow.unclaim (row : IssueRow) : IssueRow :=
  { row with assignee := none, actorKind := none, claimedAt := none, expiresAt := none }

/-- Refuse a claim on an issue that another holder has a live claim on. -/
def checkHolder (req : ClaimRequest) (now : Int) (db : Database) : Result Unit := do
  let row ← Outcome.ofOption (.notFound req.id) (db.issueRow company req.id)
  if heldAt row.assignee row.expiresAt now && row.assignee ≠ some req.assignee then
    Outcome.fail (.alreadyClaimed req.id (row.assignee.getD ""))
  else .ok ()

/-- The holder is looked up in the transaction that writes the lease, and the transactions of a
company run one after the other, which keeps two claims apart. -/
def claimTx (req : ClaimRequest) (ttl now : Int) : Tx ClaimReceipt := do
  query (checkHolder company req now)
  let expiry := wrapI64 (now + ttl)
  execute fun db => db.setIssue company req.id fun row =>
    row.claim req.assignee req.actorKind.asStr now expiry
  logEvent company req.id now req.assignee "claimed" req.actorKind.asStr
  pure ⟨req.id, req.assignee, req.actorKind, expiry⟩

/-- The lease is computed before the transaction begins. -/
def claim (req : ClaimRequest) (now : Int) : Method ClaimReceipt :=
  match req.ttl week policy now with
  | none => throw .abort
  | some ttl => transaction (claimTx company req ttl now)

/-- The lease of a heartbeat of the holder. -/
def touchLease (id assignee : String) (now : Int) (db : Database) : Result Int := do
  let row ← Outcome.ofOption (.notFound id) (db.issueRow company id)
  if row.assignee ≠ some assignee then
    Outcome.fail (.bad s!"{id} is not claimed by {assignee}")
  else if row.actorKind = some "human" then match humanTtl week policy now with
    | none => Outcome.abort
    | some ttl => .ok ttl
  else .ok policy.agentTtlSeconds

/-- A heartbeat moves the end of the lease and nothing else of the claim. -/
def touchTx (id assignee : String) (now : Int) : Tx Int := do
  let ttl ← query (touchLease company id assignee now)
  let expiry := wrapI64 (now + ttl)
  execute fun db => db.setIssue company id fun row =>
    { row with expiresAt := some expiry, updatedAt := now }
  logEvent company id now assignee "heartbeat" ""
  pure expiry

/-- No row changed means there is no such issue. -/
def releaseTx (id actor : String) (now : Int) : Tx Unit := do
  query (requireIssue company id)
  execute fun db => db.setIssue company id fun row => { row.unclaim with updatedAt := now }
  logEvent company id now actor "released" ""

/-- The claims that have lapsed; `order` is the order in which the server visits the issues. -/
def lapsedQuery (now : Int) (order : List String) (db : Database) :
    List ((String × String) × IssueRow) :=
  sortOn (fun r => order.idxOf r.1.2) (db.issue.select company fun _ row =>
    row.assignee.isSome && row.expiresAt.any (· ≤ now))

/-- One turn of the sweep: a human hold is escalated, any other claim is cleared. A claim
without a kind is read as a text that is not there. -/
def sweepRow (now : Int) (report : SweepReport) (r : (String × String) × IssueRow) :
    Tx SweepReport :=
  match r.2.assignee, r.2.actorKind with
  | some assignee, some kind =>
      if kind = "human" then do
        logEvent company r.1.2 now "sweeper" "escalated" assignee
        pure { report with escalated := report.escalated ++ [s!"{r.1.2} ({assignee})"] }
      else do
        execute fun db => db.setIssue company r.1.2 IssueRow.unclaim
        logEvent company r.1.2 now "sweeper" "claim_expired" assignee
        pure { report with requeued := report.requeued ++ [r.1.2] }
  | _, _ => ofResult Outcome.abort

/-- All lapsed claims in one transaction, so a claim that cannot be read undoes the whole sweep. -/
def sweepTx (now : Int) (order : List String) : Tx SweepReport := do
  let rows ← query fun db => .ok (lapsedQuery company now order db)
  rows.foldlM (sweepRow company now) ⟨[], []⟩

/-! ### Terminal operations -/

/-- Refuse to close past a blocker that is still open. -/
def checkBlockers (id : String) (db : Database) : Result Unit :=
  match sortOn (fun b => server.order.idxOf b) (db.openBlockers company id) with
  | blocker :: _ => Outcome.fail (waitsOn id blocker)
  | [] => .ok ()

/-- A closed row: the evidence is stored and the claim is cleared. -/
def IssueRow.close (row : IssueRow) (reason : Option String) (evidence : List Evidence)
    (now : Int) : IssueRow :=
  { row.unclaim with
    status := .closed
    closedAt := some now
    closeReason := reason
    evidenceJson := .encodes evidence
    updatedAt := now }

/-- `SELECT evidence_json … FOR UPDATE`, decoded. -/
def evidenceOf (id : String) (db : Database) : Result (List Evidence) := do
  let row ← Outcome.ofOption (.notFound id) (db.issueRow company id)
  row.evidenceJson.fromStr

/-- The receipts are appended to those that are there; blockers are the caller's business. -/
def closeTx (id : String) (reason : Option String) (evidence : List Evidence) (actor : String)
    (now : Int) : Tx Unit := do
  let existing ← query (evidenceOf company id)
  execute fun db => db.setIssue company id fun row =>
    row.close reason (mergeEvidence existing evidence) now
  logEvent company id now actor "closed" (closedDetail reason evidence)

/-- Evidence is asked for before anything is read. The blockers are looked up in the transaction
that closes. -/
def close (id : String) (reason : Option String) (evidence : List Evidence) (actor : String)
    (now : Int) : Method Issue :=
  if evidence.isEmpty then throw (.fail (.noEvidence id))
  else do
    transaction do
      query (checkBlockers server company id)
      closeTx company id reason evidence actor now
    get server company id

/-- Neither evidence nor blockers are asked for: the replacement is the evidence, and blockers are
passed over. -/
def supersedeTx (id replacement actor : String) (now : Int) : Tx Unit := do
  query (requireIssue company replacement)
  let reason := s!"superseded by {replacement}"
  closeTx company id (some reason) [Evidence.ack reason] actor now
  addLabelTx company id s!"supersedes:{replacement}" actor now

/-! ### History, statistics and measurements -/

/-- By number, which is the order in which the events of the company were recorded. -/
def historyQuery (id : String) (db : Database) : List HistoryEvent :=
  (sortOn (fun r => r.1.2) (db.history.select company fun _ row => row.issueId = id)).map
    fun r => ⟨r.2.issueId, r.2.ts, r.2.actor, r.2.event, r.2.detail⟩

/-- Counted here and not by the server, from the project and the status of every row. -/
def statsQuery (db : Database) : Value :=
  statsValue ((db.issue.select company fun _ _ => true).map fun r =>
    (r.2.project, r.2.status.asStr))

/-- Issues by project and status. -/
def issueSamples (db : Database) : String :=
  String.join ((groupOn
    (fun r => toLex (server.textOrder r.2.project, server.textOrder r.2.status.asStr))
    (db.issue.select company fun _ _ => true)).map fun g =>
      Db.sample "marbles_issues"
        [("project", (ofLex (ofLex g.1).1).2), ("status", (ofLex (ofLex g.1).2).2)] g.2.length)

/-- The age of the oldest queued issue of each project. -/
def queueAges (now : Int) (db : Database) : Result (List (String × Int)) :=
  (groupOn (fun r => r.2.project) (db.issue.select company fun k row =>
    row.status = .«open» && row.availableAt.getD 0 ≤ now &&
      (db.openBlockers k.1 k.2).isEmpty)).mapM fun g => do
    let age ← bigint (now - (g.2.map fun r => r.2.createdAt).min?.getD 0)
    pure (g.1, max age 0)

/-- The live claims by project and kind; a missing kind is not a text. -/
def claimsActive (now : Int) (db : Database) : Result (List ((String × String) × Nat)) := do
  let kinds ← (db.issue.select company fun _ row =>
    row.assignee.isSome && row.expiresAt.any (· > now)).mapM fun r => match r.2.actorKind with
      | some kind => .ok (toLex (r.2.project, kind))
      | none => Outcome.abort
  pure ((groupOn (fun k => k) kinds).map fun g => (ofLex g.1, g.2.length))

/-- Events by project and kind, of the issues that are there. -/
def eventSamples (db : Database) : String :=
  String.join ((groupOn (fun r => toLex (r.2.2.project, r.1.2.event))
    (db.history.join db.issue fun h i =>
      i.1.1 = h.1.1 && i.1.2 = h.2.issueId && h.1.1 = company)).map fun g =>
        Db.sample "marbles_events_total"
          [("project", (ofLex g.1).1), ("event", (ofLex g.1).2)] g.2.length)

/-- The first time an event of this kind was recorded for an issue. -/
def firstEvent (p : Db.HistoryRow → Bool) (id : String) (db : Database) : Option Int :=
  ((db.history.select company fun _ row => p row && row.issueId = id).map fun r => r.2.ts).min?

/-- From creation to the first claim. -/
def claimLatency (db : Database) : List (String × Int × Int) :=
  (db.issue.select company fun _ _ => true).filterMap fun r =>
    (firstEvent company (fun h => h.event = "claimed") r.1.2 db).map fun first =>
      (r.2.project, r.2.createdAt, first)

/-- From creation to close. -/
def cycleTime (db : Database) : List (String × Int × Int) :=
  (db.issue.select company fun _ _ => true).filterMap fun r =>
    r.2.closedAt.map fun closed => (r.2.project, r.2.createdAt, closed)

/-- From the first review to close. -/
def reviewTime (db : Database) : List (String × Int × Int) :=
  (db.issue.select company fun _ _ => true).filterMap fun r => do
    let closed ← r.2.closedAt
    let first ← firstEvent company (fun h => h.event = "status" && h.detail = "→ review") r.1.2 db
    some (r.2.project, first, closed)

/-- Sum and number of the durations of each project. -/
def durations (spans : List (String × Int × Int)) : Result (List (String × Int × Nat)) :=
  (groupOn (fun s => s.1) (spans.filter fun s => s.2.1 ≤ s.2.2)).mapM fun g => do
    let lengths ← g.2.mapM fun s => bigint (s.2.2 - s.2.1)
    let sum ← bigint lengths.sum
    pure (g.1, max sum 0, g.2.length)

/-- All samples, in the order they are rendered. -/
def prometheusMetricsQuery (now : Int) (db : Database) : Result String := do
  let ages ← queueAges company now db
  let claims ← claimsActive company now db
  let latency ← durations (claimLatency company db)
  let cycle ← durations (cycleTime company db)
  let review ← durations (reviewTime company db)
  pure (Db.metricsHeader ++ issueSamples server company db ++
    String.join (ages.map fun a =>
      Db.sample "marbles_queue_oldest_age_seconds" [("project", a.1)] a.2) ++
    String.join (claims.map fun c =>
      Db.sample "marbles_claims_active" [("project", c.1.1), ("actor_kind", c.1.2)] c.2) ++
    eventSamples company db ++
    Db.MetricRows.durationSamples "marbles_claim_latency_seconds" latency ++
    Db.MetricRows.durationSamples "marbles_cycle_time_seconds" cycle ++
    Db.MetricRows.durationSamples "marbles_review_time_seconds" review)

/-! ### The contract -/

/-- The method a call of the `Store` trait stands for; dropping a project is not one. The trait has
no dropping, so the hosted store cannot lose a project. -/
def method : Op → Option (Method Reply)
  | .ensureProject slug root idPrefix ts => some do
      transaction (ensureProjectTx company slug root idPrefix ts)
      pure .unit
  | .dropProject _ => none
  | .projects => some (.projects <$> withClient fun db => .ok (projectsQuery server company db))
  | .ensureFolder folder now => some do
      ensureFolder company folder now
      pure .unit
  | .setProjectFolder project folder now => some do
      transaction (setProjectFolderTx company project folder now)
      pure .unit
  | .folderView => some (.folders <$> withClient fun db => .ok (folderViewQuery server company db))
  | .pendingEvents now limit =>
      some (.events <$> withClient fun db => .ok (pendingEventsQuery company now limit db))
  | .markEventDelivered seq now => some do
      transaction (markEventDeliveredTx company seq now)
      pure .unit
  | .markEventFailed seq nextAttemptAt error => some do
      transaction (markEventFailedTx company seq nextAttemptAt error)
      pure .unit
  | .create spec draws now => some (.id <$> create company spec draws now)
  | .get id => some (.issue <$> get server company id)
  | .list project all onlyId =>
      some (.issues <$> withClient (listQuery server company project all onlyId))
  | .ready project now => some (.issues <$> withClient (readyQuery server company project now))
  | .update id patch actor now => some (.issue <$> update server company id patch actor now)
  | .addLabel id label actor now => some do
      transaction (addLabelTx company id label actor now)
      pure .unit
  | .removeLabel id label actor now => some do
      transaction (removeLabelTx company id label actor now)
      pure .unit
  | .addDep child parent actor now => some do
      addDep company child parent actor now
      pure .unit
  | .removeDep child parent actor now => some do
      transaction (removeDepTx company child parent actor now)
      pure .unit
  | .claim req now => some (.receipt <$> claim company req now)
  | .touch id assignee now => some (.expiry <$> transaction (touchTx company id assignee now))
  | .release id actor now => some do
      transaction (releaseTx company id actor now)
      pure .unit
  | .sweep now order => some (.swept <$> transaction (sweepTx company now order))
  | .close id reason evidence actor now =>
      some (.issue <$> close server company id reason evidence actor now)
  | .supersede id replacement actor now => some do
      transaction (supersedeTx company id replacement actor now)
      pure .unit
  | .history id => some (.history <$> withClient fun db => .ok (historyQuery company id db))
  | .stats => some (.stats <$> withClient fun db => .ok (statsQuery company db))
  | .prometheusMetrics now =>
      some (.text <$> withClient (prometheusMetricsQuery server company now))

end Methods

end Marbles.Postgres
