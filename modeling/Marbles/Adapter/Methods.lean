import Marbles.Adapter.Inner
import Marbles.Db.Tx

/-!
# The methods of the records adapter

Every method of the `Store` contract as a program over the engine, in the order the
source asks. There are no transactions: what a method appended stays when it fails later.

The order in which a method asks is kept, even where the answers do not depend on it, since over a
shared book others write in between. Checks come before writes in every method; a panic of the
source is an abort of the program.
-/

namespace Marbles.Adapter

open Json (Value Object)
open Records (Key)
open Sorting (sortOn groupOn)

/-- What an adapter is opened with. -/
structure Config extends Db.Config where
  storeId : String := "store"

/-- Run `f` on what is there. -/
def whenSome {α : Type} (a : Option α) (f : α → AdapterM Unit) : AdapterM Unit :=
  match a with
  | some a => f a
  | none => pure ()

/-! ### Projects and folders -/

/-- The stored document of a folder. -/
def loadFolder (slug : String) : AdapterM (Option Value) := current folderKind [slug]

/-- Keep the fields that are set once. -/
def setDefault (key : String) (value : Value) (data : Value) : Value :=
  match data.get key with
  | some _ => data
  | none => data.set key value

/-- Root and slug follow the call. Prefix and time of creation stay those of the first one, since
the id of every issue starts with the prefix. -/
def ensureProject (slug root idPrefix : String) (ts : Int) : AdapterM Unit := do
  let data := (← loadProject slug).getD
    (.obj [("created_at", .num ts), ("prefix", .str idPrefix), ("slug", .str slug)])
  let data := (data.set "slug" (.str slug)).set "root" (.str root)
  append projectKind [slug]
    (setDefault "created_at" (.num ts) (setDefault "prefix" (.str idPrefix) data))

/-- By slug, and then by what the tuples of the source are compared by. No two of them have one
slug, so the tuples never decide; the order is kept all the same. -/
def projects : AdapterM (List (String × String × String)) := do
  let found ← (← keys projectKind).foldlM (fun found key => do
    match key with
    | slug :: _ => do
        match ← loadProject slug with
        | some data => pure (found ++ [(slug, textOf "root" data, textOf "prefix" data)])
        | none => pure found
    | [] => pure found) []
  pure (sortOn (fun p => toLex (p.1, toLex p.2)) found)

/-- The folder a folder is in. -/
def parentOf (slug : String) : AdapterM (Option String) := do
  pure ((← loadFolder slug).bind fun data => (data.field "parent").asStr)

/-- Does the chain of parents from `node` meet `slug`? A chain longer than all folders never ends.
The bound replaces the loop of the source, which ends because there is no cycle. -/
def meets (slug : String) : Nat → Option String → AdapterM Bool
  | _, none => pure false
  | 0, some _ => throw .abort
  | fuel + 1, some node =>
      if node = slug then pure true
      else do
        let next ← parentOf node
        meets slug fuel next

/-- Attaching `slug` under a parent must not close a cycle. The check is over before anything is
written, so a refused folder leaves no revision. -/
def checkFolderParent (slug : String) : Option String → AdapterM Unit
  | none => pure ()
  | some parent =>
      if parent = slug then throw (.fail (.bad "a folder cannot be its own parent"))
      else do
        match ← loadFolder parent with
        | none => throw (.fail (.bad s!"no folder {parent}"))
        | some _ => do
            let folders ← keys folderKind
            let node ← parentOf parent
            if ← meets slug (folders.length + 1) node then
              throw (.fail (.bad s!"folder {slug} would become a descendant of itself"))
            else pure ()

/-- What is empty after trimming is refused. Name and parent follow the call; the time of creation
stays. -/
def ensureFolder (folder : Folder) (now : Int) : AdapterM Unit :=
  let slug := trim folder.slug
  let name := trim folder.name
  if slug = "" then throw (.fail (.bad "folder slug is empty"))
  else if name = "" then throw (.fail (.bad "folder name is empty"))
  else do
    let parent := trimmed folder.parent
    checkFolderParent slug parent
    let data := (← loadFolder slug).getD (.obj [("created_at", .num now), ("name", .str name),
      ("parent", .null), ("slug", .str slug)])
    let data := ((data.set "slug" (.str slug)).set "name" (.str name)).set "parent"
      (.ofStr? parent)
    append folderKind [slug] (setDefault "created_at" (.num now) data)

/-- Without a folder the filing is deleted, whether there was one or not. The tombstone is a
revision like any other, which is why it is written unseen. -/
def setProjectFolder (project : String) (folder : Option String) (now : Int) :
    AdapterM Unit := do
  match ← loadProject project with
  | none => throw (.fail (.noProject project))
  | some _ =>
      match trimmed folder with
      | none => tombstone projectFolderKind [project]
      | some folder => do
          match ← loadFolder folder with
          | none => throw (.fail (.bad s!"no folder {folder}"))
          | some _ => do
              let data := (← current projectFolderKind [project]).getD (.obj [])
              append projectFolderKind [project] (((data.set "project" (.str project)).set "folder"
                (.str folder)).set "assigned_at" (.num now))

/-- Folders by name and then by slug, filings by the key of their project. -/
def folderView : AdapterM FolderView := do
  let folders := (← docs folderKind).map fun d => (⟨textOf "slug" d.2, textOf "name" d.2,
    (d.2.field "parent").asStr, (d.2.field "created_at").asInt.getD 0⟩ : Folder)
  let projects := (← docs projectFolderKind).map fun d =>
    (⟨textOf "project" d.2, textOf "folder" d.2⟩ : ProjectFolder)
  pure ⟨sortOn (fun f => toLex (f.name, f.slug)) folders, projects⟩

/-! ### Outbox -/

/-- The sequence number a key spells. -/
def seqOf : Key → Option Int
  | first :: _ => parseInt first
  | [] => none

/-- Any time of delivery counts, whenever it is. -/
def isDelivered (data : Value) : Bool := (data.field "delivered_at").asInt.isSome

/-- The number is that of the key: the one in the document is not read. -/
def outboundOf (seq : Int) (data : Value) : OutboundEvent :=
  ⟨seq, textOf "store_id" data, textOf "issue_id" data, textOf "project" data,
    (data.field "occurred_at").asInt.getD 0, textOf "event" data,
    (data.field "attempts").asInt.getD 0⟩

/-- A document whose key is no number is passed over. -/
def pendingEvents (now : Int) (limit : Nat) : AdapterM (List OutboundEvent) := do
  let due := (← docs outboundEventKind).filterMap fun d => (seqOf d.1).bind fun seq =>
    if isDelivered d.2 || (d.2.field "next_attempt_at").asInt.getD 0 > now then none
    else some (outboundOf seq d.2)
  pure ((sortOn (fun e => e.seq) due).take limit)

/-- Rewrite an outbound event that is there and not delivered yet. -/
def markEvent (seq : Int) (f : Value → Value) : AdapterM Unit := do
  whenSome (← current outboundEventKind [toString seq]) fun data =>
    if isDelivered data then pure ()
    else
      let attempts := wrapI64 ((data.field "attempts").asInt.getD 0 + 1)
      append outboundEventKind [toString seq] (f (data.set "attempts" (.num attempts)))

/-- The last error is cleared with it. -/
def markEventDelivered (seq now : Int) : AdapterM Unit :=
  markEvent seq fun data => (data.set "delivered_at" (.num now)).set "last_error" .null

/-- The event stays where it is and is due again at the given time. -/
def markEventFailed (seq nextAttemptAt : Int) (error : String) : AdapterM Unit :=
  markEvent seq fun data =>
    (data.set "next_attempt_at" (.num nextAttemptAt)).set "last_error" (.str error)

/-! ### Dropping a project -/

/-- Tombstone the live keys of a record type whose document satisfies `gone`. -/
def tombstoneDocs (name : String) (gone : Value → Bool) : AdapterM Unit := do
  (← keys name).forM fun key => do
    whenSome (← current name key) fun data => if gone data then tombstone name key else pure ()

/-- Tombstone the live keys of a record type that satisfy `gone`. -/
def tombstoneKeys (name : String) (gone : Key → Bool) : AdapterM Unit := do
  (← keys name).forM fun key => if gone key then tombstone name key else pure ()

/-- The ids of the issues of a project. The project is a field of the document, so every issue has
to be looked at. -/
def issuesOf (slug : String) : AdapterM (List String) := do
  (← keys issueKind).foldlM (fun mine key => do
    match key with
    | id :: _ => do
        match ← loadIssue id with
        | some data => pure (if textOf "project" data = slug then mine ++ [id] else mine)
        | none => pure mine
    | [] => pure mine) []

/-- Everything about the issues goes, their events first and the project last. Nothing takes it back
when the drop stops in between. The filing of the project in a folder stays. -/
def dropProject (slug : String) : AdapterM ProjectRemoval := do
  match ← loadProject slug with
  | none => throw (.fail (.noProject slug))
  | some _ => do
      let mine ← issuesOf slug
      let about := fun data : Value => (data.field "issue_id").asStr.any (· ∈ mine)
      tombstoneDocs outboundEventKind about
      tombstoneDocs marblesEventKind about
      tombstoneKeys dependencyKind fun key => (key[0]?).any (· ∈ mine) || (key[1]?).any (· ∈ mine)
      tombstoneKeys remoteDepKind fun key => (key[0]?).any (· ∈ mine)
      mine.forM fun id => tombstone issueKind [id]
      tombstone projectKind [slug]
      pure ⟨mine.length⟩

/-! ### Issue lifecycle -/

/-- A parent is an issue of the same project. The texts of the errors are those of the local store,
which the contract compares. -/
def checkParent (project : String) : Option String → AdapterM Unit
  | none => pure ()
  | some parent => do
      match ← loadIssue parent with
      | none => throw (.fail (.notFound parent))
      | some data =>
          let other := textOf "project" data
          if other = project then pure ()
          else throw (.fail (.bad (s!"parent {parent} belongs to project {other}, not " ++
            s!"{project}; hierarchy is project-local (use a dependency edge for " ++
            "cross-project blockers)")))

/-- Draw suffixes until one gives an id that is not taken. -/
def drawId (idPrefix : String) : List String → AdapterM String
  | [] => throw .abort
  | suffix :: draws => do
      let candidate := s!"{idPrefix}-{suffix}"
      match ← loadIssue candidate with
      | none => pure candidate
      | some _ => drawId idPrefix draws

/-- The id asked for, if it is free, or a drawn one. -/
def chooseId (idPrefix : String) (draws : List String) : Option String → AdapterM String
  | some id => do
      match ← loadIssue id with
      | none => pure id
      | some _ => throw (.fail (.bad s!"issue id {id} already exists"))
  | none => drawId idPrefix draws

/-- The issue a specification starts as. It starts without a claim, edges or evidence, as the row of
the local store does. -/
def newIssue (spec : NewIssue) (id project : String) (available : Int) (metadata : Object)
    (now : Int) : Issue where
  id := id
  title := spec.title
  description := spec.description
  status := "open"
  priority := spec.storedPriority
  issueType := spec.issueType
  labels := spec.labels
  metadata := .obj metadata
  externalRef := spec.externalRef
  dependencyCount := 0
  dependentCount := 0
  dependencies := []
  evidence := []
  parent := spec.parent
  assignee := none
  actorKind := none
  expiresAt := none
  availableAt := some available
  closedAt := none
  createdAt := now
  updatedAt := now
  project := project

section Lifecycle

variable (cfg : Config)

/-- The document is appended before the event that records it. The one who creates is only in that
event. Nothing undoes the document if the event cannot be written. -/
def create (spec : NewIssue) (draws : List String) (now : Int) : AdapterM String := do
  match spec.project with
  | none => throw (.fail (.bad "create requires a project"))
  | some project => do
      let available := spec.availableAt.getD (wrapI64 (now + cfg.policy.creationGraceSeconds))
      match ← loadProject project with
      | none => throw (.fail (.noProject project))
      | some data => do
          checkParent project spec.parent
          let id ← chooseId (textOf "prefix" data) draws spec.id
          let metadata ← liftResult spec.storedMetadata
          append issueKind [id] (issueToJson (newIssue spec id project available metadata now))
          logEvent cfg.storeId id now (spec.createdBy.getD "system") "created" spec.title
          pure id

/-- The listing order. -/
def inOrder (issues : List Issue) : List Issue :=
  sortOn (fun issue => listKey issue.priority issue.createdAt issue.id) issues

/-- The whole store is read and then filtered. -/
def list (project : Option String) (all : Bool) (onlyId : Option String) :
    AdapterM (List Issue) := do
  pure (inOrder ((← allIssues).filter fun issue =>
    (all || issue.status ≠ "closed") && Db.matchesScope project issue.project &&
      Db.matchesScope onlyId issue.id))

/-- Is every dependency there and closed? -/
def unblocked (id : String) : AdapterM Bool := do
  (((← edges).filter fun e => e.1 = id).map Prod.snd).foldlM (fun free parent => do
    if free then pure ((← statusOf parent).any isTerminal) else pure false) true

/-- Only the issues that pass the cheap tests are asked for their blockers. The tests are those of
the query of the local store, in another order. -/
def ready (project : Option String) (now : Int) : AdapterM (List Issue) := do
  let issues ← (← allIssues).foldlM (fun found issue => do
    if issue.status = "open" && Db.matchesScope project issue.project &&
        issue.availableAt.all (· ≤ now) then
      if (← unblocked issue.id) && !heldAt issue.assignee issue.expiresAt now then
        pure (found ++ [issue])
      else pure found
    else pure found) []
  pure (inOrder issues)

/-- The document is written without regard to its version, and read again for the answer. -/
def update (id : String) (patch : IssuePatch) (actor : String) (now : Int) :
    AdapterM Issue := do
  liftResult patch.checkStatus
  let current ← get id
  let next ← liftResult (patch.apply cfg.policy now current)
  saveIssue next
  if patch.statusChanged current then
    logEvent cfg.storeId id now actor "status" s!"→ {next.status}"
  else pure ()
  logEvent cfg.storeId id now actor "updated" ""
  get id

/-- Store the labels of an issue that was read before. -/
def saveLabels (issue : Issue) (labels : List String) (actor : String) (now : Int) :
    AdapterM Unit := do
  saveIssue { issue with labels := labels }
  logEvent cfg.storeId issue.id now actor "labels" (",".intercalate labels)

/-- A label that is there already is not written, and not recorded. -/
def addLabel (id label actor : String) (now : Int) : AdapterM Unit := do
  let issue ← get id
  whenSome (addedLabel issue.labels label) fun labels => saveLabels cfg issue labels actor now

/-- Removing is recorded whether the label was there or not. -/
def removeLabel (id label actor : String) (now : Int) : AdapterM Unit := do
  let issue ← get id
  saveLabels cfg issue (removedLabel issue.labels label) actor now

/-- The issue must be there. -/
def checkIssue (id : String) : AdapterM Unit := do
  match ← loadIssue id with
  | some _ => pure ()
  | none => throw (.fail (.notFound id))

/-- An edge that is there already is not recorded either; the other stores record it again. -/
def addDep (child parent actor : String) (now : Int) : AdapterM Unit :=
  if child = parent then throw (.fail (.cycle child parent))
  else do
    checkIssue child
    checkIssue parent
    if ← reachable parent child then throw (.fail (.cycle child parent))
    else
      -- a duplicate edge appends nothing
      match ← current dependencyKind [child, parent] with
      | some _ => pure ()
      | none => do
          append dependencyKind [child, parent]
            (.obj [("child", .str child), ("parent", .str parent)])
          let issue ← get child
          saveIssue { issue with updatedAt := now }
          logEvent cfg.storeId child now actor "depends_on" parent

/-- Only an edge that was there is recorded as removed; the other stores record it in any case. -/
def removeDep (child parent actor : String) (now : Int) : AdapterM Unit := do
  match ← current dependencyKind [child, parent] with
  | some _ => do
      tombstone dependencyKind [child, parent]
      logEvent cfg.storeId child now actor "unblocked_from" parent
  | none => pure ()

/-! ### Claims -/

/-- The lease is computed first, the row read next and its version after it. So a claim that was won
in between is not seen by the check, and does not stop the write. -/
def claim (req : ClaimRequest) (now : Int) : AdapterM ClaimReceipt := do
  match req.ttl cfg.week cfg.policy now with
  | none => throw .abort
  | some ttl => do
      let _ ← projectOf req.id
      let current ← get req.id
      let expected ← issueVersion req.id
      if heldAt current.assignee current.expiresAt now &&
          current.assignee ≠ some req.assignee then
        throw (.fail (.alreadyClaimed req.id (current.assignee.getD "")))
      else do
        let expiry := wrapI64 (now + ttl)
        let applied ← saveIssueCas { current with
          assignee := some req.assignee
          actorKind := some req.actorKind.asStr
          expiresAt := some expiry
          updatedAt := now } expected
        if applied then do
          logEvent cfg.storeId req.id now req.assignee "claimed" req.actorKind.asStr
          pure ⟨req.id, req.assignee, req.actorKind, expiry⟩
        else do
          let latest ← get req.id
          match latest.assignee with
          | some holder =>
              if holder ≠ req.assignee then throw (.fail (.alreadyClaimed req.id holder))
              else throw (.fail (.bad s!"claim for {req.id} lost a race; retry"))
          | none => throw (.fail (.bad s!"claim for {req.id} lost a race; retry"))

/-- A heartbeat of a holder whose kind is neither of the two is treated as an agent's. The lease is
computed while the lock is held, so a panic in the calendar poisons the store. -/
def touch (id assignee : String) (now : Int) : AdapterM Int := do
  let current ← get id
  if current.assignee ≠ some assignee then
    throw (.fail (.bad s!"{id} is not claimed by {assignee}"))
  else match touchTtl (current.actorKind.bind ActorKind.parse) cfg.week cfg.policy now with
    | none => throw .abort
    | some ttl => do
        let expiry := wrapI64 (now + ttl)
        saveIssue { current with expiresAt := some expiry, updatedAt := now }
        logEvent cfg.storeId id now assignee "heartbeat" ""
        pure expiry

/-- The claim fields cleared. -/
def unclaim (issue : Issue) (now : Int) : Issue :=
  { issue with assignee := none, actorKind := none, expiresAt := none, updatedAt := now }

/-- Anyone may release: the holder is not compared with the actor. -/
def release (id actor : String) (now : Int) : AdapterM Unit := do
  let issue ← get id
  saveIssue (unclaim issue now)
  logEvent cfg.storeId id now actor "released" ""

/-- The lapsed claim a document carries, with its holder and kind. -/
def lapsedClaim (id : String) (data : Value) (now : Int) : Option (String × String × String) := do
  let assignee ← (data.field "assignee").asStr
  let expires ← (data.field "expires_at").asInt
  if expires ≤ now then some (id, assignee, ((data.field "actor_kind").asStr).getD "agent")
  else none

/-- In the order of the ids, with the holder and the kind as they are read now. -/
def lapsed (now : Int) : AdapterM (List (String × String × String)) := do
  let found ← (← keys issueKind).foldlM (fun found key => do
    match key with
    | id :: _ => do
        match ← loadIssue id with
        | some data => pure (found ++ (lapsedClaim id data now).toList)
        | none => pure found
    | [] => pure found) []
  pure (sortOn (fun c => toLex (c.1, toLex c.2)) found)

/-- One turn of the sweep: a human hold is escalated, any other claim is cleared. The report lists a
human hold with its holder and a requeued issue by its id alone. -/
def sweepClaim (now : Int) (report : SweepReport) (lapsedClaim : String × String × String) :
    AdapterM SweepReport := do
  let (id, assignee, kind) := lapsedClaim
  if kind = ActorKind.human.asStr then do
    logEvent cfg.storeId id now "sweeper" "escalated" assignee
    pure { report with escalated := report.escalated ++ [s!"{id} ({assignee})"] }
  else do
    let issue ← get id
    saveIssue (unclaim issue now)
    logEvent cfg.storeId id now "sweeper" "claim_expired" assignee
    pure { report with requeued := report.requeued ++ [id] }

/-- Every claim is swept on its own: what was swept stays when a later one fails. -/
def sweep (now : Int) : AdapterM SweepReport := do
  (← lapsed now).foldlM (sweepClaim cfg now) ⟨[], []⟩

/-! ### Terminal operations -/

/-- Refuse to close past a blocker that is still open. -/
def checkBlockers (id : String) : AdapterM Unit := do
  (((← edges).filter fun e => e.1 = id).map Prod.snd).forM fun blocker => do
    if (← statusOf blocker).any fun s => !isTerminal s then throw (.fail (waitsOn id blocker))
    else pure ()

/-- Evidence and blockers are the caller's business. Both `close` and `supersede` end here, and only
the first has checked anything before. -/
def closeUnchecked (id : String) (reason : Option String) (evidence : List Evidence)
    (actor : String) (now : Int) : AdapterM Issue := do
  let issue ← get id
  saveIssue { unclaim issue now with
    evidence := mergeEvidence issue.evidence evidence
    status := "closed"
    closedAt := some now }
  logEvent cfg.storeId id now actor "closed" (closedDetail reason evidence)
  get id

/-- Evidence is asked for before anything is read. -/
def close (id : String) (reason : Option String) (evidence : List Evidence) (actor : String)
    (now : Int) : AdapterM Issue :=
  if evidence.isEmpty then throw (.fail (.noEvidence id))
  else do
    checkBlockers id
    closeUnchecked cfg id reason evidence actor now

/-- Neither evidence nor blockers are asked for: the replacement is the evidence, and blockers are
passed over. -/
def supersede (id replacement actor : String) (now : Int) : AdapterM Unit := do
  let _ ← get replacement
  let reason := s!"superseded by {replacement}"
  let _ ← closeUnchecked cfg id (some reason) [Evidence.ack reason] actor now
  addLabel cfg id s!"supersedes:{replacement}" actor now

/-! ### History and statistics -/

/-- An audit event as it is listed; its number is kept for the order only. -/
def historyOf (id : String) (seq : Int) (data : Value) : Int × HistoryEvent :=
  (seq, ⟨id, (data.field "ts").asInt.getD 0, textOf "actor" data, textOf "event" data,
    textOf "detail" data⟩)

/-- By number, which is the order in which the events were recorded. -/
def history (id : String) : AdapterM (List HistoryEvent) := do
  let events := (← docs marblesEventKind).filterMap fun d => (seqOf d.1).bind fun seq =>
    if (d.2.field "issue_id").asStr = some id then some (historyOf id seq d.2) else none
  pure ((sortOn (fun e => e.1) events).map Prod.snd)

/-- Counted over the documents, without reading any edge. -/
def stats : AdapterM Value := do
  pure (statsValue ((← docs issueKind).map fun d => (textOf "project" d.2, textOf "status" d.2)))

end Lifecycle

end Marbles.Adapter
