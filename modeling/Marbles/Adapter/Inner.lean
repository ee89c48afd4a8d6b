import Marbles.Db.Tx
import Marbles.Lib.Prog
import Marbles.Records

/-!
# The records adapter: documents and calls

`adapter.rs` keeps every row as a JSON document in a records engine. A method is a
program over what it asks of the engine and of the audit counter next to it; which
engine answers is left open here. In memory it answers at once, over `soil:records` each
question is a call to a shared book.

The state of the adapter is the engine and a counter, and the question type lists what a method
may ask of them. The conversions between rows and documents are here too, with the fields that the
source writes and the defaults it reads with.
-/

namespace Marbles.Adapter

open Json (Value Object)
open Records (Key Version CasResult)
open Sorting (sortOn)

def issueKind : String := "issue"
def projectKind : String := "project"
def folderKind : String := "folder"
def projectFolderKind : String := "project_folder"
def dependencyKind : String := "dependency"
def remoteDepKind : String := "remote_dep"
def outboundEventKind : String := "outbound_event"
def marblesEventKind : String := "marbles_event"
def storeMetaKind : String := "store_meta"

/-! ### Issue documents -/

/-- A receipt as it stands in the document of its issue. -/
def evidenceToJson (item : Evidence) : Value :=
  .obj [("kind", .str item.kind), ("value", .str item.value)]

/-- A value that is not a receipt is none: the reader of a list then has none of its items. -/
def evidenceOfJson (v : Value) : Option Evidence := do
  let kind ← (v.get "kind").bind Value.asStr
  let value ← (v.get "value").bind Value.asStr
  some ⟨kind, value⟩

/-- The document of an issue; its edges are records of their own. Field by field as `serde` writes
it, so that a document can be compared with one on disk. -/
def issueToJson (issue : Issue) : Value := .obj [
  ("actor_kind", .ofStr? issue.actorKind),
  ("assignee", .ofStr? issue.assignee),
  ("available_at", .ofInt? issue.availableAt),
  ("closed_at", .ofInt? issue.closedAt),
  ("created_at", .num issue.createdAt),
  ("description", .str issue.description),
  ("evidence", .arr (issue.evidence.map evidenceToJson)),
  ("expires_at", .ofInt? issue.expiresAt),
  ("external_ref", .ofStr? issue.externalRef),
  ("id", .str issue.id),
  ("issue_type", .str issue.issueType),
  ("labels", .arr (issue.labels.map .str)),
  ("metadata", issue.metadata),
  ("parent", .ofStr? issue.parent),
  ("priority", .num issue.priority),
  ("project", .str issue.project),
  ("status", .str issue.status),
  ("title", .str issue.title),
  ("updated_at", .num issue.updatedAt)]

/-- The text under a key, empty when there is none. -/
def textOf (key : String) (data : Value) : String := ((data.field key).asStr).getD ""

/-- The issue of a document and its edges: the parents it depends on, how many of them
are open, and how many open issues depend on it. Stored integers fit their type. -/
def issueOfJson (id : String) (data : Value) (parents : List String)
    (openParents openChildren : Nat) : Issue where
  id := id
  title := textOf "title" data
  description := textOf "description" data
  status := textOf "status" data
  priority := (data.field "priority").asInt.getD 0
  issueType := textOf "issue_type" data
  labels := ((data.field "labels").asList Value.asStr).getD []
  metadata := data.field "metadata"
  externalRef := (data.field "external_ref").asStr
  dependencyCount := openParents
  dependentCount := openChildren
  dependencies := parents.map fun p => ⟨some p⟩
  evidence := ((data.field "evidence").asList evidenceOfJson).getD []
  parent := (data.field "parent").asStr
  assignee := (data.field "assignee").asStr
  actorKind := (data.field "actor_kind").asStr
  expiresAt := (data.field "expires_at").asInt
  availableAt := (data.field "available_at").asInt
  closedAt := (data.field "closed_at").asInt
  createdAt := (data.field "created_at").asInt.getD 0
  updatedAt := (data.field "updated_at").asInt.getD 0
  project := textOf "project" data

@[simp] theorem evidenceOfJson_toJson (item : Evidence) :
    evidenceOfJson (evidenceToJson item) = some item := rfl

/-- A stored issue is read back with the edges it is read with. -/
theorem issueOfJson_toJson (issue : Issue) (parents : List String)
    (openParents openChildren : Nat) :
    issueOfJson issue.id (issueToJson issue) parents openParents openChildren =
      { issue with
        dependencyCount := openParents
        dependentCount := openChildren
        dependencies := parents.map fun p => ⟨some p⟩ } := by
  have hlabels : ((issueToJson issue).field "labels").asList Value.asStr = some issue.labels :=
    @Value.asList_map String Value.asStr Value.str (fun _ => rfl) issue.labels
  have hevidence : ((issueToJson issue).field "evidence").asList evidenceOfJson =
      some issue.evidence := Value.asList_map evidenceOfJson_toJson issue.evidence
  unfold issueOfJson
  rw [hlabels, hevidence]
  simp [issueToJson, textOf, Value.field, Object.get, List.lookup_cons]

/-- What a patch leaves alone. -/
theorem patch_apply_frame {patch : IssuePatch} {policy : Policy} {now : Int} {issue next : Issue}
    (h : patch.apply policy now issue = .ok next) :
    next.id = issue.id ∧ next.project = issue.project ∧ next.issueType = issue.issueType ∧
      next.assignee = issue.assignee ∧ next.actorKind = issue.actorKind ∧
      next.expiresAt = issue.expiresAt ∧ next.createdAt = issue.createdAt ∧
      next.updatedAt = now := by
  obtain ⟨metadata, reference, rfl, -⟩ := patch.apply_ok h
  unfold IssuePatch.setStatus
  cases patch.status with
  | none => exact ⟨rfl, rfl, rfl, rfl, rfl, rfl, rfl, rfl⟩
  | some status => exact ⟨rfl, rfl, rfl, rfl, rfl, rfl, rfl, rfl⟩

/-- A patch is applied only when its metadata is an object. -/
theorem patch_apply_metadata {patch : IssuePatch} {policy : Policy} {now : Int}
    {issue next : Issue} (h : patch.apply policy now issue = .ok next) :
    (patch.metadata.all fun m => m.asObject.isSome) = true := by
  unfold IssuePatch.apply IssuePatch.merge at h
  cases hmetadata : patch.metadata with
  | none => rfl
  | some metadata =>
      rw [hmetadata] at h
      cases metadata with
      | obj incoming => rfl
      | _ => cases h

/-! ### Calls -/

/-- What a method asks of the engine, and the next number of the audit counter. These are all the
ways a method reaches the engine, so a store that answers them in another way runs the same methods.
-/
inductive Call where
  | append (name : String) (key : Key) (data : Value) (deleted : Bool)
  | current (name : String) (key : Key)
  | keys (name : String)
  | version (name : String) (key : Key)
  | compareAndSwap (name : String) (key : Key) (expected : Option Version) (data : Value)
      (deleted : Bool)
  | nextSeq

namespace Call

/-- What each question is answered with. Only a compare-and-swap can be refused. -/
@[reducible] def Resp : Call → Type
  | append .. => Unit
  | current .. => Option Value
  | keys _ => List Key
  | version .. => Option Version
  | compareAndSwap .. => Except String CasResult
  | nextSeq => Nat

end Call

/-- The mutable state behind an adapter, as its methods see it. -/
abbrev InnerI : Interface := ⟨Call, Call.Resp⟩

/-- What a method of the adapter does. -/
abbrev AdapterM := ExceptT (Fault Error) (Prog InnerI)

/-- One question to the engine. It never fails by itself; what an answer means is up to the method.
-/
def ask (c : Call) : AdapterM c.Resp := ExceptT.mk (.call c fun r => .ret (.ok r))

/-- Go on with what was computed without the engine. -/
def liftResult {α : Type} (r : Result α) : AdapterM α := ExceptT.mk (.ret r)

/-- A new revision of a record, which is its current one from then on. -/
def append (name : String) (key : Key) (data : Value) : AdapterM Unit :=
  ask (.append name key data false)

/-- Deleting appends too: a revision that says the record is gone. -/
def tombstone (name : String) (key : Key) : AdapterM Unit := ask (.append name key .null true)

/-- The document of the last revision, unless that is a tombstone. -/
def current (name : String) (key : Key) : AdapterM (Option Value) := ask (.current name key)

/-- The keys of the live records of a type, in their order. -/
def keys (name : String) : AdapterM (List Key) := ask (.keys name)

/-- The live documents of a record type under their keys, in key order. -/
def docs (name : String) : AdapterM (List (Key × Value)) := do
  (← keys name).foldlM (fun found key => do
    match ← current name key with
    | some data => pure (found ++ [(key, data)])
    | none => pure found) []

/-! ### Issues -/

/-- The stored document, without the edges. -/
def loadIssue (id : String) : AdapterM (Option Value) := current issueKind [id]

/-- The edge a key of the dependency type stands for. -/
def edgeOf : Key → Option (String × String)
  | child :: parent :: _ => some (child, parent)
  | _ => none

/-- All edges of the store. There is no index by issue: every method that needs the edges of one
issue reads all of them. -/
def edges : AdapterM (List (String × String)) := do
  pure ((← keys dependencyKind).filterMap edgeOf)

/-- The stored status of an issue, if it is there. -/
def statusOf (id : String) : AdapterM (Option String) := do
  pure ((← loadIssue id).bind fun data => (data.field "status").asStr)

/-- How many of these issues are there and not closed? -/
def countOpen (ids : List String) : AdapterM Nat :=
  ids.foldlM (fun n id => do
    pure (if (← statusOf id).any fun s => !isTerminal s then n + 1 else n)) 0

/-- The edges are read twice, once for each direction, and the status of every neighbour is one more
read. Between two of these reads another caller of a shared book may write. -/
def rowToIssue (id : String) : AdapterM (Option Issue) := do
  match ← loadIssue id with
  | none => pure none
  | some data => do
      let parents := ((← edges).filter fun e => e.1 = id).map Prod.snd
      let openParents ← countOpen parents
      let children := ((← edges).filter fun e => e.2 = id).map Prod.fst
      let openChildren ← countOpen children
      pure (some (issueOfJson id data (sortOn (fun p => p) parents) openParents openChildren))

/-- An issue that is not there is the error every method reports for it. -/
def get (id : String) : AdapterM Issue := do
  match ← rowToIssue id with
  | some issue => pure issue
  | none => throw (.fail (.notFound id))

/-- All issues, in the order of their keys. The documents are looked up one by one, as the source
does. -/
def allIssues : AdapterM (List Issue) := do
  (← keys issueKind).foldlM (fun found key => do
    match key with
    | id :: _ => do
        match ← rowToIssue id with
        | some issue => pure (found ++ [issue])
        | none => pure found
    | [] => pure found) []

/-- The whole document is written, whatever was read before: a write that came in between is
overwritten. -/
def saveIssue (issue : Issue) : AdapterM Unit := append issueKind [issue.id] (issueToJson issue)

/-- The version is a question of its own, so it may be that of a later revision than the one that
was read. -/
def issueVersion (id : String) : AdapterM Version := do
  match ← ask (.version issueKind [id]) with
  | some version => pure version
  | none => throw (.fail (.notFound id))

/-- Save an issue if its last revision is still the expected one. -/
def saveIssueCas (issue : Issue) (expected : Version) : AdapterM Bool := do
  match ← ask (.compareAndSwap issueKind [issue.id] (some expected) (issueToJson issue) false) with
  | .ok result => pure result.applied
  | .error message => throw (.fail (.bad message))

/-- The document of an audit event; its number is its key. -/
def eventToJson (id : String) (ts : Int) (actor event detail : String) : Value := .obj [
  ("actor", .str actor), ("detail", .str detail), ("event", .str event),
  ("issue_id", .str id), ("ts", .num ts)]

/-- The document of a new event of the outbox: not tried yet, and due at once. -/
def outboundToJson (seq : Nat) (storeId id project : String) (ts : Int) (event : String) :
    Value := .obj [
  ("attempts", .num 0), ("delivered_at", .null), ("event", .str event), ("issue_id", .str id),
  ("last_error", .null), ("next_attempt_at", .num ts), ("occurred_at", .num ts),
  ("project", .str project), ("seq", .num seq), ("store_id", .str storeId)]

/-- Append an outbound event when the issue is there. -/
def logOutbound (storeId id : String) (seq : Nat) (ts : Int) (event : String) :
    AdapterM Unit := do
  match ← loadIssue id with
  | some data =>
      append outboundEventKind [seq.repr]
        (outboundToJson seq storeId id (textOf "project" data) ts event)
  | none => pure ()

/-- Append an audit event, with its outbound event under the same number. The event comes first: a
crash in between leaves an event that is never offered, and no offer without an event. -/
def logEvent (storeId id : String) (ts : Int) (actor event detail : String) :
    AdapterM Unit := do
  let seq ← ask .nextSeq
  append marblesEventKind [seq.repr] (eventToJson id ts actor event detail)
  logOutbound storeId id seq ts event

/-- Is `target` reachable from `source` over dependency edges? Nothing is written during
the walk, so the edges are the ones the first look finds. -/
def reachable (source target : String) : AdapterM Bool :=
  if source = target then pure true
  else do
    let found ← edges
    pure (Graph.depthFirst found target (found.length + 1) [source] [])

/-- The stored document of a project. -/
def loadProject (slug : String) : AdapterM (Option Value) := current projectKind [slug]

/-- The project an issue names, whether that is there or not. -/
def projectOf (id : String) : AdapterM String := do
  match ← loadIssue id with
  | some data => pure (textOf "project" data)
  | none => throw (.fail (.notFound id))

end Marbles.Adapter
