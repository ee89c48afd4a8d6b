import Marbles.Lib.Graph
import Marbles.Lib.Journal
import Marbles.Store

/-!
# The tables of the local store

The schema of `db.rs`. A table is a `Table` keyed by its primary key; the history is a
`Journal`, since its key is assigned by the database and never reused. A JSON column is
the value it encodes, and a column that is never read back by the modelled statements
(`policy_json`) is left out.

History and outbox are written together by `log_event`, so they form one `Ledger` whose
invariant is that an outbox key has been assigned by the history. Inserting the next
one can therefore never meet an existing row.

The constraints of the schema that the statements rely on are part of the types where that is
possible: a primary key is unique because a table is a finite map, and an outbox key belongs to
the history by the field of `Ledger`. What is declared and checked by the engine, such as foreign
keys, is checked where the statement is.
-/

namespace Marbles.Db

open Json (Value)
open Sorting (sortOn)

/-! ### Rows -/

/-- A row of `project`, without its key. -/
structure ProjectRow where
  root : String
  idPrefix : String
  createdAt : Int
  deriving DecidableEq

/-- A row of `folder`, without its key. -/
structure FolderRow where
  name : String
  parent : Option String
  createdAt : Int
  deriving DecidableEq

/-- A row of `project_folder`. Its key is the project, so a project is in one folder at most. -/
structure ProjectFolderRow where
  folder : String
  assignedAt : Int
  deriving DecidableEq

/-- A row of `issue`, without its key. The status is typed by the check constraint of its column,
the other columns by their SQL types. -/
structure IssueRow where
  project : String
  title : String
  description : String
  status : Status
  issueType : String
  priority : Int
  parent : Option String
  labels : List String
  assignee : Option String
  actorKind : Option String
  claimedAt : Option Int
  expiresAt : Option Int
  availableAt : Option Int
  createdBy : String
  createdAt : Int
  updatedAt : Int
  closedAt : Option Int
  closeReason : Option String
  evidence : List Evidence
  metadata : Value
  externalRef : Option String
  deriving DecidableEq

/-- A row of `remote_dep`, without its key. The signature is kept, so that a later read can verify
the assertion again. -/
structure RemoteDepRow where
  storeId : String
  remoteIssueId : String
  state : String
  assertedAt : Int
  observedAt : Int
  signature : String
  keyId : String
  deriving DecidableEq

/-- A row of `history`, without its key. Its issue need not exist any more. -/
structure HistoryRow where
  issueId : String
  ts : Int
  actor : String
  event : String
  detail : String
  deriving DecidableEq

/-- A row of `outbound_event`, without its key, which is that of the history row recorded with it.
-/
structure OutboundRow where
  storeId : String
  issueId : String
  project : String
  occurredAt : Int
  event : String
  deliveredAt : Option Int
  attempts : Int
  nextAttemptAt : Int
  lastError : Option String
  deriving DecidableEq

/-! ### History and outbox -/

/-- The audit trail and the events still to be delivered. The invariant is carried here and not in a
theorem about runs, so that no statement can break it. -/
structure Ledger where
  history : Journal HistoryRow
  outbound : Table Nat OutboundRow
  assigned : ∀ seq ∈ outbound.keys, seq ≤ history.last

namespace Ledger

theorem ext {l l' : Ledger} (hh : l.history = l'.history) (ho : l.outbound = l'.outbound) :
    l = l' := by
  cases l
  cases l'
  cases hh
  cases ho
  rfl

instance : DecidableEq Ledger := fun l l' =>
  decidable_of_iff (l.history = l'.history ∧ l.outbound = l'.outbound)
    ⟨fun h => ext h.1 h.2, fun h => h ▸ ⟨rfl, rfl⟩⟩

/-- No event has been recorded yet. -/
def empty : Ledger := ⟨.empty, .empty, by simp⟩

/-- Append a history row, and an outbox row under the same key if there is one. Both get one number,
so a consumer can find the history of what it was sent. -/
def log (l : Ledger) (event : HistoryRow) (outbound : Option OutboundRow) : Ledger :=
  ⟨l.history.append event,
    match outbound with
    | some row => l.outbound.insert l.history.next row
    | none => l.outbound,
    by
      intro seq hseq
      rw [Journal.last_append]
      cases outbound with
      | none => exact Nat.le_succ_of_le (l.assigned seq hseq)
      | some row =>
          rcases Table.mem_keys_insert.mp hseq with h | h
          · exact Nat.le_of_eq h
          · exact Nat.le_succ_of_le (l.assigned seq h)⟩

/-- Delete the rows about the issues that satisfy `gone`. -/
def forget (l : Ledger) (gone : String → Bool) : Ledger :=
  ⟨l.history.filter fun row => !gone row.issueId,
    l.outbound.filter fun _ row => !gone row.issueId,
    fun seq hseq => by
      obtain ⟨row, hrow, -⟩ := Table.mem_keys_filter.mp hseq
      exact l.assigned seq (Table.mem_keys_of_find hrow)⟩

/-- Update outbox rows without touching their keys. -/
def mark (l : Ledger) (f : Nat → OutboundRow → OutboundRow) : Ledger :=
  ⟨l.history, l.outbound.mapRows f, fun seq hseq => by
    rw [Table.keys_mapRows] at hseq
    exact l.assigned seq hseq⟩

@[simp] theorem history_log (l : Ledger) (event : HistoryRow) (outbound : Option OutboundRow) :
    (l.log event outbound).history = l.history.append event := rfl

@[simp] theorem history_forget (l : Ledger) (gone : String → Bool) :
    (l.forget gone).history = l.history.filter fun row => !gone row.issueId := rfl

@[simp] theorem history_mark (l : Ledger) (f : Nat → OutboundRow → OutboundRow) :
    (l.mark f).history = l.history := rfl

/-- The key of a new outbox row is fresh. -/
@[simp] theorem outbound_next (l : Ledger) : l.outbound.find l.history.next = none := by
  rw [Table.find_eq_none]
  intro h
  exact Nat.not_succ_le_self _ (l.assigned _ h)

end Ledger

/-! ### The database -/

/-- The tables and the one value of `store_meta` that the methods read. There is no separate index:
what the schema indexes is searched here. They are the whole state of the local store: what a method
keeps for itself between two scopes is in its program. -/
structure Tables where
  project : Table String ProjectRow
  folder : Table String FolderRow
  projectFolder : Table String ProjectFolderRow
  issue : Table String IssueRow
  /-- The edges `(issue_id, depends_on)`. -/
  dep : Table (String × String) Unit
  /-- Keyed by `(issue_id, canonical_ref)`. -/
  remoteDep : Table (String × String) RemoteDepRow
  ledger : Ledger
  /-- The `store_id` row of `store_meta`, written when the database is first opened. -/
  storeId : String
  deriving DecidableEq

namespace Tables

/-- A fresh database. -/
def empty (storeId : String) : Tables :=
  ⟨.empty, .empty, .empty, .empty, .empty, .empty, .empty, storeId⟩

/-- The edge relation of `dep`. -/
def DependsOn (t : Tables) (a b : String) : Prop := (a, b) ∈ t.dep.keys

instance (t : Tables) (a b : String) : Decidable (t.DependsOn a b) :=
  inferInstanceAs (Decidable ((a, b) ∈ t.dep.keys))

/-- `SELECT depends_on FROM dep WHERE issue_id = id`, in the order of the primary key. -/
def dependsOn (t : Tables) (id : String) : List String :=
  sortOn (fun p => p) ((t.dep.keys.filter fun e => e.1 = id).map Prod.snd)

/-- `SELECT issue_id FROM dep WHERE depends_on = id`. -/
def dependents (t : Tables) (id : String) : List String :=
  (t.dep.keys.filter fun e => e.2 = id).map Prod.fst

/-- There is such an issue and it is not closed. -/
def isOpen (t : Tables) (id : String) : Bool :=
  (t.issue.find id).any fun row => row.status ≠ .closed

/-- The dependencies of `id` that exist and are not closed. -/
def openBlockers (t : Tables) (id : String) : List String := (t.dependsOn id).filter t.isOpen

/-- Is `target` reachable from `source` over dependency edges? -/
def reachable (t : Tables) (source target : String) : Bool :=
  Graph.reachesBreadthFirst t.dep.keys source target

/-- The issue a row is reported as. The edges and their statuses are read with it, in the same
transaction. -/
def view (t : Tables) (id : String) (row : IssueRow) : Issue where
  id := id
  title := row.title
  description := row.description
  status := row.status.asStr
  priority := row.priority
  issueType := row.issueType
  labels := row.labels
  metadata := row.metadata
  externalRef := row.externalRef
  dependencyCount := (t.openBlockers id).length
  dependentCount := ((t.dependents id).filter t.isOpen).length
  dependencies := (t.dependsOn id).map fun p => ⟨some p⟩
  evidence := row.evidence
  parent := row.parent
  assignee := row.assignee
  actorKind := row.actorKind
  expiresAt := row.expiresAt
  availableAt := row.availableAt
  closedAt := row.closedAt
  createdAt := row.createdAt
  updatedAt := row.updatedAt
  project := row.project

/-- The issue with its edges, as every read of the store returns it. -/
def rowToIssue (t : Tables) (id : String) : Option Issue := (t.issue.find id).map (t.view id)

/-- Append an event to the history, and to the outbox when the issue exists. -/
def logEvent (t : Tables) (id : String) (ts : Int) (actor event detail : String) : Tables :=
  let outbound := (t.issue.find id).map fun row =>
    ⟨t.storeId, id, row.project, ts, event, none, 0, ts, none⟩
  { t with ledger := t.ledger.log ⟨id, ts, actor, event, detail⟩ outbound }

/-- `UPDATE issue SET … WHERE id = id`. -/
def setIssue (t : Tables) (id : String) (f : IssueRow → IssueRow) : Tables :=
  { t with issue := t.issue.modify id f }

/-! ### The columns of a view -/

section

variable (t : Tables) (id : String) (row : IssueRow)

@[simp] theorem view_id : (t.view id row).id = id := rfl

@[simp] theorem view_status : (t.view id row).status = row.status.asStr := rfl

@[simp] theorem view_issueType : (t.view id row).issueType = row.issueType := rfl

@[simp] theorem view_metadata : (t.view id row).metadata = row.metadata := rfl

@[simp] theorem view_parent : (t.view id row).parent = row.parent := rfl

@[simp] theorem view_assignee : (t.view id row).assignee = row.assignee := rfl

@[simp] theorem view_expiresAt : (t.view id row).expiresAt = row.expiresAt := rfl

@[simp] theorem view_availableAt : (t.view id row).availableAt = row.availableAt := rfl

@[simp] theorem view_updatedAt : (t.view id row).updatedAt = row.updatedAt := rfl

@[simp] theorem view_project : (t.view id row).project = row.project := rfl

@[simp] theorem view_dependencies :
    (t.view id row).dependencies = (t.dependsOn id).map fun p => ⟨some p⟩ := rfl

end

/-! ### What the statements leave alone -/

section

variable (t : Tables) (id : String) (ts : Int) (a e d : String) (f : IssueRow → IssueRow)

@[simp] theorem logEvent_issue : (t.logEvent id ts a e d).issue = t.issue := rfl

@[simp] theorem logEvent_dep : (t.logEvent id ts a e d).dep = t.dep := rfl

@[simp] theorem logEvent_project : (t.logEvent id ts a e d).project = t.project := rfl

@[simp] theorem logEvent_folder : (t.logEvent id ts a e d).folder = t.folder := rfl

@[simp] theorem logEvent_projectFolder :
    (t.logEvent id ts a e d).projectFolder = t.projectFolder := rfl

@[simp] theorem logEvent_remoteDep : (t.logEvent id ts a e d).remoteDep = t.remoteDep := rfl

@[simp] theorem logEvent_storeId : (t.logEvent id ts a e d).storeId = t.storeId := rfl

@[simp] theorem logEvent_history :
    (t.logEvent id ts a e d).ledger.history = t.ledger.history.append ⟨id, ts, a, e, d⟩ := rfl

@[simp] theorem setIssue_issue : (t.setIssue id f).issue = t.issue.modify id f := rfl

@[simp] theorem setIssue_dep : (t.setIssue id f).dep = t.dep := rfl

@[simp] theorem setIssue_project : (t.setIssue id f).project = t.project := rfl

@[simp] theorem setIssue_folder : (t.setIssue id f).folder = t.folder := rfl

@[simp] theorem setIssue_projectFolder : (t.setIssue id f).projectFolder = t.projectFolder := rfl

@[simp] theorem setIssue_remoteDep : (t.setIssue id f).remoteDep = t.remoteDep := rfl

@[simp] theorem setIssue_ledger : (t.setIssue id f).ledger = t.ledger := rfl

@[simp] theorem setIssue_storeId : (t.setIssue id f).storeId = t.storeId := rfl

end

/-! ### Reading edges -/

@[simp]
theorem mem_dependsOn {t : Tables} {id p : String} : p ∈ t.dependsOn id ↔ t.DependsOn id p := by
  unfold dependsOn DependsOn
  rw [Sorting.mem_sortOn]
  constructor
  · intro h
    obtain ⟨⟨a, b⟩, he, rfl⟩ := List.mem_map.mp h
    obtain ⟨hmem, ha⟩ := List.mem_filter.mp he
    obtain rfl : a = id := by simpa using ha
    exact hmem
  · intro h
    exact List.mem_map.mpr ⟨(id, p), List.mem_filter.mpr ⟨h, by simp⟩, rfl⟩

theorem isOpen_iff {t : Tables} {id : String} :
    t.isOpen id = true ↔ ∃ row, t.issue.find id = some row ∧ row.status ≠ .closed := by
  unfold isOpen
  cases t.issue.find id <;> simp

theorem openBlockers_eq_nil {t : Tables} {id : String} :
    t.openBlockers id = [] ↔ ∀ p, t.DependsOn id p → t.isOpen p = false := by
  unfold openBlockers
  rw [List.filter_eq_nil_iff]
  simp only [mem_dependsOn, Bool.not_eq_true]

/-- The walk over the `dep` table decides reachability. -/
@[simp] theorem reachable_iff {t : Tables} {source target : String} :
    t.reachable source target = true ↔ Relation.ReflTransGen t.DependsOn source target :=
  Graph.reachesBreadthFirst_iff

end Tables

end Marbles.Db
