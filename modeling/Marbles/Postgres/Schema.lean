import Marbles.Db.Tables
import Marbles.Lib.Tenancy

/-!
# The tables of the hosted store

The schema of `postgres_schema.sql`. Every table is shared by all companies and every
primary key starts with `company_id`. A JSON column is the value its text encodes, or a
text that `serde_json` rejects: the schema only asks for a text.

The statements of `postgres_store.rs` are written here over the shared tables, with the
conditions they name. A statement that breaks a constraint is an error.

A database is a record of tables, and the rows of a company are the part of each table whose key
starts with it. That part (`rowsOf`) is what the results about companies compare. Statements
without a condition on the company exist only where the source has them.
-/

namespace Marbles.Postgres

open Json (Value)
open Sorting (sortOn)
open Db (ProjectRow FolderRow ProjectFolderRow HistoryRow OutboundRow)

/-! ### Rows -/

/-- A text column that is read as JSON. The two are kept apart because a text that cannot be read is
an error of the method that reads it, and of no other. -/
inductive JsonText (α : Type) where
  | encodes (a : α)
  | malformed (message : String)
  deriving DecidableEq

/-- `serde_json::from_str`. -/
def JsonText.fromStr {α : Type} : JsonText α → Result α
  | encodes a => .ok a
  | malformed message => Outcome.fail (.json message)

/-- A row of `marbles_issue`, without its key. Lists and documents are columns of JSON text, which a
read has to parse again. -/
structure IssueRow where
  project : String
  title : String
  description : String
  status : Status
  issueType : String
  priority : Int
  parent : Option String
  labelsJson : JsonText (List String)
  assignee : Option String
  actorKind : Option String
  claimedAt : Option Int
  expiresAt : Option Int
  availableAt : Option Int
  createdBy : String
  createdAt : Int
  updatedAt : Int
  closedAt : Option Int
  closeReason : Option String
  evidenceJson : JsonText (List Evidence)
  metadataJson : JsonText Value
  externalRef : Option String
  deriving DecidableEq

/-! ### The database -/

/-- An edge `(issue_id, depends_on)`. -/
abbrev DepKey := String ×ₗ String

/-- Edges are compared as the primary key compares them, by the issue first. -/
def depKey (issueId dependsOn : String) : DepKey := toLex (issueId, dependsOn)

/-- The issue that waits. -/
def DepKey.issueId (k : DepKey) : String := (ofLex k).1

/-- The issue it waits for. -/
def DepKey.dependsOn (k : DepKey) : String := (ofLex k).2

/-- The key of every table is `(company_id, …)`. A table per tenant would make the tenants apart by
definition; that they are is what has to be shown. -/
structure Database where
  project : Table (String × String) ProjectRow
  folder : Table (String × String) FolderRow
  projectFolder : Table (String × String) ProjectFolderRow
  issue : Table (String × String) IssueRow
  dep : Table (String × DepKey) Unit
  history : Table (String × Int) HistoryRow
  outbound : Table (String × Int) OutboundRow
  deriving DecidableEq

/-- The rows whose `company_id` is one company's. Two databases are compared through it when only
one company is looked at. -/
@[ext]
structure Rows where
  project : String → Option ProjectRow
  folder : String → Option FolderRow
  projectFolder : String → Option ProjectFolderRow
  issue : String → Option IssueRow
  dep : DepKey → Option Unit
  history : Int → Option HistoryRow
  outbound : Int → Option OutboundRow

/-- No rows at all. -/
def Rows.empty : Rows where
  project := fun _ => none
  folder := fun _ => none
  projectFolder := fun _ => none
  issue := fun _ => none
  dep := fun _ => none
  history := fun _ => none
  outbound := fun _ => none

namespace Database

/-- The tables as `CREATE TABLE` leaves them. -/
def empty : Database := ⟨.empty, .empty, .empty, .empty, .empty, .empty, .empty⟩

/-- All rows of a company. It is what isolation is stated of: a method of one tenant changes no
other tenant's view. -/
def rowsOf (company : String) (db : Database) : Rows where
  project := db.project.tenant company
  folder := db.folder.tenant company
  projectFolder := db.projectFolder.tenant company
  issue := db.issue.tenant company
  dep := db.dep.tenant company
  history := db.history.tenant company
  outbound := db.outbound.tenant company

end Database

/-! ### Queries -/

/-- A value as a `BIGINT`. -/
def bigint (n : Int) : Result Int :=
  if -2 ^ 63 ≤ n ∧ n < 2 ^ 63 then .ok n else Outcome.fail (.postgres "bigint out of range")

/-- What the server decides: the collation, as the sort key it gives a text, and the order in which
a query without `ORDER BY` happens to visit the issues. Nothing else about the server is assumed. -/
structure Server where
  collate : String → String := id
  order : List String := []

/-- `ORDER BY` a text column: equal sort keys are told apart by the text. -/
def Server.textOrder (server : Server) (s : String) : String ×ₗ String :=
  toLex (server.collate s, s)

namespace Database

section Queries

variable (server : Server) (company : String) (db : Database)

/-- `SELECT … FROM marbles_issue WHERE company_id=$1 AND id=$2`. -/
def issueRow (id : String) : Option IssueRow := db.issue.find (company, id)

/-- `FROM marbles_dep d JOIN marbles_issue p ON p.company_id=d.company_id AND p.id=d.depends_on
WHERE d.company_id=$1 AND d.issue_id=$2 AND p.status!='closed'`: the blockers of an issue. -/
def openBlockers (id : String) : List String :=
  (db.dep.join db.issue fun d p =>
    p.1.1 = d.1.1 && p.1.2 = d.1.2.dependsOn && d.1.1 = company && d.1.2.issueId = id &&
      p.2.status ≠ .closed).map fun r => r.1.1.2.dependsOn

/-- The same join the other way: the open issues that wait on this one. -/
def openDependents (id : String) : List String :=
  (db.dep.join db.issue fun d c =>
    c.1.1 = d.1.1 && c.1.2 = d.1.2.issueId && d.1.1 = company && d.1.2.dependsOn = id &&
      c.2.status ≠ .closed).map fun r => r.1.1.2.issueId

/-- `SELECT depends_on FROM marbles_dep WHERE company_id=$1 AND issue_id=$2 ORDER BY depends_on`. -/
def dependsOn (id : String) : List String :=
  sortOn server.textOrder ((db.dep.select company fun k _ => k.2.issueId = id).map fun r =>
    r.1.2.dependsOn)

/-- The recursive query of `reachable`. -/
def reachable (source target : String) : Bool :=
  Graph.reachesBreadthFirst
    ((db.dep.select company fun _ _ => true).map fun r => (r.1.2.issueId, r.1.2.dependsOn))
    source target

/-- The recursive query of `ensure_folder`. -/
def folderReaches (source target : String) : Bool :=
  Graph.reachesBreadthFirst
    ((db.folder.select company fun _ row => row.parent.isSome).filterMap fun r =>
      r.2.parent.map fun p => (r.1.2, p))
    source target

/-- `SELECT COALESCE(MAX(seq),0)+1 FROM marbles_history WHERE company_id=$1`. The number is computed
and not drawn from a sequence, so the tenant's lock is what makes it unique. -/
def nextSeq : Result Int :=
  bigint (((db.history.select company fun _ _ => true).map fun r => r.1.2).max?.getD 0 + 1)

/-- Read an issue with its edges. A column that does not parse makes the read fail, so nothing is
invented. -/
def rowToIssue (id : String) : Result (Option Issue) :=
  match db.issueRow company id with
  | none => .ok none
  | some row => do
      let labels ← row.labelsJson.fromStr
      let metadata ← row.metadataJson.fromStr
      let evidence ← row.evidenceJson.fromStr
      pure (some {
        id := id
        title := row.title
        description := row.description
        status := row.status.asStr
        priority := row.priority
        issueType := row.issueType
        labels := labels
        metadata := metadata
        externalRef := row.externalRef
        dependencyCount := (db.openBlockers company id).length
        dependentCount := (db.openDependents company id).length
        dependencies := (db.dependsOn server company id).map fun p => ⟨some p⟩
        evidence := evidence
        parent := row.parent
        assignee := row.assignee
        actorKind := row.actorKind
        expiresAt := row.expiresAt
        availableAt := row.availableAt
        closedAt := row.closedAt
        createdAt := row.createdAt
        updatedAt := row.updatedAt
        project := row.project })

/-- Read an issue that has to be there. -/
def getIssue (id : String) : Result Issue := do
  let issue ← db.rowToIssue server company id
  Outcome.ofOption (.notFound id) issue

end Queries

/-! ### Statements -/

/-- `UPDATE marbles_issue SET … WHERE company_id=$1 AND id=$2`. -/
def setIssue (company id : String) (f : IssueRow → IssueRow) (db : Database) : Database :=
  { db with issue := db.issue.modify (company, id) f }

end Database

/-- Refuse to `INSERT` a row whose key is taken. -/
def checkKey {κ ν : Type} [DecidableEq κ] (name : String) (t : Table κ ν) (k : κ) : Result Unit :=
  if (t.find k).isSome then
    Outcome.fail (.postgres s!"duplicate key value violates unique constraint \"{name}_pkey\"")
  else .ok ()

end Marbles.Postgres
