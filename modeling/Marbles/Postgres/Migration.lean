import Marbles.Db.Dag
import Marbles.Db.References
import Marbles.Lib.Listing
import Marbles.Postgres.Schema

/-!
# Promotion of a local store

`migrate_company` copies the tables of a local store into an empty tenant of the hosted one,
in a single transaction, and counts the rows of both before it commits. Every `INSERT` is
checked against the constraints of `postgres_schema.sql`, and against the one thing a local
text may hold and a hosted text may not, a NUL.

The text of a JSON column never holds one, since `serde_json` writes it as an escape. The
tables of folders are there in every store that `Db` has opened, and `policy_json` is a column
that neither store reads.

The copy is a fold over the rows of each table, in the order the source inserts them, so that
references point at rows that are there. An error in the middle is an error of the whole, and
nothing of it is committed. What the counts at the end compare are rows and not contents.
-/

namespace Marbles.Postgres

open Sorting (sortOn)
open Db (Tables ProjectRow FolderRow ProjectFolderRow HistoryRow OutboundRow)

/-! ### Constraints -/

/-- A condition a statement fails without. -/
def demand (condition : Bool) (message : String) : Except String Unit :=
  if condition then .ok () else .error message

@[simp] theorem demand_true (message : String) : demand true message = .ok () := rfl

/-- The one thing a local text may hold and a `TEXT` of the server may not. -/
def nulFree (text : String) : Bool := !text.toList.contains (Char.ofNat 0)

/-- The server decodes the texts of a statement before it runs it, so this comes before every
constraint. -/
def checkTexts (texts : List String) : Except String Unit :=
  demand (texts.all nulFree) "invalid byte sequence for encoding \"UTF8\": 0x00"

/-- A primary key or a `UNIQUE`, under the name the server reports it by; `free` says that no row is
in the way. Only the first violation is reported, which is why the order of the checks is kept. -/
def checkUnique (name : String) (free : Bool) : Except String Unit :=
  demand free s!"duplicate key value violates unique constraint \"{name}\""

/-- A `FOREIGN KEY` of a table; `present` says that the row it refers to is there. -/
def checkReference (table name : String) (present : Bool) : Except String Unit :=
  demand present
    s!"insert or update on table \"{table}\" violates foreign key constraint \"{name}\""

/-! ### Rows -/

/-- The row as the hosted store keeps it: a JSON column is the text that was written. The local
store keeps these columns as texts too, so nothing is reformatted. -/
def IssueRow.ofLocal (row : Db.IssueRow) : IssueRow where
  project := row.project
  title := row.title
  description := row.description
  status := row.status
  issueType := row.issueType
  priority := row.priority
  parent := row.parent
  labelsJson := .encodes row.labels
  assignee := row.assignee
  actorKind := row.actorKind
  claimedAt := row.claimedAt
  expiresAt := row.expiresAt
  availableAt := row.availableAt
  createdBy := row.createdBy
  createdAt := row.createdAt
  updatedAt := row.updatedAt
  closedAt := row.closedAt
  closeReason := row.closeReason
  evidenceJson := .encodes row.evidence
  metadataJson := .encodes row.metadata
  externalRef := row.externalRef

/-- An event is the company's own from now on. -/
def rehome (company : String) (row : OutboundRow) : OutboundRow := { row with storeId := company }

/-- The text columns of each table, its key first. -/
def projectTexts (slug : String) (row : ProjectRow) : List String :=
  [slug, row.root, row.idPrefix]

def folderTexts (slug : String) (row : FolderRow) : List String :=
  [slug, row.name] ++ row.parent.toList

def projectFolderTexts (project : String) (row : ProjectFolderRow) : List String :=
  [project, row.folder]

def issueTexts (id : String) (row : IssueRow) : List String :=
  [id, row.project, row.title, row.description, row.status.asStr, row.issueType, row.createdBy] ++
    row.parent.toList ++ row.assignee.toList ++ row.actorKind.toList ++ row.closeReason.toList ++
    row.externalRef.toList

def depTexts (k : DepKey) : List String := [k.issueId, k.dependsOn]

def historyTexts (row : HistoryRow) : List String := [row.issueId, row.actor, row.event, row.detail]

def outboundTexts (row : OutboundRow) : List String :=
  [row.storeId, row.issueId, row.project, row.event] ++ row.lastError.toList

/-! ### Statements -/

section Inserts

variable (company : String)

/-- Besides the slug, a root must not be that of another project of the company. -/
def insertProject (slug : String) (row : ProjectRow) (db : Database) : Except String Database := do
  checkTexts (company :: projectTexts slug row)
  checkUnique "marbles_project_pkey" (db.project.find (company, slug)).isNone
  checkUnique "marbles_project_company_id_root_key"
    (db.project.select company fun _ other => other.root = row.root).isEmpty
  pure { db with project := db.project.insert (company, slug) row }

/-- The parent of a folder is a column without a foreign key, so folders may be copied in any order.
-/
def insertFolder (slug : String) (row : FolderRow) (db : Database) : Except String Database := do
  checkTexts (company :: folderTexts slug row)
  checkUnique "marbles_folder_pkey" (db.folder.find (company, slug)).isNone
  pure { db with folder := db.folder.insert (company, slug) row }

/-- A filing refers to its project and to its folder, so both tables are copied before it. -/
def insertProjectFolder (project : String) (row : ProjectFolderRow) (db : Database) :
    Except String Database := do
  checkTexts (company :: projectFolderTexts project row)
  checkUnique "marbles_project_folder_pkey" (db.projectFolder.find (company, project)).isNone
  checkReference "marbles_project_folder" "marbles_project_folder_company_id_project_fkey"
    (db.project.find (company, project)).isSome
  checkReference "marbles_project_folder" "marbles_project_folder_company_id_folder_fkey"
    (db.folder.find (company, row.folder)).isSome
  pure { db with projectFolder := db.projectFolder.insert (company, project) row }

/-- The `CHECK` on the status holds of every `Status`. -/
def insertIssue (id : String) (row : IssueRow) (db : Database) : Except String Database := do
  checkTexts (company :: issueTexts id row)
  checkUnique "marbles_issue_pkey" (db.issue.find (company, id)).isNone
  checkReference "marbles_issue" "marbles_issue_company_id_project_fkey"
    (db.project.find (company, row.project)).isSome
  pure { db with issue := db.issue.insert (company, id) row }

/-- Both ends of an edge refer to issues of the same company. -/
def insertDep (k : DepKey) (db : Database) : Except String Database := do
  checkTexts (company :: depTexts k)
  checkUnique "marbles_dep_pkey" (db.dep.find (company, k)).isNone
  checkReference "marbles_dep" "marbles_dep_company_id_issue_id_fkey"
    (db.issue.find (company, k.issueId)).isSome
  checkReference "marbles_dep" "marbles_dep_company_id_depends_on_fkey"
    (db.issue.find (company, k.dependsOn)).isSome
  pure { db with dep := db.dep.insert (company, k) () }

/-- The history refers to nothing: the schema drops the key it once had. -/
def insertHistory (seq : Int) (row : HistoryRow) (db : Database) : Except String Database := do
  checkTexts (company :: historyTexts row)
  checkUnique "marbles_history_pkey" (db.history.find (company, seq)).isNone
  pure { db with history := db.history.insert (company, seq) row }

/-- Unlike the history, the outbox refers to issues: an event of an issue that is gone cannot be
copied. -/
def insertOutbound (seq : Int) (row : OutboundRow) (db : Database) : Except String Database := do
  checkTexts (company :: outboundTexts row)
  checkUnique "marbles_outbound_event_pkey" (db.outbound.find (company, seq)).isNone
  checkReference "marbles_outbound_event" "marbles_outbound_event_company_id_issue_id_fkey"
    (db.issue.find (company, row.issueId)).isSome
  pure { db with outbound := db.outbound.insert (company, seq) row }

end Inserts

/-! ### The copy -/

/-- `map_err(|e| format!("{what}: {e}"))`. -/
def during {α : Type} (what : String) (r : Except String α) : Except String α :=
  r.mapError fun e => s!"{what}: {e}"

@[simp] theorem during_ok {α : Type} (what : String) (a : α) : during what (.ok a) = .ok a := rfl

section Copy

variable (company : String) (t : Tables)

/-- The rows come in the order of `ORDER BY slug`, and the first that is refused ends the copy. -/
def copyProjects (db : Database) : Except String Database :=
  (sortOn (fun r => r.1) t.project.rows).foldlM (fun db r =>
    during s!"copying project {r.1}" (insertProject company r.1 r.2 db)) db

/-- All folders before all filings. -/
def copyFolders (db : Database) : Except String Database := do
  let db ← (sortOn (fun r => r.1) t.folder.rows).foldlM (fun db r =>
    during s!"copying folder {r.1}" (insertFolder company r.1 r.2 db)) db
  (sortOn (fun r => r.1) t.projectFolder.rows).foldlM (fun db r =>
    during s!"copying project folder {r.1}" (insertProjectFolder company r.1 r.2 db)) db

/-- A parent is not a foreign key either, so a child may be copied before its parent. -/
def copyIssues (db : Database) : Except String Database :=
  (sortOn (fun r => r.1) t.issue.rows).foldlM (fun db r =>
    during s!"copying issue {r.1}" (insertIssue company r.1 (.ofLocal r.2) db)) db

/-- The error names the first column of the row, which is the issue that waits. -/
def copyDependencies (db : Database) : Except String Database :=
  (sortOn (fun r => toLex r.1) t.dep.rows).foldlM (fun db r =>
    during s!"copying row {r.1.1}" (insertDep company (depKey r.1.1 r.1.2) db)) db

/-- A `COPY`: what the server rejects is reported when the stream is finished. -/
def copyHistory (db : Database) : Except String Database :=
  during "finishing history copy" <|
    (sortOn (fun r => r.1) t.ledger.history.rows).foldlM (fun db r =>
      insertHistory company r.1 r.2 db) db

/-- A `COPY` as well. The events change hands: they leave with the company as their store. -/
def copyOutboundEvents (db : Database) : Except String Database :=
  during "finishing outbox copy" <|
    (sortOn (fun r => r.1) t.ledger.outbound.rows).foldlM (fun db r =>
      insertOutbound company r.1 (rehome company r.2) db) db

/-- How many rows of each table were copied. Folders and filings are not counted. -/
structure CompanyReport where
  companyId : String
  projects : Nat
  issues : Nat
  dependencies : Nat
  historyEvents : Nat
  outboundEvents : Nat
  deriving DecidableEq

/-- The check before the commit. It compares numbers of rows, not their contents. -/
def verifiedCount (table : String) (source target : Nat) : Except String Nat := do
  demand (source = target)
    s!"verification failed for {company}/{table}: source={source}, target={target}"
  pure source

/-- The report and the tables to commit; an error rolls the transaction back. All of it is one
transaction, so a tenant is promoted whole or not at all. -/
def migrateCompany (db : Database) : Except String (CompanyReport × Database) := do
  let existing := (db.project.select company fun _ _ => true).length
  demand (existing = 0)
    (s!"refusing to merge {company}: " ++
      s!"PostgreSQL tenant already contains {existing} projects")
  let db ← copyProjects company t db
  let db ← copyFolders company t db
  let db ← copyIssues company t db
  let db ← copyDependencies company t db
  let db ← copyHistory company t db
  let db ← copyOutboundEvents company t db
  let projects ← verifiedCount company "project" t.project.rows.length
    (db.project.select company fun _ _ => true).length
  let issues ← verifiedCount company "issue" t.issue.rows.length
    (db.issue.select company fun _ _ => true).length
  let dependencies ← verifiedCount company "dep" t.dep.rows.length
    (db.dep.select company fun _ _ => true).length
  let historyEvents ← verifiedCount company "history" t.ledger.history.rows.length
    (db.history.select company fun _ _ => true).length
  let outboundEvents ← verifiedCount company "outbound_event" t.ledger.outbound.rows.length
    (db.outbound.select company fun _ _ => true).length
  pure (⟨company, projects, issues, dependencies, historyEvents, outboundEvents⟩, db)

end Copy

/-! ### A promotion goes through -/

/-- The rows of a company are the rows of a local store. It speaks of rows only: how they got there
is the concern of the copy, and what they answer that of the queries. -/
structure Promoted (company : String) (t : Tables) (db : Database) : Prop where
  project : db.project.Lists company (t.project.rows.map fun r => (r.1, r.2))
  folder : db.folder.Lists company (t.folder.rows.map fun r => (r.1, r.2))
  projectFolder : db.projectFolder.Lists company (t.projectFolder.rows.map fun r => (r.1, r.2))
  issue : db.issue.Lists company (t.issue.rows.map fun r => (r.1, .ofLocal r.2))
  dep : db.dep.Lists company (t.dep.rows.map fun r => (depKey r.1.1 r.1.2, r.2))
  history : db.history.Lists company (t.ledger.history.rows.map fun r => ((r.1 : Int), r.2))
  outbound : db.outbound.Lists company
    (t.ledger.outbound.rows.map fun r => ((r.1 : Int), rehome company r.2))

/-- No text of the local store has a NUL in it. PostgreSQL refuses a NUL in a text, which SQLite
does not. -/
structure NulFree (company : String) (t : Tables) : Prop where
  tenant : nulFree company = true
  project : ∀ r ∈ t.project.rows, ∀ s ∈ projectTexts r.1 r.2, nulFree s = true
  folder : ∀ r ∈ t.folder.rows, ∀ s ∈ folderTexts r.1 r.2, nulFree s = true
  projectFolder : ∀ r ∈ t.projectFolder.rows, ∀ s ∈ projectFolderTexts r.1 r.2, nulFree s = true
  issue : ∀ r ∈ t.issue.rows, ∀ s ∈ issueTexts r.1 (.ofLocal r.2), nulFree s = true
  dep : ∀ r ∈ t.dep.rows, ∀ s ∈ depTexts (depKey r.1.1 r.1.2), nulFree s = true
  history : ∀ r ∈ t.ledger.history.rows, ∀ s ∈ historyTexts r.2, nulFree s = true
  outbound : ∀ r ∈ t.ledger.outbound.rows, ∀ s ∈ outboundTexts (rehome company r.2),
    nulFree s = true

theorem checkTexts_ok {company : String} {texts : List String} (hcompany : nulFree company = true)
    (htexts : ∀ s ∈ texts, nulFree s = true) : checkTexts (company :: texts) = .ok () := by
  have hall : (company :: texts).all nulFree = true :=
    List.all_eq_true.mpr (List.forall_mem_cons.mpr ⟨hcompany, htexts⟩)
  rw [checkTexts, hall, demand_true]

theorem checkUnique_ok {name : String} {free : Bool} (h : free = true) :
    checkUnique name free = .ok () := by rw [checkUnique, h, demand_true]

theorem checkReference_ok {table name : String} {present : Bool} (h : present = true) :
    checkReference table name present = .ok () := by rw [checkReference, h, demand_true]

theorem checkKey_ok {κ ν : Type} [DecidableEq κ] {name : String} {table : Table κ ν} {k : κ}
    (h : table.find k = none) : checkUnique name (table.find k).isNone = .ok () :=
  checkUnique_ok (Option.isNone_iff_eq_none.mpr h)

/-- What a reference is to is there when the tenant lists it. -/
theorem checkReference_listed {κ ν ν₀ : Type} [DecidableEq κ] {table name company : String}
    {referred : Table (String × κ) ν} {t₀ : Table κ ν₀} {f : ν₀ → ν} {k : κ}
    (h : referred.Lists company (t₀.rows.map fun r => (r.1, f r.2))) (hk : k ∈ t₀.keys) :
    checkReference table name (referred.find (company, k)).isSome = .ok () := by
  obtain ⟨v, hv⟩ := Table.mem_keys.mp hk
  refine checkReference_ok ?_
  rw [h.find_map, hv]
  rfl

section Copying

variable {company : String} {t : Tables} {db : Database}

/-- A root is the root of one project only, so no project copied before has it. -/
theorem copyProjects_ok (hnul : NulFree company t) (hrefs : Db.References t)
    (hempty : db.project.Lists company []) :
    ∃ table, copyProjects company t db = .ok { db with project := table } ∧
      table.Lists company (t.project.rows.map fun r => (r.1, r.2)) := by
  refine Table.Lists.copy (fun table => { db with project := table }) _ (fun r => r.1)
    (fun row => row) hempty t.project.nodup Function.injective_id
    fun pre r table hpre hr hlists hfresh => ?_
  change table.find (company, r.1) = none at hfresh
  have hroot : (table.select company fun _ other => other.root = r.2.root).isEmpty = true := by
    have hperm := hlists.select_perm fun _ other => decide (other.root = r.2.root)
    rw [List.isEmpty_iff, ← List.length_eq_zero_iff, hperm.length_eq, List.length_map,
      List.length_eq_zero_iff, List.filter_eq_nil_iff]
    intro r' hr' hsame
    obtain ⟨old, hold, rfl⟩ := List.mem_map.mp hr'
    have hslug : old.1 = r.1 := hrefs.roots old.1 r.1 old.2 r.2 (Table.mem_rows.mp (hpre old hold))
      (Table.mem_rows.mp hr) (of_decide_eq_true hsame)
    have hfind := (hlists.mem _ _).mpr hr'
    rw [id_eq, hslug, hfresh] at hfind
    exact absurd hfind nofun
  have htexts := checkTexts_ok hnul.tenant (hnul.project r hr)
  simp only [insertProject, htexts, checkKey_ok hfresh, checkUnique_ok hroot]
  rfl

theorem copyFolders_ok (hnul : NulFree company t) (hrefs : Db.References t)
    (hempty : db.folder.Lists company []) (hempty' : db.projectFolder.Lists company [])
    (hproject : db.project.Lists company (t.project.rows.map fun r => (r.1, r.2))) :
    ∃ folder projectFolder,
      copyFolders company t db = .ok { db with folder := folder, projectFolder := projectFolder } ∧
      folder.Lists company (t.folder.rows.map fun r => (r.1, r.2)) ∧
      projectFolder.Lists company (t.projectFolder.rows.map fun r => (r.1, r.2)) := by
  have hfolders := hempty.copy (fun folder => { db with folder := folder })
    (fun db r => during s!"copying folder {r.1}" (insertFolder company r.1 r.2 db))
    (fun r => r.1) (fun row => row) t.folder.nodup Function.injective_id
    fun pre r table hpre hr hlists hfresh => by
      change table.find (company, r.1) = none at hfresh
      have htexts := checkTexts_ok hnul.tenant (hnul.folder r hr)
      simp only [insertFolder, htexts, checkKey_ok hfresh]
      rfl
  -- The folders stand first, so that the filings find the ones they refer to.
  obtain ⟨folder, hfolder, hlists⟩ := hfolders
  have hfiled := hempty'.copy
    (fun projectFolder => { db with folder := folder, projectFolder := projectFolder })
    (fun db r => during s!"copying project folder {r.1}" (insertProjectFolder company r.1 r.2 db))
    (fun r => r.1) (fun row => row) t.projectFolder.nodup Function.injective_id
    fun pre r table hpre hr _ hfresh => by
      change table.find (company, r.1) = none at hfresh
      have htexts := checkTexts_ok hnul.tenant (hnul.projectFolder r hr)
      obtain ⟨hthere, hfolderThere⟩ := hrefs.filed r.1 r.2 (Table.mem_rows.mp hr)
      simp only [insertProjectFolder, htexts, checkKey_ok hfresh,
        checkReference_listed (f := fun row => row) hproject hthere,
        checkReference_listed (f := fun row => row) hlists hfolderThere]
      rfl
  obtain ⟨projectFolder, hcopied, hlists'⟩ := hfiled
  refine ⟨folder, projectFolder, ?_, hlists, hlists'⟩
  rw [copyFolders, hfolder]
  exact hcopied

theorem copyIssues_ok (hnul : NulFree company t) (hrefs : Db.References t)
    (hempty : db.issue.Lists company [])
    (hproject : db.project.Lists company (t.project.rows.map fun r => (r.1, r.2))) :
    ∃ table, copyIssues company t db = .ok { db with issue := table } ∧
      table.Lists company (t.issue.rows.map fun r => (r.1, .ofLocal r.2)) := by
  refine Table.Lists.copy (fun table => { db with issue := table }) _ (fun r => r.1)
    IssueRow.ofLocal
    hempty t.issue.nodup Function.injective_id fun pre r table hpre hr hlists hfresh => ?_
  change table.find (company, r.1) = none at hfresh
  have htexts := checkTexts_ok hnul.tenant (hnul.issue r hr)
  have hthere := hrefs.projects r.1 r.2 (Table.mem_rows.mp hr)
  have hreference : ∀ name, checkReference "marbles_issue" name
      (db.project.find (company, (IssueRow.ofLocal r.2).project)).isSome = .ok () := fun _ =>
    checkReference_listed (f := fun row => row) hproject hthere
  simp only [insertIssue, htexts, checkKey_ok hfresh, hreference]
  rfl

theorem depKey_injective : Function.Injective fun e : String × String => depKey e.1 e.2 := by
  intro e e' h
  exact toLex.injective h

theorem copyDependencies_ok (hnul : NulFree company t) (hgraph : Db.WellFormed t)
    (hempty : db.dep.Lists company [])
    (hissue : db.issue.Lists company (t.issue.rows.map fun r => (r.1, .ofLocal r.2))) :
    ∃ table, copyDependencies company t db = .ok { db with dep := table } ∧
      table.Lists company (t.dep.rows.map fun r => (depKey r.1.1 r.1.2, r.2)) := by
  refine Table.Lists.copy (fun table => { db with dep := table }) _ (fun r => toLex r.1)
    (fun row => row) hempty t.dep.nodup depKey_injective fun pre r table hpre hr hlists hfresh => ?_
  have htexts := checkTexts_ok hnul.tenant (hnul.dep r hr)
  obtain ⟨hchild, hparent⟩ := hgraph.endpoints (List.mem_map_of_mem hr)
  have hchildThere : ∀ name, checkReference "marbles_dep" name
      (db.issue.find (company, (depKey r.1.1 r.1.2).issueId)).isSome = .ok () := fun _ =>
    checkReference_listed hissue hchild
  have hparentThere : ∀ name, checkReference "marbles_dep" name
      (db.issue.find (company, (depKey r.1.1 r.1.2).dependsOn)).isSome = .ok () := fun _ =>
    checkReference_listed hissue hparent
  simp only [insertDep, htexts, checkKey_ok hfresh, hchildThere, hparentThere]
  rfl

/-- Nothing is asked of the issue a history row names. -/
theorem copyHistory_ok (hnul : NulFree company t) (hempty : db.history.Lists company []) :
    ∃ table, copyHistory company t db = .ok { db with history := table } ∧
      table.Lists company (t.ledger.history.rows.map fun r => ((r.1 : Int), r.2)) := by
  have hnodup : (t.ledger.history.rows.map Prod.fst).Nodup :=
    t.ledger.history.ascending.imp fun h => ne_of_lt h
  have hcopied := hempty.copy (fun table => { db with history := table })
    (fun db (r : Nat × HistoryRow) => insertHistory company r.1 r.2 db) (fun r => r.1)
    (fun row => row) hnodup
    Nat.cast_injective fun pre r table hpre hr hlists hfresh => by
      have htexts := checkTexts_ok hnul.tenant (hnul.history r hr)
      simp only [insertHistory, htexts, checkKey_ok hfresh]
      rfl
  obtain ⟨table, htable, hlists⟩ := hcopied
  refine ⟨table, ?_, hlists⟩
  rw [copyHistory, htable, during_ok]

theorem copyOutboundEvents_ok (hnul : NulFree company t) (hrefs : Db.References t)
    (hempty : db.outbound.Lists company [])
    (hissue : db.issue.Lists company (t.issue.rows.map fun r => (r.1, .ofLocal r.2))) :
    ∃ table, copyOutboundEvents company t db = .ok { db with outbound := table } ∧
      table.Lists company
        (t.ledger.outbound.rows.map fun r => ((r.1 : Int), rehome company r.2)) := by
  have hcopied := hempty.copy (fun table => { db with outbound := table })
    (fun db (r : Nat × OutboundRow) => insertOutbound company r.1 (rehome company r.2) db)
    (fun r => r.1) (rehome company) t.ledger.outbound.nodup Nat.cast_injective
        fun pre r table hpre hr hlists hfresh => by
      have htexts := checkTexts_ok hnul.tenant (hnul.outbound r hr)
      have hthere := hrefs.events r.1 r.2 (Table.mem_rows.mp hr)
      have hreference : ∀ name, checkReference "marbles_outbound_event" name
          (db.issue.find (company, (rehome company r.2).issueId)).isSome = .ok () := fun _ =>
        checkReference_listed hissue hthere
      simp only [insertOutbound, htexts, checkKey_ok hfresh, hreference]
      rfl
  obtain ⟨table, htable, hlists⟩ := hcopied
  refine ⟨table, ?_, hlists⟩
  rw [copyOutboundEvents, htable, during_ok]

/-- As many rows of the tenant as there were to copy. -/
theorem verifiedCount_ok {κ κ₀ ν ν₀ : Type} [LinearOrder κ] {table : Table (String × κ) ν}
    {rows₀ : List (κ₀ × ν₀)} {f : κ₀ × ν₀ → κ × ν} (name : String)
    (h : table.Lists company (rows₀.map f)) :
    verifiedCount company name rows₀.length (table.select company fun _ _ => true).length =
      .ok rows₀.length := by
  have hlength := (h.select_perm fun _ _ => true).length_eq
  rw [List.length_map, List.filter_true, List.length_map] at hlength
  rw [hlength, verifiedCount, decide_eq_true rfl]
  rfl

/-- A tenant without rows is filled with what every reachable store holds. -/
theorem migrateCompany_ok (hnul : NulFree company t) (hrefs : Db.References t)
    (hgraph : Db.WellFormed t) (hempty : db.rowsOf company = .empty) :
    ∃ db', migrateCompany company t db = .ok (⟨company, t.project.rows.length, t.issue.rows.length,
      t.dep.rows.length, t.ledger.history.rows.length, t.ledger.outbound.rows.length⟩, db') ∧
      Promoted company t db' := by
  obtain ⟨project₀, folder₀, projectFolder₀, issue₀, dep₀, history₀, outbound₀⟩ :=
    Rows.mk.inj hempty
  have hproject₀ : db.project.Lists company [] := .nil (congrFun project₀)
  obtain ⟨project, hprojects, hproject⟩ := copyProjects_ok hnul hrefs hproject₀
  obtain ⟨folder, projectFolder, hfolders, hfolder, hprojectFolder⟩ :=
    @copyFolders_ok company t { db with project := project } hnul hrefs (.nil (congrFun folder₀))
      (.nil (congrFun projectFolder₀)) hproject
  obtain ⟨issue, hissues, hissue⟩ := @copyIssues_ok company t
    { db with project := project, folder := folder, projectFolder := projectFolder } hnul hrefs
    (.nil (congrFun issue₀)) hproject
  obtain ⟨dep, hdeps, hdep⟩ := @copyDependencies_ok company t
    { db with project := project, folder := folder, projectFolder := projectFolder, issue := issue }
    hnul hgraph (.nil (congrFun dep₀)) hissue
  obtain ⟨history, hcopied, hhistory⟩ := @copyHistory_ok company t
    { db with
      project := project, folder := folder, projectFolder := projectFolder, issue := issue,
      dep := dep }
    hnul (.nil (congrFun history₀))
  obtain ⟨outbound, hevents, houtbound⟩ := @copyOutboundEvents_ok company t
    ⟨project, folder, projectFolder, issue, dep, history, db.outbound⟩ hnul hrefs
    (.nil (congrFun outbound₀)) hissue
  have hnone : (db.project.select company fun _ _ => true).length = 0 := by
    rw [(hproject₀.select_perm fun _ _ => true).length_eq]
    rfl
  -- Each copy fills one table of the company from nothing, so the counts that are verified at the
  -- end are the lengths.
  refine ⟨⟨project, folder, projectFolder, issue, dep, history, outbound⟩, ?_,
    ⟨hproject, hfolder, hprojectFolder, hissue, hdep, hhistory, houtbound⟩⟩
  simp only [migrateCompany, hnone, decide_true, demand_true, hprojects, hfolders, hissues, hdeps,
    hcopied, hevents, bind, Except.bind, verifiedCount_ok _ hproject, verifiedCount_ok _ hissue,
    verifiedCount_ok _ hdep, verifiedCount_ok _ hhistory, verifiedCount_ok _ houtbound]
  rfl

end Copying

end Marbles.Postgres
