import Marbles.Lib.Mutation
import Marbles.Postgres.Promotion
import Marbles.Refs

/-!
# Promotion of a directory of stores

`migrate_root` promotes the stores it finds below a directory, in the order of their names, one
transaction a company. It stops at the first that fails, and what was committed before stays. A
commit whose answer is lost may have been made.

Tables are counted before the commit, but for those of folders. So a tenant that has folders is
not merged into only as long as it has a project too.

Before any company the schema is installed, in a transaction of its own. One of its statements
changes rows, and those of every tenant: events from before events had a store are given their
company as theirs. So a run that goes on to fail may have changed tenants it has no store of,
though nothing of them but that column of their old events (`Rows.adopted`).

The tool is a recursion over the companies it found, and a run is determined by what the
environment does at each of them: the file cannot be opened, the server is down, the commit is
answered or its answer is lost. The results cover all of these at once. What a lost answer leaves
is one of two states, and the report of the tool cannot tell which.
-/

namespace Marbles.Postgres

open Sorting (sortOn)
open Db (Tables)

/-! ### The stores of a directory -/

/-- An entry of the directory: its name when that is UTF-8, and what opening `marbles.db` in it
read-only gives, when there is such a file. -/
structure Entry where
  name : Option String
  isDir : Except String Bool
  database : Option (Except String Tables)

/-- An entry that cannot be read has no name as far as the order of the directory goes. -/
def entryName (entry : Except String Entry) : Option String := entry.toOption.bind Entry.name

/-- What reading the directory yields. No two entries have the same name. That is what the file
system guarantees, and what keeps a company from being promoted twice in a run. -/
structure Root where
  path : String
  entries : Except String (List (Except String Entry))
  distinct : ∀ es, entries = .ok es → (es.filterMap entryName).Nodup

/-- A company and its store. -/
abbrev CompanyStore := String × Except String Tables

/-- The name of a directory becomes the `company_id` of every row, so it must be a plain word. -/
def validateCompanyId (companyId : String) : Except String Unit :=
  demand (companyId ≠ "" && companyId.utf8ByteSize ≤ 128 &&
    companyId.toList.all fun c => c.isAlphanum || c = '-' || c = '_')
    s!"unsafe company store name {debugStr companyId}"

/-- A file is passed over, and so is a directory without a database; a directory whose name is no
company id fails the whole run. -/
def discoverEntry (stores : List CompanyStore) (entry : Except String Entry) :
    Except String (List CompanyStore) := do
  let entry ← during "reading company store" entry
  let isDir ← during "reading company store type" entry.isDir
  if isDir then
    let companyId ← Except.okOr "company store name is not UTF-8" entry.name
    validateCompanyId companyId
    match entry.database with
    | some database => pure (stores ++ [(companyId, database)])
    | none => pure stores
  else pure stores

/-- The order of the entries is that of the file system, so the stores are sorted by their names. -/
def discoverCompanyStores (root : Root) : Except String (List CompanyStore) := do
  let entries ← during s!"reading company store root {root.path}" root.entries
  let stores ← entries.foldlM discoverEntry []
  pure (sortOn Prod.fst stores)

/-! ### The run -/

/-- What becomes of a company's transaction besides what the server answers. A lost answer comes in
two kinds, and the tool cannot tell them apart. -/
inductive Wire where
  | up
  /-- A statement is not answered, and the transaction is rolled back. -/
  | down (e : String)
  /-- The answer to the commit is lost. -/
  | commitLost (made : Bool) (e : String)
  deriving DecidableEq

/-- What a run of the tool meets: dialing, the transaction of the schema, and those of the
companies. -/
structure Tool where
  connect : Except String Unit
  schema : Wire
  wire : String → Wire

/-- An event without a store is its company's. A database from before events had a store has the
column only since the schema was installed, which is why it is empty there. -/
def adopt (company : String) (row : Db.OutboundRow) : Db.OutboundRow :=
  if row.storeId = "" then rehome company row else row

/-- `UPDATE marbles_outbound_event SET store_id=company_id WHERE store_id=''`, for all tenants at
once. -/
def Database.adopted (db : Database) : Database :=
  { db with outbound := db.outbound.mapRows fun k row => adopt k.1 row }

/-- The statements of `postgres_schema.sql` other than the update make tables that are missing,
and drop a constraint that the tables here do not have. -/
def installSchema (wire : Wire) (db : Database) : Except String Unit × Database :=
  match wire with
  | .up => (.ok (), db.adopted)
  | .down e => (.error e, db)
  | .commitLost made e => (.error e, if made then db.adopted else db)

/-- `migrate_company`, from the file to the commit. An error of the commit does not say whether it
went through. -/
def migrateStore (wire : Wire) (store : CompanyStore) (db : Database) :
    Except String CompanyReport × Database :=
  match store.2, wire with
  | .error e, _ => (.error e, db)
  | .ok _, .down e => (.error e, db)
  | .ok t, .up =>
    match migrateCompany store.1 t db with
    | .error e => (.error e, db)
    | .ok (report, db') => (.ok report, db')
  | .ok t, .commitLost made e =>
    match migrateCompany store.1 t db with
    | .error e' => (.error e', db)
    | .ok (_, db') =>
      (.error s!"committing PostgreSQL tenant {store.1}: {e}", if made then db' else db)

/-- The recursion stops at the first company that fails and keeps what the ones before it have
committed. -/
def migrateStores (tool : Tool) :
    List CompanyStore → Database → Except String (List CompanyReport) × Database
  | [], db => (.ok [], db)
  | store :: stores, db =>
    match migrateStore (tool.wire store.1) store db with
    | (.error e, db') => (.error e, db')
    | (.ok report, db') =>
      let rest := migrateStores tool stores db'
      (rest.1.map (report :: ·), rest.2)

/-- The reports come with the last company only. An error on the way loses them, though the
companies before it stay promoted. -/
def migrateRoot (root : Root) (tool : Tool) (db : Database) :
    Except String (List CompanyReport) × Database :=
  match discoverCompanyStores root with
  | .error e => (.error e, db)
  | .ok [] => (.error s!"no company stores found under {root.path}", db)
  | .ok stores =>
    match tool.connect with
    | .error e => (.error e, db)
    | .ok () =>
      match installSchema tool.schema db with
      | (.error e, db') => (.error s!"installing PostgreSQL schema: {e}", db')
      | (.ok (), db') => migrateStores tool stores db'

/-! ### What is found -/

/-- Every store that is found has the name of an entry. -/
theorem discovered {es : List (Except String Entry)} :
    ∀ {stores stores' : List CompanyStore}, es.foldlM discoverEntry stores = .ok stores' →
      ∃ more, stores' = stores ++ more ∧
        (more.map Prod.fst).Sublist (es.filterMap entryName) := by
  -- On the entries of the directory: each adds at most its own store, so what is found is in their
  -- order.
  induction es with
  | nil =>
      intro stores stores' h
      cases h
      exact ⟨[], by rw [List.append_nil], .slnil⟩
  | cons e es ih =>
      intro stores stores' h
      rw [List.foldlM_cons] at h
      obtain ⟨next, hturn, hrest⟩ := Except.bind_eq_ok.mp h
      obtain ⟨more, rfl, hsub⟩ := ih hrest
      have hskip : (more.map Prod.fst).Sublist ((e :: es).filterMap entryName) :=
        hsub.trans ((List.sublist_cons_self e es).filterMap _)
      obtain ⟨entry, hok, htyped⟩ := Except.bind_eq_ok.mp hturn
      obtain rfl := Except.mapError_eq_ok.mp hok
      obtain ⟨isDir, -, hentry⟩ := Except.bind_eq_ok.mp htyped
      cases isDir with
      | false =>
          cases hentry
          exact ⟨more, rfl, hskip⟩
      | true =>
          obtain ⟨companyId, hname, hchecked⟩ := Except.bind_eq_ok.mp hentry
          obtain ⟨-, -, hfound⟩ := Except.bind_eq_ok.mp hchecked
          rw [Except.okOr_eq_ok] at hname
          cases hfile : entry.database with
          | none =>
              rw [hfile] at hfound
              cases hfound
              exact ⟨more, rfl, hskip⟩
          | some database =>
              rw [hfile] at hfound
              cases hfound
              refine ⟨(companyId, database) :: more, by rw [List.append_assoc]; rfl, ?_⟩
              have hbind : entryName (.ok entry) = some companyId := hname
              rw [List.filterMap_cons_some hbind]
              exact hsub.cons_cons companyId

/-- A company is promoted once, and in the order of the names. -/
theorem discoverCompanyStores_sorted {root : Root} {stores : List CompanyStore}
    (h : discoverCompanyStores root = .ok stores) :
    stores.Pairwise fun s s' => s.1 < s'.1 := by
  obtain ⟨es, hes, h⟩ := Except.bind_eq_ok.mp h
  obtain ⟨found, hfound, h⟩ := Except.bind_eq_ok.mp h
  cases h
  obtain ⟨more, rfl, hsub⟩ := discovered hfound
  exact List.pairwise_map.mp (Sorting.pairwise_sortOn_lt
    (hsub.nodup (root.distinct es (Except.mapError_eq_ok.mp hes))))

/-! ### What a promotion leaves -/

theorem demand_eq_ok {condition : Bool} {message : String} {u : Unit} :
    demand condition message = .ok u ↔ condition = true := by
  cases condition <;> simp [demand]

theorem checkUnique_eq_ok {name : String} {κ ν : Type} [DecidableEq κ] {table : Table κ ν} {k : κ}
    {u : Unit} : checkUnique name (table.find k).isNone = .ok u ↔ table.find k = none := by
  rw [checkUnique, demand_eq_ok, Option.isNone_iff_eq_none]

theorem during_eq_ok {α : Type} {what : String} {r : Except String α} {a : α} :
    during what r = .ok a ↔ r = .ok a := Except.mapError_eq_ok

section Inserted

variable {company : String} {db db' : Database}

theorem insertProject_eq_ok {slug : String} {row : Db.ProjectRow}
    (h : insertProject company slug row db = .ok db') :
    db.project.find (company, slug) = none ∧
      db' = { db with project := db.project.insert (company, slug) row } := by
  simp only [insertProject, Except.bind_eq_ok] at h
  obtain ⟨_, -, _, hfresh, _, -, hdb⟩ := h
  cases hdb
  exact ⟨checkUnique_eq_ok.mp hfresh, rfl⟩

theorem insertFolder_eq_ok {slug : String} {row : Db.FolderRow}
    (h : insertFolder company slug row db = .ok db') :
    db.folder.find (company, slug) = none ∧
      db' = { db with folder := db.folder.insert (company, slug) row } := by
  simp only [insertFolder, Except.bind_eq_ok] at h
  obtain ⟨_, -, _, hfresh, hdb⟩ := h
  cases hdb
  exact ⟨checkUnique_eq_ok.mp hfresh, rfl⟩

theorem insertProjectFolder_eq_ok {project : String} {row : Db.ProjectFolderRow}
    (h : insertProjectFolder company project row db = .ok db') :
    db.projectFolder.find (company, project) = none ∧
      db' = { db with projectFolder := db.projectFolder.insert (company, project) row } := by
  simp only [insertProjectFolder, Except.bind_eq_ok] at h
  obtain ⟨_, -, _, hfresh, _, -, _, -, hdb⟩ := h
  cases hdb
  exact ⟨checkUnique_eq_ok.mp hfresh, rfl⟩

theorem insertIssue_eq_ok {id : String} {row : IssueRow}
    (h : insertIssue company id row db = .ok db') :
    db.issue.find (company, id) = none ∧
      db' = { db with issue := db.issue.insert (company, id) row } := by
  simp only [insertIssue, Except.bind_eq_ok] at h
  obtain ⟨_, -, _, hfresh, _, -, hdb⟩ := h
  cases hdb
  exact ⟨checkUnique_eq_ok.mp hfresh, rfl⟩

theorem insertDep_eq_ok {k : DepKey} (h : insertDep company k db = .ok db') :
    db.dep.find (company, k) = none ∧ db' = { db with dep := db.dep.insert (company, k) () } := by
  simp only [insertDep, Except.bind_eq_ok] at h
  obtain ⟨_, -, _, hfresh, _, -, _, -, hdb⟩ := h
  cases hdb
  exact ⟨checkUnique_eq_ok.mp hfresh, rfl⟩

theorem insertHistory_eq_ok {seq : Int} {row : Db.HistoryRow}
    (h : insertHistory company seq row db = .ok db') :
    db.history.find (company, seq) = none ∧
      db' = { db with history := db.history.insert (company, seq) row } := by
  simp only [insertHistory, Except.bind_eq_ok] at h
  obtain ⟨_, -, _, hfresh, hdb⟩ := h
  cases hdb
  exact ⟨checkUnique_eq_ok.mp hfresh, rfl⟩

theorem insertOutbound_eq_ok {seq : Int} {row : Db.OutboundRow}
    (h : insertOutbound company seq row db = .ok db') :
    db.outbound.find (company, seq) = none ∧
      db' = { db with outbound := db.outbound.insert (company, seq) row } := by
  simp only [insertOutbound, Except.bind_eq_ok] at h
  obtain ⟨_, -, _, hfresh, _, -, hdb⟩ := h
  cases hdb
  exact ⟨checkUnique_eq_ok.mp hfresh, rfl⟩

/-! A copy that goes through adds the rows of a table to those the tenant had. -/

section Copied

variable {t : Tables}

theorem copyProjects_eq_ok (h : copyProjects company t db = .ok db')
    {rows : List (String × Db.ProjectRow)} (hrows : db.project.Lists company rows) :
    ∃ table, db' = { db with project := table } ∧
      table.Lists company (rows ++ t.project.rows.map fun r => (r.1, r.2)) ∧
      ∀ d, d ≠ company → table.tenant d = db.project.tenant d := by
  unfold copyProjects at h
  exact hrows.copied (fun table => { db with project := table }) (fun r => (r.1, r.2)) h
    fun _ _ _ hrow => insertProject_eq_ok (during_eq_ok.mp hrow)

theorem copyFolders_eq_ok (h : copyFolders company t db = .ok db')
    {rows : List (String × Db.FolderRow)} {filed : List (String × Db.ProjectFolderRow)}
    (hrows : db.folder.Lists company rows) (hfiled : db.projectFolder.Lists company filed) :
    ∃ folder projectFolder, db' = { db with folder := folder, projectFolder := projectFolder } ∧
      folder.Lists company (rows ++ t.folder.rows.map fun r => (r.1, r.2)) ∧
      projectFolder.Lists company (filed ++ t.projectFolder.rows.map fun r => (r.1, r.2)) ∧
      ∀ d, d ≠ company → folder.tenant d = db.folder.tenant d ∧
        projectFolder.tenant d = db.projectFolder.tenant d := by
  obtain ⟨next, hfolders, hrest⟩ := Except.bind_eq_ok.mp h
  obtain ⟨folder, rfl, hfolder, hframe⟩ :=
    hrows.copied (fun table => { db with folder := table }) (fun r => (r.1, r.2)) hfolders
      fun _ _ _ hrow => insertFolder_eq_ok (during_eq_ok.mp hrow)
  obtain ⟨projectFolder, rfl, hprojectFolder, hframe'⟩ :=
    hfiled.copied (fun table => { db with folder := folder, projectFolder := table })
      (fun r => (r.1, r.2)) hrest
      fun _ _ _ hrow => insertProjectFolder_eq_ok (during_eq_ok.mp hrow)
  exact ⟨folder, projectFolder, rfl, hfolder, hprojectFolder, fun d hd =>
    ⟨hframe d hd, hframe' d hd⟩⟩

theorem copyIssues_eq_ok (h : copyIssues company t db = .ok db')
    {rows : List (String × IssueRow)} (hrows : db.issue.Lists company rows) :
    ∃ table, db' = { db with issue := table } ∧
      table.Lists company (rows ++ t.issue.rows.map fun r => (r.1, .ofLocal r.2)) ∧
      ∀ d, d ≠ company → table.tenant d = db.issue.tenant d := by
  unfold copyIssues at h
  exact hrows.copied (fun table => { db with issue := table }) (fun r => (r.1, .ofLocal r.2)) h
    fun _ _ _ hrow => insertIssue_eq_ok (during_eq_ok.mp hrow)

theorem copyDependencies_eq_ok (h : copyDependencies company t db = .ok db')
    {rows : List (DepKey × Unit)} (hrows : db.dep.Lists company rows) :
    ∃ table, db' = { db with dep := table } ∧
      table.Lists company (rows ++ t.dep.rows.map fun r => (depKey r.1.1 r.1.2, r.2)) ∧
      ∀ d, d ≠ company → table.tenant d = db.dep.tenant d := by
  unfold copyDependencies at h
  exact hrows.copied (fun table => { db with dep := table })
    (fun r : (String × String) × Unit => (depKey r.1.1 r.1.2, r.2)) h
    fun _ _ _ hrow => insertDep_eq_ok (during_eq_ok.mp hrow)

theorem copyHistory_eq_ok (h : copyHistory company t db = .ok db')
    {rows : List (Int × Db.HistoryRow)} (hrows : db.history.Lists company rows) :
    ∃ table, db' = { db with history := table } ∧
      table.Lists company (rows ++ t.ledger.history.rows.map fun r => ((r.1 : Int), r.2)) ∧
      ∀ d, d ≠ company → table.tenant d = db.history.tenant d := by
  unfold copyHistory at h
  exact hrows.copied (fun table => { db with history := table })
    (fun r : Nat × Db.HistoryRow => ((r.1 : Int), r.2)) (during_eq_ok.mp h)
    fun _ _ _ hrow => insertHistory_eq_ok hrow

theorem copyOutboundEvents_eq_ok (h : copyOutboundEvents company t db = .ok db')
    {rows : List (Int × Db.OutboundRow)} (hrows : db.outbound.Lists company rows) :
    ∃ table, db' = { db with outbound := table } ∧
      table.Lists company
        (rows ++ t.ledger.outbound.rows.map fun r => ((r.1 : Int), rehome company r.2)) ∧
      ∀ d, d ≠ company → table.tenant d = db.outbound.tenant d := by
  unfold copyOutboundEvents at h
  exact hrows.copied (fun table => { db with outbound := table })
    (fun r : Nat × Db.OutboundRow => ((r.1 : Int), rehome company r.2)) (during_eq_ok.mp h)
    fun _ _ _ hrow => insertOutbound_eq_ok hrow

end Copied

/-- As many rows of the tenant as were copied: there were none before. -/
theorem verifiedCount_eq_ok {κ ν : Type} [LinearOrder κ] {table : Table (String × κ) ν}
    {name : String} {old new : List (κ × ν)} {source n : Nat} (hsource : source = new.length)
    (hlists : table.Lists company (old ++ new))
    (h : verifiedCount company name source (table.select company fun _ _ => true).length = .ok n) :
    n = source ∧ old = [] := by
  obtain ⟨_, heq, hn⟩ := Except.bind_eq_ok.mp h
  cases hn
  have hlength := (hlists.select_perm fun _ _ => true).length_eq
  have hcount := of_decide_eq_true (demand_eq_ok.mp heq)
  rw [List.length_map, List.filter_true, List.length_append] at hlength
  refine ⟨rfl, List.eq_nil_of_length_eq_zero ?_⟩
  omega

end Inserted

/-- No folder, and no project in one. -/
structure Unfiled (company : String) (db : Database) : Prop where
  folder : ∀ k, db.folder.find (company, k) = none
  projectFolder : ∀ k, db.projectFolder.find (company, k) = none

/-- What a copy that went through reports of a local store. -/
def companyReport (company : String) (t : Tables) : CompanyReport where
  companyId := company
  projects := t.project.rows.length
  issues := t.issue.rows.length
  dependencies := t.dep.rows.length
  historyEvents := t.ledger.history.rows.length
  outboundEvents := t.ledger.outbound.rows.length

/-- Whatever the store holds: a promotion that goes through has copied all of it, and has not
touched another tenant. -/
theorem migrateCompany_eq_ok {company : String} {t : Tables} {db db' : Database}
    {report : CompanyReport} (hunfiled : Unfiled company db)
    (h : migrateCompany company t db = .ok (report, db')) :
    report = companyReport company t ∧ Promoted company t db' ∧
      ∀ c, c ≠ company → db'.rowsOf c = db.rowsOf c := by
  simp only [migrateCompany, Except.bind_eq_ok] at h
  obtain ⟨-, -, db₁, hprojects, db₂, hfolders, db₃, hissues, db₄, hdeps, db₅, hhistory, db₆,
      hevents,
    projects, hn, issues, hn', dependencies, hn'', historyEvents, hn''', outboundEvents, hn'''',
      hdb⟩ := h
  cases hdb
  obtain ⟨ps, hps⟩ := Table.Lists.exists_lists db.project company
  obtain ⟨is, his⟩ := Table.Lists.exists_lists db.issue company
  obtain ⟨ds, hds⟩ := Table.Lists.exists_lists db.dep company
  obtain ⟨hs, hhs⟩ := Table.Lists.exists_lists db.history company
  obtain ⟨es, hes⟩ := Table.Lists.exists_lists db.outbound company
  obtain ⟨project, rfl, hproject, fproject⟩ := copyProjects_eq_ok hprojects hps
  obtain ⟨folder, projectFolder, rfl, hfolder, hprojectFolder, ffolder⟩ :=
    copyFolders_eq_ok hfolders (.nil hunfiled.folder) (.nil hunfiled.projectFolder)
  obtain ⟨issue, rfl, hissue, fissue⟩ := copyIssues_eq_ok hissues his
  obtain ⟨dep, rfl, hdep, fdep⟩ := copyDependencies_eq_ok hdeps hds
  obtain ⟨history, rfl, hhistory', fhistory⟩ := copyHistory_eq_ok hhistory hhs
  obtain ⟨outbound, rfl, houtbound, foutbound⟩ := copyOutboundEvents_eq_ok hevents hes
  -- the counts leave no room for rows that were there before
  obtain ⟨rfl, rfl⟩ := verifiedCount_eq_ok (List.length_map _).symm hproject hn
  obtain ⟨rfl, rfl⟩ := verifiedCount_eq_ok (List.length_map _).symm hissue hn'
  obtain ⟨rfl, rfl⟩ := verifiedCount_eq_ok (List.length_map _).symm hdep hn''
  obtain ⟨rfl, rfl⟩ := verifiedCount_eq_ok (List.length_map _).symm hhistory' hn'''
  obtain ⟨rfl, rfl⟩ := verifiedCount_eq_ok (List.length_map _).symm houtbound hn''''
  refine ⟨rfl, ⟨hproject, hfolder, hprojectFolder, hissue, hdep, hhistory', houtbound⟩,
    fun c hc => ?_⟩
  simp only [Database.rowsOf, fproject c hc, (ffolder c hc).1, (ffolder c hc).2, fissue c hc,
    fdep c hc, fhistory c hc, foutbound c hc]

/-- A tenant that has projects is left as it is. -/
theorem migrateCompany_refuses {company : String} {t t' : Tables} {db : Database}
    (h : Promoted company t db) (hprojects : t.project.rows ≠ []) :
    migrateCompany company t' db = .error (s!"refusing to merge {company}: " ++
      s!"PostgreSQL tenant already contains {t.project.rows.length} projects") := by
  have hlength := (h.project.select_perm fun _ _ => true).length_eq
  rw [List.length_map, List.filter_true, List.length_map] at hlength
  have hnone : t.project.rows.length ≠ 0 := mt List.eq_nil_of_length_eq_zero hprojects
  simp only [migrateCompany, hlength, decide_eq_false hnone]
  rfl

namespace Promoted

theorem of_rowsOf {company : String} {t : Tables} {db db' : Database} (h : Promoted company t db)
    (hsame : db'.rowsOf company = db.rowsOf company) : Promoted company t db' := by
  obtain ⟨project, folder, projectFolder, issue, dep, history, outbound⟩ := Rows.mk.inj hsame
  exact ⟨h.project.of_tenant project, h.folder.of_tenant folder,
    h.projectFolder.of_tenant projectFolder, h.issue.of_tenant issue, h.dep.of_tenant dep,
    h.history.of_tenant history, h.outbound.of_tenant outbound⟩

end Promoted

theorem Unfiled.of_rowsOf {company : String} {db db' : Database} (h : Unfiled company db)
    (hsame : db'.rowsOf company = db.rowsOf company) : Unfiled company db' := by
  obtain ⟨-, folder, projectFolder, -⟩ := Rows.mk.inj hsame
  exact ⟨fun k => (congrFun folder k).trans (h.folder k),
    fun k => (congrFun projectFolder k).trans (h.projectFolder k)⟩

/-! ### The schema -/

/-- The rows of a company once its old events have been given a store. Applying it twice changes no
more than applying it once, so a second run finds nothing to do. -/
def Rows.adopted (company : String) (rows : Rows) : Rows :=
  { rows with outbound := fun seq => (rows.outbound seq).map (adopt company) }

@[simp] theorem adopt_adopt (company : String) (row : Db.OutboundRow) :
    adopt company (adopt company row) = adopt company row := by
  unfold adopt rehome
  split <;> simp_all

@[simp] theorem adopt_rehome (company : String) (row : Db.OutboundRow) :
    adopt company (rehome company row) = rehome company row := by
  unfold adopt rehome
  split <;> rfl

@[simp] theorem Rows.adopted_empty (company : String) :
    Rows.adopted company .empty = .empty := rfl

@[simp] theorem Database.rowsOf_adopted (company : String) (db : Database) :
    db.adopted.rowsOf company = (db.rowsOf company).adopted company := by
  refine Rows.ext rfl rfl rfl rfl rfl rfl (funext fun seq => ?_)
  exact Table.find_mapRows ..

theorem Unfiled.adopted {company : String} {db : Database} (h : Unfiled company db) :
    Unfiled company db.adopted := ⟨h.folder, h.projectFolder⟩

/-- Where every event has a store, the schema changes nothing. -/
theorem Database.adopted_eq_self {db : Database}
    (h : ∀ company, (db.rowsOf company).adopted company = db.rowsOf company) : db.adopted = db := by
  have hself : (db.outbound.mapRows fun k row => adopt k.1 row) = db.outbound := by
    refine Table.mapRows_eq_self fun k row hrow => ?_
    have hrows := congrFun (congrArg Rows.outbound (h k.1)) k.2
    change (db.outbound.find (k.1, k.2)).map (adopt k.1) = db.outbound.find (k.1, k.2) at hrows
    rw [hrow] at hrows
    exact Option.some.inj hrows
  rw [Database.adopted, hself]

/-- The events of a company that has been promoted are its own. -/
theorem Promoted.adopted {company : String} {t : Tables} {db : Database}
    (h : Promoted company t db) : (db.rowsOf company).adopted company = db.rowsOf company := by
  refine Rows.ext rfl rfl rfl rfl rfl rfl (funext fun seq => ?_)
  change (db.outbound.find (company, seq)).map (adopt company) = db.outbound.find (company, seq)
  cases hrow : db.outbound.find (company, seq) with
  | none => rfl
  | some row =>
      obtain ⟨r, -, hr⟩ := List.mem_map.mp ((h.outbound.mem seq row).mp hrow)
      cases hr
      rw [Option.map_some, adopt_rehome]

/-! ### A company at a time -/

/-- One company: it is copied whole or left alone, and no other is touched. Only a report says
that it was copied. -/
theorem migrateStore_spec (wire : Wire) (store : CompanyStore) {db : Database}
    (hunfiled : Unfiled store.1 db) :
    (∃ t, store.2 = .ok t ∧ Promoted store.1 t (migrateStore wire store db).2 ∧
        (∀ c, c ≠ store.1 → (migrateStore wire store db).2.rowsOf c = db.rowsOf c) ∧
        ((migrateStore wire store db).1 = .ok (companyReport store.1 t) ∨
          ∃ e, wire = .commitLost true e ∧
            (migrateStore wire store db).1 =
            .error s!"committing PostgreSQL tenant {store.1}: {e}")) ∨
      ((migrateStore wire store db).2 = db ∧ ∃ e, (migrateStore wire store db).1 = .error e) := by
  obtain ⟨company, database⟩ := store
  -- The store may fail to open, its copy may be refused, or the connection may go before or after
  -- the commit; after it the company is whole.
  cases database with
  | error e => exact Or.inr ⟨rfl, e, rfl⟩
  | ok t =>
      cases hcopy : migrateCompany company t db with
      | error e =>
          refine Or.inr ?_
          cases wire with
          | up => simp only [migrateStore, hcopy]; exact ⟨trivial, e, rfl⟩
          | down e' => exact ⟨rfl, e', rfl⟩
          | commitLost made e' => simp only [migrateStore, hcopy]; exact ⟨trivial, e, rfl⟩
      | ok copied =>
          obtain ⟨report, db'⟩ := copied
          obtain ⟨rfl, hpromoted, hframe⟩ := migrateCompany_eq_ok hunfiled hcopy
          cases wire with
          | up =>
              simp only [migrateStore, hcopy]
              exact Or.inl ⟨t, rfl, hpromoted, hframe, Or.inl rfl⟩
          | down e => exact Or.inr ⟨rfl, e, rfl⟩
          | commitLost made e =>
              simp only [migrateStore, hcopy]
              cases made with
              | true => exact Or.inl ⟨t, rfl, hpromoted, hframe, Or.inr ⟨e, rfl, rfl⟩⟩
              | false => exact Or.inr ⟨rfl, _, rfl⟩

theorem migrateStores_cons_ok {tool : Tool} {store : CompanyStore} {stores : List CompanyStore}
    {db : Database} {report : CompanyReport}
    (h : (migrateStore (tool.wire store.1) store db).1 = .ok report) :
    migrateStores tool (store :: stores) db =
      let rest := migrateStores tool stores (migrateStore (tool.wire store.1) store db).2
      (rest.1.map (report :: ·), rest.2) := by
  rw [migrateStores]
  cases hturn : migrateStore (tool.wire store.1) store db with
  | mk result db' =>
      rw [hturn] at h
      cases h
      rfl

theorem migrateStores_cons_error {tool : Tool} {store : CompanyStore}
    {stores : List CompanyStore} {db : Database} {e : String}
    (h : (migrateStore (tool.wire store.1) store db).1 = .error e) :
    migrateStores tool (store :: stores) db =
      (.error e, (migrateStore (tool.wire store.1) store db).2) := by
  rw [migrateStores]
  cases hturn : migrateStore (tool.wire store.1) store db with
  | mk result db' =>
      rw [hturn] at h
      cases h
      rfl

/-- What is left of a run over some stores: those up to the one it stopped at are promoted, and
nothing else is changed. It is what a run can promise whatever happened to the connection. -/
structure Landed (tool : Tool) (stores : List CompanyStore) (db : Database)
    (run : Except String (List CompanyReport) × Database) (done rest : List CompanyStore) :
    Prop where
  split : stores = done ++ rest
  promoted : ∀ s ∈ done, ∃ t, s.2 = .ok t ∧ Promoted s.1 t run.2
  frame : ∀ c, c ∉ done.map Prod.fst → run.2.rowsOf c = db.rowsOf c
  reports : ∀ reports, run.1 = .ok reports → rest = [] ∧
    List.Forall₂ (fun s report => ∃ t, s.2 = .ok t ∧ report = companyReport s.1 t) done reports
  /-- Without a report everything may be done all the same: the last answer was lost. -/
  unreported : ∀ e, run.1 = .error e → rest ≠ [] ∨
    ∃ s ∈ done.getLast?, ∃ e', tool.wire s.1 = .commitLost true e'

/-- A store is promoted before the others. -/
theorem Landed.cons {tool : Tool} {store : CompanyStore} {stores done rest : List CompanyStore}
    {db db' : Database} {run : Except String (List CompanyReport) × Database}
    (h : Landed tool stores db' run done rest) (hother : ∀ s ∈ stores, s.1 ≠ store.1) {t : Tables}
    (ht : store.2 = .ok t) (hpromoted : Promoted store.1 t db')
    (hframe : ∀ c, c ≠ store.1 → db'.rowsOf c = db.rowsOf c) :
    Landed tool (store :: stores) db (run.1.map (companyReport store.1 t :: ·), run.2)
      (store :: done) rest := by
  have hnot : store.1 ∉ done.map Prod.fst := fun hmem => by
    obtain ⟨s, hs, heq⟩ := List.mem_map.mp hmem
    exact hother s (h.split ▸ List.mem_append_left _ hs) heq
  -- The first store is whole; what the rest of the run does leaves its rows alone, since no later
  -- store has its name.
  refine ⟨congrArg (store :: ·) h.split, fun s hs => ?_, fun c hc => ?_, fun reports hreports => ?_,
    fun e he => ?_⟩
  · rcases List.mem_cons.mp hs with rfl | hs
    · exact ⟨t, ht, hpromoted.of_rowsOf (h.frame _ hnot)⟩
    · exact h.promoted s hs
  · obtain ⟨hc, hcs⟩ := not_or.mp (mt List.mem_cons.mpr hc)
    exact (h.frame c hcs).trans (hframe c hc)
  · change run.1.map _ = _ at hreports
    cases htail : run.1 with
    | error e =>
        rw [htail] at hreports
        cases hreports
    | ok reports' =>
        rw [htail] at hreports
        cases hreports
        obtain ⟨hdone, hothers⟩ := h.reports reports' htail
        exact ⟨hdone, .cons ⟨t, ht, rfl⟩ hothers⟩
  · change run.1.map _ = _ at he
    cases htail : run.1 with
    | ok reports' =>
        rw [htail] at he
        cases he
    | error e' =>
        refine (h.unreported e' htail).imp_right ?_
        rintro ⟨s, hs, hwire⟩
        refine ⟨s, ?_, hwire⟩
        rw [Option.mem_def, List.getLast?_cons, Option.mem_def.mp hs]
        rfl

theorem migrateStores_landed (tool : Tool) {stores : List CompanyStore}
    (hsorted : stores.Pairwise fun s s' => s.1 < s'.1) :
    ∀ {db : Database}, (∀ s ∈ stores, Unfiled s.1 db) →
      ∃ done rest, Landed tool stores db (migrateStores tool stores db) done rest := by
  induction stores with
  | nil =>
      intro db _
      refine ⟨[], [], rfl, nofun, fun _ _ => rfl, fun reports h => ?_, nofun⟩
      cases h
      exact ⟨rfl, .nil⟩
  | cons store stores ih =>
      intro db hunfiled
      obtain ⟨hfirst, hrest⟩ := List.pairwise_cons.mp hsorted
      have hother : ∀ s ∈ stores, s.1 ≠ store.1 := fun s hs => (hfirst s hs).ne'
      rcases migrateStore_spec (tool.wire store.1) store
          (hunfiled store (List.mem_cons_self ..)) with
        ⟨t, ht, hpromoted, hframe, hreport | ⟨e, hlost, he⟩⟩ | ⟨hsame, e, he⟩
      · -- the others find what they would have found without this one
        have hunfiled' : ∀ s ∈ stores, Unfiled s.1 (migrateStore (tool.wire store.1) store db).2 :=
          fun s hs => (hunfiled s (List.mem_cons_of_mem _ hs)).of_rowsOf (hframe s.1 (hother s hs))
        obtain ⟨done, rest, hlanded⟩ := ih hrest hunfiled'
        rw [migrateStores_cons_ok hreport]
        exact ⟨store :: done, rest, hlanded.cons hother ht hpromoted hframe⟩
      · rw [migrateStores_cons_error he]
        refine ⟨[store], stores, rfl, fun s hs => ?_, fun c hc => ?_, nofun, fun _ _ =>
          Or.inr ⟨store, rfl, e, hlost⟩⟩
        · obtain rfl := List.mem_singleton.mp hs
          exact ⟨t, ht, hpromoted⟩
        · exact hframe c fun heq => hc (List.mem_singleton.mpr heq)
      · rw [migrateStores_cons_error he, hsame]
        exact ⟨[], store :: stores, rfl, nofun, fun _ _ => rfl, nofun, fun _ _ => Or.inl nofun⟩

/-! ### The whole directory -/

/-- A run of the tool stops before the schema or at it, or is a run over the stores it found. -/
theorem migrateRoot_cases (root : Root) (tool : Tool) (db : Database) :
    (∃ e base, (base = db ∨ base = db.adopted) ∧ migrateRoot root tool db = (.error e, base)) ∨
      ∃ stores, discoverCompanyStores root = .ok stores ∧
        migrateRoot root tool db = migrateStores tool stores db.adopted := by
  unfold migrateRoot
  cases hfound : discoverCompanyStores root with
  | error e => exact Or.inl ⟨e, db, Or.inl rfl, rfl⟩
  | ok stores =>
      cases stores with
      | nil => exact Or.inl ⟨_, db, Or.inl rfl, rfl⟩
      | cons store stores =>
          cases tool.connect with
          | error e => exact Or.inl ⟨e, db, Or.inl rfl, rfl⟩
          | ok u =>
              cases tool.schema with
              | up => exact Or.inr ⟨_, rfl, rfl⟩
              | down e => exact Or.inl ⟨_, db, Or.inl rfl, rfl⟩
              | commitLost made e =>
                  cases made with
                  | true => exact Or.inl ⟨_, db.adopted, Or.inr rfl, rfl⟩
                  | false => exact Or.inl ⟨_, db, Or.inl rfl, rfl⟩

/-- Every event has a store when some stores have been promoted after the schema. -/
theorem Landed.adopted {tool : Tool} {stores done rest : List CompanyStore} {db : Database}
    {run : Except String (List CompanyReport) × Database}
    (h : Landed tool stores db.adopted run done rest) : run.2.adopted = run.2 := by
  refine Database.adopted_eq_self fun company => ?_
  by_cases hdone : company ∈ done.map Prod.fst
  · obtain ⟨s, hs, rfl⟩ := List.mem_map.mp hdone
    obtain ⟨t, -, hpromoted⟩ := h.promoted s hs
    exact hpromoted.adopted
  · rw [h.frame company hdone, Database.rowsOf_adopted]
    refine Rows.ext rfl rfl rfl rfl rfl rfl (funext fun seq => ?_)
    change (((db.rowsOf company).outbound seq).map _).map _ =
      ((db.rowsOf company).outbound seq).map _
    cases (db.rowsOf company).outbound seq with
    | none => rfl
    | some row => rw [Option.map_some, Option.map_some, adopt_adopt]

/-- A store whose tenant has projects is refused, whatever happens on the way. -/
theorem migrateStore_refuses {store : CompanyStore} {t : Tables} {db : Database}
    (h : Promoted store.1 t db) (hprojects : t.project.rows ≠ []) (wire : Wire) :
    ∃ e, migrateStore wire store db = (.error e, db) := by
  obtain ⟨company, database⟩ := store
  cases database with
  | error e => exact ⟨e, rfl⟩
  | ok t' =>
      have hrefused := @migrateCompany_refuses company t t' db h hprojects
      cases wire with
      | down e => exact ⟨e, rfl⟩
      | up => simp only [migrateStore, hrefused]; exact ⟨_, rfl⟩
      | commitLost made e => simp only [migrateStore, hrefused]; exact ⟨_, rfl⟩

/-- The tool promotes the stores it found up to one, in the order of their names and each of them
whole, leaves every other tenant as the schema left it, and reports when it got to the end. Once the
first of them has been promoted and has a project, no further run over the directory changes
anything. -/
theorem root_promoted_in_order (root : Root) (tool : Tool) (db : Database)
    {stores : List CompanyStore} (hstores : discoverCompanyStores root = .ok stores)
    (hsome : stores ≠ []) (hunfiled : ∀ s ∈ stores, Unfiled s.1 db) :
    (stores.Pairwise fun s s' => s.1 < s'.1) ∧
      ∃ base done rest, (base = db ∧ done = [] ∨ base = db.adopted) ∧
        Landed tool stores base (migrateRoot root tool db) done rest ∧
        ∀ s t, done.head? = some s → s.2 = .ok t → t.project.rows ≠ [] → ∀ tool',
          ∃ e, migrateRoot root tool' (migrateRoot root tool db).2 =
            (.error e, (migrateRoot root tool db).2) := by
  have hsorted := discoverCompanyStores_sorted hstores
  refine ⟨hsorted, ?_⟩
  rcases migrateRoot_cases root tool db with ⟨e, base, hbase, he⟩ | ⟨stores', hstores', hrun⟩
  · rw [he]
    exact ⟨base, [], stores, hbase.imp_left fun h => ⟨h, rfl⟩,
      ⟨rfl, nofun, fun _ _ => rfl, nofun, fun _ _ => Or.inl hsome⟩, nofun⟩
  · obtain rfl : stores' = stores := Except.ok.inj (hstores'.symm.trans hstores)
    obtain ⟨done, rest, hlanded⟩ := migrateStores_landed tool hsorted
      fun s hs => (hunfiled s hs).adopted
    rw [hrun]
    refine ⟨db.adopted, done, rest, Or.inr rfl, hlanded, fun s t hfirst ht hprojects tool' => ?_⟩
    obtain ⟨done', rfl⟩ : ∃ done', done = s :: done' := by
      cases done with
      | nil => cases hfirst
      | cons s' done' => cases hfirst; exact ⟨done', rfl⟩
    obtain ⟨t', ht', hpromoted⟩ := hlanded.promoted s (List.mem_cons_self ..)
    obtain rfl : t' = t := Except.ok.inj (ht'.symm.trans ht)
    have hadopted := hlanded.adopted
    -- The second run opens the same directory, and stops at the first store: its projects are
    -- already there.
    rcases migrateRoot_cases root tool' (migrateStores tool stores' db.adopted).2 with
      ⟨e, base, hbase, he⟩ | ⟨stores'', hstores'', hrun'⟩
    · obtain rfl : base = (migrateStores tool stores' db.adopted).2 :=
        hbase.elim id fun h => h.trans hadopted
      exact ⟨e, he⟩
    · obtain rfl : stores'' = stores' := Except.ok.inj (hstores''.symm.trans hstores)
      obtain ⟨e, he⟩ := migrateStore_refuses hpromoted hprojects (tool'.wire s.1)
      refine ⟨e, ?_⟩
      rw [hrun', hadopted]
      generalize (migrateStores tool stores'' db.adopted).2 = db' at he ⊢
      rw [hlanded.split, List.cons_append, migrateStores_cons_error (congrArg Prod.fst he), he]

/-- The run goes through when the tenants are empty, the server answers and `Db` made the
stores. -/
theorem migrateStores_ok (tool : Tool) {stores : List CompanyStore}
    (hsorted : stores.Pairwise fun s s' => s.1 < s'.1)
    (hwire : ∀ s ∈ stores, tool.wire s.1 = .up)
    (hmade : ∀ s ∈ stores, ∃ cfg l, Db.Reachable cfg l ∧ s.2 = .ok l.state ∧ NulFree s.1 l.state) :
    ∀ {db : Database}, (∀ s ∈ stores, db.rowsOf s.1 = .empty) →
      ∃ reports, (migrateStores tool stores db).1 = .ok reports := by
  induction stores with
  | nil => exact fun _ => ⟨[], rfl⟩
  | cons store stores ih =>
      intro db hempty
      obtain ⟨hfirst, hrest⟩ := List.pairwise_cons.mp hsorted
      have hmem : store ∈ store :: stores := List.mem_cons_self ..
      have hnone := hempty store hmem
      obtain ⟨cfg, l, hreach, hopen, hnul⟩ := hmade store hmem
      obtain ⟨db', hcopy, -⟩ := migrateCompany_ok hnul hreach.references hreach.wellFormed hnone
      have hunfiled : Unfiled store.1 db := by
        obtain ⟨-, folder, projectFolder, -⟩ := Rows.mk.inj hnone
        exact ⟨congrFun folder, congrFun projectFolder⟩
      obtain ⟨-, -, hframe⟩ := migrateCompany_eq_ok hunfiled hcopy
      have hturn : migrateStore (tool.wire store.1) store db =
          (.ok (companyReport store.1 l.state), db') := by
        rw [hwire store hmem]
        simp only [migrateStore, hopen, hcopy]
        rfl
      have htail : ∀ s ∈ stores, db'.rowsOf s.1 = .empty := fun s hs =>
        (hframe s.1 (hfirst s hs).ne').trans (hempty s (List.mem_cons_of_mem _ hs))
      obtain ⟨reports, hreports⟩ := ih hrest (fun s hs => hwire s (List.mem_cons_of_mem _ hs))
        (fun s hs => hmade s (List.mem_cons_of_mem _ hs)) htail
      rw [migrateStores_cons_ok (congrArg Prod.fst hturn), hturn]
      exact ⟨_, congrArg (Except.map _) hreports⟩

/-- A directory of stores that `Db` made is promoted whole into a server that has none of their
tenants, and the reports say how many rows each of them has. All that changes of another tenant is
that its events without a store are given one. -/
theorem reachable_root_promoted (root : Root) (tool : Tool) (db : Database)
    {stores : List CompanyStore} (hstores : discoverCompanyStores root = .ok stores)
    (hsome : stores ≠ []) (hconnect : tool.connect = .ok ()) (hschema : tool.schema = .up)
    (hwire : ∀ s ∈ stores, tool.wire s.1 = .up)
    (hmade : ∀ s ∈ stores, ∃ cfg l, Db.Reachable cfg l ∧ s.2 = .ok l.state ∧ NulFree s.1 l.state)
    (hempty : ∀ s ∈ stores, db.rowsOf s.1 = .empty) :
    (∃ reports, (migrateRoot root tool db).1 = .ok reports ∧ List.Forall₂
        (fun s report => ∃ t, s.2 = .ok t ∧ report = companyReport s.1 t) stores reports) ∧
      (∀ s ∈ stores, ∃ t, s.2 = .ok t ∧ Promoted s.1 t (migrateRoot root tool db).2) ∧
      ∀ c, c ∉ stores.map Prod.fst →
        (migrateRoot root tool db).2.rowsOf c = (db.rowsOf c).adopted c := by
  have hsorted := discoverCompanyStores_sorted hstores
  have hrun : migrateRoot root tool db = migrateStores tool stores db.adopted := by
    cases stores with
    | nil => exact absurd rfl hsome
    | cons store stores => simp only [migrateRoot, hstores, hconnect, hschema]; rfl
  have hnone : ∀ s ∈ stores, db.adopted.rowsOf s.1 = .empty := fun s hs => by
    rw [Database.rowsOf_adopted, hempty s hs, Rows.adopted_empty]
  have hunfiled : ∀ s ∈ stores, Unfiled s.1 db.adopted := fun s hs => by
    obtain ⟨-, folder, projectFolder, -⟩ := Rows.mk.inj (hnone s hs)
    exact ⟨congrFun folder, congrFun projectFolder⟩
  obtain ⟨reports, hreports⟩ := migrateStores_ok tool hsorted hwire hmade hnone
  obtain ⟨done, rest, hlanded⟩ := migrateStores_landed tool hsorted hunfiled
  obtain ⟨rfl, hrows⟩ := hlanded.reports reports hreports
  obtain rfl : stores = done := hlanded.split.trans (List.append_nil done)
  rw [hrun]
  exact ⟨⟨reports, hreports, hrows⟩, hlanded.promoted, fun c hc => by
    rw [hlanded.frame c hc, Database.rowsOf_adopted]⟩

/-! ### An example -/

/-- A store, a company that never had one, and a file. -/
def oneStore : Root where
  path := "data"
  entries := .ok [
    .ok ⟨some "notes", .ok true, none⟩,
    .ok ⟨some "acme", .ok true, some (.ok (Db.Action.run {} Db.twoIssues (Db.opened "s")).state)⟩,
    .ok ⟨none, .ok false, none⟩]
  distinct := fun _ h => by cases h; decide

/-- The server answers. -/
def allUp : Tool := ⟨.ok (), .up, fun _ => .up⟩

def acmeStores : List CompanyStore :=
  [("acme", .ok (Db.Action.run {} Db.twoIssues (Db.opened "s")).state)]

theorem discovered_oneStore : discoverCompanyStores oneStore = .ok acmeStores := rfl

/-- An event from before events had a store. -/
def oldEvent : Db.OutboundRow := ⟨"", "beta-a", "beta", 1, "created", none, 0, 1, none⟩

/-- A server on which another tenant has one. -/
def legacy : Database :=
  { Database.empty with outbound := Table.empty.insert ("beta", 1) oldEvent }

theorem rowsOf_legacy : legacy.rowsOf "acme" = .empty := by
  refine Rows.ext rfl rfl rfl rfl rfl rfl ?_
  exact (Table.tenant_insert .empty "beta" (1 : Int) oldEvent "acme").trans (if_neg (by decide))

/-- The answer to the commit is lost, and the second run finds what the first one left. -/
def lostCommit : Tool := ⟨.ok (), .up, fun _ => .commitLost true "connection closed"⟩

theorem oneStore_promoted_once :
    (acmeStores.Pairwise fun s s' => s.1 < s'.1) ∧
      ∃ base done rest, (base = legacy ∧ done = [] ∨ base = legacy.adopted) ∧
        Landed lostCommit acmeStores base (migrateRoot oneStore lostCommit legacy) done rest ∧
        ∀ s t, done.head? = some s → s.2 = .ok t → t.project.rows ≠ [] → ∀ tool',
          ∃ e, migrateRoot oneStore tool' (migrateRoot oneStore lostCommit legacy).2 =
            (.error e, (migrateRoot oneStore lostCommit legacy).2) :=
  root_promoted_in_order oneStore lostCommit legacy discovered_oneStore nofun
    (fun _ _ => ⟨fun _ => rfl, fun _ => rfl⟩)

theorem oneStore_promoted :
    (∃ reports, (migrateRoot oneStore allUp legacy).1 = .ok reports ∧ List.Forall₂
        (fun s report => ∃ t, s.2 = .ok t ∧ report = companyReport s.1 t) acmeStores reports) ∧
      (∀ s ∈ acmeStores, ∃ t, s.2 = .ok t ∧
        Promoted s.1 t (migrateRoot oneStore allUp legacy).2) ∧
      ∀ c, c ∉ acmeStores.map Prod.fst →
        (migrateRoot oneStore allUp legacy).2.rowsOf c = (legacy.rowsOf c).adopted c :=
  reachable_root_promoted oneStore allUp legacy discovered_oneStore nofun rfl rfl (fun _ _ => rfl)
    (fun s hs => by
      obtain rfl := List.mem_singleton.mp hs
      exact ⟨{}, _, ⟨"s", Db.twoIssues, rfl⟩, rfl,
        ⟨by decide, by decide, by decide, by decide, by decide, by decide, by decide, by decide⟩⟩)
    (fun s hs => by
      rw [List.mem_singleton.mp hs]
      exact rowsOf_legacy)

end Marbles.Postgres
