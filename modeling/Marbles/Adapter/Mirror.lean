import Marbles.Adapter.InStep
import Marbles.Db.Outbox
import Marbles.Folders
import Marbles.Lib.Mirror

/-!
# The adapter as a mirror of the local store

The collections of the adapter next to the tables of the local store: issues with the time of their
last update, edges, projects, folders, filings and outbound events. The two stores number their
events alike, so that an outbound event is a document under the number of its row.

One lemma for each call says that both stores do it or both refuse it, and that the mirror is kept.
Two calls keep it on a condition: an edge that is added is not there yet, and a project that is
dropped is not filed.

A mirror is more than being in step: it also has the folders, the filings and the outbox, and the
events under the same numbers. That is what the listings of both stores show, and it is kept by
each call under the two conditions named above. The lemmas about single documents say what else a
write leaves alone; they carry all of the case distinctions.
-/

namespace Marbles.Adapter

open Json (Value Object)
open Records (Engine Key)
open Sorting (sortOn)
open Db (Tables IssueRow Tx)

/-- What is listed of a project. -/
def projectFields (data : Value) : Option Value × Option Value :=
  (data.get "root", data.get "prefix")

/-- What a mirrored project document has to agree with its row in, besides the key. -/
def projectColumns (_ : String) (row : Db.ProjectRow) : Option Value × Option Value :=
  (some (.str row.root), some (.str row.idPrefix))

/-- What is listed of a folder. -/
def folderFields (data : Value) : Option Value × Option Value × Option Value × Option Value :=
  (data.get "slug", data.get "name", data.get "parent", data.get "created_at")

/-- The same of a folder. -/
def folderColumns (slug : String) (row : Db.FolderRow) :
    Option Value × Option Value × Option Value × Option Value :=
  (some (.str slug), some (.str row.name), some (.ofStr? row.parent), some (.num row.createdAt))

/-- What is listed of a filing. -/
def filingFields (data : Value) : Option Value × Option Value :=
  (data.get "project", data.get "folder")

/-- The same of a filing. -/
def filingColumns (project : String) (row : Db.ProjectFolderRow) : Option Value × Option Value :=
  (some (.str project), some (.str row.folder))

/-- Whether and when an outbound event is due, and the issue it is about. -/
def outboundFields (data : Value) : Bool × Int × Option String :=
  (isDelivered data, (data.field "next_attempt_at").asInt.getD 0, (data.field "issue_id").asStr)

/-- Of an event what decides whether it is due, and whose it is. -/
def outboundColumns (_ : Nat) (row : Db.OutboundRow) : Bool × Int × Option String :=
  (row.deliveredAt.isSome, row.nextAttemptAt, some row.issueId)

/-- The collections of the adapter are the tables of the local store. Besides being in step this
covers what both stores list and offer. -/
structure Mirror (s : Inner) (t : Tables) : Prop where
  issues : Mirrors (s.doc issueKind) (fun id => [id]) (fun data => data)
    (fun id row => rowToJson id row row.updatedAt) t.issue
  edges : Mirrors (s.doc dependencyKind) (fun e : String × String => [e.1, e.2]) (fun _ => ())
    (fun _ _ => ()) t.dep
  projects : Mirrors (s.doc projectKind) (fun slug => [slug]) projectFields projectColumns t.project
  folders : Mirrors (s.doc folderKind) (fun slug => [slug]) folderFields folderColumns t.folder
  filings : Mirrors (s.doc projectFolderKind) (fun project => [project]) filingFields filingColumns
    t.projectFolder
  outbox : Mirrors (s.doc outboundEventKind) (fun n : Nat => [n.repr]) outboundFields
    outboundColumns
    t.ledger.outbound
  counter : s.seq = t.ledger.history.last
  /-- No folder is above itself. -/
  tree : t.folderTree.Sound
  /-- Only a project that is there is filed. -/
  filed : ∀ project ∈ t.projectFolder.keys, project ∈ t.project.keys

theorem single_injective : Function.Injective fun id : String => [id] := fun _ _ h =>
  (List.cons.inj h).1

theorem numeral_injective : Function.Injective fun n : Nat => [n.repr] := fun _ _ h =>
  repr_inj (List.cons.inj h).1

theorem edge_injective : Function.Injective fun e : String × String => [e.1, e.2] := fun _ _ h =>
  Prod.ext (List.cons.inj h).1 (List.cons.inj (List.cons.inj h).2).1

namespace Mirror

variable {cfg : Config} {s s' : Inner} {t t' : Tables}

/-- The mirror keeps the two stores in step. -/
theorem sim (h : Mirror s t) : Sim s t where
  present hrow := by
    obtain ⟨data, hdata, rfl⟩ := h.issues.found hrow
    exact ⟨_, hdata⟩
  absent hrow := h.issues.missing hrow
  single hdata := h.issues.only hdata
  edge child parent := h.edges.isSome_iff (child, parent)
  pair hdata := by
    obtain ⟨e, he⟩ := h.edges.only hdata
    exact ⟨e.1, e.2, he⟩
  project slug := h.projects.isSome_iff slug

/-- Fresh stores. -/
theorem opened (cfg : Config) (storeId : String) :
    Mirror (opened cfg).state (Tables.empty storeId) := by
  have hdoc : ∀ n key, n ≠ storeMetaKind → (Adapter.opened cfg).state.doc n key = none := by
    intro n key hn
    exact Engine.current_append_ne fun h => hn h.1
  have hempty : ∀ {n : String} {κ ν ω : Type} [DecidableEq κ] {key : κ → Key} {read : Value → ω}
      {shown : κ → ν → ω} {table : Table κ ν}, n ≠ storeMetaKind → (∀ k, table.find k = none) →
      Mirrors ((Adapter.opened cfg).state.doc n) key read shown table := by
    intro n κ ν ω _ key read shown table hn hnone
    refine ⟨fun k => ?_, fun hd => ?_⟩
    · rw [hdoc n _ hn, hnone]
      rfl
    · rw [hdoc n _ hn] at hd
      cases hd
  refine ⟨hempty (by decide) fun _ => rfl, hempty (by decide) fun _ => rfl,
    hempty (by decide) fun _ => rfl, hempty (by decide) fun _ => rfl,
    hempty (by decide) fun _ => rfl, hempty (by decide) fun _ => rfl, rfl, ?_, fun _ hp => ?_⟩
  · have htree : (Tables.empty storeId).folderTree = fun _ => none := funext fun slug => rfl
    rw [htree]
    exact Forest.Parents.sound_empty
  · cases hp

/-! ### Projects and folders -/

/-- One document is written, the others stay. -/
theorem doc_put_ne {n name : String} (hn : n ≠ name) (key k : Key) (data : Value)
    (deleted : Bool) : (s.put name key data deleted).doc n k = s.doc n k := by
  rw [doc_put, if_neg fun h => hn h.1]

@[simp] theorem doc_put_self (name : String) (key k : Key) (data : Value) :
    (s.put name key data false).doc name k = if k = key then some data else s.doc name k := by
  rw [doc_put]
  simp

/-- A default is there afterwards, and the other fields are as they were. -/
theorem setDefault_obj (key : String) (value : Value) (fields : Object) :
    ∃ fields', setDefault key value (.obj fields) = .obj fields' ∧ ∀ k, Object.get k fields' =
      if k = key then some ((Object.get key fields).getD value) else Object.get k fields := by
  unfold setDefault
  cases hget : Value.get key (.obj fields) with
  | some old =>
      have hold : Object.get key fields = some old := hget
      refine ⟨fields, rfl, fun k => ?_⟩
      by_cases hk : k = key
      · simp [hk, hold]
      · simp [hk]
  | none =>
      have hold : Object.get key fields = none := hget
      refine ⟨Object.insert key value fields, rfl, fun k => ?_⟩
      rw [Object.get_insert, hold]
      rfl

/-- A document with a field is an object. -/
theorem eq_obj_of_get {data value : Value} {key : String} (h : data.get key = some value) :
    ∃ fields, data = .obj fields := by
  cases data with
  | obj fields => exact ⟨fields, rfl⟩
  | _ => cases h

theorem putProject (h : Mirror s t) {slug : String} {data : Value} {row : Db.ProjectRow}
    {project : Table String Db.ProjectRow} (hshown : projectFields data = projectColumns slug row)
    (hproject : ∀ x, project.find x = if x = slug then some row else t.project.find x) :
    Mirror (s.put projectKind [slug] data false) { t with project := project } where
  issues := h.issues.congr (doc_put_ne (by decide) _ · _ _) fun _ => rfl
  edges := h.edges.congr (doc_put_ne (by decide) _ · _ _) fun _ => rfl
  projects := h.projects.write single_injective hshown (doc_put_self projectKind _ · _) hproject
  folders := h.folders.congr (doc_put_ne (by decide) _ · _ _) fun _ => rfl
  filings := h.filings.congr (doc_put_ne (by decide) _ · _ _) fun _ => rfl
  outbox := h.outbox.congr (doc_put_ne (by decide) _ · _ _) fun _ => rfl
  counter := h.counter
  tree := h.tree
  filed := fun x hx => by
    have hold := h.filed x hx
    rw [Table.mem_keys_iff_isSome] at hold ⊢
    rw [hproject]
    split
    · rfl
    · exact hold

/-- Both stores register the project. Nobody else has its root. -/
theorem ensureProject (h : Mirror s t) {slug root : String}
    (hroot : ∀ x row, t.project.find x = some row → row.root = root → x = slug)
    (idPrefix : String) (ts : Int) :
    Alike (fun s' t' => Mirror s' t' ∧ t'.projectFolder = t.projectFolder ∧
        ∀ x row, t'.project.find x = some row →
          x = slug ∧ row.root = root ∨ t.project.find x = some row)
      s (runA (Adapter.ensureProject slug root idPrefix ts) s)
      (Db.ensureProjectTx slug root idPrefix ts t) := by
  have hfree : ¬ (t.project.rows.any fun r => r.1 ≠ slug && r.2.root = root) = true := by
    intro hany
    obtain ⟨r, hr, hclash⟩ := List.any_eq_true.mp hany
    obtain ⟨hother, hsame⟩ := Bool.and_eq_true_iff.mp hclash
    exact of_decide_eq_true hother (hroot r.1 r.2 (Table.mem_rows.mp hr) (of_decide_eq_true hsame))
  generalize hrow : ((t.project.find slug).map fun row => { row with root := root }).getD
    ⟨root, idPrefix, ts⟩ = row
  -- the document keeps its prefix, as the row does
  obtain ⟨fields, hdata, hprefix⟩ : ∃ fields, (s.doc projectKind [slug]).getD (.obj
      [("created_at", .num ts), ("prefix", .str idPrefix), ("slug", .str slug)]) = .obj fields ∧
      Object.get "prefix" fields = some (.str row.idPrefix) := by
    cases hfind : t.project.find slug with
    | none =>
        rw [hfind] at hrow
        rw [h.projects.missing hfind, ← hrow]
        exact ⟨_, rfl, rfl⟩
    | some old =>
        obtain ⟨data, hdoc, hread⟩ := h.projects.found hfind
        obtain ⟨fields, rfl⟩ := eq_obj_of_get (Prod.mk.inj hread).1
        rw [hfind] at hrow
        rw [hdoc, ← hrow]
        exact ⟨fields, rfl, (Prod.mk.inj hread).2⟩
  have hrun : runA (Adapter.ensureProject slug root idPrefix ts) s = (.ok (),
      s.put projectKind [slug] (setDefault "created_at" (.num ts)
        (setDefault "prefix" (.str idPrefix)
        (((Value.obj fields).set "slug" (.str slug)).set "root" (.str root)))) false) := by
    rw [← hdata]
    exact (runA_bind_reads (Reads.current projectKind [slug])).trans (runA_append ..)
  have hshown : projectFields (setDefault "created_at" (.num ts)
      (setDefault "prefix" (.str idPrefix)
      (((Value.obj fields).set "slug" (.str slug)).set "root" (.str root)))) =
        projectColumns slug row := by
    obtain ⟨fields₁, heq₁, hget₁⟩ := setDefault_obj "prefix" (.str idPrefix)
      (Object.insert "root" (.str root) (Object.insert "slug" (.str slug) fields))
    obtain ⟨fields₂, heq₂, hget₂⟩ := setDefault_obj "created_at" (.num ts) fields₁
    have hrowRoot : row.root = root := by
      rw [← hrow]
      cases t.project.find slug <;> rfl
    rw [Value.set, Value.set, heq₁, heq₂, projectFields, projectColumns, Value.get, Value.get]
    simp [hget₁, hget₂, Object.get_insert, hprefix, hrowRoot]
  have hproject : ∀ x, (t.project.upsert slug ⟨root, idPrefix, ts⟩ fun row =>
      { row with root := root }).find x = if x = slug then some row else t.project.find x := by
    intro x
    rw [Table.find_upsert, hrow]
  rw [hrun, Db.ensureProjectTx, if_neg hfree]
  refine .ok ⟨h.putProject hshown hproject, rfl, fun x row' hx => ?_⟩
  rw [hproject] at hx
  split at hx
  · obtain rfl := Option.some.inj hx
    refine Or.inl ⟨‹_›, ?_⟩
    rw [← hrow]
    cases t.project.find slug <;> rfl
  · exact Or.inr hx

theorem putFolder (h : Mirror s t) {slug : String} {data : Value} {row : Db.FolderRow}
    {folder : Table String Db.FolderRow} (hshown : folderFields data = folderColumns slug row)
    (hfolder : ∀ x, folder.find x = if x = slug then some row else t.folder.find x)
    (htree : Tables.folderTree { t with folder := folder } |>.Sound) :
    Mirror (s.put folderKind [slug] data false) { t with folder := folder } where
  issues := h.issues.congr (doc_put_ne (by decide) _ · _ _) fun _ => rfl
  edges := h.edges.congr (doc_put_ne (by decide) _ · _ _) fun _ => rfl
  projects := h.projects.congr (doc_put_ne (by decide) _ · _ _) fun _ => rfl
  folders := h.folders.write single_injective hshown (doc_put_self folderKind _ · _) hfolder
  filings := h.filings.congr (doc_put_ne (by decide) _ · _ _) fun _ => rfl
  outbox := h.outbox.congr (doc_put_ne (by decide) _ · _ _) fun _ => rfl
  counter := h.counter
  tree := htree
  filed := h.filed

/-- Both stores have the same tree of folders. -/
theorem folderTree (h : Mirror s t) : s.folderTree = t.folderTree := by
  funext slug
  rw [Inner.folderTree, Tables.folderTree]
  cases hfind : t.folder.find slug with
  | none => rw [h.folders.missing hfind, Option.map_none, Option.map_none]
  | some row =>
      obtain ⟨data, hdoc, hread⟩ := h.folders.found hfind
      obtain ⟨fields, rfl⟩ := eq_obj_of_get (Prod.mk.inj hread).1
      have hparent : Object.get "parent" fields = some (.ofStr? row.parent) :=
        (Prod.mk.inj (Prod.mk.inj (Prod.mk.inj hread).2).2).1
      rw [hdoc, Option.map_some, Option.map_some, Value.field, hparent, Option.getD_some,
        Value.asStr_ofStr?]

/-- Both stores keep the folder, or both refuse it. -/
theorem ensureFolder (h : Mirror s t) (folder : Folder) (now : Int) :
    Alike (fun s' t' => Mirror s' t' ∧ t'.project = t.project) s
      (runA (Adapter.ensureFolder folder now) s) (Db.ensureFolderAlone folder now t) := by
  unfold Adapter.ensureFolder Db.ensureFolderAlone
  dsimp only
  by_cases hslug : trim folder.slug = ""
  · rw [if_pos hslug, if_pos hslug]
    exact .fail
  rw [if_neg hslug, if_neg hslug]
  by_cases hname : trim folder.name = ""
  · rw [if_pos hname, if_pos hname]
    exact .fail
  rw [if_neg hname, if_neg hname, Db.ensureFolderTx]
  generalize trim folder.slug = slug, trim folder.name = name, trimmed folder.parent = parent
  have htree := h.folderTree
  obtain ⟨r, hcheck, hdecides⟩ := checkFolderParent_decides (htree ▸ h.tree) slug parent
  rw [htree] at hdecides
  rcases hdecides with ⟨hadmits, u, rfl⟩ | ⟨hnot, e, rfl⟩
  · obtain ⟨-, u', hok⟩ := (Db.checkFolderParent_decides t slug parent).resolve_right fun hr =>
      hr.1 hadmits
    generalize hrow : ((t.folder.find slug).map fun row : Db.FolderRow =>
      { row with name := name, parent := parent }).getD ⟨name, parent, now⟩ = row
    -- the document keeps the time it was made at, as the row does
    obtain ⟨fields, hdata, hcreated⟩ : ∃ fields, (s.doc folderKind [slug]).getD (.obj
        [("created_at", .num now), ("name", .str name), ("parent", .null), ("slug", .str slug)]) =
          .obj fields ∧ Object.get "created_at" fields = some (.num row.createdAt) := by
      cases hfind : t.folder.find slug with
      | none =>
          rw [hfind] at hrow
          rw [h.folders.missing hfind, ← hrow]
          exact ⟨_, rfl, rfl⟩
      | some old =>
          obtain ⟨data, hdoc, hread⟩ := h.folders.found hfind
          obtain ⟨fields, rfl⟩ := eq_obj_of_get (Prod.mk.inj hread).1
          rw [hfind] at hrow
          rw [hdoc, ← hrow]
          exact ⟨fields, rfl, (Prod.mk.inj (Prod.mk.inj (Prod.mk.inj hread).2).2).2⟩
    have hshown : folderFields (setDefault "created_at" (.num now) ((((Value.obj fields).set "slug"
        (.str slug)).set "name" (.str name)).set "parent" (.ofStr? parent))) =
          folderColumns slug row := by
      obtain ⟨fields', heq, hget⟩ := setDefault_obj "created_at" (.num now)
        (Object.insert "parent" (.ofStr? parent) (Object.insert "name" (.str name)
          (Object.insert "slug" (.str slug) fields)))
      have hcolumns : row.name = name ∧ row.parent = parent := by
        rw [← hrow]
        cases t.folder.find slug <;> exact ⟨rfl, rfl⟩
      rw [Value.set, Value.set, Value.set, heq, folderFields, folderColumns]
      simp [Value.get, hget, Object.get_insert, hcreated, hcolumns]
    rw [runA_bind_ok hcheck, runA_bind_reads (reads_loadFolder slug), hok, hdata]
    refine .ok ⟨h.putFolder hshown (fun x => ?_) ?_, rfl⟩
    · rw [Table.find_upsert, hrow]
    · rw [Db.folderTree_upsert]
      exact h.tree.attach hadmits
  · obtain ⟨-, e', hfail⟩ := (Db.checkFolderParent_decides t slug parent).resolve_left fun hl =>
      hnot hl.1
    rw [runA_bind_error hcheck, hfail]
    exact .fail

theorem putFiling (h : Mirror s t) {project : String} {data : Value} {deleted : Bool}
    {filing : Table String Db.ProjectFolderRow}
    (hfilings : Mirrors ((s.put projectFolderKind [project] data deleted).doc projectFolderKind)
      (fun project => [project]) filingFields filingColumns filing)
    (hfiled : ∀ x ∈ filing.keys, x ∈ t.project.keys) :
    Mirror (s.put projectFolderKind [project] data deleted) { t with projectFolder := filing } where
  issues := h.issues.congr (doc_put_ne (by decide) _ · _ _) fun _ => rfl
  edges := h.edges.congr (doc_put_ne (by decide) _ · _ _) fun _ => rfl
  projects := h.projects.congr (doc_put_ne (by decide) _ · _ _) fun _ => rfl
  folders := h.folders.congr (doc_put_ne (by decide) _ · _ _) fun _ => rfl
  filings := hfilings
  outbox := h.outbox.congr (doc_put_ne (by decide) _ · _ _) fun _ => rfl
  counter := h.counter
  tree := h.tree
  filed := hfiled

/-- Both stores file the project, or both refuse to. -/
theorem setProjectFolder (h : Mirror s t) (project : String) (folder : Option String) (now : Int) :
    Alike (fun s' t' => Mirror s' t' ∧ t'.project = t.project) s
      (runA (Adapter.setProjectFolder project folder now) s)
      (Db.setProjectFolderTx project folder now t) := by
  unfold Adapter.setProjectFolder Db.setProjectFolderTx
  refine .bind_reads (Reads.current projectKind [project]) ?_
  by_cases hproject : project ∈ t.project.keys
  swap
  · rw [h.projects.missing (Table.find_eq_none.mpr hproject), if_pos hproject]
    exact .fail
  obtain ⟨row, hrow⟩ := Table.mem_keys.mp hproject
  obtain ⟨data, hdata, -⟩ := h.projects.found hrow
  rw [hdata, if_neg (not_not.mpr hproject)]
  dsimp only
  -- A blank folder takes the filing back (a tombstone); a folder that exists is written over
  -- whatever filing there was.
  cases trimmed folder with
  | none =>
      have herase : ∀ x, (t.projectFolder.erase project).find x =
          (t.projectFolder.find x).filter fun _ => x ≠ project := by
        intro x
        rw [Table.find_erase]
        cases t.projectFolder.find x <;> by_cases hx : x = project <;> simp [hx, Option.filter]
      refine .ok ⟨h.putFiling (h.filings.sweep (fun x row _ => ?_) (fun {key data} hkey => ?_)
        herase)
        fun x hx => ?_, rfl⟩
      · rw [doc_put]
        by_cases hx : x = project <;> simp [hx]
      · rw [doc_put] at hkey
        split at hkey
        · cases hkey
        · exact hkey
      · obtain ⟨row, hfind, -⟩ := Table.mem_keys_filter.mp hx
        exact h.filed x (Table.mem_keys_of_find hfind)
  | some folder =>
      refine .bind_reads (reads_loadFolder folder) ?_
      dsimp only
      by_cases hfolder : folder ∈ t.folder.keys
      swap
      · rw [h.folders.missing (Table.find_eq_none.mpr hfolder), if_pos hfolder]
        exact .fail
      obtain ⟨frow, hfrow⟩ := Table.mem_keys.mp hfolder
      obtain ⟨fdata, hfdata, -⟩ := h.folders.found hfrow
      rw [hfdata, if_neg (not_not.mpr hfolder)]
      dsimp only
      obtain ⟨fields, hfields⟩ : ∃ fields, (s.doc projectFolderKind [project]).getD (.obj []) =
          .obj fields := by
        cases hdoc : s.doc projectFolderKind [project] with
        | none => exact ⟨[], rfl⟩
        | some data =>
            obtain ⟨old, -, hread⟩ := h.filings.row hdoc
            exact eq_obj_of_get (Prod.mk.inj hread).1
      have hshown : filingFields ((((Value.obj fields).set "project" (.str project)).set "folder"
          (.str folder)).set "assigned_at" (.num now)) = filingColumns project ⟨folder, now⟩ := by
        simp [filingFields, filingColumns, Value.set, Value.get, Object.get_insert]
      rw [runA_bind_reads (Reads.current projectFolderKind [project]), hfields]
      refine .ok ⟨h.putFiling (h.filings.write single_injective hshown
        (doc_put_self projectFolderKind _ · _) fun x => ?_) fun x hx => ?_, rfl⟩
      · rw [Table.find_upsert]
        cases t.projectFolder.find project <;> rfl
      · rcases Table.mem_keys_upsert.mp hx with rfl | hx
        · exact hproject
        · exact h.filed x hx

/-! ### Issues, edges and events -/

/-- Besides the event, which has a number of its own, only the outbox changes. -/
theorem doc_log_ne {storeId id : String} {ts : Int} {actor event detail : String} {n : String}
    (hout : n ≠ outboundEventKind) (hevent : n ≠ marblesEventKind) (key : Key) :
    (s.log storeId id ts actor event detail).doc n key = s.doc n key := by
  rw [doc_log hout, if_neg fun h => hevent h.1]

/-- The outbox after an event about an issue that is there. -/
theorem doc_log_outbox {storeId id : String} {ts : Int} {actor event detail : String} {data : Value}
    (hdata : s.doc issueKind [id] = some data) (key : Key) :
    (s.log storeId id ts actor event detail).doc outboundEventKind key =
      if key = [(s.seq + 1).repr] then
        some (outboundToJson (s.seq + 1) storeId id (textOf "project" data) ts event)
      else s.doc outboundEventKind key := by
  have hissue : (s.count.put marblesEventKind [(s.seq + 1).repr]
      (eventToJson id ts actor event detail)
      false).doc issueKind [id] = some data := by
    rw [doc_put_ne (by decide)]
    exact hdata
  rw [Inner.log, Inner.logOutbound, hissue]
  dsimp only
  rw [doc_put_self, doc_put_ne (by decide)]
  rfl

/-- Both stores record an event about an issue that is there. -/
theorem log (h : Mirror s t) {id : String} (hid : id ∈ t.issue.keys) (storeId : String) (ts : Int)
    (actor event detail : String) :
    Mirror (s.log storeId id ts actor event detail) (t.logEvent id ts actor event detail) where
  issues := h.issues.congr (doc_log_ne (by decide) (by decide)) fun _ => rfl
  edges := h.edges.congr (doc_log_ne (by decide) (by decide)) fun _ => rfl
  projects := h.projects.congr (doc_log_ne (by decide) (by decide)) fun _ => rfl
  folders := h.folders.congr (doc_log_ne (by decide) (by decide)) fun _ => rfl
  filings := h.filings.congr (doc_log_ne (by decide) (by decide)) fun _ => rfl
  outbox := by
    obtain ⟨row, hrow⟩ := Table.mem_keys.mp hid
    obtain ⟨data, hdata, -⟩ := h.issues.found hrow
    have hshown : outboundFields (outboundToJson (s.seq + 1) storeId id (textOf "project" data) ts
        event) = outboundColumns (s.seq + 1)
          ⟨t.storeId, id, row.project, ts, event, none, 0, ts, none⟩ := rfl
    refine h.outbox.write numeral_injective hshown (doc_log_outbox hdata) fun n => ?_
    rw [Db.find_logEvent, hrow, h.counter]
    rfl
  counter := by
    rw [seq_log, h.counter]
    rfl
  tree := h.tree
  filed := h.filed

/-- Both stores keep the issue; the document has the time of the last update as well. -/
theorem save (h : Mirror s t) {id : String} {row : IssueRow} {issue : Issue}
    {issues : Table String IssueRow} (hid : issue.id = id)
    (hjson : issueToJson issue = rowToJson id row row.updatedAt)
    (hissues : ∀ x, issues.find x = if x = id then some row else t.issue.find x) :
    Mirror (s.save issue) { t with issue := issues } where
  issues := by
    subst hid
    exact h.issues.write single_injective hjson (doc_put_self issueKind _ · _) hissues
  edges := h.edges.congr (doc_put_ne (by decide) _ · _ _) fun _ => rfl
  projects := h.projects.congr (doc_put_ne (by decide) _ · _ _) fun _ => rfl
  folders := h.folders.congr (doc_put_ne (by decide) _ · _ _) fun _ => rfl
  filings := h.filings.congr (doc_put_ne (by decide) _ · _ _) fun _ => rfl
  outbox := h.outbox.congr (doc_put_ne (by decide) _ · _ _) fun _ => rfl
  counter := h.counter
  tree := h.tree
  filed := h.filed

theorem putEdge (h : Mirror s t) (child parent : String) (data : Value) :
    Mirror (s.put dependencyKind [child, parent] data false)
      { t with dep := t.dep.insert (child, parent) () } where
  issues := h.issues.congr (doc_put_ne (by decide) _ · _ _) fun _ => rfl
  edges := h.edges.write edge_injective (k := (child, parent)) rfl
    (doc_put_self dependencyKind _ · _) fun e => Table.find_insert _ _ _ _
  projects := h.projects.congr (doc_put_ne (by decide) _ · _ _) fun _ => rfl
  folders := h.folders.congr (doc_put_ne (by decide) _ · _ _) fun _ => rfl
  filings := h.filings.congr (doc_put_ne (by decide) _ · _ _) fun _ => rfl
  outbox := h.outbox.congr (doc_put_ne (by decide) _ · _ _) fun _ => rfl
  counter := h.counter
  tree := h.tree
  filed := h.filed

/-- Both stores create the issue under the id that was asked for, or both refuse it. -/
theorem create (h : Mirror s t) {spec : NewIssue} (hid : spec.id.isSome = true)
    (draws : List String) (now : Int) :
    Alike (fun s' t' => Mirror s' t' ∧ t'.project = t.project) s
      (runA (Adapter.create cfg spec draws now) s)
      (Db.createAlone cfg.toConfig spec draws now t) := by
  obtain ⟨id, hid⟩ := Option.isSome_iff_exists.mp hid
  refine (create_alike h.sim hid draws now).mono fun s' t' hafter => ?_
  obtain ⟨issue, row, hnew, hissue, hjson, rfl, rfl, rfl⟩ := hafter
  have hinsert : ∀ x, (t.issue.insert id row).find x =
      if x = id then some row else t.issue.find x := by
    intro x
    rw [Table.find_insert, hnew, Option.getD_none]
  exact ⟨(h.save hissue hjson hinsert).log (Table.mem_keys_insert.mpr (Or.inl rfl)) .., rfl⟩

/-- Both stores add an edge that is not there yet, or both refuse it. -/
theorem addDep (h : Mirror s t) {child parent : String} (hnew : (child, parent) ∉ t.dep.keys)
    (actor : String) (now : Int) :
    Alike (fun s' t' => Mirror s' t' ∧ t'.project = t.project) s
      (runA (Adapter.addDep cfg child parent actor now) s)
      (Db.addDepAlone child parent actor now t) := by
  refine (addDep_alike h.sim child parent actor now).mono fun s' t' hafter => ?_
  obtain ⟨hmem, -⟩ | ⟨-, issue, row, hrow, hissue, hjson, rfl, rfl⟩ := hafter
  · exact absurd hmem hnew
  have hmodify : ∀ x, (t.issue.modify child fun row => { row with updatedAt := now }).find x =
      if x = child then some { row with updatedAt := now } else t.issue.find x := by
    intro x
    rw [Table.find_modify]
    by_cases hx : x = child
    · simp [hx, hrow]
    · simp [hx]
  have hedge := h.putEdge child parent (.obj [("child", .str child), ("parent", .str parent)])
  refine ⟨(hedge.save hissue hjson hmodify).log ?_ .., rfl⟩
  rw [Table.keys_modify]
  exact Table.mem_keys_of_find hrow

/-! ### Dropping -/

theorem nodup_issuesOf (h : Sim s t) (slug : String) : (s.issuesOf slug).Nodup := by
  refine List.Nodup.of_map (fun id => [id]) ?_
  refine (Engine.nodup_keys s.engine issueKind).sublist
    (map_filterMap_sublist fun key hkey id hid => ?_)
  obtain ⟨data, hdata⟩ := Engine.mem_keys.mp hkey
  obtain ⟨i, rfl⟩ := h.single hdata
  simp only [List.head?_cons, Option.bind_some] at hid
  obtain ⟨d, -, hid⟩ := Option.bind_eq_some_iff.mp hid
  split at hid
  · exact congrArg (fun i => [i]) (Option.some.inj hid).symm
  · cases hid

/-- Both stores count the same issues. -/
theorem length_issuesOf (h : Sim s t) (slug : String) :
    (s.issuesOf slug).length = (t.issue.rows.filter fun r => r.2.project = slug).length := by
  have hrows : ((t.issue.rows.filter fun r => r.2.project = slug).map Prod.fst).Nodup :=
    t.issue.nodup.sublist (List.filter_sublist.map _)
  have hperm : (s.issuesOf slug).Perm
      ((t.issue.rows.filter fun r => r.2.project = slug).map Prod.fst) := by
    refine (List.perm_ext_iff_of_nodup (nodup_issuesOf h slug) hrows).mpr fun id => ?_
    rw [mem_issuesOf h, List.mem_map]
    constructor
    · intro hid
      cases hrow : t.issue.find id with
      | none => simp [hrow] at hid
      | some row =>
          rw [hrow] at hid
          exact ⟨(id, row), List.mem_filter.mpr ⟨Table.mem_rows.mpr hrow, hid⟩, rfl⟩
    · intro hid
      obtain ⟨r, hr, rfl⟩ := hid
      obtain ⟨hrow, hproject⟩ := List.mem_filter.mp hr
      rw [Table.mem_rows.mp hrow]
      exact hproject
  rw [hperm.length_eq, List.length_map]

/-- The mirror is kept when a project is dropped that is not filed. -/
theorem drop (h : Mirror s t) {slug : String} (hfiled : slug ∉ t.projectFolder.keys)
    {r : ProjectRemoval} (htx : Db.dropProjectTx slug t = .ok (r, t')) :
    Mirror (s.dropped (s.issuesOf slug) slug) t' := by
  obtain ⟨mine, rfl, rfl⟩ := Db.dropProjectTx_ok htx
  have hmine : ∀ id, (t.issue.find id).any (fun row => row.project = slug) =
      decide (id ∈ s.issuesOf slug) := by
    intro id
    rw [Bool.eq_iff_iff, decide_eq_true_eq]
    exact (mem_issuesOf h.sim).symm
  have hdrop := dropped_docs s (s.issuesOf slug) slug
  have hfind : ∀ x, (t.project.erase slug).find x =
      (t.project.find x).filter fun _ => x ≠ slug := fun x => Table.find_filter ..
  have hunfiled : ∀ x, (t.projectFolder.erase slug).find x = t.projectFolder.find x := by
    intro x
    rw [Table.find_erase]
    split
    · rename_i hx
      rw [hx, Table.find_eq_none.mpr hfiled]
    · rfl
  -- One table after the other: the sweep of its documents is a filter of its rows, by the issues of
  -- the project.
  constructor
  · refine h.issues.sweep (fun id row hrow => ?_) (fun hd => ?_) fun id => Table.find_filter ..
    · rw [hdrop.issue]
      have hid := hmine id
      rw [hrow, Option.any_some] at hid
      by_cases hproject : row.project = slug <;> simp_all
    · rw [hdrop.issue] at hd
      split at hd
      · cases hd
      · exact hd
  · refine h.edges.sweep (fun e _ _ => ?_) hdrop.pair fun e => Table.find_filter ..
    simp only [hdrop.edge, hmine]
    by_cases hchild : e.1 ∈ s.issuesOf slug <;> by_cases hparent : e.2 ∈ s.issuesOf slug <;>
      simp [hchild, hparent]
  · refine h.projects.sweep (fun x _ _ => ?_) (fun hd => ?_) hfind
    · rw [hdrop.project]
      by_cases hx : x = slug <;> simp [hx]
    · rw [hdrop.project] at hd
      split at hd
      · cases hd
      · exact hd
  -- Folders are not swept, and by the hypothesis no filing of the project is left to sweep.
  · exact h.folders.congr (doc_dropped _ _ _ (by decide)) fun _ => rfl
  · exact h.filings.congr (doc_dropped _ _ _ (by decide)) hunfiled
  · refine h.outbox.sweep (fun n row hrow => ?_) (fun hd => ?_) fun n => Table.find_filter ..
    · obtain ⟨data, hdata, hread⟩ := h.outbox.found hrow
      have hissue : (data.field "issue_id").asStr = some row.issueId :=
        (Prod.mk.inj (Prod.mk.inj hread).2).2
      simp only [doc_dropped_outbox, hdata, Option.filter_some, hissue, Option.any_some, hmine]
    · rw [doc_dropped_outbox, Option.filter_eq_some_iff] at hd
      exact hd.1
  · rw [seq_dropped, h.counter]
    rfl
  · exact h.tree
  · intro x hx
    have hold : x ∈ t.projectFolder.keys := by
      rw [Table.mem_keys_iff_isSome, ← hunfiled, ← Table.mem_keys_iff_isSome]
      exact hx
    have hproject := h.filed x hold
    rw [Table.mem_keys_iff_isSome] at hproject ⊢
    change ((t.project.erase slug).find x).isSome = true
    have hother : x ≠ slug := fun heq => hfiled (heq ▸ hold)
    rw [Table.find_erase, if_neg hother]
    exact hproject

/-- Both stores count the same issues, or both refuse to drop the project. -/
theorem dropProject_result (h : Mirror s t) (slug : String) :
    (runA (Adapter.dropProject slug) s).1 = (Db.dropProjectTx slug t).map Prod.fst := by
  by_cases hproject : slug ∈ t.project.keys
  · obtain ⟨row, hrow⟩ := Table.mem_keys.mp hproject
    obtain ⟨data, hdata, -⟩ := h.projects.found hrow
    rw [runA_dropProject hdata, Db.dropProjectTx, if_pos hproject, length_issuesOf h.sim]
    rfl
  · have hdata := h.projects.missing (Table.find_eq_none.mpr hproject)
    rw [runA_dropProject_missing hdata, Db.dropProjectTx, if_neg hproject]
    rfl

/-- Both stores drop a project that is not filed, or both refuse it. -/
theorem dropProject (h : Mirror s t) {slug : String} (hfiled : slug ∉ t.projectFolder.keys) :
    Alike (fun s' t' => Mirror s' t' ∧
        ∀ x row, t'.project.find x = some row → t.project.find x = some row) s
      (runA (Adapter.dropProject slug) s) (Db.dropProjectTx slug t) := by
  by_cases hproject : slug ∈ t.project.keys
  · obtain ⟨row, hrow⟩ := Table.mem_keys.mp hproject
    obtain ⟨data, hdata, -⟩ := h.projects.found hrow
    have htx : Db.dropProjectTx slug t = .ok (_, _) := if_pos hproject
    rw [runA_dropProject hdata, htx]
    refine .ok ⟨h.drop hfiled htx, fun x row' hx => ?_⟩
    change (t.project.erase slug).find x = some row' at hx
    rw [Table.find_erase] at hx
    split at hx
    · cases hx
    · exact hx
  · have hdata := h.projects.missing (Table.find_eq_none.mpr hproject)
    rw [runA_dropProject_missing hdata, Db.dropProjectTx, if_neg hproject]
    exact .fail

end Mirror

end Marbles.Adapter
