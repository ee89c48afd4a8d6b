import Marbles.Adapter.Alone
import Marbles.Adapter.Methods
import Marbles.Db.Alone
import Marbles.Lib.Forest
import Marbles.Postgres.Store

/-!
# The tree of folders

A folder may be put under another one, also later, and takes what is below it along. Every store
refuses a parent that is the folder itself or below it. The local and the hosted store look for the
folder above the parent with a recursive query; the adapter goes up from the parent, and comes to
an end only because the tree has no cycle, which the same check has seen to before.

The abstract side is `place`, a tree with one folder put into it. Each store is shown to decide
`Placeable` and to do what `place` does, the recursive query and the walk upwards alike, so that
the stores agree because both agree with the tree. The fuel of the walk is bounded by the number
of folders, which is where the absence of cycles is used.
-/

namespace Marbles

open Forest (Parents)

/-- A folder that can be put into a tree: it has a slug and a name, and no parent or one that is
there and is neither the folder nor below it. -/
def Placeable (tree : Parents String) (folder : Folder) : Prop :=
  trim folder.slug ≠ "" ∧ trim folder.name ≠ "" ∧
    tree.Admits (trim folder.slug) (trimmed folder.parent)

/-- The tree with the folder in its place. -/
def place (tree : Parents String) (folder : Folder) : Parents String :=
  tree.attach (trim folder.slug) (trimmed folder.parent)

theorem Placeable.sound {tree : Parents String} {folder : Folder} (h : Placeable tree folder)
    (hsound : tree.Sound) : (place tree folder).Sound := hsound.attach h.2.2

open Classical in
/-- The tree after a call: the folder is in its place, or nothing has changed. -/
noncomputable def ensured (tree : Parents String) (folder : Folder) : Parents String :=
  if Placeable tree folder then place tree folder else tree

theorem ensured_sound {tree : Parents String} (h : tree.Sound) (folder : Folder) :
    (ensured tree folder).Sound := by
  unfold ensured
  split
  · rename_i hplace
    exact hplace.sound h
  · exact h

/-- A check that passes exactly if `p`, and fails with an error otherwise. -/
def Decides {α : Type} (r : Result α) (p : Prop) : Prop :=
  p ∧ (∃ a, r = .ok a) ∨ ¬ p ∧ ∃ e, r = .error (.fail e)

namespace Decides

variable {α : Type} {r : Result α} {p q : Prop} {a : α}

theorem ok : Decides (.ok a : Result α) True := Or.inl ⟨trivial, a, rfl⟩

theorem congr (h : Decides r p) (hpq : q ↔ p) : Decides r q := by
  rw [hpq]
  exact h

/-- One check before the others. -/
theorem guard {c : Prop} [Decidable c] {e : Error} (h : Decides r p) :
    Decides (if c then Outcome.fail e else r) (¬ c ∧ p) := by
  by_cases hc : c
  · rw [if_pos hc]
    exact Or.inr ⟨fun hall => hall.1 hc, e, rfl⟩
  · rw [if_neg hc]
    exact h.congr (and_iff_right hc)

end Decides

/-- The checks of a parent that are made with queries. -/
theorem decides_parent {tree : Parents String} {slug parent : String} {missing cycle : Prop}
    [Decidable missing] [Decidable cycle] {e₁ e₂ e₃ : Error}
    (hthere : (tree parent).isSome ↔ ¬ missing)
    (habove : Relation.ReflTransGen tree.Up parent slug ↔ cycle) :
    Decides (if parent = slug then Outcome.fail e₁ else if missing then Outcome.fail e₂
      else if cycle then Outcome.fail e₃ else .ok ()) (tree.Admits slug (some parent)) := by
  refine Decides.ok.guard.guard.guard.congr ?_
  rw [Parents.admits_some, hthere, habove, and_true]
  constructor
  · intro h
    refine ⟨fun hself => h.2 (habove.mp (hself ▸ .refl)), h⟩
  · exact And.right

/-! ### The local store -/

namespace Db

/-- The folders that are there, each with its parent. -/
def Tables.folderTree (t : Tables) : Parents String := fun slug =>
  (t.folder.find slug).map (·.parent)

theorem edge_folderEdges (t : Tables) (a b : String) :
    Graph.Edge (folderEdges t) a b ↔ t.folderTree.Up a b := by
  unfold Graph.Edge folderEdges Parents.Up Tables.folderTree
  simp only [List.mem_filterMap, Option.map_eq_some_iff, Prod.mk.injEq]
  constructor
  · rintro ⟨r, hr, p, hp, rfl, rfl⟩
    exact ⟨r.2, Table.mem_rows.mp hr, hp⟩
  · rintro ⟨row, hrow, hp⟩
    exact ⟨(a, row), Table.mem_rows.mpr hrow, b, hp, rfl, rfl⟩

theorem checkFolderParent_decides (t : Tables) (slug : String) (parent : Option String) :
    Decides (checkFolderParent t slug parent) (t.folderTree.Admits slug parent) := by
  cases parent with
  | none => exact Decides.ok.congr t.folderTree.admits_none
  | some parent =>
      have hthere : (t.folderTree parent).isSome ↔ ¬ parent ∉ t.folder.keys := by
        rw [Tables.folderTree, Option.isSome_map, not_not, Table.mem_keys_iff_isSome]
      have hedges : Graph.Edge (folderEdges t) = t.folderTree.Up :=
        funext fun a => funext fun b => propext (edge_folderEdges t a b)
      have habove : Relation.ReflTransGen t.folderTree.Up parent slug ↔
          Graph.reachesBreadthFirst (folderEdges t) parent slug = true := by
        rw [Graph.reachesBreadthFirst_iff, hedges]
      exact decides_parent hthere habove

theorem folderTree_upsert (t : Tables) (slug name : String) (parent : Option String) (now : Int) :
    Tables.folderTree { t with folder := t.folder.upsert slug ⟨name, parent, now⟩ fun row =>
      { row with name := name, parent := parent } } = t.folderTree.attach slug parent := by
  funext k
  unfold Tables.folderTree Parents.attach
  simp only [Table.find_upsert]
  by_cases hk : k = slug
  · subst hk
    cases t.folder.find k <;> simp
  · simp [hk]

/-- A call is accepted exactly if the folder can be placed, and places it. -/
theorem perform_ensureFolder (cfg : Config) (t : Tables) (folder : Folder) (now : Int) :
    (Placeable t.folderTree folder ∧ ∃ t', perform cfg (.ensureFolder folder now) (.new t) =
        (.ok .unit, .new t') ∧ t'.folderTree = place t.folderTree folder) ∨
      ¬ Placeable t.folderTree folder ∧ ∃ e, perform cfg (.ensureFolder folder now) (.new t) =
        (.error (.fail e), .new t) := by
  have hlease : LeaseDefined cfg (.ensureFolder folder now) := trivial
  rw [perform_eq hlease, alone, Tx.map, ensureFolderAlone]
  by_cases hslug : trim folder.slug = ""
  · exact Or.inr ⟨fun h => h.1 hslug, _, by rw [if_pos hslug]; rfl⟩
  rw [if_neg hslug]
  by_cases hname : trim folder.name = ""
  · exact Or.inr ⟨fun h => h.2.1 hname, _, by rw [if_pos hname]; rfl⟩
  rw [if_neg hname, ensureFolderTx]
  rcases checkFolderParent_decides t (trim folder.slug) (trimmed folder.parent) with
    ⟨hadmits, _, hok⟩ | ⟨hnot, e, hfail⟩
  · rw [hok]
    exact Or.inl ⟨⟨hslug, hname, hadmits⟩, _, rfl, folderTree_upsert ..⟩
  · rw [hfail]
    exact Or.inr ⟨fun h => hnot h.2.2, e, rfl⟩

end Db

/-! ### The hosted store -/

namespace Postgres

/-- The folders of a company, each with its parent. -/
def Database.folderTree (db : Database) (company : String) : Parents String := fun slug =>
  (db.folder.find (company, slug)).map (·.parent)

theorem edge_folderEdges (db : Database) (company a b : String) :
    Graph.Edge ((db.folder.select company fun _ row => row.parent.isSome).filterMap fun r =>
      r.2.parent.map fun p => (r.1.2, p)) a b ↔ (db.folderTree company).Up a b := by
  unfold Graph.Edge Parents.Up Database.folderTree Table.select
  simp only [List.mem_filterMap, List.mem_filter, Bool.and_eq_true, decide_eq_true_eq,
    Option.map_eq_some_iff, Prod.mk.injEq]
  constructor
  · rintro ⟨⟨⟨_, _⟩, row⟩, ⟨hr, rfl, -⟩, p, hp, rfl, rfl⟩
    exact ⟨row, Table.mem_scan.mp hr, hp⟩
  · rintro ⟨row, hrow, hp⟩
    exact ⟨((company, a), row), ⟨Table.mem_scan.mpr hrow, rfl, by simp [hp]⟩, b, hp, rfl, rfl⟩

theorem checkFolderParent_decides (db : Database) (company slug : String)
    (parent : Option String) :
    Decides (checkFolderParent company slug parent db)
      ((db.folderTree company).Admits slug parent) := by
  cases parent with
  | none => exact Decides.ok.congr (db.folderTree company).admits_none
  | some parent =>
      have hthere : (db.folderTree company parent).isSome ↔
          ¬ (db.folder.find (company, parent)).isNone := by
        rw [Database.folderTree, Option.isSome_map, Option.isNone_iff_eq_none,
          Option.isSome_iff_ne_none]
      have hedges := funext fun a => funext fun b => propext (edge_folderEdges db company a b)
      have habove : Relation.ReflTransGen (db.folderTree company).Up parent slug ↔
          db.folderReaches company parent slug = true := by
        rw [Database.folderReaches, Graph.reachesBreadthFirst_iff, hedges]
      exact decides_parent hthere habove

theorem ensureFolderTx_eq (db : Database) (company slug name : String) (parent : Option String)
    (now : Int) :
    ensureFolderTx company slug name parent now db =
      (checkFolderParent company slug parent db).map fun _ => ((), { db with
        folder := db.folder.upsert (company, slug) ⟨name, parent, now⟩ fun row =>
          { row with name := name, parent := parent } }) := by
  unfold ensureFolderTx Tenancy.query
  show Except.bind ((checkFolderParent company slug parent db).map _) _ = _
  cases checkFolderParent company slug parent db <;> rfl

theorem folderTree_ensured {db db' : Database} {company slug name : String}
    {parent : Option String} {now : Int}
    (h : db'.folder = db.folder.upsert (company, slug) ⟨name, parent, now⟩ fun row =>
      { row with name := name, parent := parent }) :
    db'.folderTree company = (db.folderTree company).attach slug parent := by
  funext k
  unfold Database.folderTree Parents.attach
  simp only [h, Table.find_upsert]
  by_cases hk : k = slug
  · subst hk
    cases db.folder.find (company, k) <;> simp
  · simp [hk]

/-- A call is accepted exactly if the folder can be placed, and places it. -/
theorem ensureFolder_decides (db : Database) (company : String) (folder : Folder) (now : Int) :
    (Placeable (db.folderTree company) folder ∧ ∃ db' : Database,
        ensureFolder company folder now db = (.ok (), db') ∧
          db'.folderTree company = place (db.folderTree company) folder) ∨
      ¬ Placeable (db.folderTree company) folder ∧
        ∃ e, ensureFolder company folder now db = (.error (.fail e), db) := by
  unfold ensureFolder
  by_cases hslug : trim folder.slug = ""
  · exact Or.inr ⟨fun h => h.1 hslug, _, by rw [if_pos hslug]; rfl⟩
  rw [if_neg hslug]
  by_cases hname : trim folder.name = ""
  · exact Or.inr ⟨fun h => h.2.1 hname, _, by rw [if_pos hname]; rfl⟩
  rw [if_neg hname, Tenancy.transaction]
  unfold Locked.commit
  rw [ensureFolderTx_eq]
  rcases checkFolderParent_decides db company (trim folder.slug) (trimmed folder.parent) with
    ⟨hadmits, _, hok⟩ | ⟨hnot, e, hfail⟩
  · rw [hok]
    exact Or.inl ⟨⟨hslug, hname, hadmits⟩, _, rfl, folderTree_ensured rfl⟩
  · rw [hfail]
    exact Or.inr ⟨fun h => hnot h.2.2, e, rfl⟩

@[simp]
theorem folderTree_ensureFolder (db : Database) (company : String) (folder : Folder) (now : Int) :
    (ensureFolder company folder now db).2.folderTree company =
      ensured (db.folderTree company) folder := by
  unfold ensured
  rcases ensureFolder_decides db company folder now with ⟨hplace, db', hrun, htree⟩ | ⟨hnot, e,
      hrun⟩
  · rw [hrun, if_pos hplace, htree]
  · rw [hrun, if_neg hnot]

/-- The hosted store has the same folders as the others after the same calls. -/
theorem folderTree_calls (db : Database) (company : String) (calls : List (Folder × Int)) :
    (calls.foldl (fun db call => (ensureFolder company call.1 call.2 db).2) db).folderTree company =
      calls.foldl (fun tree call => ensured tree call.1) (db.folderTree company) := by
  induction calls generalizing db with
  | nil => rfl
  | cons call calls ih =>
      rw [List.foldl_cons, ih, folderTree_ensureFolder]
      rfl

theorem sound_calls {db : Database} {company : String} (h : (db.folderTree company).Sound)
    (calls : List (Folder × Int)) :
    ((calls.foldl (fun db call => (ensureFolder company call.1 call.2 db).2) db).folderTree
      company).Sound := by
  rw [folderTree_calls]
  exact List.foldlRecOn calls _ h fun tree htree call _ => ensured_sound htree call.1

end Postgres

/-! ### The adapter -/

namespace Adapter

open Json (Value Object)
open Records (Engine Key)

/-- The folders that are there, each with its parent. -/
def Inner.folderTree (s : Inner) : Parents String := fun slug =>
  (s.doc folderKind [slug]).map fun data => (data.field "parent").asStr

/-- Folders are stored as objects. -/
def Inner.FolderObjects (s : Inner) : Prop :=
  ∀ slug data, s.doc folderKind [slug] = some data → ∃ fields, data = .obj fields

variable {s : Inner}

theorem reads_parentOf (slug : String) : Reads (parentOf slug) s (s.folderTree slug).join := by
  have hread := (Reads.current (s := s) folderKind [slug]).map fun data : Option Value =>
    data.bind fun data => (data.field "parent").asStr
  have hjoin : (s.folderTree slug).join =
      (s.doc folderKind [slug]).bind fun data => (data.field "parent").asStr := by
    unfold Inner.folderTree
    cases s.doc folderKind [slug] <;> rfl
  rw [hjoin]
  exact hread

theorem reads_loadFolder (slug : String) : Reads (loadFolder slug) s (s.doc folderKind [slug]) :=
  .current _ _

/-- As long as the fuel lasts, the walk is the one of the tree. -/
theorem reads_meets {slug : String} {fuel : Nat} {node : Option String} {found : Bool}
    (h : s.folderTree.climb slug fuel node = some found) : Reads
    (meets slug fuel node) s found := by
  induction fuel generalizing node with
  | zero =>
      cases node with
      | none =>
          obtain rfl : false = found := Option.some.inj h
          exact .pure false
      | some node => cases h
  | succ fuel ih =>
      cases node with
      | none =>
          obtain rfl : false = found := Option.some.inj h
          exact .pure false
      | some node =>
          unfold Parents.climb at h
          unfold meets
          split
          · rename_i hnode
            rw [if_pos hnode] at h
            obtain rfl : true = found := Option.some.inj h
            exact .pure true
          · rename_i hnode
            rw [if_neg hnode] at h
            exact (reads_parentOf node).bind (ih h)

/-- There are no more folders than keys. -/
theorem mem_folderSlugs {slug : String} (h : (s.folderTree slug).isSome) :
    slug ∈ (s.engine.keys folderKind).filterMap List.head? := by
  have hkey : [slug] ∈ s.engine.keys folderKind := by
    rw [Engine.mem_keys, ← Option.isSome_iff_exists]
    simpa [Inner.folderTree, Inner.doc] using h
  exact List.mem_filterMap.mpr ⟨[slug], hkey, rfl⟩

theorem checkFolderParent_decides (hsound : s.folderTree.Sound) (slug : String)
    (parent : Option String) :
    ∃ r, runA (checkFolderParent slug parent) s = (r, s) ∧
      Decides r (s.folderTree.Admits slug parent) := by
  cases parent with
  | none => exact ⟨_, rfl, Or.inl ⟨fun _ h => (by cases h), (), rfl⟩⟩
  | some parent =>
      unfold checkFolderParent
      dsimp only
      split
      · rename_i hself
        exact ⟨_, rfl, Or.inr ⟨fun hadmits => (hadmits parent rfl).2 (hself ▸ .refl), _, rfl⟩⟩
      rename_i hother
      rw [runA_bind_reads (reads_loadFolder parent)]
      cases hdoc : s.doc folderKind [parent] with
      | none =>
          refine ⟨_, rfl, Or.inr ⟨fun hadmits => ?_, _, rfl⟩⟩
          have hthere := (hadmits parent rfl).1
          simp [Inner.folderTree, hdoc] at hthere
      | some data =>
          have hthere : (s.folderTree parent).isSome := by simp [Inner.folderTree, hdoc]
          -- the walk starts one folder above the parent
          have hlength := List.length_filterMap_le List.head? (s.engine.keys folderKind)
          obtain ⟨found, hclimb, habove⟩ := hsound.climb (fun a ha => mem_folderSlugs ha) hthere
              slug
            (hlength.trans (Nat.le_add_right _ 2))
          rw [Parents.climb, if_neg hother] at hclimb
          rw [runA_bind_reads (Reads.keys folderKind), runA_bind_reads (reads_parentOf parent),
            runA_bind_reads (reads_meets hclimb)]
          cases found with
          | true =>
              exact ⟨_, rfl, Or.inr ⟨fun hadmits => (hadmits parent rfl).2 (habove.mp rfl), _, rfl⟩⟩
          | false =>
              refine ⟨_, rfl, Or.inl ⟨fun b hb => ?_, (), rfl⟩⟩
              obtain rfl := Option.some.inj hb
              exact ⟨hthere, fun hpath => Bool.false_ne_true (habove.mpr hpath)⟩

/-- The document of a folder that is placed: an object with the parent. -/
theorem object_placed {fields : Object} {slug name : String} {parent : Option String} {now : Int} :
    ∃ fields', setDefault "created_at" (.num now) ((((Value.obj fields).set "slug" (.str slug)).set
      "name" (.str name)).set "parent" (.ofStr? parent)) = .obj fields' ∧
      ((Value.obj fields').field "parent").asStr = parent := by
  have hparent : ∀ fields' : Object, Object.get "parent" fields' = some (.ofStr? parent) →
      ((Value.obj fields').field "parent").asStr = parent := by
    intro fields' hget
    simp [Value.field, hget]
  unfold setDefault
  split
  · exact ⟨_, rfl, hparent _ (by simp [Object.get_insert])⟩
  · exact ⟨_, rfl, hparent _ (by simp [Object.get_insert])⟩

theorem folderTree_put {slug : String} {fields : Object} {parent : Option String}
    (h : ((Value.obj fields).field "parent").asStr = parent) :
    (s.put folderKind [slug] (.obj fields) false).folderTree = s.folderTree.attach slug parent := by
  funext k
  unfold Inner.folderTree Parents.attach
  rw [doc_put]
  by_cases hk : k = slug
  · simp [hk, h]
  · simp [hk]

theorem Inner.FolderObjects.put (hs : s.FolderObjects) (slug : String) (fields : Object) :
    (s.put folderKind [slug] (.obj fields) false).FolderObjects := by
  intro k data hdata
  rw [doc_put] at hdata
  split at hdata
  · exact ⟨fields, (Option.some.inj hdata).symm⟩
  · exact hs k data hdata

theorem ensureFolder_decides (hs : s.FolderObjects) (hsound : s.folderTree.Sound) (folder : Folder)
    (now : Int) :
    (Placeable s.folderTree folder ∧ ∃ s' : Inner, runA (ensureFolder folder now) s = (.ok (), s') ∧
        s'.FolderObjects ∧ s'.folderTree = place s.folderTree folder) ∨
      ¬ Placeable s.folderTree folder ∧
        ∃ e, runA (ensureFolder folder now) s = (.error (.fail e), s) := by
  unfold ensureFolder
  dsimp only
  by_cases hslug : trim folder.slug = ""
  · exact Or.inr ⟨fun h => h.1 hslug, _, by rw [if_pos hslug]; rfl⟩
  rw [if_neg hslug]
  by_cases hname : trim folder.name = ""
  · exact Or.inr ⟨fun h => h.2.1 hname, _, by rw [if_pos hname]; rfl⟩
  rw [if_neg hname]
  obtain ⟨r, hcheck, ⟨hadmits, _, rfl⟩ | ⟨hnot, e, rfl⟩⟩ :=
    checkFolderParent_decides hsound (trim folder.slug) (trimmed folder.parent)
  · rw [runA_bind_ok hcheck, runA_bind_reads (reads_loadFolder _)]
    obtain ⟨fields, hfields⟩ : ∃ fields, (s.doc folderKind [trim folder.slug]).getD
        (.obj [("created_at", .num now), ("name", .str (trim folder.name)), ("parent", .null),
          ("slug", .str (trim folder.slug))]) = .obj fields := by
      cases hdoc : s.doc folderKind [trim folder.slug] with
      | none => exact ⟨_, rfl⟩
      | some data => exact hs _ data hdoc
    obtain ⟨fields', hplaced, hparent⟩ := @object_placed fields (trim folder.slug)
      (trim folder.name) (trimmed folder.parent) now
    rw [hfields, hplaced]
    exact Or.inl ⟨⟨hslug, hname, hadmits⟩, _, runA_append .., hs.put _ _, folderTree_put hparent⟩
  · exact Or.inr ⟨fun h => hnot h.2.2, e, runA_bind_error hcheck⟩

/-- A call is accepted exactly if the folder can be placed, and places it. -/
theorem perform_ensureFolder (cfg : Config) (hs : s.FolderObjects) (hsound : s.folderTree.Sound)
    (folder : Folder) (now : Int) :
    (Placeable s.folderTree folder ∧ ∃ s' : Inner, perform cfg (.ensureFolder folder now) (.new s) =
        (.ok .unit, .new s') ∧ s'.FolderObjects ∧ s'.folderTree = place s.folderTree folder) ∨
      ¬ Placeable s.folderTree folder ∧ ∃ e, perform cfg (.ensureFolder folder now) (.new s) =
        (.error (.fail e), .new s) := by
  have hmethod : runA (method cfg (.ensureFolder folder now)) s =
      ((runA (ensureFolder folder now) s).1.map fun _ => .unit,
          (runA (ensureFolder folder now) s).2) :=
    runA_unit Reply.unit _ s
  rw [perform, Locked.withLock_healthy _ rfl, Locked.new_state, hmethod]
  rcases ensureFolder_decides hs hsound folder now with ⟨hplace, s', hrun, hs'⟩ | ⟨hnot, e, hrun⟩
  · rw [hrun]
    exact Or.inl ⟨hplace, s', rfl, hs'⟩
  · rw [hrun]
    exact Or.inr ⟨hnot, e, rfl⟩

end Adapter

/-! ### The stores agree -/

/-- Two healthy stores with the folders of one tree. -/
structure SameFolders (s : Locked Adapter.Inner) (t : Locked Db.Tables) (tree : Parents String) :
    Prop where
  healthy : s.poisoned = false ∧ t.poisoned = false
  objects : s.state.FolderObjects
  adapter : s.state.folderTree = tree
  tables : t.state.folderTree = tree
  sound : tree.Sound

namespace SameFolders

variable {cfg : Adapter.Config} {s : Locked Adapter.Inner} {t : Locked Db.Tables}
  {tree : Parents String}

/-- Fresh stores have no folders. -/
theorem opened (cfg : Adapter.Config) (storeId : String) :
    SameFolders (Adapter.opened cfg) (Db.opened storeId) fun _ => none := by
  have hother : Adapter.folderKind ≠ Adapter.storeMetaKind := by decide
  have hdoc : ∀ slug, (Adapter.opened cfg).state.doc Adapter.folderKind [slug] = none := fun slug =>
    Records.Engine.current_append_ne fun h => hother h.1
  refine ⟨⟨rfl, rfl⟩, fun slug data hdata => ?_, funext fun slug => ?_, funext fun slug => ?_,
    Parents.sound_empty⟩
  · rw [hdoc] at hdata
    cases hdata
  · rw [Adapter.Inner.folderTree, hdoc]
    rfl
  · simp [Db.opened, Db.Tables.folderTree, Db.Tables.empty]

/-- Both stores accept a call if the folder can be placed, and refuse it otherwise. -/
theorem ensureFolder (h : SameFolders s t tree) (folder : Folder) (now : Int) :
    SameFolders (Adapter.step cfg (.ensureFolder folder now) s)
        (Db.step cfg.toConfig (.ensureFolder folder now) t) (ensured tree folder) ∧
      Decides (Adapter.perform cfg (.ensureFolder folder now) s).1 (Placeable tree folder) ∧
      Decides (Db.perform cfg.toConfig (.ensureFolder folder now) t).1 (Placeable tree folder) := by
  have hs := Locked.eq_new h.healthy.1
  have ht := Locked.eq_new h.healthy.2
  have hadapter :=
    Adapter.perform_ensureFolder cfg h.objects (h.adapter.symm ▸ h.sound) folder now
  have htables := Db.perform_ensureFolder cfg.toConfig t.state folder now
  rw [← hs, h.adapter] at hadapter
  rw [← ht, h.tables] at htables
  unfold ensured Adapter.step Db.step
  by_cases hplace : Placeable tree folder
  · obtain ⟨-, s', hadapter, hobjects, htree⟩ := hadapter.resolve_right fun hnot => hnot.1 hplace
    obtain ⟨-, t', htables, htree'⟩ := htables.resolve_right fun hnot => hnot.1 hplace
    rw [if_pos hplace, hadapter, htables]
    exact ⟨⟨⟨rfl, rfl⟩, hobjects, htree, htree', hplace.sound h.sound⟩,
      Or.inl ⟨hplace, _, rfl⟩, Or.inl ⟨hplace, _, rfl⟩⟩
  · obtain ⟨-, e, hadapter⟩ := hadapter.resolve_left fun hyes => hplace hyes.1
    obtain ⟨-, e', htables⟩ := htables.resolve_left fun hyes => hplace hyes.1
    rw [if_neg hplace, hadapter, htables]
    exact ⟨h, Or.inr ⟨hplace, e, rfl⟩, Or.inr ⟨hplace, e', rfl⟩⟩

/-- A sequence of calls. -/
theorem run (h : SameFolders s t tree) (calls : List (Folder × Int)) :
    SameFolders (Adapter.run cfg (calls.map fun call => .ensureFolder call.1 call.2) s)
      (Db.run cfg.toConfig (calls.map fun call => .ensureFolder call.1 call.2) t)
      (calls.foldl (fun tree call => ensured tree call.1) tree) := by
  induction calls generalizing s t tree with
  | nil => exact h
  | cons call calls ih =>
      have hcalls := ih (@ensureFolder cfg _ _ _ h call.1 call.2).1
      rw [List.map_cons, Adapter.run, Db.run, Machine.run_cons, Machine.run_cons, List.foldl_cons]
      exact hcalls

end SameFolders

/-- After any calls of `ensure_folder` both stores have the same folders: every parent is there and
none is above itself. The next call is accepted by both exactly if its folder can be placed. The
stores look for a cycle in different ways and come to the same answer, as both are asked about a
tree. -/
theorem folders_agree (cfg : Adapter.Config) (storeId : String) (calls : List (Folder × Int)) :
    let ops := calls.map fun call => Op.ensureFolder call.1 call.2
    let s := Adapter.run cfg ops (Adapter.opened cfg)
    let t := Db.run cfg.toConfig ops (Db.opened storeId)
    ∃ tree : Parents String, s.state.folderTree = tree ∧ t.state.folderTree = tree ∧ tree.Sound ∧
      (∀ slug node, (tree node).isSome → ∃ fuel found,
        Adapter.runA (Adapter.meets slug fuel (some node)) s.state = (.ok found, s.state)) ∧
      ∀ folder now,
        Decides (Adapter.perform cfg (.ensureFolder folder now) s).1 (Placeable tree folder) ∧
        Decides (Db.perform cfg.toConfig (.ensureFolder folder now) t).1
          (Placeable tree folder) := by
  intro ops s t
  have h : SameFolders s t _ := (SameFolders.opened cfg storeId).run calls
  refine ⟨_, h.adapter, h.tables, h.sound, fun slug node hnode => ?_, fun folder now =>
    (h.ensureFolder folder now).2⟩
  rw [← h.adapter] at hnode
  obtain ⟨found, hclimb, -⟩ := (h.adapter.symm ▸ h.sound : s.state.folderTree.Sound).climb
    (fun a ha => Adapter.mem_folderSlugs ha) hnode slug le_rfl
  exact ⟨_, found, (Adapter.reads_meets hclimb).eq⟩

end Marbles
