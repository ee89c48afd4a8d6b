import Marbles.Adapter.InStep
import Marbles.Adapter.Keys
import Marbles.Agreement
import Marbles.Federation.Snapshot
import Marbles.Lib.Tally
import Marbles.Postgres.Store

/-!
# Capturing a snapshot

A body is read from a store through its public calls and carries a summary that counts the issues
once by status and once more project by project. The maps are seeded with the known statuses and
projects, and whatever status or project an issue has besides gets an entry when it is met, so the
two counts agree for every list of issues. The edges are flattened and sorted; that none is there
twice is up to the store.

The three stores are read through the contract they share. What is counted is proved about any
list of issues first, and only then about a store; that no edge occurs twice comes from the key of
the edge table, or of the edge documents.
-/

namespace Marbles

open Sorting (sortOn)

/-! ### The summary -/

/-- No issue of any known status yet. -/
def zeroStatuses : Table String Nat :=
  allStatuses.foldl (fun counts status => counts.insert status 0) .empty

/-- `*counts.entry(status).or_insert(0) += 1`. -/
def countStatus (counts : Table String Nat) (status : String) : Table String Nat :=
  counts.upsert status 1 (· + 1)

/-- The counts of all issues and the counts of each project. -/
structure Counts where
  byStatus : Table String Nat
  perProject : Table String (Table String Nat)

/-- Before any issue is counted. -/
def Counts.seeded (projects : List SnapshotProject) : Counts where
  byStatus := zeroStatuses
  perProject := projects.foldl (fun per project =>
    per.upsert project.slug zeroStatuses fun _ => zeroStatuses) .empty

/-- One more issue, in the total and under its status. -/
def Counts.count (c : Counts) (issue : Issue) : Counts where
  byStatus := countStatus c.byStatus issue.status
  perProject := c.perProject.upsert issue.project (countStatus zeroStatuses issue.status)
    (countStatus · issue.status)

/-- The summary is computed from the rows of the body itself, so that it can be checked against
them. -/
def summarize (projects : List SnapshotProject) (folders : List Folder) (issues : List Issue) :
    PortfolioSummary :=
  let counts := issues.foldl Counts.count (.seeded projects)
  { total := issues.length
    byStatus := counts.byStatus.entries
    projects := counts.perProject.entries.map fun p => ⟨p.1, p.2.total id, p.2.entries⟩
    folders := folders.length }

/-! ### The body -/

/-- The calls of a store that a snapshot is read with. -/
structure Source (σ : Type) where
  projects : ExceptT (Fault Error) (StateM σ) (List (String × String × String))
  folderView : ExceptT (Fault Error) (StateM σ) FolderView
  list : Option String → Bool → Option String → ExceptT (Fault Error) (StateM σ) (List Issue)

/-- The edges an issue is reported with. -/
def Issue.edges (issue : Issue) : List SnapshotDependency :=
  issue.dependencies.filterMap fun dep => dep.dependsOnId.map fun dependsOn => ⟨issue.id, dependsOn⟩

/-- Edges are ordered by issue and then by blocker. -/
def SnapshotDependency.key (d : SnapshotDependency) : String ×ₗ String :=
  toLex (d.issueId, d.dependsOn)

/-- `snapshot::capture`. -/
def capture {σ : Type} (store : Source σ) : ExceptT (Fault Error) (StateM σ) SnapshotBody := do
  let projects := (← store.projects).map fun row => (⟨row.1, row.2.1, row.2.2⟩ : SnapshotProject)
  let view ← store.folderView
  let issues := sortOn (·.id) (← store.list none true none)
  let dependencies := sortOn SnapshotDependency.key (issues.flatMap Issue.edges)
  pure ⟨projects, view.folders, view.projects, issues, dependencies,
    summarize projects view.folders issues⟩

namespace Capture

/-- How many issues of a status are counted. -/
def countOf (status : String) (counts : StatusCounts) : Nat := (counts.lookup status).getD 0

/-- A body that agrees with itself and with what is in the store. A body is made of several reads,
so that its parts agree has to be proved. -/
structure Consistent (slugs ids : List String) (body : SnapshotBody) : Prop where
  issues : (body.issues.map (·.id)).Perm ids
  total : body.summary.total = body.issues.length
  statuses : (body.summary.byStatus.map Prod.snd).sum = body.summary.total
  totals : (body.summary.projects.map (·.total)).sum = body.summary.total
  columns : ∀ status, (body.summary.projects.map fun p => countOf status p.byStatus).sum =
    countOf status body.summary.byStatus
  projects : ∀ slug ∈ slugs, slug ∈ body.summary.projects.map (·.project)
  sorted : body.dependencies.Pairwise fun d e => d.key < e.key
  dependencies : ∀ id dependsOn, (⟨id, dependsOn⟩ : SnapshotDependency) ∈ body.dependencies ↔
    ∃ issue ∈ body.issues, issue.id = id ∧ (⟨some dependsOn⟩ : Dependency) ∈ issue.dependencies

/-! ### Counting -/

/-- The row of a status, if there is one. -/
def rowOf (status : String) (counts : Table String Nat) : Nat := (counts.find status).getD 0

@[simp] theorem rowOf_countStatus (status : String) (counts : Table String Nat) (counted : String) :
    rowOf status (countStatus counts counted) =
      rowOf status counts + if status = counted then 1 else 0 := by
  rw [rowOf, rowOf, countStatus, Table.find_upsert]
  split
  · rename_i h
    rw [h]
    cases counts.find counted <;> simp
  · rfl

@[simp] theorem rowOf_zeroStatuses (status : String) : rowOf status zeroStatuses = 0 := by
  have hzero : ∀ r ∈ zeroStatuses.rows, r.2 = 0 := by decide
  rw [rowOf]
  cases h : zeroStatuses.find status with
  | none => rfl
  | some n => exact hzero _ (Table.mem_rows.mpr h)

@[simp] theorem total_countStatus (counts : Table String Nat) (status : String) :
    (countStatus counts status).total id = counts.total id + 1 := Table.total_upsert rfl fun _ =>
      rfl

/-- What every issue adds to the counts of its project, the counts of all projects gain. -/
theorem total_perProject {w : Table String Nat → Nat} {c : Counts} {issue : Issue} {d : Nat}
    (hzero : w zeroStatuses = 0)
    (hw : ∀ counts, w (countStatus counts issue.status) = w counts + d) :
    (c.count issue).perProject.total w = c.perProject.total w + d :=
  Table.total_upsert (by rw [hw, hzero, Nat.zero_add]) hw

/-- The counts of `n` issues. -/
structure Tallied (n : Nat) (c : Counts) : Prop where
  statuses : c.byStatus.total id = n
  totals : c.perProject.total (·.total id) = n
  columns : ∀ status, c.perProject.total (rowOf status) = rowOf status c.byStatus

theorem find_zeros {per : Table String (Table String Nat)}
    (hper : ∀ slug counts, per.find slug = some counts → counts = zeroStatuses)
    (projects : List SnapshotProject) (slug : String) (counts : Table String Nat)
    (h : (projects.foldl (fun per project =>
      per.upsert project.slug zeroStatuses fun _ => zeroStatuses) per).find slug = some counts) :
    counts = zeroStatuses := by
  induction projects generalizing per with
  | nil => exact hper slug counts h
  | cons project projects ih =>
      refine ih (fun slug counts hfound => ?_) h
      rw [Table.find_upsert] at hfound
      split at hfound
      · cases hold : per.find project.slug with
        | none =>
            rw [hold] at hfound
            exact (Option.some.inj hfound).symm
        | some old =>
            rw [hold] at hfound
            exact (Option.some.inj hfound).symm
      · exact hper slug counts hfound

theorem find_seeded {projects : List SnapshotProject} {slug : String} {counts : Table String Nat}
    (h : (Counts.seeded projects).perProject.find slug = some counts) : counts = zeroStatuses :=
  find_zeros (fun _ _ hempty => by cases hempty) projects slug counts h

theorem tallied_seeded (projects : List SnapshotProject) : Tallied 0 (.seeded projects) where
  statuses := rfl
  totals := Table.total_eq_zero fun _ _ h => by rw [find_seeded h]; rfl
  columns := fun status => by
    rw [Counts.seeded, rowOf_zeroStatuses]
    exact Table.total_eq_zero fun _ _ h => by rw [find_seeded h, rowOf_zeroStatuses]

theorem Tallied.count {n : Nat} {c : Counts} (h : Tallied n c) (issue : Issue) :
    Tallied (n + 1) (c.count issue) where
  statuses := (total_countStatus c.byStatus issue.status).trans (by rw [h.statuses])
  totals := by
    rw [total_perProject rfl fun counts => total_countStatus counts issue.status, h.totals]
  columns := fun status => by
    rw [total_perProject (rowOf_zeroStatuses status) fun counts =>
      rowOf_countStatus status counts issue.status, h.columns]
    exact (rowOf_countStatus ..).symm

theorem Tallied.foldl {n : Nat} {c : Counts} (h : Tallied n c) (issues : List Issue) :
    Tallied (n + issues.length) (issues.foldl Counts.count c) := by
  induction issues generalizing n c with
  | nil => exact h
  | cons issue issues ih =>
      rw [List.foldl_cons, List.length_cons, Nat.add_comm issues.length, ← Nat.add_assoc]
      exact ih (h.count issue)

/-- A project that has counts keeps them. -/
theorem mem_keys_foldl {c : Counts} {slug : String} (issues : List Issue)
    (h : slug ∈ c.perProject.keys) : slug ∈ (issues.foldl Counts.count c).perProject.keys := by
  induction issues generalizing c with
  | nil => exact h
  | cons issue issues ih => exact ih (Table.mem_keys_upsert.mpr (Or.inr h))

theorem mem_keys_seeded {projects : List SnapshotProject} {project : SnapshotProject}
    (h : project ∈ projects) : project.slug ∈ (Counts.seeded projects).perProject.keys := by
  have hseeded : ∀ per : Table String (Table String Nat),
      project.slug ∈ per.keys ∨ project ∈ projects →
      project.slug ∈ (projects.foldl (fun per project =>
        per.upsert project.slug zeroStatuses fun _ => zeroStatuses) per).keys := by
    clear h
    induction projects with
    | nil => exact fun per hper => hper.resolve_right List.not_mem_nil
    | cons head projects ih =>
        intro per hper
        refine ih _ ?_
        rw [Table.mem_keys_upsert]
        rcases hper with hper | hmem
        · exact Or.inl (Or.inr hper)
        · rcases List.mem_cons.mp hmem with heq | hmem
          · exact Or.inl (Or.inl (congrArg SnapshotProject.slug heq))
          · exact Or.inr hmem
  exact hseeded .empty (Or.inr h)

/-! ### Edges -/

theorem SnapshotDependency.key_injective : Function.Injective SnapshotDependency.key := by
  intro d e h
  obtain ⟨hid, hdep⟩ := Prod.mk.inj (toLex_inj.mp h)
  cases d
  cases e
  exact congrArg₂ _ hid hdep

@[simp] theorem mem_edges {issue : Issue} {id dependsOn : String} :
    (⟨id, dependsOn⟩ : SnapshotDependency) ∈ issue.edges ↔
      issue.id = id ∧ (⟨some dependsOn⟩ : Dependency) ∈ issue.dependencies := by
  rw [Issue.edges, List.mem_filterMap]
  constructor
  · intro ⟨dep, hdep, hedge⟩
    obtain ⟨parent, hparent, hedge⟩ := Option.map_eq_some_iff.mp hedge
    obtain ⟨hid, rfl⟩ := SnapshotDependency.mk.inj hedge
    cases dep
    cases hparent
    exact ⟨hid, hdep⟩
  · intro ⟨hid, hdep⟩
    exact ⟨_, hdep, by rw [← hid]; rfl⟩

/-- An issue that waits on nothing twice has no edge twice. -/
theorem nodup_edges {issue : Issue} (h : issue.dependencies.Nodup) : issue.edges.Nodup := by
  refine h.filterMap fun dep dep' edge hdep hdep' => ?_
  obtain ⟨parent, hparent, rfl⟩ := Option.map_eq_some_iff.mp hdep
  obtain ⟨parent', hparent', heq⟩ := Option.map_eq_some_iff.mp hdep'
  cases dep
  cases dep'
  cases hparent
  cases hparent'
  rw [(SnapshotDependency.mk.inj heq).2]

theorem nodup_allEdges {issues : List Issue} (hids : (issues.map (·.id)).Nodup)
    (hdeps : ∀ issue ∈ issues, issue.dependencies.Nodup) : (issues.flatMap Issue.edges).Nodup := by
  refine List.nodup_flatMap.mpr ⟨fun issue h => nodup_edges (hdeps issue h), ?_⟩
  refine (List.pairwise_map.mp hids).imp fun hne edge h h' => hne ?_
  cases edge
  exact (mem_edges.mp h).1.trans (mem_edges.mp h').1.symm

/-! ### What is captured -/

/-- The body made from what a store returned. -/
def bodyOf (rows : List (String × String × String)) (view : FolderView) (listed : List Issue) :
    SnapshotBody :=
  let projects := rows.map fun row => (⟨row.1, row.2.1, row.2.2⟩ : SnapshotProject)
  let issues := sortOn (·.id) listed
  ⟨projects, view.folders, view.projects, issues,
    sortOn SnapshotDependency.key (issues.flatMap Issue.edges),
    summarize projects view.folders issues⟩

theorem consistent_bodyOf {rows : List (String × String × String)} {view : FolderView}
    {listed : List Issue} {slugs ids : List String} (hslugs : (rows.map (·.1)).Perm slugs)
    (hids : (listed.map (·.id)).Perm ids) (hnodup : ids.Nodup)
    (hdeps : ∀ issue ∈ listed, issue.dependencies.Nodup) :
    Consistent slugs ids (bodyOf rows view listed) := by
  have hperm := Sorting.perm_sortOn (·.id) listed
  generalize hissues : sortOn (fun issue : Issue => issue.id) listed = issues at hperm
  generalize hprojects : rows.map (fun row => (⟨row.1, row.2.1, row.2.2⟩ : SnapshotProject)) =
    projects
  have hbody : bodyOf rows view listed = ⟨projects, view.folders, view.projects, issues,
      sortOn SnapshotDependency.key (issues.flatMap Issue.edges),
      summarize projects view.folders issues⟩ := by
    rw [bodyOf, hissues, hprojects]
  have htallied := (tallied_seeded projects).foldl issues
  rw [Nat.zero_add] at htallied
  rw [hbody]
  -- The issues are sorted by id and counted in one fold over all of them; sorting permutes, so the
  -- counts are those of the listing.
  constructor
  · exact (hperm.map _).trans hids
  · rfl
  · exact (Table.sum_entries id _).trans htallied.statuses
  · show (List.map _ (List.map _ _)).sum = _
    rw [List.map_map]
    exact (Table.sum_entries (Table.total id) _).trans htallied.totals
  · intro status
    show (List.map _ (List.map _ _)).sum = _
    rw [List.map_map, countOf, PortfolioSummary.byStatus, summarize, Table.lookup_entries]
    rw [← rowOf, ← htallied.columns, ← Table.sum_entries]
    refine congrArg List.sum (List.map_congr_left fun p _ => ?_)
    show countOf status p.2.entries = rowOf status p.2
    rw [countOf, Table.lookup_entries, rowOf]
  · intro slug hslug
    obtain ⟨row, hrow, rfl⟩ := List.mem_map.mp (hslugs.mem_iff.mpr hslug)
    have hproject : (⟨row.1, row.2.1, row.2.2⟩ : SnapshotProject) ∈ projects :=
      hprojects ▸ List.mem_map_of_mem hrow
    have hkey := mem_keys_foldl issues (mem_keys_seeded hproject)
    show row.1 ∈ List.map _ (List.map _ _)
    rw [List.map_map]
    exact ((Table.entries_perm _).map Prod.fst).mem_iff.mpr hkey
  · have hall : (issues.flatMap Issue.edges).Nodup := by
      refine nodup_allEdges ?_ fun issue h => hdeps issue (hperm.mem_iff.mp h)
      exact ((hperm.map _).trans hids).nodup_iff.mpr hnodup
    exact List.pairwise_map.mp
      (Sorting.pairwise_sortOn_lt (hall.map SnapshotDependency.key_injective))
  · intro id dependsOn
    show _ ∈ sortOn _ _ ↔ _
    simp only [Sorting.mem_sortOn, List.mem_flatMap, mem_edges]

/-! ### Stores -/

/-- What a store returns when a snapshot reads it: all its projects and all its issues, none of
which waits on another twice. -/
structure Serves {σ : Type} (store : Source σ) (s : σ) (slugs ids : List String) : Prop where
  projects : ∀ rows s', store.projects.run s = (.ok rows, s') →
    s' = s ∧ (rows.map (·.1)).Perm slugs
  folderView : ∀ view s', store.folderView.run s = (.ok view, s') → s' = s
  list : ∀ listed s', (store.list none true none).run s = (.ok listed, s') →
    s' = s ∧ (listed.map (·.id)).Perm ids ∧ ∀ issue ∈ listed, issue.dependencies.Nodup
  nodup : ids.Nodup

/-- A step of a program that returned. -/
theorem bind_run {σ α β : Type} {m : ExceptT (Fault Error) (StateM σ) α}
    {f : α → ExceptT (Fault Error) (StateM σ) β} {s s' : σ} {b : β}
    (h : (m >>= f).run s = (.ok b, s')) :
    ∃ a t, m.run s = (.ok a, t) ∧ (f a).run t = (.ok b, s') := by
  change (match m.run s with | (r, t) => ExceptT.bindCont f r t) = _ at h
  cases hm : m.run s with
  | mk r t =>
      rw [hm] at h
      cases r with
      | ok a => exact ⟨a, t, rfl, h⟩
      | error e => cases h

theorem Serves.capture {σ : Type} {store : Source σ} {s s' : σ} {slugs ids : List String}
    (h : Serves store s slugs ids) {body : SnapshotBody}
    (hrun : (capture store).run s = (.ok body, s')) : s' = s ∧ Consistent slugs ids body := by
  obtain ⟨rows, t, hrows, hview⟩ := bind_run (m := store.projects) hrun
  obtain ⟨ht, hslugs⟩ := h.projects rows t hrows
  rw [ht] at hview
  obtain ⟨view, u, hview, hlist⟩ := bind_run (m := store.folderView) hview
  rw [h.folderView view u hview] at hlist
  obtain ⟨listed, v, hlisted, hbody⟩ := bind_run (m := store.list none true none) hlist
  obtain ⟨hv, hids, hdeps⟩ := h.list listed v hlisted
  have hreturn : (Except.ok (bodyOf rows view listed), v) = (Except.ok body, s') := hbody
  cases hreturn
  exact ⟨hv, consistent_bodyOf hslugs hids h.nodup hdeps⟩

/-- What a call under the lock returned, and how it left the state. -/
theorem withLock_ok {σ α : Type} {f : σ → Result α × σ} {l l' : Locked σ} {a : α}
    (h : Locked.withLock f l = (.ok a, l')) : ∃ s, f l.state = (.ok a, s) ∧
    l' = ⟨s, l.poisoned⟩ := by
  cases hl : l.poisoned with
  | true =>
      rw [Locked.withLock_poisoned f hl] at h
      cases h
  | false =>
      rw [Locked.withLock_healthy f hl] at h
      cases hf : f l.state with
      | mk r s =>
          rw [hf] at h
          cases r with
          | ok b =>
              cases h
              exact ⟨s, rfl, rfl⟩
          | error e => cases e <;> cases h

theorem query_ok {σ α : Type} {f : σ → Result α} {l l' : Locked σ} {a : α}
    (h : Locked.query f l = (.ok a, l')) : f l.state = .ok a ∧ l' = l := by
  obtain ⟨s, hs, rfl⟩ := withLock_ok h
  obtain ⟨hf, rfl⟩ := Prod.mk.inj hs
  exact ⟨hf, rfl⟩

end Capture

/-! #### The local store -/

namespace Db

open Capture (Serves)

def source (cfg : Config) : Source (Locked Tables) where
  projects := Scope.exec cfg .projects
  folderView := Scope.exec cfg .folderView
  list project all onlyId := Scope.exec cfg (.list project all onlyId)

theorem nodup_dependsOn (t : Tables) (id : String) : (t.dependsOn id).Nodup := by
  refine Sorting.nodup_sortOn.mpr ?_
  refine (t.dep.keys_nodup.filter _).map_on fun e he e' he' heq => ?_
  have hid := of_decide_eq_true (List.mem_filter.mp he).2
  have hid' := of_decide_eq_true (List.mem_filter.mp he').2
  exact Prod.ext (hid.trans hid'.symm) heq

theorem serves (cfg : Config) (s : Locked Tables) :
    Serves (source cfg) s s.state.project.keys s.state.issue.keys where
  -- The queries leave the store as it is and list each key once.
  projects := fun rows s' h => by
    have hquery : Locked.query (fun t => .ok (projectsQuery t)) s = (.ok rows, s') := h
    obtain ⟨hrows, hsame⟩ := Capture.query_ok hquery
    cases hrows
    have hperm := Sorting.perm_sortOn (fun p : String × String × String => p.1)
      (s.state.project.rows.map fun r => (r.1, r.2.root, r.2.idPrefix))
    have hkeys := hperm.map fun p => p.1
    rw [List.map_map] at hkeys
    exact ⟨hsame, hkeys⟩
  folderView := fun view s' h => by
    have hquery : Locked.query (fun t => .ok (folderViewQuery t)) s = (.ok view, s') := h
    exact (Capture.query_ok hquery).2
  list := fun listed s' h => by
    have hquery : Locked.query (fun t => .ok (listQuery none true none t)) s = (.ok listed, s') := h
    obtain ⟨hlisted, hsame⟩ := Capture.query_ok hquery
    cases hlisted
    refine ⟨hsame, (List.perm_ext_iff_of_nodup ?_ s.state.issue.keys_nodup).mpr fun id => ?_,
      fun issue hissue => ?_⟩
    · rw [Plan.listQuery_all, List.map_map]
      exact nodup_select ..
    · rw [List.mem_map, Table.mem_keys]
      constructor
      · intro ⟨issue, hissue, hid⟩
        obtain ⟨row, hrow, -⟩ := Plan.mem_listQuery_all.mp hissue
        exact ⟨row, hid ▸ hrow⟩
      · intro ⟨row, hrow⟩
        exact ⟨s.state.view id row, Plan.mem_listQuery_all.mpr ⟨row, hrow, rfl⟩, rfl⟩
    · obtain ⟨row, -, hview⟩ := Plan.mem_listQuery_all.mp hissue
      rw [← hview]
      exact (nodup_dependsOn s.state _).map fun a b hab => Option.some.inj (Dependency.mk.inj hab)
  nodup := s.state.issue.keys_nodup

end Db

/-! #### The adapter -/

namespace Adapter

open Capture (Serves)
open Records (Engine Key)

def source : Source (Locked Inner) where
  projects := Locked.withLock (runA projects)
  folderView := Locked.withLock (runA folderView)
  list project all onlyId := Locked.withLock (runA (list project all onlyId))

/-- The first parts of the keys of a type. -/
def Inner.names (s : Inner) (name : String) : List String :=
  (s.engine.keys name).filterMap List.head?

variable {s : Inner}

theorem KeyedState.single (hs : KeyedState s) {name : String} (hname : (keyColumns name).length = 1)
    {key : Key} (hkey : key ∈ s.engine.keys name) : ∃ part, key = [part] := by
  obtain ⟨data, hdata⟩ := Engine.mem_keys.mp hkey
  exact List.length_eq_one_iff.mp ((hs name key (by rw [hdata]; rfl)).trans hname)

theorem KeyedState.nodup_names (hs : KeyedState s) {name : String}
    (hname : (keyColumns name).length = 1) : (s.names name).Nodup := by
  refine List.Nodup.of_map (fun part => [part]) ?_
  refine (Engine.nodup_keys s.engine name).sublist
    (map_filterMap_sublist fun key hkey part hpart => ?_)
  obtain ⟨first, rfl⟩ := hs.single hname hkey
  exact congrArg (fun part => [part]) (Option.some.inj hpart).symm

theorem KeyedState.nodup_edges (hs : KeyedState s) : s.edges.Nodup := by
  refine List.Nodup.of_map (fun edge => [edge.1, edge.2]) ?_
  refine (Engine.nodup_keys s.engine dependencyKind).sublist
    (map_filterMap_sublist fun key hkey edge h => ?_)
  obtain ⟨data, hdata⟩ := Engine.mem_keys.mp hkey
  have hlength : key.length = 2 := hs dependencyKind key (by rw [hdata]; rfl)
  obtain ⟨child, parent, rfl⟩ := List.length_eq_two.mp hlength
  obtain rfl := Option.some.inj h
  rfl

theorem KeyedState.nodup_parents (hs : KeyedState s) (id : String) : (s.parents id).Nodup := by
  refine (hs.nodup_edges.filter _).map_on fun e he e' he' heq => ?_
  have hid := of_decide_eq_true (List.mem_filter.mp he).2
  have hid' := of_decide_eq_true (List.mem_filter.mp he').2
  exact Prod.ext (hid.trans hid'.symm) heq

/-- What is read under whole keys has the first parts of the keys for names. -/
theorem KeyedState.map_names (hs : KeyedState s) {α : Type} {name : String} {read : Key → Option α}
    {nameOf : α → String} (hname : (keyColumns name).length = 1)
    (hread : ∀ part, (s.doc name [part]).isSome = true →
      (read [part]).map nameOf = some part) :
    ((s.engine.keys name).filterMap read).map nameOf = s.names name := by
  rw [List.map_filterMap]
  refine List.filterMap_congr fun key hkey => ?_
  obtain ⟨data, hdata⟩ := Engine.mem_keys.mp hkey
  obtain ⟨part, rfl⟩ := hs.single hname hkey
  have hdoc : (s.doc name [part]).isSome = true := by
    rw [Inner.doc, hdata]
    rfl
  exact hread part hdoc

theorem runA_ok {α : Type} {m : AdapterM α} {a b : α} {l l' : Locked Inner}
    (hm : Reads m l.state a) (h : Locked.withLock (runA m) l = (.ok b, l')) : b = a ∧ l' = l := by
  obtain ⟨t, ht, rfl⟩ := Capture.withLock_ok h
  obtain ⟨hb, rfl⟩ := Prod.mk.inj (hm.eq.symm.trans ht)
  exact ⟨(Except.ok.inj hb).symm, rfl⟩

theorem serves {l : Locked Inner} (hl : KeyedState l.state) :
    Serves source l (l.state.names projectKind) (l.state.names issueKind) where
  projects := fun rows l' h => by
    obtain ⟨rfl, hsame⟩ := runA_ok reads_projects h
    refine ⟨hsame, ((Sorting.perm_sortOn _ _).map _).trans
      (.of_eq (hl.map_names rfl fun slug h => ?_))⟩
    obtain ⟨data, hdata⟩ := Option.isSome_iff_exists.mp h
    rw [Inner.projectRow, List.head?_cons, Option.bind_some, hdata]
    rfl
  folderView := fun view l' h => by
    exact (runA_ok reads_folderView h).2
  list := fun listed l' h => by
    obtain ⟨rfl, hsame⟩ := runA_ok (reads_list none true none) h
    have hall : l.state.allIssues.filter (fun issue => (true || issue.status ≠ "closed") &&
        Db.matchesScope none issue.project && Db.matchesScope none issue.id) = l.state.allIssues :=
      List.filter_eq_self.mpr fun _ _ => rfl
    rw [hall]
    have hperm := Sorting.perm_sortOn (fun issue : Issue =>
      listKey issue.priority issue.createdAt issue.id) l.state.allIssues
    refine ⟨hsame, (hperm.map _).trans (.of_eq (hl.map_names rfl fun id h => ?_)),
      fun issue h => ?_⟩
    · obtain ⟨data, hdata⟩ := Option.isSome_iff_exists.mp h
      rw [List.head?_cons, Option.bind_some, Inner.rowToIssue, hdata]
      rfl
    · obtain ⟨key, -, hread⟩ := List.mem_filterMap.mp (hperm.mem_iff.mp h)
      obtain ⟨id, -, hread⟩ := Option.bind_eq_some_iff.mp hread
      obtain ⟨data, -, rfl⟩ := Option.map_eq_some_iff.mp hread
      have hparents : (sortOn (fun p => p) (l.state.parents id)).Nodup :=
        Sorting.nodup_sortOn.mpr (hl.nodup_parents id)
      exact hparents.map fun a b hab => Option.some.inj (Dependency.mk.inj hab)
  nodup := hl.nodup_names rfl

end Adapter

/-! #### The hosted store -/

namespace Postgres

open Capture (Serves)

variable (server : Server) (company : String) (db : Database)

def source : Source Database where
  projects := withClient fun db => .ok (projectsQuery server company db)
  folderView := withClient fun db => .ok (folderViewQuery server company db)
  list project all onlyId := withClient (listQuery server company project all onlyId)

/-- The names of a company's rows. -/
def names {ν : Type} (t : Table (String × String) ν) (company : String) : List String :=
  (t.select company fun _ _ => true).map fun r => r.1.2

/-- The rows of a company have different keys. -/
theorem nodup_select {κ : Type} [LinearOrder κ] {ν : Type} (t : Table (String × κ) ν)
    (p : String × κ → ν → Bool) : ((t.select company p).map fun r => r.1.2).Nodup := by
  have hscan : (t.scan.map Prod.fst).Nodup :=
    ((Sorting.perm_sortOn _ _).map Prod.fst).nodup_iff.mpr t.nodup
  have hselect : ((t.select company p).map Prod.fst).Nodup :=
    hscan.sublist (List.filter_sublist.map Prod.fst)
  have hkeys : (t.select company p).map Prod.fst =
      ((t.select company p).map fun r => r.1.2).map (company, ·) := by
    rw [List.map_map]
    refine List.map_congr_left fun r hr => ?_
    have hcompany := (List.mem_filter.mp hr).2
    simp only [Bool.and_eq_true, decide_eq_true_eq] at hcompany
    exact Prod.ext hcompany.1 rfl
  rw [hkeys] at hselect
  exact hselect.of_map _

theorem nodup_dependsOn (id : String) : (db.dependsOn server company id).Nodup := by
  have hrows := nodup_select company db.dep fun k _ => k.2.issueId = id
  refine Sorting.nodup_sortOn.mpr ?_
  have hkeys : (db.dep.select company fun k _ => k.2.issueId = id).map (fun r => r.1.2) =
      ((db.dep.select company fun k _ => k.2.issueId = id).map fun r => r.1.2.dependsOn).map
        (depKey id) := by
    rw [List.map_map]
    refine List.map_congr_left fun r hr => ?_
    have hid : r.1.2.issueId = id := by
      have hsel := (List.mem_filter.mp hr).2
      simp only [Bool.and_eq_true, decide_eq_true_eq] at hsel
      exact hsel.2
    rw [← hid]
    rfl
  rw [hkeys] at hrows
  exact hrows.of_map _

theorem withClient_ok {α : Type} {q : Database → Result α} {a : α} {db db' : Database}
    (h : (withClient q).run db = (.ok a, db')) : q db = .ok a ∧ db' = db := by
  change Locked.commit (fun db => (q db).map fun a => (a, db)) db = _ at h
  unfold Locked.commit at h
  beta_reduce at h
  cases hq : q db with
  | ok b =>
      rw [hq] at h
      cases h
      exact ⟨rfl, rfl⟩
  | error e =>
      rw [hq] at h
      cases h

/-- What is read of an issue that is there. -/
theorem getIssue_ok {id : String} {issue : Issue} (h : db.getIssue server company id = .ok issue) :
    issue.id = id ∧ issue.dependencies = (db.dependsOn server company id).map fun p =>
    ⟨some p⟩ := by
  obtain ⟨found, hfound, hissue⟩ := Outcome.bind_eq_ok.mp h
  rw [Outcome.ofOption_eq_ok.mp hissue, Database.rowToIssue] at hfound
  cases hrow : db.issueRow company id with
  | none =>
      rw [hrow] at hfound
      cases hfound
  | some row =>
      rw [hrow] at hfound
      obtain ⟨labels, -, hfound⟩ := Outcome.bind_eq_ok.mp hfound
      obtain ⟨metadata, -, hfound⟩ := Outcome.bind_eq_ok.mp hfound
      obtain ⟨evidence, -, hfound⟩ := Outcome.bind_eq_ok.mp hfound
      cases hfound
      exact ⟨rfl, rfl⟩

/-- What is read of a list of issues. -/
theorem mapM_getIssue_ok {ids : List String} {issues : List Issue}
    (h : ids.mapM (fun id => db.getIssue server company id) = .ok issues) :
    issues.map (·.id) = ids ∧ ∀ issue ∈ issues, issue.dependencies.Nodup := by
  induction ids generalizing issues with
  | nil =>
      cases h
      exact ⟨rfl, fun _ hissue => absurd hissue List.not_mem_nil⟩
  | cons id ids ih =>
      rw [List.mapM_cons] at h
      obtain ⟨issue, hissue, h⟩ := Outcome.bind_eq_ok.mp h
      obtain ⟨rest, hrest, h⟩ := Outcome.bind_eq_ok.mp h
      cases h
      obtain ⟨hids, hdeps⟩ := ih hrest
      obtain ⟨hid, hdep⟩ := getIssue_ok server company db hissue
      refine ⟨by rw [List.map_cons, hid, hids], fun other hother => ?_⟩
      rcases List.mem_cons.mp hother with rfl | hother
      · rw [hdep]
        exact (nodup_dependsOn server company db id).map fun a b hab =>
          Option.some.inj (Dependency.mk.inj hab)
      · exact hdeps other hother

theorem serves : Serves (source server company) db (names db.project company)
    (names db.issue company) where
  projects := fun rows db' h => by
    obtain ⟨hrows, hsame⟩ := withClient_ok (q := fun db => .ok (projectsQuery server company db)) h
    cases hrows
    have hperm := Sorting.perm_sortOn (fun r : (String × String) × Db.ProjectRow =>
      server.textOrder r.1.2) (db.project.select company fun _ _ => true)
    refine ⟨hsame, ?_⟩
    rw [projectsQuery, List.map_map]
    exact hperm.map _
  folderView := fun view db' h =>
    (withClient_ok (q := fun db => .ok (folderViewQuery server company db)) h).2
  list := fun listed db' h => by
    obtain ⟨hlisted, hsame⟩ := withClient_ok (q := listQuery server company none true none) h
    obtain ⟨hids, hdeps⟩ := mapM_getIssue_ok server company db hlisted
    rw [hids]
    exact ⟨hsame, (Sorting.perm_sortOn _ _).map _, hdeps⟩
  nodup := nodup_select company db.issue _

end Postgres

/-- A captured snapshot agrees with itself and with the store it was read from. The store is read in
several calls, with nobody else writing in between. -/
theorem capture_consistent (cfg : Adapter.Config) :
    (∀ s, Db.Reachable cfg.toConfig s → ∀ body s',
      (capture (Db.source cfg.toConfig)).run s = (.ok body, s') →
      Capture.Consistent s.state.project.keys s.state.issue.keys body) ∧
    (∀ s, Adapter.Reachable cfg s → ∀ body s',
      (capture Adapter.source).run s = (.ok body, s') →
      Capture.Consistent (s.state.names Adapter.projectKind)
      (s.state.names Adapter.issueKind) body) ∧
    ∀ server company db body db',
      (capture (Postgres.source server company)).run db = (.ok body, db') →
      Capture.Consistent (Postgres.names db.project company) (Postgres.names db.issue company)
        body :=
  ⟨fun s _ _ _ hrun => ((Db.serves cfg.toConfig s).capture hrun).2,
    fun _ hs _ _ hrun => ((Adapter.serves hs.keyed).capture hrun).2,
    fun server company db _ _ hrun => ((Postgres.serves server company db).capture hrun).2⟩

/-- Two issues, one waiting on the other. -/
def waitingIssues : List Op := [.ensureProject "p" "/p" "p" 0,
  .create { id := some "x", project := some "p" } [] 0,
  .create { id := some "y", project := some "p" } [] 0, .addDep "x" "y" "a" 1]

def noRows : Postgres.Database := ⟨.empty, .empty, .empty, .empty, .empty, .empty, .empty⟩

theorem capture_consistent_waiting :
    (∃ body s', (capture (Db.source {})).run
        (Db.Action.run {} (waitingIssues.map .op) (Db.opened "s")) = (.ok body, s') ∧
      body.dependencies = [⟨"x", "y"⟩] ∧ Capture.Consistent ["p"] ["x", "y"] body) ∧
    (∃ body s', (capture Adapter.source).run (Machine.run (Adapter.Action.step {})
        (waitingIssues.map .op) (Adapter.opened {})) = (.ok body, s') ∧
      body.dependencies = [⟨"x", "y"⟩] ∧ Capture.Consistent ["p"] ["x", "y"] body) ∧
    ∃ body db', (capture (Postgres.source {} "c")).run noRows = (.ok body, db') ∧
      Capture.Consistent [] [] body := by
  obtain ⟨body, s', hrun, hdeps⟩ : ∃ body s', (capture (Db.source {})).run
      (Db.Action.run {} (waitingIssues.map .op) (Db.opened "s")) = (.ok body, s') ∧
      body.dependencies = [⟨"x", "y"⟩] := ⟨_, _, rfl, rfl⟩
  obtain ⟨body', t', hrun', hdeps'⟩ : ∃ body s', (capture Adapter.source).run
      (Machine.run (Adapter.Action.step {}) (waitingIssues.map .op) (Adapter.opened {})) =
        (.ok body, s') ∧ body.dependencies = [⟨"x", "y"⟩] := ⟨_, _, rfl, rfl⟩
  obtain ⟨body'', db', hrun''⟩ : ∃ body db', (capture (Postgres.source {} "c")).run noRows =
      (.ok body, db') := ⟨_, _, rfl⟩
  exact ⟨⟨body, s', hrun, hdeps,
      (capture_consistent {}).1 _ ⟨"s", waitingIssues.map .op, rfl⟩ body s' hrun⟩,
    ⟨body', t', hrun', hdeps',
      (capture_consistent {}).2.1 _ ⟨waitingIssues.map .op, rfl⟩ body' t' hrun'⟩,
    body'', db', hrun'', (capture_consistent {}).2.2 {} "c" noRows body'' db' hrun''⟩

end Marbles
