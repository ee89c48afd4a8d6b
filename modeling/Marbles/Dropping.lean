import Marbles.Adapter.Mirror
import Marbles.Adapter.Parity

/-!
# Dropping a project on both stores

The local store deletes a project with what mentions it, and the filing of the project goes with the
row (`ON DELETE CASCADE`). The adapter tombstones the documents by hand, type by type, and leaves
the filing: a project that is registered again under the slug is filed where the old one was.

Stores that mirror each other list the same. They keep mirroring each other through every run in
which no project is dropped that is filed and no edge is added twice.

Between two stores with rows and documents of different shapes the mirror of `Twin` is the
relation that is kept. Here it is carried through the calls that remove things, and the calls that
break it are shown to be needed: each of them is followed by a listing that differs.
-/

namespace Marbles.Adapter

open Json (Value)
open Records (Engine Key)
open Sorting (sortOn)
open Db (Tables IssueRow)

namespace Mirror

variable {cfg : Config} {s : Inner} {t : Tables}

/-! ### What is listed -/

theorem textOf_eq {key text : String} {data : Value} (h : data.get key = some (.str text)) :
    textOf key data = text := by
  rw [textOf, Value.field_eq, h]
  rfl

theorem mem_live (n : String) (key : Key) : key ∈ s.engine.keys n ↔ ∃ d, s.doc n key = some d :=
  Engine.mem_keys

theorem keys_sorted (s : Inner) (n : String) : (s.engine.keys n).Pairwise (· < ·) := by
  have hkeys : ((s.engine.keys n).map fun key => key).Pairwise (· < ·) := by
    rw [Engine.keys]
    refine Sorting.pairwise_sortOn_lt ?_
    rw [List.map_id']
    exact Sorting.nodup_sortOn.mp (Engine.nodup_keys s.engine n)
  rwa [List.map_id'] at hkeys

theorem single_strictMono : StrictMono fun id : String => [id] := fun _ _ h => List.Lex.rel h

/-- What is made of the live documents of a type, one by one. -/
theorem docs_map {α : Type} (n : String) (f : Key × Value → α) : (s.docs n).map f =
    (s.engine.keys n).filterMap fun key => (s.doc n key).map fun data => f (key, data) := by
  rw [Inner.docs, List.map_filterMap]
  exact List.filterMap_congr fun key _ => Option.map_map ..

/-- An issue is read as its row is reported. -/
theorem rowToIssue (h : Mirror s t) (id : String) : s.rowToIssue id = t.rowToIssue id := by
  cases hrow : t.issue.find id with
  | none =>
      rw [h.sim.rowToIssue_none hrow, Tables.rowToIssue, hrow]
      rfl
  | some row =>
      obtain ⟨u, hdoc, hview⟩ := h.sim.rowToIssue hrow
      obtain ⟨data, hdata, hread⟩ := h.issues.found hrow
      have hsame : rowToJson id row u = rowToJson id row row.updatedAt :=
        (Option.some.inj (hdoc.symm.trans hdata)).trans hread
      have hsaved : u = row.updatedAt :=
        congrArg (fun data : Value => (data.field "updated_at").asInt.getD 0) hsame
      rw [hview, Tables.rowToIssue, hrow, hsaved]
      rfl

/-- Two selections of the same issues list the same issues. -/
theorem inOrder_eq (h : Mirror s t) {p : Issue → Bool} {q : String → IssueRow → Bool}
    (hpq : ∀ {id row} savedAt, t.issue.find id = some row →
      s.rowToIssue id = some { t.view id row with updatedAt := savedAt } →
      p { t.view id row with updatedAt := savedAt } = q id row) :
    inOrder (s.allIssues.filter p) = (Db.select t q).map fun r => t.view r.1 r.2 := by
  have hids := inOrder_ids h.sim hpq
  have hleft : ∀ issue ∈ inOrder (s.allIssues.filter p),
      some issue = (t.rowToIssue ∘ fun issue => issue.id) issue := by
    intro issue hissue
    have hmem := (List.mem_filter.mp (Sorting.mem_sortOn.mp hissue)).1
    rw [Function.comp_apply, ← h.rowToIssue]
    exact ((mem_allIssues h.sim).mp hmem).symm
  have hright : ∀ r ∈ Db.select t q,
      (some ∘ fun r : String × IssueRow => t.view r.1 r.2) r = (t.rowToIssue ∘ Prod.fst) r := by
    intro r hr
    rw [Function.comp_apply, Function.comp_apply,
      Db.rowToIssue_eq_some.mpr ⟨r.2, (Db.mem_select.mp hr).1, rfl⟩]
  refine List.map_injective_iff.mpr (Option.some_injective Issue) ?_
  rw [List.map_map, List.map_congr_left hleft, List.map_congr_left hright, ← List.map_map,
    ← List.map_map]
  exact congrArg (List.map t.rowToIssue) hids

theorem get (h : Mirror s t) (id : String) : (runA (Adapter.get id) s).1 = Db.getQuery id t := by
  cases hrow : t.issue.find id with
  | none => rw [get_missing (h.sim.rowToIssue_none hrow), getQuery_missing hrow]
  | some row =>
      have hread : s.rowToIssue id = some (t.view id row) := by
        rw [h.rowToIssue, Tables.rowToIssue, hrow]
        rfl
      rw [(reads_get hread).eq, Db.getQuery_find hrow]

theorem list (h : Mirror s t) (project : Option String) (all : Bool) (onlyId : Option String) :
    (runA (Adapter.list project all onlyId) s).1 = .ok (Db.listQuery project all onlyId t) := by
  rw [(reads_list project all onlyId).eq, h.inOrder_eq fun u _ _ => ?_]
  · rfl
  · simp

theorem ready (h : Mirror s t) (hs : Db.Sound t) (project : Option String) (now : Int) :
    (runA (Adapter.ready project now) s).1 = .ok (Db.readyIssues project now t) := by
  rw [(reads_ready project now).eq, h.inOrder_eq fun u hrow _ => offers_eq h.sim hs project now u
    hrow]
  rfl

theorem projectsListed (h : Mirror s t) :
    (runA Adapter.projects s).1 = .ok (Db.projectsQuery t) := by
  have hperm := h.projects.collect_perm single_injective (Engine.nodup_keys s.engine projectKind)
    (mem_live projectKind) (f := s.projectRow) (g := fun r => some (r.1, r.2.root, r.2.idPrefix))
    fun slug row hrow => by
      obtain ⟨data, hdata, hread⟩ := h.projects.found hrow
      obtain ⟨hroot, hprefix⟩ := Prod.mk.inj hread
      rw [Inner.projectRow, List.head?_cons, Option.bind_some, hdata, Option.map_some,
        textOf_eq hroot, textOf_eq hprefix]
  rw [List.filterMap_eq_map'] at hperm
  have hquery : (Db.projectsQuery t).Perm (t.project.rows.map fun r =>
      (r.1, r.2.root, r.2.idPrefix)) := Sorting.perm_sortOn (fun p : String × String × String =>
        p.1) _
  rw [reads_projects.eq]
  refine congrArg Except.ok (Sorting.sortOn_eq_of_perm (hperm.trans hquery.symm) ?_)
  have hsorted : ((Db.projectsQuery t).map fun p => p.1).Pairwise (· < ·) := by
    refine Sorting.pairwise_sortOn_lt ?_
    rw [List.map_map]
    exact t.project.keys_nodup
  refine (List.pairwise_map.mp hsorted).imp fun {a b} hlt => ?_
  have hlex : toLex (a.1, toLex a.2) < toLex (b.1, toLex b.2) :=
    Prod.Lex.toLex_lt_toLex.mpr (Or.inl hlt)
  exact hlex

theorem folderView (h : Mirror s t) : s.folders = Db.folderViewQuery t := by
  have hperm := h.folders.collect_perm single_injective (Engine.nodup_keys s.engine folderKind)
    (mem_live folderKind)
    (f := fun key => (s.doc folderKind key).map fun data =>
      (⟨textOf "slug" data, textOf "name" data,
      (data.field "parent").asStr, (data.field "created_at").asInt.getD 0⟩ : Folder))
    (g := fun r => some ⟨r.1, r.2.name, r.2.parent, r.2.createdAt⟩) fun slug row hrow => by
      obtain ⟨data, hdata, hread⟩ := h.folders.found hrow
      obtain ⟨hslug, hread⟩ := Prod.mk.inj hread
      obtain ⟨hname, hread⟩ := Prod.mk.inj hread
      obtain ⟨hparent, hcreated⟩ := Prod.mk.inj hread
      simp [hdata, textOf_eq hslug, textOf_eq hname, Value.field_eq, hparent, hcreated]
  rw [List.filterMap_eq_map'] at hperm
  -- Ordered by name and then slug, no two folders tie, so the order in which they are found does
  -- not matter.
  have hnodup : ((t.folder.rows.map fun r =>
    (⟨r.1, r.2.name, r.2.parent, r.2.createdAt⟩ : Folder)).map
      fun f => toLex (f.name, f.slug)).Nodup := by
    refine List.Nodup.of_map (fun k => (ofLex k).2) ?_
    rw [List.map_map, List.map_map]
    exact t.folder.keys_nodup
  have hfolders : sortOn (fun f => toLex (f.name, f.slug)) ((s.docs folderKind).map fun d =>
      (⟨textOf "slug" d.2, textOf "name" d.2, (d.2.field "parent").asStr,
        (d.2.field "created_at").asInt.getD 0⟩ : Folder)) = (Db.folderViewQuery t).folders := by
    rw [docs_map, Sorting.sortOn_perm_of_nodup hperm hnodup]
    have hsort : (sortOn (fun r => toLex (r.2.name, r.1)) t.folder.rows).map (fun r =>
        (⟨r.1, r.2.name, r.2.parent, r.2.createdAt⟩ : Folder)) = sortOn (fun f =>
          toLex (f.name, f.slug))
          (t.folder.rows.map fun r => ⟨r.1, r.2.name, r.2.parent, r.2.createdAt⟩) :=
      Sorting.map_sortOn (by exact fun _ _ => Iff.rfl) _
    exact hsort.symm
  have hfilings := h.filings.collect_sorted single_strictMono (keys_sorted s projectFolderKind)
    (mem_live projectFolderKind)
    (f := fun key => (s.doc projectFolderKind key).map fun data =>
      (⟨textOf "project" data, textOf "folder" data⟩ : ProjectFolder))
    (g := fun r => some ⟨r.1, r.2.folder⟩) fun project row hrow => by
      obtain ⟨data, hdata, hread⟩ := h.filings.found hrow
      obtain ⟨hproject, hfolder⟩ := Prod.mk.inj hread
      simp [hdata, textOf_eq hproject, textOf_eq hfolder]
  rw [List.filterMap_eq_map'] at hfilings
  rw [Inner.folders, hfolders, docs_map, hfilings]
  rfl

/-- Is the event due, and what is it about? -/
def dueOf (now : Int) (seq : Int) (fields : Bool × Int × Option String) : Option (Int × String) :=
  if fields.1 || fields.2.1 > now then none else some (seq, fields.2.2.getD "")

theorem dueOf_fields (now seq : Int) (data : Value) : dueOf now seq (outboundFields data) =
    (if isDelivered data || (data.field "next_attempt_at").asInt.getD 0 > now then none
      else some (outboundOf seq data)).map fun e => (e.seq, e.issueId) := by
  unfold dueOf outboundFields
  by_cases hdue : (isDelivered data || (data.field "next_attempt_at").asInt.getD 0 > now) = true
  · rw [if_pos hdue, if_pos hdue]
    rfl
  · rw [if_neg hdue, if_neg hdue]
    rfl

theorem dueOf_columns (now : Int) (n : Nat) (row : Db.OutboundRow) :
    dueOf now n (outboundColumns n row) =
      if row.deliveredAt = none && row.nextAttemptAt ≤ now then some ((n : Int), row.issueId)
      else none := by
  have hdelivered : decide (row.deliveredAt = none) = !row.deliveredAt.isSome := by
    rw [Bool.eq_iff_iff]
    simp
  rw [hdelivered]
  unfold dueOf outboundColumns
  cases row.deliveredAt.isSome <;> by_cases hdue : row.nextAttemptAt ≤ now <;> simp [hdue]

/-- The due events of both stores are about the same issues, in the same order. -/
theorem pending (h : Mirror s t) (now : Int) (limit : Nat) :
    (runA (pendingEvents now limit) s).1.map (fun events => events.map fun e => e.issueId) =
      .ok ((Db.pendingEventsQuery now limit t).map fun e => e.issueId) := by
  let due : List OutboundEvent := (s.docs outboundEventKind).filterMap fun d =>
      (seqOf d.1).bind fun seq =>
    if isDelivered d.2 || (d.2.field "next_attempt_at").asInt.getD 0 > now then none
    else some (outboundOf seq d.2)
  let rows := t.ledger.outbound.rows.filter fun r =>
    r.2.deliveredAt = none && r.2.nextAttemptAt ≤ now
  let about := fun r : Nat × Db.OutboundRow => ((r.1 : Int), r.2.issueId)
  have hreads : Reads (pendingEvents now limit) s ((sortOn (fun e => e.seq) due).take limit) :=
    (reads_docs outboundEventKind).map _
  have hperm := h.outbox.collect_perm numeral_injective
      (Engine.nodup_keys s.engine outboundEventKind)
    (mem_live outboundEventKind)
    (f := fun key => (s.doc outboundEventKind key).bind fun data => (seqOf key).bind fun seq =>
      dueOf now seq (outboundFields data))
    (g := fun r : Nat × Db.OutboundRow => dueOf now r.1 (outboundColumns r.1 r.2))
        fun n row hrow => by
      obtain ⟨data, hdata, hread⟩ := h.outbox.found hrow
      simp only [hdata, Option.bind_some, seqOf, parseInt_repr, hread]
  have hleft : (s.engine.keys outboundEventKind).filterMap (fun key =>
      (s.doc outboundEventKind key).bind fun data => (seqOf key).bind fun seq =>
        dueOf now seq (outboundFields data)) = due.map fun e => (e.seq, e.issueId) := by
    rw [List.map_filterMap, Inner.docs, List.filterMap_filterMap]
    refine List.filterMap_congr fun key _ => ?_
    simp only [dueOf_fields, Option.bind_map, Option.map_bind]
    rfl
  have hright : t.ledger.outbound.rows.filterMap (fun r =>
    dueOf now r.1 (outboundColumns r.1 r.2)) =
      rows.map about := by
    rw [← List.filterMap_eq_map, List.filterMap_filter]
    exact List.filterMap_congr fun r _ => dueOf_columns now r.1 r.2
  -- numbers are given out once, so the order of the numbers is the order of the events
  have hsorted : ((sortOn (fun r => r.1) rows).map about).Pairwise fun a b => a.1 < b.1 := by
    have hkeys : ((sortOn (fun r => r.1) rows).map fun r => r.1).Pairwise (· < ·) :=
      Sorting.pairwise_sortOn_lt (t.ledger.outbound.nodup.sublist (List.filter_sublist.map _))
    exact List.pairwise_map.mpr ((List.pairwise_map.mp hkeys).imp fun hlt => Int.ofNat_lt.mpr hlt)
  have hdue : (sortOn (fun e => e.seq) due).map (fun e => (e.seq, e.issueId)) =
      (sortOn (fun r => r.1) rows).map about := by
    rw [hleft, hright] at hperm
    have hrows := hperm.trans ((Sorting.perm_sortOn (fun r => r.1) rows).map about).symm
    have hsort : (sortOn (fun e => e.seq) due).map (fun e => (e.seq, e.issueId)) =
        sortOn (fun a => a.1) (due.map fun e => (e.seq, e.issueId)) :=
      Sorting.map_sortOn (by exact fun _ _ => Iff.rfl) due
    rw [hsort, Sorting.sortOn_eq_of_perm hrows hsorted]
  have hids := congrArg (List.map Prod.snd) (congrArg (List.take limit) hdue)
  rw [← List.map_take, ← List.map_take, List.map_map, List.map_map] at hids
  rw [hreads.eq]
  refine congrArg Except.ok (hids.trans ?_)
  rw [Db.pendingEventsQuery, List.map_map]
  rfl

end Mirror

/-! ### Runs -/

/-- The calls that make and drop projects, folders, issues and edges; an issue is created under an
id of its own. -/
def Structural : Op → Prop
  | .create spec _ _ => spec.id.isSome = true
  | .ensureProject .. | .ensureFolder .. | .setProjectFolder .. | .addDep .. | .dropProject _ =>
      True
  | _ => False

/-- No two projects are registered with one root. -/
def DistinctRoots (ops : List Op) : Prop :=
  ∀ slug slug' root idPrefix idPrefix' ts ts', .ensureProject slug root idPrefix ts ∈ ops →
    .ensureProject slug' root idPrefix' ts' ∈ ops → slug = slug'

/-- The project to be dropped is not filed under a folder, and the edge to be added is new. -/
def Clean (t : Tables) : Op → Prop
  | .dropProject slug => slug ∉ t.projectFolder.keys
  | .addDep child parent _ _ => (child, parent) ∉ t.dep.keys
  | _ => True

/-- The stores mirror each other, and every project has a root it was registered with. -/
structure Mirrored (named : String → String → Prop) (s : Inner) (t : Tables) : Prop where
  mirror : Mirror s t
  rooted : ∀ slug row, t.project.find slug = some row → named slug row.root

variable {cfg : Config} {named : String → String → Prop} {s : Inner} {t : Tables}

theorem Alike.mirrored {α β : Type} {x : Result α × Inner} {y : Result (β × Tables)}
    (h : Alike (fun s' t' => Mirror s' t' ∧ t'.project = t.project) s x y)
    (hrooted : ∀ slug row, t.project.find slug = some row → named slug row.root) :
    Alike (Mirrored named) s x y := by
  refine h.mono fun s' t' hafter => ⟨hafter.1, fun slug row hrow => hrooted slug row ?_⟩
  rw [← hafter.2]
  exact hrow

/-- Every call keeps the mirror, on its condition. -/
theorem Mirrored.method (h : Mirrored named s t) {op : Op} (hop : Structural op)
    (hclean : Clean t op)
    (hnamed : ∀ slug root idPrefix ts, op = .ensureProject slug root idPrefix ts → named slug root)
    (hdistinct : ∀ slug slug' root, named slug root → named slug' root → slug = slug') :
    Alike (Mirrored named) s (runA (method cfg op) s) (Db.alone cfg.toConfig op t) := by
  cases op with
  | ensureProject slug root idPrefix ts =>
      have hslug := hnamed slug root idPrefix ts rfl
      have hroot : ∀ x row, t.project.find x = some row → row.root = root → x = slug :=
        fun x row hrow heq => hdistinct x slug root (heq ▸ h.rooted x row hrow) hslug
      refine ((h.mirror.ensureProject hroot idPrefix ts).mono fun s' t' hafter => ?_).unit
      obtain ⟨hmirror, -, hrows⟩ := hafter
      refine ⟨hmirror, fun x row hrow => ?_⟩
      rcases hrows x row hrow with ⟨rfl, rfl⟩ | hold
      · exact hslug
      · exact h.rooted x row hold
  | dropProject slug =>
      refine ((h.mirror.dropProject hclean).mono fun s' t' hafter => ?_).reply _ _
      exact ⟨hafter.1, fun x row hrow => h.rooted x row (hafter.2 x row hrow)⟩
  | ensureFolder folder now => exact ((h.mirror.ensureFolder folder now).mirrored h.rooted).unit
  | setProjectFolder project folder now =>
      exact ((h.mirror.setProjectFolder project folder now).mirrored h.rooted).unit
  | create spec draws now => exact ((h.mirror.create hop draws now).mirrored h.rooted).reply _ _
  | addDep child parent actor now =>
      exact ((h.mirror.addDep hclean actor now).mirrored h.rooted).unit
  | _ => exact hop.elim

/-- Two healthy locks over stores that mirror each other. -/
inductive InMirror (named : String → String → Prop) : Locked Inner → Locked Tables → Prop where
  | mk {s : Inner} {t : Tables} (h : Mirrored named s t) (hs : Db.Sound t) :
      InMirror named (.new s) (.new t)

/-- One call on both stores. -/
theorem InMirror.step {l : Locked Inner} {l' : Locked Tables} (h : InMirror named l l') {op : Op}
    (hop : Structural op) (hclean : Clean l'.state op)
    (hnamed : ∀ slug root idPrefix ts, op = .ensureProject slug root idPrefix ts → named slug root)
    (hdistinct : ∀ slug slug' root, named slug root → named slug' root → slug = slug') :
    InMirror named (step cfg op l) (Db.step cfg.toConfig op l') := by
  obtain ⟨h, hs⟩ := h
  rename_i s t
  have hlease : Db.LeaseDefined cfg.toConfig op := by
    cases op with
    | claim => exact hop.elim
    | touch => exact hop.elim
    | _ => trivial
  obtain ⟨s', t', hs', ht', hafter⟩ :=
    (@Mirrored.method cfg _ _ _ h op hop hclean hnamed hdistinct).released h
  have hsound : Db.Sound (Db.step cfg.toConfig op (.new t)).state := hs.step
  have hdb : Db.step cfg.toConfig op (.new t) = .new t' := by
    rw [Db.step, Db.perform_eq hlease]
    exact ht'
  have hadapter : Adapter.step cfg op (.new s) = .new s' := hs'
  rw [hdb] at hsound
  rw [hadapter, hdb]
  exact .mk hafter hsound

/-- A run whose calls all meet the condition. -/
theorem InMirror.run {ops : List Op} {l : Locked Inner} {l' : Locked Tables}
    (h : InMirror named l l') (hops : ∀ op ∈ ops, Structural op)
    (hnamed : ∀ slug root idPrefix ts, .ensureProject slug root idPrefix ts ∈ ops → named slug root)
    (hdistinct : ∀ slug slug' root, named slug root → named slug' root → slug = slug')
    (hclean : Machine.Meets (Db.step cfg.toConfig) (fun l op => Clean l.state op) ops l') :
    InMirror named (Adapter.run cfg ops l) (Db.run cfg.toConfig ops l') := by
  induction ops generalizing l l' with
  | nil => exact h
  | cons op ops ih =>
      have hnext := @InMirror.step cfg _ _ _ h op (hops op (List.mem_cons_self ..)) hclean.1
        (fun slug root idPrefix ts heq => hnamed slug root idPrefix ts
          (heq ▸ List.mem_cons_self ..))
        hdistinct
      exact ih hnext (fun op hop => hops op (List.mem_cons_of_mem _ hop))
        (fun slug root idPrefix ts hop => hnamed slug root idPrefix ts (List.mem_cons_of_mem _ hop))
        hclean.2

/-! ### The same store -/

/-- The issues that the events of a reply are about. -/
def replyEventIssues : Reply → List String
  | .events events => events.map fun e => e.issueId
  | _ => []

/-- Both stores list the same projects, folders and issues, offer the same work, report the same
issues with their dependencies and have events pending about the same issues, and dropping a project
has the same result on both. -/
structure SameListings (cfg : Config) (l : Locked Inner) (l' : Locked Tables) : Prop where
  projects : (perform cfg .projects l).1 = (Db.perform cfg.toConfig .projects l').1
  folderView : (perform cfg .folderView l).1 = (Db.perform cfg.toConfig .folderView l').1
  list : ∀ project all onlyId, (perform cfg (.list project all onlyId) l).1 =
    (Db.perform cfg.toConfig (.list project all onlyId) l').1
  ready : ∀ project now, (perform cfg (.ready project now) l).1 =
    (Db.perform cfg.toConfig (.ready project now) l').1
  dependencies : ∀ id, (perform cfg (.get id) l).1 = (Db.perform cfg.toConfig (.get id) l').1
  pending : ∀ now limit, (perform cfg (.pendingEvents now limit) l).1.map replyEventIssues =
    (Db.perform cfg.toConfig (.pendingEvents now limit) l').1.map replyEventIssues
  removal : ∀ slug, (perform cfg (.dropProject slug) l).1 =
    (Db.perform cfg.toConfig (.dropProject slug) l').1

theorem Mirror.perform_folderView (h : Mirror s t) :
    (perform cfg .folderView (.new s)).1 = .ok (.folders (Db.folderViewQuery t)) := by
  rw [perform_map rfl, reads_folderView.eq, h.folderView]
  rfl

theorem perform_folderViewDb (cfg : Db.Config) (t : Tables) :
    (Db.perform cfg .folderView (.new t)).1 = .ok (.folders (Db.folderViewQuery t)) :=
  @perform_read cfg .folderView _ _ _ trivial rfl t

theorem InMirror.same {l : Locked Inner} {l' : Locked Tables} (h : InMirror named l l') :
    SameListings cfg l l' := by
  obtain ⟨⟨h, -⟩, hs⟩ := h
  rename_i s t
  constructor
  · rw [perform_map rfl, @perform_read _ .projects _ _ _ trivial rfl, h.projectsListed]
  · rw [h.perform_folderView, perform_folderViewDb]
  · intro project all onlyId
    rw [perform_map rfl, @perform_read _ (.list project all onlyId) _ _ _ trivial rfl, h.list]
  · intro project now
    rw [perform_map rfl, @perform_read _ (.ready project now) _ _ _ trivial rfl, h.ready hs]
  · intro id
    rw [perform_map rfl, @perform_read _ (.get id) _ _ _ trivial rfl, h.get]
  · intro now limit
    rw [perform_map rfl, @perform_read _ (.pendingEvents now limit) _ _ _ trivial rfl, map_map]
    exact h.pending now limit
  · intro slug
    have hlease : Db.LeaseDefined cfg.toConfig (.dropProject slug) := trivial
    rw [perform_map rfl, h.dropProject_result, Db.perform_eq hlease, Locked.finish_fst, Db.alone,
      Db.Tx.map]
    cases Db.dropProjectTx slug t <;> rfl

/-! ### The calls that part the stores -/

/-- The adapter keeps the filing of a project that is dropped. -/
theorem Mirror.drop_filed (h : Mirror s t) {slug : String} (hfiled : slug ∈ t.projectFolder.keys)
    {l : Locked Inner} {l' : Locked Tables}
    (hl : l = step cfg (.dropProject slug) (.new s))
    (hl' : l' = Db.step cfg.toConfig (.dropProject slug) (.new t)) :
    (perform cfg .folderView l).1 ≠ (Db.perform cfg.toConfig .folderView l').1 := by
  have hslug := h.filed slug hfiled
  obtain ⟨row, hrow⟩ := Table.mem_keys.mp hfiled
  obtain ⟨prow, hprow⟩ := Table.mem_keys.mp hslug
  obtain ⟨data, hdata, hread⟩ := h.filings.found hrow
  obtain ⟨pdata, hpdata, -⟩ := h.projects.found hprow
  have hmethod : runA (method cfg (.dropProject slug)) s =
      (.ok (.removal ⟨(s.issuesOf slug).length⟩), s.dropped (s.issuesOf slug) slug) := by
    rw [method, runA_map, runA_dropProject hpdata]
    rfl
  have hlease : Db.LeaseDefined cfg.toConfig (.dropProject slug) := trivial
  obtain ⟨r, t', htx, hfilings⟩ : ∃ r t', Db.dropProjectTx slug t = .ok (r, t') ∧
      t'.projectFolder = t.projectFolder.erase slug := ⟨_, _, if_pos hslug, rfl⟩
  have hop : Db.alone cfg.toConfig (.dropProject slug) t = .ok (.removal r, t') := by
    rw [Db.alone, Db.Tx.map, htx]
    rfl
  rw [hl, hl', step_ok hmethod, stepDb_ok hlease hop, perform_map rfl, reads_folderView.eq,
    perform_folderViewDb]
  intro hsame
  have hview : (s.dropped (s.issuesOf slug) slug).folders = Db.folderViewQuery t' :=
    Reply.folders.inj (Except.ok.inj hsame)
  -- the document is still there, the row is not
  have hkept : (⟨textOf "project" data, textOf "folder" data⟩ : ProjectFolder) ∈
      (s.dropped (s.issuesOf slug) slug).folders.projects := by
    refine List.mem_map.mpr ⟨([slug], data), mem_docs.mpr ?_, rfl⟩
    rw [doc_dropped _ _ _ (by decide)]
    exact hdata
  rw [hview, textOf_eq (Prod.mk.inj hread).1] at hkept
  obtain ⟨r, hr, heq⟩ := List.mem_map.mp hkept
  have hfind := Table.mem_rows.mp (Sorting.mem_sortOn.mp hr)
  have hproject : r.1 = slug := (ProjectFolder.mk.inj heq).1
  rw [hfilings, Table.find_erase, if_pos hproject] at hfind
  cases hfind

/-- How many events are due. -/
theorem length_pending (now : Int) (limit : Nat) (t : Tables) :
    (Db.pendingEventsQuery now limit t).length = min limit (t.ledger.outbound.rows.countP fun r =>
      r.2.deliveredAt = none && r.2.nextAttemptAt ≤ now) := by
  rw [Db.pendingEventsQuery, List.length_map, List.length_take, (Sorting.perm_sortOn _ _).length_eq,
    List.countP_eq_length_filter]

/-- An event about an issue that is there is due at once. -/
theorem countP_logEvent {id : String} (hid : id ∈ t.issue.keys) (now : Int)
    (actor event detail : String) :
    ((t.logEvent id now actor event detail).ledger.outbound.rows.countP fun r =>
      r.2.deliveredAt = none && r.2.nextAttemptAt ≤ now) =
        (t.ledger.outbound.rows.countP fun r =>
          r.2.deliveredAt = none && r.2.nextAttemptAt ≤ now) + 1 := by
  obtain ⟨row, hrow⟩ := Table.mem_keys.mp hid
  have hrows : (t.logEvent id now actor event detail).ledger.outbound.rows =
      t.ledger.outbound.rows ++ [(t.ledger.history.next,
        ⟨t.storeId, id, row.project, now, event, none, 0, now, none⟩)] := by
    rw [← Table.rows_insert_new t.ledger.outbound_next]
    unfold Tables.logEvent
    rw [hrow]
    rfl
  rw [hrows, List.countP_append]
  simp

/-- Only the local store records an edge that is there already. -/
theorem Mirror.addDep_again (h : Mirror s t) (hwf : Db.WellFormed t) {child parent : String}
    (hmem : (child, parent) ∈ t.dep.keys) (actor : String) (now : Int) {l : Locked Inner}
    {l' : Locked Tables} (hl : l = step cfg (.addDep child parent actor now) (.new s))
    (hl' : l' = Db.step cfg.toConfig (.addDep child parent actor now) (.new t)) :
    ∃ limit, (perform cfg (.pendingEvents now limit) l).1.map replyEventIssues ≠
      (Db.perform cfg.toConfig (.pendingEvents now limit) l').1.map replyEventIssues := by
  obtain ⟨hchild, hparent⟩ := hwf.endpoints hmem
  have hne : child ≠ parent := fun heq => hwf.acyclic child (.single (heq ▸ hmem))
  have hfree : t.reachable parent child = false := by
    refine Bool.eq_false_of_not_eq_true fun hreach => ?_
    exact hwf.acyclic child (.head hmem ((Db.reachable_ne hne).mp hreach))
  obtain ⟨t', htx⟩ := (Db.addDepTx_eq actor now hchild hparent).2 hfree
  have hdb : Db.addDepAlone child parent actor now t = .ok ((), t') := by
    rw [Db.addDepAlone, if_neg hne, htx]
  have halike := @addDep_alike s t cfg h.sim child parent actor now
  rw [hdb] at halike
  -- The adapter changes nothing, the local store logs an event, and that is one more pending event
  -- on one side only.
  obtain ⟨hrun, hlogged⟩ : runA (Adapter.addDep cfg child parent actor now) s = (.ok (), s) ∧
      t' = ({ t with dep := t.dep.insert (child, parent) () }.setIssue child fun row =>
        { row with updatedAt := now }).logEvent child now actor "depends_on" parent := by
    generalize runA (Adapter.addDep cfg child parent actor now) s = x at halike ⊢
    cases halike with
    | ok hafter =>
        obtain ⟨-, rfl, hlogged⟩ | ⟨hnew, -⟩ := hafter
        · exact ⟨rfl, hlogged⟩
        · exact absurd hmem hnew
  have hmethod : runA (method cfg (.addDep child parent actor now)) s = (.ok .unit, s) :=
    (runA_unit Reply.unit _ s).trans (by rw [hrun]; rfl)
  have hlease : Db.LeaseDefined cfg.toConfig (.addDep child parent actor now) := trivial
  have hop : Db.alone cfg.toConfig (.addDep child parent actor now) t = .ok (.unit, t') := by
    rw [Db.alone, Db.Tx.map, hdb]
    rfl
  refine ⟨(t.ledger.outbound.rows.countP fun r =>
    r.2.deliveredAt = none && r.2.nextAttemptAt ≤ now) + 1, fun hsame => ?_⟩
  rw [hl, hl', step_ok hmethod, stepDb_ok hlease hop, perform_map rfl,
    @perform_read _ (.pendingEvents now _) _ _ _ trivial rfl, map_map] at hsame
  have hids := Except.ok.inj ((h.pending now _).symm.trans hsame)
  have hlength := congrArg List.length hids
  have hissue : child ∈ (({ t with dep := t.dep.insert (child, parent) () } : Tables).setIssue child
      fun row => { row with updatedAt := now }).issue.keys := by
    rw [Tables.setIssue_issue, Table.keys_modify]
    exact hchild
  rw [List.length_map, replyEventIssues, List.length_map, length_pending, length_pending, hlogged,
    countP_logEvent hissue] at hlength
  change min _ _ = min _ (t.ledger.outbound.rows.countP _ + 1) at hlength
  omega

/-- From stores that mirror each other, a call that leaves the same stores meets the condition. -/
theorem InMirror.clean {l : Locked Inner} {l' : Locked Tables} (h : InMirror named l l') {op : Op}
    (hsame : SameListings cfg (Adapter.step cfg op l) (Db.step cfg.toConfig op l')) :
    Clean l'.state op := by
  obtain ⟨⟨h, -⟩, hs⟩ := h
  cases op with
  | dropProject slug => exact fun hfiled => h.drop_filed hfiled rfl rfl hsame.folderView
  | addDep child parent actor now =>
      intro hmem
      obtain ⟨limit, hne⟩ := @Mirror.addDep_again cfg _ _ h hs.graph child parent hmem actor now _ _
        rfl rfl
      exact hne (hsame.pending now limit)
  | _ => trivial

/-- No project of this name is filed under a folder. -/
def Unfiled (slug : String) (reply : Result Reply) : Prop :=
  ∃ view, reply = .ok (.folders view) ∧ ∀ p ∈ view.projects, p.project ≠ slug

/-- A project that is registered while its slug is free starts unfiled on both stores. -/
theorem InMirror.unfiled {l : Locked Inner} {l' : Locked Tables} (h : InMirror named l l')
    {slug root : String} (hslug : slug ∉ l'.state.project.keys)
    (hroot : ∀ x row, l'.state.project.find x = some row → row.root ≠ root) (idPrefix : String)
    (ts : Int) :
    Unfiled slug (perform cfg .folderView (Adapter.step cfg (.ensureProject slug root idPrefix ts)
    l)).1 ∧
      Unfiled slug (Db.perform cfg.toConfig .folderView
        (Db.step cfg.toConfig (.ensureProject slug root idPrefix ts) l')).1 := by
  obtain ⟨⟨h, -⟩, -⟩ := h
  rename_i s t
  have hfresh : ∀ x row, t.project.find x = some row → row.root = root → x = slug :=
    fun x row hrow heq => absurd heq (hroot x row hrow)
  have hcall : Alike (fun s' t' => Mirror s' t' ∧ t'.projectFolder = t.projectFolder) s
      (runA (ensureProject slug root idPrefix ts) s) (Db.ensureProjectTx slug root idPrefix ts t) :=
    (h.ensureProject hfresh idPrefix ts).mono fun s' t' hafter => ⟨hafter.1, hafter.2.1⟩
  obtain ⟨s', t', hs', ht', hmirror, hfilings⟩ := hcall.unit.released ⟨h, rfl⟩
  have hlease : Db.LeaseDefined cfg.toConfig (.ensureProject slug root idPrefix ts) := trivial
  have hunfiled : ∀ p ∈ (Db.folderViewQuery t').projects, p.project ≠ slug := by
    intro p hp heq
    obtain ⟨r, hr, rfl⟩ := List.mem_map.mp hp
    have hfind := Table.mem_rows.mp (Sorting.mem_sortOn.mp hr)
    rw [hfilings] at hfind
    exact hslug (heq ▸ h.filed r.1 (Table.mem_keys_of_find hfind))
  have hadapter : Adapter.step cfg (.ensureProject slug root idPrefix ts) (.new s) = .new s' := hs'
  have hdb : Db.step cfg.toConfig (.ensureProject slug root idPrefix ts) (.new t) = .new t' := by
    rw [Db.step, Db.perform_eq hlease]
    exact ht'
  rw [hadapter, hdb, hmirror.perform_folderView, perform_folderViewDb]
  exact ⟨⟨_, rfl, hunfiled⟩, ⟨_, rfl, hunfiled⟩⟩

/-- As long as no project is dropped that is filed under a folder and no edge is added that is there
already, the two stores list the same, and a project that is registered while its slug is free
starts unfiled. The first call that does not meet the condition parts them. So the condition is the
weakest one on runs: a run that does not meet it has a first call that does not. -/
theorem dropping_alike (cfg : Config) (storeId : String) {ops : List Op}
    (hops : ∀ op ∈ ops, Structural op) (hroots : DistinctRoots ops)
    (hclean : Machine.Meets (Db.step cfg.toConfig) (fun l op => Clean l.state op) ops
      (Db.opened storeId)) :
    let l := run cfg ops (opened cfg)
    let l' := Db.run cfg.toConfig ops (Db.opened storeId)
    SameListings cfg l l' ∧
      (∀ slug root idPrefix ts, slug ∉ l'.state.project.keys →
        (∀ x row, l'.state.project.find x = some row → row.root ≠ root) →
          Unfiled slug (perform cfg .folderView (step cfg (.ensureProject slug root idPrefix ts)
            l)).1 ∧
            Unfiled slug (Db.perform cfg.toConfig .folderView
              (Db.step cfg.toConfig (.ensureProject slug root idPrefix ts) l')).1) ∧
      ∀ op, SameListings cfg (step cfg op l) (Db.step cfg.toConfig op l') → Clean l'.state op := by
  intro l l'
  let named := fun slug root => ∃ idPrefix ts, Op.ensureProject slug root idPrefix ts ∈ ops
  have hopened : InMirror named (opened cfg) (Db.opened storeId) := by
    refine .mk ⟨Mirror.opened cfg storeId, fun slug row hrow => ?_⟩ (Db.sound_empty storeId)
    simp [Tables.empty] at hrow
  have hdistinct : ∀ slug slug' root, named slug root → named slug' root → slug = slug' := by
    intro slug slug' root hslug hslug'
    obtain ⟨idPrefix, ts, hop⟩ := hslug
    obtain ⟨idPrefix', ts', hop'⟩ := hslug'
    exact hroots slug slug' root idPrefix idPrefix' ts ts' hop hop'
  have hrun : InMirror named l l' := hopened.run hops
    (fun slug root idPrefix ts hop => ⟨idPrefix, ts, hop⟩) hdistinct hclean
  exact ⟨hrun.same, fun slug root idPrefix ts hslug hroot => hrun.unfiled hslug hroot idPrefix ts,
    fun op hsame => hrun.clean hsame⟩

/-- A project with two issues and an edge, which is dropped and registered again. -/
def droppedAgain : List Op := [.ensureProject "p" "/p" "p" 0, .ensureFolder ⟨"f", "F", none, 0⟩ 0,
  .create { id := some "x", project := some "p" } [] 1,
  .create { id := some "y", project := some "p" } [] 1, .addDep "x" "y" "a" 2,
  .dropProject "p", .ensureProject "p" "/p" "p" 3]

theorem dropping_alike_again :
    SameListings {} (run {} droppedAgain (opened {})) (Db.run {} droppedAgain (Db.opened "s")) := by
  have hops : ∀ op ∈ droppedAgain, Structural op := by simp [droppedAgain, Structural]
  have hroots : DistinctRoots droppedAgain := by
    intro slug slug' root idPrefix idPrefix' ts ts' hop hop'
    simp only [droppedAgain, List.mem_cons, Op.ensureProject.injEq, List.not_mem_nil, or_false,
      reduceCtorEq, false_or] at hop hop'
    rcases hop with hop | hop <;> rcases hop' with hop' | hop' <;> rw [hop.1, hop'.1]
  have hclean : Machine.Meets (Db.step {}) (fun l op => Clean l.state op) droppedAgain
      (Db.opened "s") := by
    refine ⟨trivial, trivial, trivial, trivial, ?_, ?_, trivial, trivial⟩
    · show ("x", "y") ∉ _
      decide +kernel
    · show "p" ∉ _
      decide +kernel
  exact (dropping_alike {} "s" hops hroots hclean).1

/-- A project that is filed under a folder, dropped and registered again. -/
def filedAgain : List Op := [.ensureProject "p" "/p" "p" 0, .ensureFolder ⟨"f", "F", none, 0⟩ 0,
  .setProjectFolder "p" (some "f") 1, .dropProject "p", .ensureProject "p" "/p" "p" 2]

/-- On the adapter it is still filed under the folder, on the local store it is not. -/
theorem filing_survives : (∀ op ∈ filedAgain, Structural op) ∧ DistinctRoots filedAgain ∧
    (perform {} .folderView (run {} filedAgain (opened {}))).1 =
      .ok (.folders ⟨[⟨"f", "F", none, 0⟩], [⟨"p", "f"⟩]⟩) ∧
    (Db.perform {} .folderView (Db.run {} filedAgain (Db.opened "s"))).1 =
      .ok (.folders ⟨[⟨"f", "F", none, 0⟩], []⟩) ∧
    ¬ SameListings {} (run {} filedAgain (opened {})) (Db.run {} filedAgain (Db.opened "s")) := by
  have hroots : DistinctRoots filedAgain := by
    intro slug slug' root idPrefix idPrefix' ts ts' hop hop'
    simp only [filedAgain, List.mem_cons, Op.ensureProject.injEq, List.not_mem_nil, or_false,
      reduceCtorEq, false_or] at hop hop'
    rcases hop with hop | hop <;> rcases hop' with hop' | hop' <;> rw [hop.1, hop'.1]
  have hadapter : (perform {} .folderView (run {} filedAgain (opened {}))).1 =
      .ok (.folders ⟨[⟨"f", "F", none, 0⟩], [⟨"p", "f"⟩]⟩) := by decide +kernel
  have hdb : (Db.perform {} .folderView (Db.run {} filedAgain (Db.opened "s"))).1 =
      .ok (.folders ⟨[⟨"f", "F", none, 0⟩], []⟩) := by decide +kernel
  refine ⟨by simp [filedAgain, Structural], hroots, hadapter, hdb, fun h => ?_⟩
  have hview := h.folderView
  rw [hadapter, hdb] at hview
  cases hview

end Marbles.Adapter
