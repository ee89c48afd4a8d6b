import Marbles.Db.Alone
import Marbles.Postgres.Migration
import Marbles.Postgres.Store

/-!
# What a promoted store answers

`Promoted` says that the rows of a company are the rows of a local store. From there on the two
decoders have to agree: an issue read from the hosted rows is the one the local store shows, a
hosted query selects the rows the local one selects and lists them in the same order, as long as
the server orders texts by their bytes.

Rows are related by the functions that insert them, and each query is compared under that
relation. The one thing a server adds is a collation; with byte order the lists come out in the
order of the local store. Nothing here depends on how the rows got there, only that they are these
rows.
-/

namespace Marbles.Postgres

open Sorting (sortOn)
open Db (Tables)

/-- The server orders texts by their bytes, as the local store does. -/
def Server.Bytewise (server : Server) : Prop := ∀ s, server.collate s = s

theorem Server.Bytewise.textOrder_le {server : Server} (h : server.Bytewise) {s s' : String} :
    server.textOrder s ≤ server.textOrder s' ↔ s ≤ s' := by
  unfold Server.textOrder
  rw [h s, h s', Prod.Lex.toLex_le_toLex]
  constructor
  · rintro (hlt | ⟨-, hle⟩)
    · exact hlt.le
    · exact hle
  · intro hle
    rcases hle.lt_or_eq with hlt | rfl
    · exact Or.inl hlt
    · exact Or.inr ⟨rfl, hle⟩

theorem Server.Bytewise.textOrder_lt {server : Server} (h : server.Bytewise) {s s' : String} :
    server.textOrder s < server.textOrder s' ↔ s < s' := by
  rw [← not_le, ← not_le, h.textOrder_le]

theorem Server.textOrder_injective (server : Server) : Function.Injective server.textOrder :=
  fun _ _ h => (Prod.mk.inj (toLex.injective h)).2

/-- Issues are listed alike. -/
theorem Server.Bytewise.listKey_le {server : Server} (h : server.Bytewise)
    {priority priority' : Int}
    {createdAt createdAt' : Int} {id id' : String} :
    listKey priority createdAt id ≤ listKey priority' createdAt' id' ↔
      toLex (priority, toLex (createdAt, server.textOrder id)) ≤
        toLex (priority', toLex (createdAt', server.textOrder id')) := by
  simp only [listKey, Prod.Lex.toLex_le_toLex, h.textOrder_le]

namespace Promoted

variable {server : Server} {company : String} {t : Tables} {db : Database}

/-! ### Issues -/

theorem issueRow (h : Promoted company t db) (id : String) :
    db.issueRow company id = (t.issue.find id).map .ofLocal := h.issue.find_map id

theorem isOpen (h : Promoted company t db) (id : String) :
    (db.issue.find (company, id)).any (fun row => row.status ≠ .closed) = t.isOpen id := by
  have hrow := h.issueRow id
  rw [Database.issueRow] at hrow
  rw [hrow, Tables.isOpen]
  cases t.issue.find id <;> rfl

/-- The edges that a query over the dependencies selects. -/
theorem length_select_dep (h : Promoted company t db) (p : DepKey → Bool) :
    (db.dep.select company fun k _ => p k.2).length =
      (t.dep.keys.filter fun e => p (depKey e.1 e.2)).length := by
  rw [(h.dep.select_perm fun k _ => p k.2).length_eq, List.length_map, List.filter_map,
    List.length_map, Table.keys, List.filter_map, List.length_map]
  rfl

theorem length_openBlockers (h : Promoted company t db) (id : String) :
    (db.openBlockers company id).length = (t.openBlockers id).length := by
  have hjoin : (db.openBlockers company id).length =
      (db.dep.select company fun k _ => k.2.issueId = id &&
        (db.issue.find (company, k.2.dependsOn)).any fun row => row.status ≠ .closed).length := by
    rw [Database.openBlockers, List.length_map]
    refine Table.length_join_lookup company (fun k _ => k.2.issueId = id) DepKey.dependsOn
      (fun row : IssueRow => row.status ≠ .closed) fun d p => ?_
    rw [Bool.eq_iff_iff]
    simp only [Bool.and_eq_true, decide_eq_true_eq, Prod.ext_iff]
    constructor
    · rintro ⟨⟨⟨⟨htenant, hkey⟩, rfl⟩, hid⟩, hopen⟩
      exact ⟨⟨rfl, hid⟩, ⟨htenant, hkey⟩, hopen⟩
    · rintro ⟨⟨rfl, hid⟩, ⟨htenant, hkey⟩, hopen⟩
      exact ⟨⟨⟨⟨htenant, hkey⟩, rfl⟩, hid⟩, hopen⟩
  have hsort := Sorting.perm_sortOn (fun p => p)
    ((t.dep.keys.filter fun e => e.1 = id).map Prod.snd)
  rw [hjoin, h.length_select_dep fun k => k.issueId = id &&
    (db.issue.find (company, k.dependsOn)).any fun row => row.status ≠ .closed]
  rw [Tables.openBlockers, Tables.dependsOn, (hsort.filter t.isOpen).length_eq, List.filter_map,
    List.length_map, List.filter_filter]
  refine congrArg List.length (List.filter_congr fun e _ => ?_)
  rw [h.isOpen, Bool.and_comm]
  rfl

theorem length_openDependents (h : Promoted company t db) (id : String) :
    (db.openDependents company id).length = ((t.dependents id).filter t.isOpen).length := by
  have hjoin : (db.openDependents company id).length =
      (db.dep.select company fun k _ => k.2.dependsOn = id &&
        (db.issue.find (company, k.2.issueId)).any fun row => row.status ≠ .closed).length := by
    rw [Database.openDependents, List.length_map]
    refine Table.length_join_lookup company (fun k _ => k.2.dependsOn = id) DepKey.issueId
      (fun row : IssueRow => row.status ≠ .closed) fun d c => ?_
    rw [Bool.eq_iff_iff]
    simp only [Bool.and_eq_true, decide_eq_true_eq, Prod.ext_iff]
    constructor
    · rintro ⟨⟨⟨⟨htenant, hkey⟩, rfl⟩, hid⟩, hopen⟩
      exact ⟨⟨rfl, hid⟩, ⟨htenant, hkey⟩, hopen⟩
    · rintro ⟨⟨rfl, hid⟩, ⟨htenant, hkey⟩, hopen⟩
      exact ⟨⟨⟨⟨htenant, hkey⟩, rfl⟩, hid⟩, hopen⟩
  rw [hjoin, h.length_select_dep fun k => k.dependsOn = id &&
    (db.issue.find (company, k.issueId)).any fun row => row.status ≠ .closed]
  rw [Tables.dependents, List.filter_map, List.length_map, List.filter_filter]
  refine congrArg List.length (List.filter_congr fun e _ => ?_)
  rw [h.isOpen, Bool.and_comm]
  rfl

theorem dependsOn (h : Promoted company t db) (hserver : server.Bytewise) (id : String) :
    db.dependsOn server company id = t.dependsOn id := by
  have hselect := (h.dep.select_perm fun k _ => k.2.issueId = id).map fun r => r.1.2.dependsOn
  rw [List.filter_map, List.map_map, List.map_map] at hselect
  have hperm : ((db.dep.select company fun k _ => k.2.issueId = id).map fun r =>
    r.1.2.dependsOn).Perm
      ((t.dep.keys.filter fun e => e.1 = id).map Prod.snd) := by
    rw [Table.keys, List.filter_map, List.map_map]
    exact hselect
  rw [Database.dependsOn, Tables.dependsOn,
    Sorting.sortOn_congr (fun p => p) fun _ _ => hserver.textOrder_le]
  exact Sorting.sortOn_perm Function.injective_id hperm

/-- Both decoders make the same issue of a row. -/
theorem getIssue (h : Promoted company t db) (hserver : server.Bytewise) (id : String) :
    db.getIssue server company id = Db.getQuery id t := by
  rw [Database.getIssue, Db.getQuery, Database.rowToIssue, Tables.rowToIssue, h.issueRow]
  cases t.issue.find id with
  | none => rfl
  | some row =>
      simp only [Option.map_some, Tables.view, ← h.length_openBlockers, ← h.length_openDependents,
        ← h.dependsOn hserver]
      rfl

/-- The rows in listing order. -/
theorem selectIds (h : Promoted company t db) (hserver : server.Bytewise)
    {p : String × String → IssueRow → Bool} {q : String → Db.IssueRow → Bool}
    (hpq : ∀ id row, t.issue.find id = some row → p (company, id) (.ofLocal row) = q id row) :
    selectIds server company p db = (Db.select t q).map Prod.fst := by
  have hsort := h.issue.sortOn_select
    (fun r => toLex (r.2.priority, toLex (r.2.createdAt, server.textOrder r.1.2)))
    (fun r => listKey r.2.priority r.2.createdAt r.1) p
    (fun r r' => hserver.listKey_le) fun r r' heq => (listKey_inj.mp heq).2.2
  have hfilter : t.issue.rows.filter (fun r => p (company, r.1) (.ofLocal r.2)) =
      t.issue.rows.filter fun r => q r.1 r.2 :=
    List.filter_congr fun r hr => hpq r.1 r.2 (Table.mem_rows.mp hr)
  rw [Postgres.selectIds, hsort, hfilter, List.map_map]
  rfl

theorem mapM_getIssue (h : Promoted company t db) (hserver : server.Bytewise)
    (q : String → Db.IssueRow → Bool) :
    ((Db.select t q).map Prod.fst).mapM (fun id => db.getIssue server company id) =
      .ok ((Db.select t q).map fun r => t.view r.1 r.2) := by
  rw [show (fun id => db.getIssue server company id) = fun id => Db.getQuery id t from
    funext fun id => h.getIssue hserver id]
  exact Db.mapM_getQuery fun r hr => (Db.mem_select.mp hr).1

theorem listQuery (h : Promoted company t db) (hserver : server.Bytewise) (project : Option String)
    (all : Bool) (onlyId : Option String) :
    listQuery server company project all onlyId db = .ok (Db.listQuery project all onlyId t) := by
  rw [Postgres.listQuery, h.selectIds hserver fun _ _ _ => rfl]
  exact h.mapM_getIssue hserver _

theorem eligible (h : Promoted company t db) (project : Option String) (now : Int) (id : String)
    (row : Db.IssueRow) :
    eligible project now db (company, id) (.ofLocal row) = Db.eligible t project now id row := by
  have hblockers : (db.openBlockers company id).isEmpty = (t.openBlockers id).isEmpty := by
    rw [Bool.eq_iff_iff, List.isEmpty_iff_length_eq_zero, List.isEmpty_iff_length_eq_zero,
      h.length_openBlockers]
  rw [Postgres.eligible, hblockers]
  rfl

theorem readyQuery (h : Promoted company t db) (hserver : server.Bytewise) (project : Option String)
    (now : Int) :
    readyQuery server company project now db = .ok (Db.readyIssues project now t) := by
  rw [Postgres.readyQuery, h.selectIds hserver fun id row _ => h.eligible project now id row]
  exact h.mapM_getIssue hserver _

/-! ### The other tables -/

theorem projectsQuery (h : Promoted company t db) (hserver : server.Bytewise) :
    projectsQuery server company db = Db.projectsQuery t := by
  have hsort := h.project.sortOn_select (fun r => server.textOrder r.1.2) (fun r => r.1)
    (fun _ _ => true) (fun _ _ => hserver.textOrder_le.symm) fun _ _ heq => heq
  have hrow : ∀ r r' : String × Db.ProjectRow, r.1 ≤ r'.1 ↔
      (fun p : String × String × String => p.1) (r.1, r.2.root, r.2.idPrefix) ≤
        (fun p : String × String × String => p.1) (r'.1, r'.2.root, r'.2.idPrefix) :=
    fun _ _ => Iff.rfl
  rw [Postgres.projectsQuery, hsort, List.map_map, List.filter_true, Db.projectsQuery]
  exact Sorting.map_sortOn (f := fun r => (r.1, r.2.root, r.2.idPrefix)) hrow t.project.rows

theorem folderViewQuery (h : Promoted company t db) (hserver : server.Bytewise) :
    folderViewQuery server company db = Db.folderViewQuery t := by
  have hfolders := h.folder.sortOn_select
    (fun r => toLex (server.textOrder r.2.name, server.textOrder r.1.2))
    (fun r => toLex (r.2.name, r.1)) (fun _ _ => true)
    (fun r r' => by
      simp only [Prod.Lex.toLex_le_toLex, hserver.textOrder_le, hserver.textOrder_lt,
        server.textOrder_injective.eq_iff])
    fun r r' heq => (Prod.mk.inj (toLex.injective heq)).2
  have hfiled := h.projectFolder.sortOn_select (fun r => server.textOrder r.1.2) (fun r => r.1)
    (fun _ _ => true) (fun _ _ => hserver.textOrder_le.symm) fun _ _ heq => heq
  rw [Postgres.folderViewQuery, hfolders, hfiled, List.map_map, List.map_map, List.filter_true,
    List.filter_true, Db.folderViewQuery]
  rfl

theorem historyQuery (h : Promoted company t db) (id : String) :
    historyQuery company id db = Db.historyQuery id t := by
  have hsort := h.history.sortOn_select (fun r => r.1.2) (fun r => r.1)
    (fun _ row => row.issueId = id) (fun _ _ => Nat.cast_le.symm) fun _ _ heq =>
      Nat.cast_inj.mpr heq
  -- the journal is in the order of its keys
  have hsorted := Sorting.sortOn_eq_of_perm (List.Perm.refl _)
    ((List.pairwise_map.mp t.ledger.history.ascending).filter fun r => r.2.issueId = id)
  rw [Postgres.historyQuery, hsort, hsorted, List.map_map, Db.historyQuery, Journal.select,
    List.map_map]
  rfl

theorem statsQuery (h : Promoted company t db) : statsQuery company db = Db.statsQuery t := by
  have hselect := (h.issue.select_perm fun _ _ => true).map fun r =>
    (r.2.project, r.2.status.asStr)
  rw [List.filter_true, List.map_map, List.map_map] at hselect
  exact statsValue_perm hselect

/-- No `LIMIT` is larger than the number of rows a table can have. -/
theorem pendingEventsQuery (h : Promoted company t db)
    (hevents : t.ledger.outbound.rows.length < 2 ^ 63) (now : Int) (limit : Nat) :
    pendingEventsQuery company now limit db =
      (Db.pendingEventsQuery now limit t).map fun e => { e with storeId := company } := by
  have hsort := h.outbound.sortOn_select (fun r => r.1.2) (fun r => r.1)
    (fun _ row => row.deliveredAt = none && row.nextAttemptAt ≤ now) (fun _ _ => Nat.cast_le.symm)
    fun _ _ heq => Nat.cast_inj.mpr heq
  have hdue : ∀ due : List (Nat × Db.OutboundRow), due.Sublist t.ledger.outbound.rows →
      (sortOn (fun r => r.1) due).take (min limit (2 ^ 63 - 1)) =
        (sortOn (fun r => r.1) due).take limit := by
    intro due hsub
    have hlength := (Sorting.perm_sortOn (fun r => r.1) due).length_eq
    have hle := hsub.length_le
    rcases Nat.lt_or_ge limit (2 ^ 63) with hlimit | hlimit
    · rw [Nat.min_eq_left (by omega)]
    · rw [List.take_of_length_le (by omega), List.take_of_length_le (by omega)]
  simp only [Postgres.pendingEventsQuery, hsort, Db.pendingEventsQuery, List.map_map,
    ← List.map_take]
  rw [hdue]
  · rfl
  · exact List.filter_sublist

end Promoted

/-! ### The contract before and after -/

/-- The calls that read projects, issues and what happened to them. -/
def reads : Op → Bool
  | .projects | .get _ | .list .. | .ready .. | .history _ | .folderView | .stats => true
  | _ => false

/-- What an event says, whichever store announces it. -/
def content (e : OutboundEvent) : Int × String × String × String × Int :=
  (e.seq, e.issueId, e.project, e.event, e.attempts)

@[simp]
theorem fst_withClient {α : Type} (g : α → Reply) (q : Database → Result α) (db : Database) :
    ((g <$> withClient q : Method Reply) db).1 = (q db).map g := by
  have hrun : withClient q db = (q db, db) := by
    unfold withClient Tenancy.transaction Locked.commit Tenancy.query
    cases q db <;> rfl
  rw [map_eq_pure_bind, Tenancy.Isolated.run_bind, hrun]
  cases q db <;> rfl

theorem fst_read {α : Type} (g : α → Reply) (q : Tables → Result α) (t : Tables) :
    (Locked.finish t (Db.Tx.map g (.read q) t)).1 = (q t).map g := by
  unfold Db.Tx.map Db.Tx.read
  cases q t with
  | ok a => rfl
  | error e => cases e <;> rfl

/-- A reachable store without a NUL in its texts can be promoted to a tenant that has no rows, and
the hosted store then answers every read the way the local store does. A NUL is the one character a
local text may have and a hosted text may not. The order of texts is that of their bytes. -/
theorem promotion_preserves {cfg : Db.Config} {s : Locked Tables} (hreach : Db.Reachable cfg s)
    {server : Server} (hserver : server.Bytewise) {company : String}
    (hnul : NulFree company s.state)
    (hevents : s.state.ledger.outbound.rows.length < 2 ^ 63) {db : Database}
    (hempty : db.rowsOf company = .empty) :
    ∃ report db', migrateCompany company s.state db = .ok (report, db') ∧
      (∀ op, reads op = true → ∃ m, method server company op = some m ∧
        (m db').1 = (Db.perform cfg op (.new s.state)).1) ∧
      ∀ now limit, ∃ m hosted kept, method server company (.pendingEvents now limit) = some m ∧
        (m db').1 = .ok (.events hosted) ∧
        (Db.perform cfg (.pendingEvents now limit) (.new s.state)).1 = .ok (.events kept) ∧
        hosted.map content = kept.map content := by
  obtain ⟨db', hmigrated, h⟩ :=
    migrateCompany_ok hnul hreach.references hreach.wellFormed hempty
  refine ⟨_, db', hmigrated, fun op hop => ?_, fun now limit => ?_⟩
  -- The reads: each is a query over tables that correspond, so the answers are equal.
  · have hlease : Db.LeaseDefined cfg op := by cases op <;> trivial
    rw [Db.perform_eq hlease]
    cases op with
    | projects =>
        refine ⟨_, rfl, ?_⟩
        rw [fst_withClient, h.projectsQuery hserver]
        rfl
    | get id =>
        refine ⟨_, rfl, ?_⟩
        rw [get, fst_withClient, h.getIssue hserver]
        exact (fst_read ..).symm
    | list project all onlyId =>
        refine ⟨_, rfl, ?_⟩
        rw [fst_withClient, h.listQuery hserver]
        rfl
    | ready project now =>
        refine ⟨_, rfl, ?_⟩
        rw [fst_withClient, h.readyQuery hserver]
        rfl
    | history id =>
        refine ⟨_, rfl, ?_⟩
        rw [fst_withClient, h.historyQuery]
        rfl
    | folderView =>
        refine ⟨_, rfl, ?_⟩
        rw [fst_withClient, h.folderViewQuery hserver]
        rfl
    | stats =>
        refine ⟨_, rfl, ?_⟩
        rw [fst_withClient, h.statsQuery]
        rfl
    | _ => exact absurd hop nofun
  -- The outbox: its rows get new sequence numbers in the hosted table, so only their content
  -- agrees.
  · have hlease : Db.LeaseDefined cfg (.pendingEvents now limit) := trivial
    refine ⟨_, _, Db.pendingEventsQuery now limit s.state, rfl, fst_withClient .., ?_, ?_⟩
    · rw [Db.perform_eq hlease]
      exact fst_read ..
    · rw [h.pendingEventsQuery hevents, List.map_map]
      rfl

/-- A store with an edge, and with history and events of both issues. -/
theorem two_issues_promoted :
    ∃ report db', migrateCompany "acme" (Db.Action.run {} Db.twoIssues (Db.opened "s")).state
    .empty =
      .ok (report, db') ∧
      (∀ op, reads op = true → ∃ m, method {} "acme" op = some m ∧ (m db').1 =
        (Db.perform {} op (.new (Db.Action.run {} Db.twoIssues (Db.opened "s")).state)).1) ∧
      ∀ now limit, ∃ m hosted kept, method {} "acme" (.pendingEvents now limit) = some m ∧
        (m db').1 = .ok (.events hosted) ∧
        (Db.perform {} (.pendingEvents now limit)
          (.new (Db.Action.run {} Db.twoIssues (Db.opened "s")).state)).1 = .ok (.events kept) ∧
        hosted.map content = kept.map content :=
  promotion_preserves ⟨"s", Db.twoIssues, rfl⟩ (fun _ => rfl)
    ⟨by decide, by decide, by decide, by decide, by decide, by decide, by decide, by decide⟩
    (by decide) rfl

end Marbles.Postgres
