import Marbles.Db.History
import Marbles.Db.References
import Marbles.Folders

/-!
# The doctor

`doctor` reports on a database without writing to it. What the engine and the file system
answer is not in the tables, so it is a value of its own; the references that the schema
declares and the counts are computed from the rows. In every state of the store no
declared reference dangles, so a violation that the doctor lists was made elsewhere.

Two invariants are at work. One is the list of references that the schema declares, each of them
kept by every scope; the other ties the counts to the rows, so that the report needs no second
look at the tables. The doctor itself writes nothing and needs no invariant.
-/

namespace Marbles.Db

open Forest (Parents)

/-- What the engine and the file system answer. A row id is not in the rows of the model. None of it
is decided by the rows, so it is given from outside. -/
structure Sqlite where
  integrityCheck : String := "ok"
  quickCheck : String := "ok"
  journalMode : String := "wal"
  synchronous : Int := 2
  dbBytes : Nat := 0
  walBytes : Nat := 0
  rowid : String → String → Option Int := fun _ _ => none

/-- What `doctor` prints. All of it is read; nothing here is repaired. -/
structure DoctorReport where
  integrity : String
  quickCheck : String
  foreignKeyViolations : List String
  journalMode : String
  synchronous : String
  dbBytes : Nat
  walBytes : Nat
  projects : Nat
  issues : Nat
  deps : Nat
  history : Nat
  outboxPending : Nat

/-- The names SQLite documents for the pragma's numbers. -/
def synchronousName : Int → String
  | 0 => "OFF"
  | 1 => "NORMAL"
  | 2 => "FULL"
  | 3 => "EXTRA"
  | _ => "UNKNOWN"

/-- The references of the schema that lead nowhere: the table and the key of the row, and the
table it refers to. A missing value refers to nothing. -/
def foreignKeyCheck (t : Tables) : List (String × String × String) :=
  ((t.folder.rows.filter fun r => r.2.parent.any (· ∉ t.folder.keys)).map fun r =>
      ("folder", r.1, "folder")) ++
    ((t.projectFolder.rows.filter fun r => r.2.folder ∉ t.folder.keys).map fun r =>
      ("project_folder", r.1, "folder")) ++
    ((t.projectFolder.rows.filter fun r => r.1 ∉ t.project.keys).map fun r =>
      ("project_folder", r.1, "project")) ++
    ((t.issue.rows.filter fun r => r.2.project ∉ t.project.keys).map fun r =>
      ("issue", r.1, "project"))

/-- One line for each reference that leads nowhere, as `PRAGMA foreign_key_check` reports it. -/
def violation (sqlite : Sqlite) (r : String × String × String) : String :=
  let rowid := match sqlite.rowid r.1 r.2.1 with
    | some n => s!"Some({n})"
    | none => "None"
  s!"{r.1} row {rowid} -> {r.2.2}"

/-- The answers of the engine are passed on, the rest is counted in the tables. The foreign keys are
checked in the rows of the model, since this part the rows decide. -/
def doctorQuery (sqlite : Sqlite) (t : Tables) : DoctorReport where
  integrity := sqlite.integrityCheck
  quickCheck := sqlite.quickCheck
  foreignKeyViolations := (foreignKeyCheck t).map (violation sqlite)
  journalMode := sqlite.journalMode
  synchronous := synchronousName sqlite.synchronous
  dbBytes := sqlite.dbBytes
  walBytes := sqlite.walBytes
  projects := t.project.rows.length
  issues := t.issue.rows.length
  deps := t.dep.rows.length
  history := t.ledger.history.rows.length
  outboxPending := (t.ledger.outbound.rows.filter fun r => r.2.deliveredAt = none).length

/-! ### Declared references -/

theorem foreignKeyCheck_eq_nil {t : Tables} (hrefs : References t) (htree : t.folderTree.Sound) :
    foreignKeyCheck t = [] := by
  unfold foreignKeyCheck
  simp only [List.append_eq_nil_iff, List.map_eq_nil_iff, List.filter_eq_nil_iff]
  refine ⟨⟨⟨fun r hr => ?_, fun r hr => ?_⟩, fun r hr => ?_⟩, fun r hr => ?_⟩
  · intro hmissing
    obtain ⟨parent, hparent, hnot⟩ := (Option.any_eq_true _ _).mp hmissing
    have hup : t.folderTree.Up r.1 parent := by
      rw [Parents.Up, Tables.folderTree, Table.mem_rows.mp hr, Option.map_some, hparent]
    have hthere := htree.parents r.1 parent hup
    rw [Tables.folderTree, Option.isSome_map, ← Table.mem_keys_iff_isSome] at hthere
    exact of_decide_eq_true hnot hthere
  · simpa using (hrefs.filed r.1 r.2 (Table.mem_rows.mp hr)).2
  · simpa using (hrefs.filed r.1 r.2 (Table.mem_rows.mp hr)).1
  · simpa using hrefs.projects r.1 r.2 (Table.mem_rows.mp hr)

@[simp] theorem folder_foldl_sweepRow (now : Int) (claims : List (String × String × String))
    (acc : SweepReport × Tables) : (claims.foldl (sweepRow now) acc).2.folder = acc.2.folder := by
  induction claims generalizing acc with
  | nil => rfl
  | cons claim claims ih =>
      rw [List.foldl_cons, ih]
      unfold sweepRow
      dsimp only
      split <;> rfl

/-- Only `ensure_folder` writes folders. -/
theorem exec_folder (cfg : Config) {s : Scope} (l : Locked Tables)
    (hs : ∀ slug name parent now, s ≠ .ensureFolder slug name parent now) :
    (s.exec cfg l).2.state.folder = l.state.folder := by
  have htx : ∀ {α : Type} {f : Tx α},
      (∀ a t', f l.state = .ok (a, t') → t'.folder = l.state.folder) →
      (Locked.tx f l).2.state.folder = l.state.folder := fun {α f} hf =>
    @Locked.tx_preserves _ _ _ f (fun t => t.folder = l.state.folder) l rfl hf
  -- No scope but ensure_folder touches the table of folders: each of the others is inverted and its
  -- new state read off.
  cases s with
  | ensureFolder slug name parent now => exact absurd rfl (hs slug name parent now)
  | ensureProject slug root idPrefix ts =>
      refine htx fun _ t' h => ?_
      obtain rfl := ensureProjectTx_ok h
      rfl
  | dropProject slug =>
      refine htx fun _ t' h => ?_
      obtain ⟨mine, -, rfl⟩ := dropProjectTx_ok h
      rfl
  | setProjectFolder project folder now =>
      refine htx fun _ t' h => ?_
      obtain ⟨assigned, rfl⟩ := setProjectFolderTx_ok h
      rfl
  | create spec project available draws now =>
      refine htx fun id t' h => ?_
      obtain ⟨metadata, -, -, -, -, -, rfl⟩ := createTx_ok h
      rfl
  | update id patch actor now =>
      refine htx fun _ t' h => ?_
      unfold updateTx at h
      obtain ⟨current, -, h⟩ := Outcome.bind_eq_ok.mp h
      obtain ⟨next, -, h⟩ := Outcome.bind_eq_ok.mp h
      obtain ⟨status, -, h⟩ := Outcome.bind_eq_ok.mp h
      cases h
      by_cases hchanged : patch.statusChanged current = true
      · rw [if_pos hchanged]
        rfl
      · rw [if_neg hchanged]
        rfl
  | addDep child parent actor now =>
      refine htx fun _ t' h => ?_
      obtain ⟨-, -, -, rfl⟩ := addDepTx_ok h
      rfl
  | setLabels id labels actor now | addRemoteDep child dependency actor now =>
      refine htx fun _ t' h => ?_
      obtain ⟨_, _, h⟩ := Outcome.bind_eq_ok.mp h
      cases h
      rfl
  | markEventDelivered seq now | markEventFailed seq nextAttemptAt error
  | removeDep child parent actor now | removeRemoteDep child canonicalRef actor now
  | release id actor now =>
      refine htx fun _ t' h => ?_
      cases h
      rfl
  | claim req ttl now =>
      refine htx fun _ t' h => ?_
      obtain ⟨row, -, -, -, rfl⟩ := claimTx_ok h
      rfl
  | touch id assignee now =>
      refine htx fun _ t' h => ?_
      obtain ⟨row, ttl, -, -, -, -, rfl⟩ := touchTx_ok h
      rfl
  | sweep now order =>
      refine htx fun report t' h => ?_
      unfold sweepTx at h
      obtain ⟨claims, -, h⟩ := Outcome.bind_eq_ok.mp h
      have hswept := folder_foldl_sweepRow now claims (⟨[], []⟩, l.state)
      rwa [Except.ok.inj h] at hswept
  | closeUnchecked id reason evidence actor now =>
      refine htx fun _ t' h => ?_
      obtain ⟨row, -, rfl⟩ := closeUncheckedTx_ok h
      rfl
  | _ =>
      change (Locked.query _ l).2.state.folder = _
      rw [Locked.query_state]

/-- A folder is written after its parent has been checked. -/
theorem sound_exec (cfg : Config) (s : Scope) {l : Locked Tables}
    (h : l.state.folderTree.Sound) : (s.exec cfg l).2.state.folderTree.Sound := by
  by_cases hs : ∀ slug name parent now, s ≠ .ensureFolder slug name parent now
  · unfold Tables.folderTree
    rw [exec_folder cfg l hs]
    exact h
  · obtain ⟨slug, name, parent, now, rfl⟩ : ∃ slug name parent now,
        s = .ensureFolder slug name parent now := by
      simpa only [not_forall, not_not, exists_prop] using hs
    refine @Locked.tx_preserves _ _ _ (ensureFolderTx slug name parent now)
      (fun t => t.folderTree.Sound) l h fun _ t' hok => ?_
    obtain ⟨_, hcheck, hok⟩ := Outcome.bind_eq_ok.mp hok
    cases hok
    rw [folderTree_upsert]
    rcases checkFolderParent_decides l.state slug parent with ⟨hadmits, -⟩ | ⟨-, e, hfail⟩
    · exact h.attach hadmits
    · rw [hfail] at hcheck
      cases hcheck

/-! ### Counts -/

/-- The events that are still to be delivered, due or not. -/
def undelivered (t : Tables) : List (Nat × OutboundRow) :=
  t.ledger.outbound.rows.filter fun r => r.2.deliveredAt = none

/-- A publisher is offered no more than the doctor counts, and all of it once it is due. -/
theorem length_pendingEvents (now : Int) (limit : Nat) (t : Tables) :
    (pendingEventsQuery now limit t).length ≤ (undelivered t).length ∧
      ((∀ r ∈ undelivered t, r.2.nextAttemptAt ≤ now) → (undelivered t).length ≤ limit →
        (pendingEventsQuery now limit t).length = (undelivered t).length) := by
  have hdue : (t.ledger.outbound.rows.filter fun r =>
      r.2.deliveredAt = none && r.2.nextAttemptAt ≤ now) =
      (undelivered t).filter fun r => r.2.nextAttemptAt ≤ now := by
    rw [undelivered, List.filter_filter]
    congr 1
    funext r
    exact Bool.and_comm ..
  have hlength : (pendingEventsQuery now limit t).length =
      min limit ((undelivered t).filter fun r => r.2.nextAttemptAt ≤ now).length := by
    unfold pendingEventsQuery
    rw [List.length_map, List.length_take, (Sorting.perm_sortOn _ _).length_eq, hdue]
  rw [hlength]
  refine ⟨(Nat.min_le_right ..).trans (List.length_filter_le ..), fun hall hlimit => ?_⟩
  have hkept : (undelivered t).filter (fun r => r.2.nextAttemptAt ≤ now) = undelivered t :=
    List.filter_eq_self.mpr fun r hr => decide_eq_true (hall r hr)
  rw [hkept, Nat.min_eq_right hlimit]

theorem length_projectsQuery (t : Tables) : (projectsQuery t).length = t.project.rows.length := by
  rw [projectsQuery, (Sorting.perm_sortOn _ _).length_eq, List.length_map]

theorem length_listQuery (t : Tables) : (listQuery none true none t).length =
    t.issue.rows.length := by
  rw [listQuery, List.length_map, select, (Sorting.perm_sortOn _ _).length_eq]
  simp [matchesScope]

/-- Whatever callers have done, and however their lock scopes interleaved, the doctor finds no
dangling reference, and its counts are those of the listings and of the outbox. -/
theorem doctor_finds_nothing (cfg : Config) (storeId : String) (scopes : List Scope)
    (sqlite : Sqlite) :
    let t := (Scope.runs cfg scopes (opened storeId)).state
    let report := doctorQuery sqlite t
    report.foreignKeyViolations = [] ∧ report.projects = (projectsQuery t).length ∧
      report.issues = (listQuery none true none t).length ∧
      (∀ now limit, (pendingEventsQuery now limit t).length ≤ report.outboxPending) ∧
      ∀ now limit, (∀ r ∈ undelivered t, r.2.nextAttemptAt ≤ now) → report.outboxPending ≤ limit →
        (pendingEventsQuery now limit t).length = report.outboxPending := by
  intro t report
  have hinv : References t ∧ t.folderTree.Sound := by
    refine Machine.invariant (fun l : Locked Tables => References l.state ∧
      l.state.folderTree.Sound)
      (fun l s h => ⟨References.exec cfg s h.1, sound_exec cfg s h.2⟩) scopes
      ⟨.empty storeId, Parents.sound_empty⟩
  refine ⟨?_, (length_projectsQuery t).symm, (length_listQuery t).symm,
    fun now limit => (length_pendingEvents now limit t).1,
    fun now limit => (length_pendingEvents now limit t).2⟩
  change (foreignKeyCheck t).map _ = []
  rw [foreignKeyCheck_eq_nil hinv.1 hinv.2]
  rfl

/-- Two issues in a filed project. -/
def filedIssues : List Scope :=
  [.ensureProject "p" "/p" "p" 0, .ensureFolder "top" "Top" none 0,
    .ensureFolder "sub" "Sub" (some "top") 0, .setProjectFolder "p" (some "sub") 0,
    .create { id := some "a" } "p" 0 [] 1, .create { id := some "b" } "p" 0 [] 1]

theorem filedIssues_doctored :
    (doctorQuery {} (Scope.runs {} filedIssues (opened "s")).state).foreignKeyViolations = [] ∧
      (pendingEventsQuery 1 64 (Scope.runs {} filedIssues (opened "s")).state).length = 2 :=
  have h := doctor_finds_nothing {} "s" filedIssues {}
  ⟨h.1, h.2.2.2.2 1 64 (by decide) (by decide)⟩

end Marbles.Db
