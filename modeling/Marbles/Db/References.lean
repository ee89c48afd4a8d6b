import Marbles.Db.Action
import Marbles.Db.Outbox

/-!
# What the rows refer to

The references between the tables of the local store, declared or not: a project's root is
its own, a filed project and its folder exist, an issue's project exists, and so does the
issue of an event that waits for delivery. The history refers to nothing: an audit row may
outlive its issue, or name one that never was.

Only some of the references are declared in the schema. The others hold because every writer looks
first, and they are invariants in the same way. A project that is dropped takes its issues, their
edges, events and remote edges along, which is the one case in which a row that is referred to
goes.
-/

namespace Marbles.Db

/-- What the schema says about several rows at once: its foreign keys, and that no two projects
have one root. -/
structure References (t : Tables) : Prop where
  roots : ∀ slug slug' row row', t.project.find slug = some row → t.project.find slug' = some row' →
    row.root = row'.root → slug = slug'
  filed : ∀ project row, t.projectFolder.find project = some row →
    project ∈ t.project.keys ∧ row.folder ∈ t.folder.keys
  projects : ∀ id row, t.issue.find id = some row → row.project ∈ t.project.keys
  events : ∀ seq row, t.ledger.outbound.find seq = some row → row.issueId ∈ t.issue.keys

namespace References

variable {t t' : Tables}

theorem empty (storeId : String) : References (.empty storeId) where
  roots := fun _ _ _ _ h => absurd h nofun
  filed := fun _ _ h => absurd h nofun
  projects := fun _ _ h => absurd h nofun
  events := fun _ _ h => absurd h nofun

/-- Nothing that is referred to is taken away, and no row is added. -/
theorem same (h : References t) (hproject : t'.project = t.project) (hfolder : t'.folder = t.folder)
    (hfiled : t'.projectFolder = t.projectFolder) (hissue : t'.issue = t.issue)
    (hledger : t'.ledger = t.ledger) : References t' where
  roots := hproject ▸ h.roots
  filed := by
    rw [hproject, hfolder, hfiled]
    exact h.filed
  projects := by
    rw [hissue, hproject]
    exact h.projects
  events := by
    rw [hissue, hledger]
    exact h.events

/-- An event enters the outbox for an issue that exists. -/
theorem log (h : References t) (id : String) (ts : Int) (actor event detail : String) :
    References (t.logEvent id ts actor event detail) where
  roots := h.roots
  filed := h.filed
  projects := h.projects
  events := fun seq row hrow => by
    rw [find_logEvent] at hrow
    split at hrow
    · obtain ⟨issue, hissue, rfl⟩ := Option.map_eq_some_iff.mp hrow
      exact Table.mem_keys_of_find hissue
    · exact h.events seq row hrow

theorem setIssue (h : References t) (id : String) {f : IssueRow → IssueRow}
    (hf : ∀ row, (f row).project = row.project) : References (t.setIssue id f) where
  roots := h.roots
  filed := h.filed
  projects := fun k row hrow => by
    rw [Tables.setIssue_issue, Table.find_modify] at hrow
    split at hrow
    · obtain ⟨old, hold, rfl⟩ := Option.map_eq_some_iff.mp hrow
      rw [hf]
      exact h.projects k old hold
    · exact h.projects k row hrow
  events := fun seq row hrow => by
    rw [Tables.setIssue_issue, Table.keys_modify]
    exact h.events seq row hrow

/-- A round of deliveries. -/
theorem mark (h : References t) {f : Nat → OutboundRow → OutboundRow}
    (hf : ∀ seq row, (f seq row).issueId = row.issueId) :
    References { t with ledger := t.ledger.mark f } where
  roots := h.roots
  filed := h.filed
  projects := h.projects
  events := fun seq row hrow => by
    change (t.ledger.outbound.mapRows f).find seq = _ at hrow
    rw [Table.find_mapRows] at hrow
    obtain ⟨old, hold, rfl⟩ := Option.map_eq_some_iff.mp hrow
    rw [hf]
    exact h.events seq old hold

theorem sweep (now : Int) (claims : List (String × String × String)) (acc : SweepReport × Tables)
    (h : References acc.2) : References (claims.foldl (sweepRow now) acc).2 := by
  induction claims generalizing acc with
  | nil => exact h
  | cons claim claims ih =>
      rw [List.foldl_cons]
      refine ih _ ?_
      unfold sweepRow
      dsimp only
      split
      · exact h.log ..
      · refine log ?_ ..
        exact setIssue h _ fun _ => rfl

/-- A root that is taken is refused. -/
theorem ensureProject {slug root idPrefix : String} {ts : Int} (h : References t)
    (hok : ensureProjectTx slug root idPrefix ts t = .ok ((), t')) : References t' := by
  unfold ensureProjectTx at hok
  split at hok
  · exact absurd hok Outcome.fail_ne_ok
  rename_i hfree
  cases hok
  have hother : ∀ k row, t.project.find k = some row → k ≠ slug → row.root ≠ root := by
    intro k row hrow hk hroot
    refine hfree (List.any_eq_true.mpr ⟨(k, row), Table.mem_rows.mpr hrow, ?_⟩)
    simp [hk, hroot]
  -- the row of a project after the upsert
  have hfind : ∀ k row, (t.project.upsert slug ⟨root, idPrefix, ts⟩ fun row =>
      { row with root := root }).find k = some row →
      k = slug ∧ row.root = root ∨ k ≠ slug ∧ t.project.find k = some row := by
    intro k row hrow
    rw [Table.find_upsert] at hrow
    split at hrow
    · rename_i hk
      refine Or.inl ⟨hk, ?_⟩
      cases hold : t.project.find slug <;>
        · rw [hold] at hrow
          cases hrow
          rfl
    · rename_i hk
      exact Or.inr ⟨hk, hrow⟩
  have hkeys : ∀ k, k ∈ t.project.keys → k ∈ (t.project.upsert slug ⟨root, idPrefix, ts⟩ fun row =>
      { row with root := root }).keys := fun k hk => Table.mem_keys_upsert.mpr (Or.inr hk)
  refine ⟨fun k k' row row' hrow hrow' hroot => ?_, fun p row hrow => ?_, fun id row hrow => ?_,
    h.events⟩
  · rcases hfind k row hrow with ⟨rfl, heq⟩ | ⟨hk, hold⟩
    · rcases hfind k' row' hrow' with ⟨rfl, -⟩ | ⟨hk', hold'⟩
      · rfl
      · exact absurd (hroot.symm.trans heq) (hother k' row' hold' hk')
    · rcases hfind k' row' hrow' with ⟨rfl, heq'⟩ | ⟨hk', hold'⟩
      · exact absurd (hroot.trans heq') (hother k row hold hk)
      · exact h.roots k k' row row' hold hold' hroot
  · exact ⟨hkeys p (h.filed p row hrow).1, (h.filed p row hrow).2⟩
  · exact hkeys _ (h.projects id row hrow)

theorem ensureFolder {slug name : String} {parent : Option String} {now : Int} (h : References t)
    (hok : ensureFolderTx slug name parent now t = .ok ((), t')) : References t' := by
  obtain ⟨_, _, hok⟩ := Outcome.bind_eq_ok.mp hok
  cases hok
  refine ⟨h.roots, fun project row hrow => ?_, h.projects, h.events⟩
  obtain ⟨hproject, hfolder⟩ := h.filed project row hrow
  exact ⟨hproject, Table.mem_keys_upsert.mpr (Or.inr hfolder)⟩

theorem setProjectFolder {project : String} {folder : Option String} {now : Int} (h : References t)
    (hok : setProjectFolderTx project folder now t = .ok ((), t')) : References t' := by
  unfold setProjectFolderTx at hok
  -- Filing asks for the project and the folder, so the new row refers to both; taking the filing
  -- back removes a row.
  split at hok
  · exact absurd hok Outcome.fail_ne_ok
  rename_i hproject
  have hproject := not_not.mp hproject
  split at hok
  · split at hok
    · exact absurd hok Outcome.fail_ne_ok
    rename_i name _ hfolder
    have hfolder := not_not.mp hfolder
    cases hok
    refine ⟨h.roots, fun p row hrow => ?_, h.projects, h.events⟩
    rw [Table.find_upsert] at hrow
    split at hrow
    · rename_i hp
      refine ⟨hp ▸ hproject, ?_⟩
      have hname : row.folder = name := by
        cases hold : t.projectFolder.find project <;>
          · rw [hold] at hrow
            cases hrow
            rfl
      rw [hname]
      exact hfolder
    · exact h.filed p row hrow
  · cases hok
    refine ⟨h.roots, fun p row hrow => h.filed p row ?_, h.projects, h.events⟩
    rw [Table.find_erase] at hrow
    split at hrow
    · exact absurd hrow nofun
    · exact hrow

/-- Everything that refers to the issues of a dropped project goes with it. -/
theorem dropProject {slug : String} {removal : ProjectRemoval} (h : References t)
    (hok : dropProjectTx slug t = .ok (removal, t')) : References t' := by
  obtain ⟨mine, hmine, rfl⟩ := dropProjectTx_ok hok
  have herase : ∀ k row, (t.project.erase slug).find k = some row →
      t.project.find k = some row := by
    intro k row hrow
    rw [Table.find_erase] at hrow
    split at hrow
    · exact absurd hrow nofun
    · exact hrow
  have hkept : ∀ k, k ∈ t.project.keys → k ≠ slug → k ∈ (t.project.erase slug).keys := by
    intro k hk hne
    rw [Table.mem_keys_iff_isSome, Table.find_erase, if_neg hne]
    exact Table.mem_keys_iff_isSome.mp hk
  -- What stays refers to projects that stay: rows of the dropped project go, with their events, and
  -- no filing survives it.
  refine ⟨fun k k' row row' hrow hrow' => h.roots k k' row row' (herase k row hrow)
    (herase k' row' hrow'),
    fun p row hrow => ?_, fun id row hrow => ?_, fun seq row hrow => ?_⟩
  · rw [Table.find_erase] at hrow
    split at hrow
    · exact absurd hrow nofun
    · rename_i hne
      exact ⟨hkept p (h.filed p row hrow).1 hne, (h.filed p row hrow).2⟩
  · rw [Table.find_filter, Option.filter_eq_some_iff] at hrow
    exact hkept row.project (h.projects id row hrow.1) (by simpa using hrow.2)
  · change (t.ledger.outbound.filter fun _ row => !mine row.issueId).find seq = _ at hrow
    rw [Table.find_filter, Option.filter_eq_some_iff] at hrow
    obtain ⟨issue, hissue⟩ := Table.mem_keys.mp (h.events seq row hrow.1)
    have hnot : issue.project ≠ slug := by
      have hmine' : (!mine row.issueId) = true := hrow.2
      simpa [hmine, hissue] using hmine'
    refine Table.mem_keys_filter.mpr ⟨issue, hissue, by simpa using hnot⟩

theorem create {spec : NewIssue} {project : String} {available : Int} {draws : List String}
    {now : Int} {id : String} (h : References t)
    (hok : createTx spec project available draws now t = .ok (id, t')) : References t' := by
  obtain ⟨metadata, hproject, -, hfresh, -, -, rfl⟩ := createTx_ok hok
  refine log ?_ ..
  refine ⟨h.roots, h.filed, fun k row hrow => ?_, fun seq row hrow => ?_⟩
  · rw [Table.find_insert, hfresh] at hrow
    split at hrow
    · cases hrow
      exact hproject
    · exact h.projects k row hrow
  · exact Table.mem_keys_insert.mpr (Or.inr (h.events seq row hrow))

/-- A transaction that fails leaves everything as it was. -/
theorem tx {α : Type} {f : Tx α} {l : Locked Tables} (h : References l.state)
    (hf : ∀ a t', f l.state = .ok (a, t') → References t') :
    References (Locked.tx f l).2.state := Locked.tx_preserves h hf

/-- Every lock scope keeps the references. -/
theorem exec (cfg : Config) (s : Scope) {l : Locked Tables} (h : References l.state) :
    References (s.exec cfg l).2.state := by
  -- The scopes that add or remove rows have lemmas of their own; the others fill columns of rows
  -- that stay and log an event.
  cases s with
  | ensureProject slug root idPrefix ts => exact h.tx fun _ _ hok => h.ensureProject hok
  | dropProject slug => exact h.tx fun _ _ hok => h.dropProject hok
  | ensureFolder slug name parent now => exact h.tx fun _ _ hok => h.ensureFolder hok
  | setProjectFolder project folder now => exact h.tx fun _ _ hok => h.setProjectFolder hok
  | create spec project available draws now => exact h.tx fun _ _ hok => h.create hok
  | markEventDelivered seq now | markEventFailed seq now error =>
      refine h.tx fun _ t' hok => ?_
      cases hok
      refine h.mark fun k row => ?_
      split <;> rfl
  | update id patch actor now =>
      refine h.tx fun _ t' hok => ?_
      unfold updateTx at hok
      obtain ⟨current, -, hok⟩ := Outcome.bind_eq_ok.mp hok
      obtain ⟨next, -, hok⟩ := Outcome.bind_eq_ok.mp hok
      obtain ⟨status, -, hok⟩ := Outcome.bind_eq_ok.mp hok
      cases hok
      have hset : References (l.state.setIssue id fun row => row.write next status) :=
        h.setIssue id fun _ => rfl
      refine References.log ?_ ..
      split
      · exact hset.log ..
      · exact hset
  | setLabels id labels actor now =>
      refine h.tx fun _ t' hok => ?_
      obtain ⟨_, _, hok⟩ := Outcome.bind_eq_ok.mp hok
      cases hok
      refine References.log ?_ ..
      exact h.setIssue _ fun _ => rfl
  | addDep child parent actor now =>
      refine h.tx fun _ t' hok => ?_
      obtain ⟨-, -, -, rfl⟩ := addDepTx_ok hok
      refine References.log ?_ ..
      refine References.setIssue ?_ _ fun _ => rfl
      exact h.same rfl rfl rfl rfl rfl
  | removeDep child parent actor now =>
      refine h.tx fun _ t' hok => ?_
      cases hok
      refine References.log ?_ ..
      exact h.same rfl rfl rfl rfl rfl
  | addRemoteDep child dependency actor now =>
      refine h.tx fun _ t' hok => ?_
      obtain ⟨_, _, hok⟩ := Outcome.bind_eq_ok.mp hok
      cases hok
      refine References.log ?_ ..
      refine References.setIssue ?_ _ fun _ => rfl
      exact h.same rfl rfl rfl rfl rfl
  | removeRemoteDep child canonicalRef actor now =>
      refine h.tx fun _ t' hok => ?_
      cases hok
      refine References.log ?_ ..
      exact h.same rfl rfl rfl rfl rfl
  | claim req ttl now =>
      refine h.tx fun _ t' hok => ?_
      obtain ⟨row, -, -, -, rfl⟩ := claimTx_ok hok
      refine References.log ?_ ..
      exact h.setIssue _ fun _ => rfl
  | touch id assignee now =>
      refine h.tx fun _ t' hok => ?_
      obtain ⟨row, ttl, -, -, -, -, rfl⟩ := touchTx_ok hok
      refine References.log ?_ ..
      exact h.setIssue _ fun _ => rfl
  | release id actor now =>
      refine h.tx fun _ t' hok => ?_
      cases hok
      refine References.log ?_ ..
      exact h.setIssue _ fun _ => rfl
  | sweep now order =>
      refine h.tx fun _ t' hok => ?_
      unfold sweepTx at hok
      obtain ⟨claims, -, hok⟩ := Outcome.bind_eq_ok.mp hok
      have hswept := sweep now claims (⟨[], []⟩, l.state) h
      rwa [Except.ok.inj hok] at hswept
  | closeUnchecked id reason evidence actor now =>
      refine h.tx fun _ t' hok => ?_
      obtain ⟨row, -, rfl⟩ := closeUncheckedTx_ok hok
      refine References.log ?_ ..
      exact h.setIssue _ fun _ => rfl
  | _ =>
      change References (Locked.query _ l).2.state
      rw [Locked.query_state]
      exact h

end References

/-- The references of every reachable store hold. -/
theorem Reachable.references {cfg : Config} {s : Locked Tables} (h : Reachable cfg s) :
    References s.state := by
  obtain ⟨storeId, actions, rfl⟩ := h
  refine Machine.invariant (fun s : Locked Tables => References s.state) (fun s a hs => ?_) actions
    (References.empty storeId)
  exact @Prog.run_invariant _ _ _ _ (fun s : Locked Tables => References s.state)
    (fun c s hs => References.exec cfg c hs) (a.prog cfg) _ hs

end Marbles.Db
