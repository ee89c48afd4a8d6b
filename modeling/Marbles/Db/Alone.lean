import Marbles.Db.Effect

/-!
# A caller alone

With no other caller around, the lock scopes of a method run one after the other. Where
nothing can fail after the first write, the method is then one transaction; `alone` says
which one for every call of the contract, and `perform_eq` that it is.

The one call that is not is a claim whose lease cannot be computed: it panics before it
takes the lock, where a transaction that panics would poison it.

`bindRead` and `bindWrite` are the two ways in which a method of several scopes becomes one
transaction. The second has a side condition, which is where a method could leave half of its work
behind; it is met because every check comes before the first write.
-/

namespace Marbles.Db

/-- A query as a transaction. -/
def Tx.read {α : Type} (q : Tables → Result α) : Tx α := fun t => (q t).map fun a => (a, t)

/-- A transaction with another result. -/
def Tx.map {α β : Type} (g : α → β) (f : Tx α) : Tx β := fun t => (f t).map fun p => (g p.1, p.2)

/-- A result without touching the tables. -/
def Tx.ret {α : Type} (r : Result α) : Tx α := Tx.read fun _ => r

theorem Tx.map_eq_ok {α β : Type} {g : α → β} {f : Tx α} {t t' : Tables} {b : β} :
    Tx.map g f t = .ok (b, t') ↔ ∃ a, f t = .ok (a, t') ∧ g a = b := by
  unfold Tx.map
  cases f t with
  | ok p =>
      obtain ⟨a, s⟩ := p
      simp [Except.map, and_comm]
  | error e => simp [Except.map]

theorem Tx.read_eq_ok {α : Type} {q : Tables → Result α} {t t' : Tables} {a : α} :
    Tx.read q t = .ok (a, t') ↔ q t = .ok a ∧ t = t' := by
  unfold Tx.read
  cases q t <;> simp [Except.map]

/-! ### Methods that are one transaction -/

/-- With no other caller around, `m` is the transaction `f`. -/
structure IsTx {α : Type} (cfg : Config) (m : DbM α) (f : Tx α) : Prop where
  eq : ∀ t, runM cfg m (.new t) = Locked.finish t (f t)

namespace IsTx

variable {cfg : Config} {α β : Type}

theorem tx {s : Scope} {f : Tx s.Ret} (h : s.exec cfg = Locked.tx f) : IsTx cfg (call s) f := by
  refine ⟨fun t => ?_⟩
  change s.exec cfg (.new t) = _
  rw [h, Locked.tx_new]

theorem query {s : Scope} {q : Tables → Result s.Ret} (h : s.exec cfg = Locked.query q) :
    IsTx cfg (call s) (.read q) := by
  refine ⟨fun t => ?_⟩
  change s.exec cfg (.new t) = _
  rw [h, Locked.query_new]
  rfl

theorem throw (e : Error) : IsTx cfg (MonadExcept.throw (.fail e) : DbM α)
    (.ret (.error (.fail e))) :=
  ⟨fun _ => rfl⟩

theorem pure (a : α) : IsTx cfg (Pure.pure a) (.ret (.ok a)) := ⟨fun _ => rfl⟩

theorem map {m : DbM α} {f : Tx α} (g : α → β) (h : IsTx cfg m f) :
    IsTx cfg (g <$> m) (.map g f) := by
  refine ⟨fun t => ?_⟩
  rw [map_eq_pure_bind, runM, Prog.runE_bind, ← runM, h.eq t, Tx.map]
  cases f t with
  | ok p => rfl
  | error e => cases e <;> rfl

theorem unit {m : DbM Unit} {f : Tx Unit} (h : IsTx cfg m f) :
    IsTx cfg (do m; Pure.pure Reply.unit) (.map (fun _ => .unit) f) := by
  have hmap := h.map fun _ => Reply.unit
  rwa [map_eq_pure_bind] at hmap

/-- What comes after a read starts from the same tables. -/
theorem bindRead {m : DbM α} {q : Tables → Result α} {k : α → DbM β} {f : α → Tx β}
    (h : IsTx cfg m (.read q)) (hk : ∀ a, IsTx cfg (k a) (f a)) :
    IsTx cfg (m >>= k) fun t => q t >>= fun a => f a t := by
  refine ⟨fun t => ?_⟩
  change _ = Locked.finish t (q t >>= fun a => f a t)
  rw [runM, Prog.runE_bind, ← runM, h.eq t, Tx.read]
  cases q t with
  | ok a => exact (hk a).eq t
  | error e => cases e <;> rfl

/-- What comes after a write must not fail, or it would leave the write behind. -/
theorem bindWrite {m : DbM α} {f : Tx α} {k : α → DbM β} {g : α → Tx β} (h : IsTx cfg m f)
    (hk : ∀ a, IsTx cfg (k a) (g a))
    (hok : ∀ t a t', f t = .ok (a, t') → ∃ r, g a t' = .ok r) :
    IsTx cfg (m >>= k) fun t => f t >>= fun p => g p.1 p.2 := by
  refine ⟨fun t => ?_⟩
  change _ = Locked.finish t (f t >>= fun p => g p.1 p.2)
  rw [runM, Prog.runE_bind, ← runM, h.eq t]
  cases hf : f t with
  | ok p =>
      obtain ⟨a, t'⟩ := p
      obtain ⟨⟨b, t''⟩, hg⟩ := hok t a t' hf
      have hrun := (hk a).eq t'
      rw [hg] at hrun
      change runM cfg (k a) (.new t') = Locked.finish t (g a t')
      rw [hrun, hg]
      rfl
  | error e => cases e <;> rfl

theorem ite {c : Prop} [Decidable c] {m m' : DbM α} {f f' : Tx α} (h : IsTx cfg m f)
    (h' : IsTx cfg m' f') : IsTx cfg (if c then m else m') (if c then f else f') := by
  split
  · exact h
  · exact h'

end IsTx

/-! ### The transaction of each call -/

section Alone

variable (cfg : Config)

/-- The checks before the lock and the transaction, in one. -/
def ensureFolderAlone (folder : Folder) (now : Int) : Tx Unit :=
  if trim folder.slug = "" then .ret (Outcome.fail (.bad "folder slug is empty"))
  else if trim folder.name = "" then .ret (Outcome.fail (.bad "folder name is empty"))
  else ensureFolderTx (trim folder.slug) (trim folder.name) (trimmed folder.parent) now

/-- The grace is added before the lock is taken, which nobody can see when nobody else is there. -/
def createAlone (spec : NewIssue) (draws : List String) (now : Int) : Tx String :=
  match spec.project with
  | none => .ret (Outcome.fail (.bad "create requires a project"))
  | some project =>
      createTx spec project
        (spec.availableAt.getD (wrapI64 (now + cfg.policy.creationGraceSeconds))) draws now

/-- The issues `ready` returns. -/
def readyIssues (project : Option String) (now : Int) (t : Tables) : List Issue :=
  (select t (eligible t project now)).map fun r => t.view r.1 r.2

/-- The issue is read again after the write; alone it is the one that was written. -/
def updateAlone (id : String) (patch : IssuePatch) (actor : String) (now : Int) : Tx Issue :=
  fun t => do
    patch.checkStatus
    let (_, t) ← updateTx cfg id patch actor now t
    Tx.read (getQuery id) t

/-- Both scopes as one: nothing can change the labels between reading and writing them. -/
def addLabelAlone (id label actor : String) (now : Int) : Tx Unit := fun t => do
  let issue ← getQuery id t
  match addedLabel issue.labels label with
  | some labels => setLabelsTx id labels actor now t
  | none => pure ((), t)

/-- Both scopes as one, and recorded whether the label was there or not. -/
def removeLabelAlone (id label actor : String) (now : Int) : Tx Unit := fun t => do
  let issue ← getQuery id t
  setLabelsTx id (removedLabel issue.labels label) actor now t

/-- An edge to oneself is refused before the lock. -/
def addDepAlone (child parent actor : String) (now : Int) : Tx Unit :=
  if child = parent then .ret (Outcome.fail (.cycle child parent))
  else addDepTx child parent actor now

/-- A lease that cannot be computed is a panic before the lock, so it poisons nothing. -/
def claimAlone (req : ClaimRequest) (now : Int) : Tx ClaimReceipt :=
  match req.ttl cfg.week cfg.policy now with
  | none => .ret Outcome.abort
  | some ttl => claimTx req ttl now

/-- The close and the read of its answer as one. -/
def closeUncheckedAlone (id : String) (reason : Option String) (evidence : List Evidence)
    (actor : String) (now : Int) : Tx Issue := fun t => do
  let (_, t) ← closeUncheckedTx id reason evidence actor now t
  Tx.read (getQuery id) t

/-- The check of the blockers and the close as one: alone there is no gap between them. -/
def closeAlone (id : String) (reason : Option String) (evidence : List Evidence)
    (actor : String) (now : Int) : Tx Issue :=
  if evidence.isEmpty then .ret (Outcome.fail (.noEvidence id))
  else fun t => do
    checkBlockersQuery id t
    closeUncheckedAlone id reason evidence actor now t

/-- The four scopes of `supersede` as one. The close comes before the label, so the label is written
to a closed issue. -/
def supersedeAlone (id replacement actor : String) (now : Int) : Tx Unit := fun t => do
  let _ ← getQuery replacement t
  let reason := s!"superseded by {replacement}"
  let (_, t) ← closeUncheckedAlone id (some reason) [Evidence.ack reason] actor now t
  addLabelAlone id s!"supersedes:{replacement}" actor now t

/-- What a call does when no other caller is around. A method of several scopes is one step here,
which is what it amounts to without others. -/
def alone : Op → Tx Reply
  | .ensureProject slug root idPrefix ts =>
      .map (fun _ => .unit) (ensureProjectTx slug root idPrefix ts)
  | .dropProject slug => .map .removal (dropProjectTx slug)
  | .projects => .map .projects (.read fun t => .ok (projectsQuery t))
  | .ensureFolder folder now => .map (fun _ => .unit) (ensureFolderAlone folder now)
  | .setProjectFolder project folder now =>
      .map (fun _ => .unit) (setProjectFolderTx project folder now)
  | .folderView => .map .folders (.read fun t => .ok (folderViewQuery t))
  | .pendingEvents now limit => .map .events (.read fun t => .ok (pendingEventsQuery now limit t))
  | .markEventDelivered seq now => .map (fun _ => .unit) (markEventDeliveredTx seq now)
  | .markEventFailed seq nextAttemptAt error =>
      .map (fun _ => .unit) (markEventFailedTx seq nextAttemptAt error)
  | .create spec draws now => .map .id (createAlone cfg spec draws now)
  | .get id => .map .issue (.read (getQuery id))
  | .list project all onlyId => .map .issues (.read fun t => .ok (listQuery project all onlyId t))
  | .ready project now => .map .issues (.read fun t => .ok (readyIssues project now t))
  | .update id patch actor now => .map .issue (updateAlone cfg id patch actor now)
  | .addLabel id label actor now => .map (fun _ => .unit) (addLabelAlone id label actor now)
  | .removeLabel id label actor now => .map (fun _ => .unit) (removeLabelAlone id label actor now)
  | .addDep child parent actor now => .map (fun _ => .unit) (addDepAlone child parent actor now)
  | .removeDep child parent actor now => .map (fun _ => .unit) (removeDepTx child parent actor now)
  | .claim req now => .map .receipt (claimAlone cfg req now)
  | .touch id assignee now => .map .expiry (touchTx cfg id assignee now)
  | .release id actor now => .map (fun _ => .unit) (releaseTx id actor now)
  | .sweep now order => .map .swept (sweepTx now order)
  | .close id reason evidence actor now => .map .issue (closeAlone id reason evidence actor now)
  | .supersede id replacement actor now =>
      .map (fun _ => .unit) (supersedeAlone id replacement actor now)
  | .history id => .map .history (.read fun t => .ok (historyQuery id t))
  | .stats => .map .stats (.read fun t => .ok (statsQuery t))
  | .prometheusMetrics now => .map .text (.read (prometheusMetricsQuery now))

end Alone

/-! ### Every call is its transaction -/

@[simp] theorem mem_select {t : Tables} {p : String → IssueRow → Bool} {r : String × IssueRow} :
    r ∈ select t p ↔ t.issue.find r.1 = some r.2 ∧ p r.1 r.2 = true := by
  rw [select, Sorting.mem_sortOn, List.mem_filter, ← Table.mem_rows]

/-- A query returns a row once. -/
theorem nodup_select (t : Tables) (p : String → IssueRow → Bool) :
    ((select t p).map Prod.fst).Nodup := by
  have hperm := Sorting.perm_sortOn (fun r : String × IssueRow =>
    listKey r.2.priority r.2.createdAt r.1) (t.issue.rows.filter fun r => p r.1 r.2)
  refine (hperm.map Prod.fst).nodup_iff.mpr ?_
  exact (List.filter_sublist.map Prod.fst).nodup t.issue.nodup

theorem getQuery_find {t : Tables} {id : String} {row : IssueRow} (h : t.issue.find id = some row) :
    getQuery id t = .ok (t.view id row) := by
  rw [getQuery, Tables.rowToIssue, h]
  rfl

theorem getQuery_eq_ok {t : Tables} {id : String} {issue : Issue} :
    getQuery id t = .ok issue ↔ ∃ row, t.issue.find id = some row ∧ t.view id row = issue := by
  rw [getQuery, Outcome.ofOption_eq_ok, rowToIssue_eq_some]

theorem read_get_ok {t : Tables} {id : String} (h : id ∈ t.issue.keys) :
    ∃ r, Tx.read (getQuery id) t = .ok r := by
  obtain ⟨row, hrow⟩ := Table.mem_keys.mp h
  exact ⟨(t.view id row, t), Tx.read_eq_ok.mpr ⟨getQuery_find hrow, rfl⟩⟩

/-- Reading the selected rows one by one reads the selected rows. -/
theorem mapM_getQuery {t : Tables} {rows : List (String × IssueRow)}
    (h : ∀ r ∈ rows, t.issue.find r.1 = some r.2) :
    (rows.map Prod.fst).mapM (fun id => getQuery id t) =
      (.ok (rows.map fun r => t.view r.1 r.2) : Result (List Issue)) := by
  induction rows with
  | nil => rfl
  | cons r rows ih =>
      have hr := getQuery_find (h r (List.mem_cons_self ..))
      have hrows := ih fun r hr => h r (List.mem_cons_of_mem _ hr)
      rw [List.map_cons, List.mapM_cons, hr, hrows]
      rfl

theorem isTx_get (cfg : Config) (id : String) : IsTx cfg (get id) (.read (getQuery id)) :=
  .query rfl

theorem isTx_mapM_get (cfg : Config) (ids : List String) :
    IsTx cfg (ids.mapM get) (.read fun t => ids.mapM fun id => getQuery id t) := by
  induction ids with
  | nil => exact .pure _
  | cons id ids ih =>
      rw [List.mapM_cons]
      have hrest : ∀ issue : Issue, IsTx cfg (do let issues ← ids.mapM get; pure (issue :: issues))
          (.map (issue :: ·) (.read fun t => ids.mapM fun id => getQuery id t)) := by
        intro issue
        have hmap := ih.map (issue :: ·)
        rwa [map_eq_pure_bind] at hmap
      have h := (isTx_get cfg id).bindRead hrest
      refine ⟨fun t => ?_⟩
      rw [h.eq t]
      congr 1
      simp only [Tx.read, Tx.map, List.mapM_cons]
      cases getQuery id t with
      | error e => rfl
      | ok issue =>
          cases ids.mapM fun id => getQuery id t with
          | error e => rfl
          | ok issues => rfl

theorem isTx_ready (cfg : Config) (project : Option String) (now : Int) :
    IsTx cfg (ready project now) (.read fun t => .ok (readyIssues project now t)) := by
  refine ⟨fun t => ?_⟩
  have h := IsTx.bindRead (@IsTx.query cfg (.readyIds project now) _ rfl) (isTx_mapM_get cfg)
  refine (h.eq t).trans ?_
  change Locked.finish t (Tx.read (fun t => (readyIdsQuery project now t).mapM
    fun id => getQuery id t) t) = _
  simp only [Tx.read, readyIdsQuery, mapM_getQuery fun r hr => (mem_select.mp hr).1]
  rfl

theorem isTx_create (cfg : Config) (spec : NewIssue) (draws : List String) (now : Int) :
    IsTx cfg (create cfg spec draws now) (createAlone cfg spec draws now) := by
  unfold create createAlone
  cases spec.project with
  | none => exact .throw _
  | some project => exact .tx rfl

theorem isTx_checkStatus (cfg : Config) (patch : IssuePatch) :
    IsTx cfg (liftResult patch.checkStatus) (.read fun _ => patch.checkStatus) := by
  refine ⟨fun t => ?_⟩
  unfold IssuePatch.checkStatus
  cases patch.status with
  | none => rfl
  | some status =>
      by_cases h : status ∈ allStatuses
      · simp only [h, if_true]
        rfl
      · simp only [h, if_false]
        rfl

theorem isTx_update (cfg : Config) (id : String) (patch : IssuePatch) (actor : String)
    (now : Int) : IsTx cfg (update id patch actor now) (updateAlone cfg id patch actor now) := by
  have hwrite := IsTx.bindWrite (@IsTx.tx cfg (.update id patch actor now) _ rfl)
    (fun _ => isTx_get cfg id) (fun t _ t' h => by
      obtain ⟨row, next, status, hrow, -, -, hissue, -⟩ := updateTx_ok h
      exact read_get_ok (by rw [hissue, Table.keys_modify]; exact Table.mem_keys_of_find hrow))
  exact (isTx_checkStatus cfg patch).bindRead fun _ => hwrite

theorem isTx_addLabel (cfg : Config) (id label actor : String) (now : Int) :
    IsTx cfg (addLabel id label actor now) (addLabelAlone id label actor now) := by
  refine (isTx_get cfg id).bindRead fun issue => ?_
  cases addedLabel issue.labels label with
  | some labels => exact .tx rfl
  | none => exact .pure ()

theorem isTx_removeLabel (cfg : Config) (id label actor : String) (now : Int) :
    IsTx cfg (removeLabel id label actor now) (removeLabelAlone id label actor now) :=
  (isTx_get cfg id).bindRead fun _ => .tx rfl

theorem isTx_addDep (cfg : Config) (child parent actor : String) (now : Int) :
    IsTx cfg (addDep child parent actor now) (addDepAlone child parent actor now) :=
  .ite (.throw _) (.tx rfl)

theorem isTx_closeUnchecked (cfg : Config) (id : String) (reason : Option String)
    (evidence : List Evidence) (actor : String) (now : Int) :
    IsTx cfg (closeUnchecked id reason evidence actor now)
      (closeUncheckedAlone id reason evidence actor now) := by
  refine IsTx.bindWrite (IsTx.tx rfl) (fun _ => isTx_get cfg id) fun t _ t' h => ?_
  obtain ⟨row, hrow, rfl⟩ := closeUncheckedTx_ok h
  refine read_get_ok ?_
  rw [Tables.logEvent_issue, Tables.setIssue_issue, Table.keys_modify]
  exact Table.mem_keys_of_find hrow

theorem isTx_close (cfg : Config) (id : String) (reason : Option String)
    (evidence : List Evidence) (actor : String) (now : Int) :
    IsTx cfg (close id reason evidence actor now) (closeAlone id reason evidence actor now) :=
  .ite (.throw _) (IsTx.bindRead (IsTx.query rfl) fun _ => isTx_closeUnchecked cfg ..)

/-- Labelling an issue that is there does not fail. -/
theorem addLabelAlone_ok {t : Tables} {id label actor : String} {now : Int}
    (h : id ∈ t.issue.keys) : ∃ r, addLabelAlone id label actor now t = .ok r := by
  obtain ⟨row, hrow⟩ := Table.mem_keys.mp h
  have hset : ∀ labels, ∃ r, setLabelsTx id labels actor now t = .ok r := by
    intro labels
    rw [setLabelsTx, Tables.rowToIssue, hrow]
    exact ⟨_, rfl⟩
  unfold addLabelAlone
  rw [getQuery_find hrow]
  cases hadd : addedLabel row.labels label with
  | none =>
      refine ⟨((), t), ?_⟩
      change (match addedLabel row.labels label with | some labels => _ | none => _) = _
      rw [hadd]
      rfl
  | some labels =>
      obtain ⟨r, hr⟩ := hset labels
      refine ⟨r, ?_⟩
      change (match addedLabel row.labels label with | some labels => _ | none => _) = _
      rw [hadd]
      exact hr

theorem isTx_supersede (cfg : Config) (id replacement actor : String) (now : Int) :
    IsTx cfg (supersede id replacement actor now) (supersedeAlone id replacement actor now) := by
  refine (isTx_get cfg replacement).bindRead fun _ => ?_
  refine (isTx_closeUnchecked cfg ..).bindWrite (fun _ => isTx_addLabel cfg ..) fun t _ t' h => ?_
  obtain ⟨⟨_, t₁⟩, h₁, hread⟩ := Outcome.bind_eq_ok.mp h
  obtain ⟨row, hrow, rfl⟩ := closeUncheckedTx_ok h₁
  obtain ⟨-, rfl⟩ := Tx.read_eq_ok.mp hread
  refine addLabelAlone_ok ?_
  rw [Tables.logEvent_issue, Tables.setIssue_issue, Table.keys_modify]
  exact Table.mem_keys_of_find hrow

/-- The lease of a claim is defined, or the call is not a claim. -/
def LeaseDefined (cfg : Config) : Op → Prop
  | .claim req now => (req.ttl cfg.week cfg.policy now).isSome = true
  | _ => True

theorem isTx_method {cfg : Config} {op : Op} (h : LeaseDefined cfg op) :
    IsTx cfg (method cfg op) (alone cfg op) := by
  cases op with
  | ensureFolder folder now =>
      exact .unit (.ite (.throw _) (.ite (.throw _) (.tx rfl)))
  | create spec draws now => exact (isTx_create ..).map _
  | get id => exact (isTx_get cfg id).map _
  | ready project now => exact (isTx_ready cfg project now).map _
  | update id patch actor now => exact (isTx_update ..).map _
  | addLabel id label actor now => exact .unit (isTx_addLabel ..)
  | removeLabel id label actor now => exact .unit (isTx_removeLabel ..)
  | addDep child parent actor now => exact .unit (isTx_addDep ..)
  | claim req now =>
      refine .map _ ?_
      obtain ⟨ttl, httl⟩ := Option.isSome_iff_exists.mp h
      unfold claim claimAlone
      rw [httl]
      exact .tx rfl
  | close id reason evidence actor now => exact (isTx_close ..).map _
  | supersede id replacement actor now => exact .unit (isTx_supersede ..)
  | ensureProject | setProjectFolder | markEventDelivered | markEventFailed | removeDep
  | release => exact .unit (.tx rfl)
  | dropProject | touch | sweep => exact .map _ (.tx rfl)
  | prometheusMetrics => exact .map _ (.query rfl)
  | projects | folderView | pendingEvents | list | history | stats => exact .map _ (.query rfl)

/-- On a healthy lock a call is its transaction. -/
theorem perform_eq {cfg : Config} {op : Op} (h : LeaseDefined cfg op) (t : Tables) :
    perform cfg op (.new t) = Locked.finish t (alone cfg op t) := (isTx_method h).eq t

/-- A claim whose lease cannot be computed panics before it takes the lock. -/
theorem perform_claim_abort {cfg : Config} {req : ClaimRequest} {now : Int}
    (h : req.ttl cfg.week cfg.policy now = none) (s : Locked Tables) :
    perform cfg (.claim req now) s = (.error .abort, s) := by
  simp only [perform, method, claim, h]
  rfl

end Marbles.Db
