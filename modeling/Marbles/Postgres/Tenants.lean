import Marbles.Postgres.Store

/-!
# Companies do not see each other

Every method of the hosted store depends on the rows of its own company only and leaves
the rows of every other company alone. Each query has a lemma saying that two databases
with the same rows of the company answer it alike; each transaction body is then confined
because its statements are, one after the other.

Noninterference is a property of two runs, and it is proved for programs: two databases that agree
on a company are taken to results that agree, and other companies are left alone. Both halves are
closed under binding, so a body needs one line for each of its statements. A query over several
tables has to name the company for each of them, which is what its lemma checks.
-/

namespace Marbles.Postgres

open Tenancy

variable {server : Server} {company : String}

/-! ### Queries -/

section Queries

variable {db db' : Database} (h : db.rowsOf company = db'.rowsOf company)
include h

theorem project_congr (slug : String) :
    db.project.find (company, slug) = db'.project.find (company, slug) :=
  congrFun (congrArg Rows.project h) slug

theorem folder_congr (slug : String) :
    db.folder.find (company, slug) = db'.folder.find (company, slug) :=
  congrFun (congrArg Rows.folder h) slug

theorem history_congr (seq : Int) :
    db.history.find (company, seq) = db'.history.find (company, seq) :=
  congrFun (congrArg Rows.history h) seq

theorem outbound_congr (seq : Int) :
    db.outbound.find (company, seq) = db'.outbound.find (company, seq) :=
  congrFun (congrArg Rows.outbound h) seq

theorem issueRow_congr (id : String) : db.issueRow company id = db'.issueRow company id :=
  congrFun (congrArg Rows.issue h) id

theorem openBlockers_congr (id : String) :
    db.openBlockers company id = db'.openBlockers company id := by
  unfold Database.openBlockers
  rw [Table.join_congr (congrArg Rows.dep h) (congrArg Rows.issue h)]
  intro d p hon
  simp only [Bool.and_eq_true, decide_eq_true_eq] at hon
  obtain ⟨⟨⟨⟨hp, -⟩, hd⟩, -⟩, -⟩ := hon
  exact ⟨hd, hp.trans hd⟩

theorem openDependents_congr (id : String) :
    db.openDependents company id = db'.openDependents company id := by
  unfold Database.openDependents
  rw [Table.join_congr (congrArg Rows.dep h) (congrArg Rows.issue h)]
  intro d c hon
  simp only [Bool.and_eq_true, decide_eq_true_eq] at hon
  obtain ⟨⟨⟨⟨hc, -⟩, hd⟩, -⟩, -⟩ := hon
  exact ⟨hd, hc.trans hd⟩

theorem dependsOn_congr (id : String) :
    db.dependsOn server company id = db'.dependsOn server company id := by
  unfold Database.dependsOn
  rw [Table.select_congr (congrArg Rows.dep h) fun _ _ => rfl]

theorem reachable_congr (source target : String) :
    db.reachable company source target = db'.reachable company source target := by
  unfold Database.reachable
  rw [Table.select_congr (congrArg Rows.dep h) fun _ _ => rfl]

theorem folderReaches_congr (source target : String) :
    db.folderReaches company source target = db'.folderReaches company source target := by
  unfold Database.folderReaches
  rw [Table.select_congr (congrArg Rows.folder h) fun _ _ => rfl]

theorem nextSeq_congr : db.nextSeq company = db'.nextSeq company := by
  unfold Database.nextSeq
  rw [Table.select_congr (congrArg Rows.history h) fun _ _ => rfl]

theorem getIssue_congr (id : String) :
    db.getIssue server company id = db'.getIssue server company id := by
  unfold Database.getIssue Database.rowToIssue
  rw [issueRow_congr h, openBlockers_congr h, openDependents_congr h, dependsOn_congr h]

theorem selectIds_congr {p p' : String × String → IssueRow → Bool}
    (hp : ∀ k row, p (company, k) row = p' (company, k) row) :
    selectIds server company p db = selectIds server company p' db' := by
  unfold selectIds
  rw [Table.select_congr (congrArg Rows.issue h) hp]

theorem eligible_congr (project : Option String) (now : Int) (id : String) (row : IssueRow) :
    eligible project now db (company, id) row = eligible project now db' (company, id) row := by
  unfold eligible
  rw [openBlockers_congr h]

theorem firstEvent_congr (p : Db.HistoryRow → Bool) (id : String) :
    firstEvent company p id db = firstEvent company p id db' := by
  unfold firstEvent
  rw [Table.select_congr (congrArg Rows.history h) fun _ _ => rfl]

end Queries

theorem reads_projectsQuery :
    Reads Database.rowsOf company (projectsQuery server company) := fun h => by
  unfold projectsQuery
  rw [Table.select_congr (congrArg Rows.project h) fun _ _ => rfl]

theorem reads_folderViewQuery :
    Reads Database.rowsOf company (folderViewQuery server company) := fun h => by
  unfold folderViewQuery
  rw [Table.select_congr (congrArg Rows.folder h) fun _ _ => rfl,
    Table.select_congr (congrArg Rows.projectFolder h) fun _ _ => rfl]

theorem reads_pendingEventsQuery (now : Int) (limit : Nat) :
    Reads Database.rowsOf company (pendingEventsQuery company now limit) := fun h => by
  unfold pendingEventsQuery
  rw [Table.select_congr (congrArg Rows.outbound h) fun _ _ => rfl]

theorem reads_listQuery (project : Option String) (all : Bool) (onlyId : Option String) :
    Reads Database.rowsOf company (listQuery server company project all onlyId) := fun h => by
  unfold listQuery
  rw [selectIds_congr h fun _ _ => rfl]
  exact congrArg (List.mapM · _) (funext fun id => getIssue_congr h id)

theorem reads_readyQuery (project : Option String) (now : Int) :
    Reads Database.rowsOf company (readyQuery server company project now) := fun h => by
  unfold readyQuery
  rw [selectIds_congr h (eligible_congr h project now)]
  exact congrArg (List.mapM · _) (funext fun id => getIssue_congr h id)

theorem reads_lapsedQuery (now : Int) (order : List String) :
    Reads Database.rowsOf company (lapsedQuery company now order) := fun h => by
  unfold lapsedQuery
  rw [Table.select_congr (congrArg Rows.issue h) fun _ _ => rfl]

theorem reads_historyQuery (id : String) :
    Reads Database.rowsOf company (historyQuery company id) := fun h => by
  unfold historyQuery
  rw [Table.select_congr (congrArg Rows.history h) fun _ _ => rfl]

theorem reads_statsQuery : Reads Database.rowsOf company (statsQuery company) := fun h => by
  unfold statsQuery
  rw [Table.select_congr (congrArg Rows.issue h) fun _ _ => rfl]

/-! #### Measurements -/

theorem reads_issueSamples :
    Reads Database.rowsOf company (issueSamples server company) := fun h => by
  unfold issueSamples
  rw [Table.select_congr (congrArg Rows.issue h) fun _ _ => rfl]

theorem reads_queueAges (now : Int) :
    Reads Database.rowsOf company (queueAges company now) := fun h => by
  unfold queueAges
  rw [Table.select_congr (congrArg Rows.issue h) fun k row => ?_]
  rw [openBlockers_congr h]

theorem reads_claimsActive (now : Int) :
    Reads Database.rowsOf company (claimsActive company now) := fun h => by
  unfold claimsActive
  rw [Table.select_congr (congrArg Rows.issue h) fun _ _ => rfl]

theorem reads_eventSamples : Reads Database.rowsOf company (eventSamples company) := fun h => by
  unfold eventSamples
  rw [Table.join_congr (congrArg Rows.history h) (congrArg Rows.issue h)]
  intro e i hon
  simp only [Bool.and_eq_true, decide_eq_true_eq] at hon
  obtain ⟨⟨hi, -⟩, he⟩ := hon
  exact ⟨he, hi.trans he⟩

theorem reads_claimLatency : Reads Database.rowsOf company (claimLatency company) := fun h => by
  unfold claimLatency
  rw [Table.select_congr (congrArg Rows.issue h) fun _ _ => rfl]
  simp only [firstEvent_congr h]

theorem reads_cycleTime : Reads Database.rowsOf company (cycleTime company) := fun h => by
  unfold cycleTime
  rw [Table.select_congr (congrArg Rows.issue h) fun _ _ => rfl]

theorem reads_reviewTime : Reads Database.rowsOf company (reviewTime company) := fun h => by
  unfold reviewTime
  rw [Table.select_congr (congrArg Rows.issue h) fun _ _ => rfl]
  simp only [firstEvent_congr h]

theorem reads_prometheusMetricsQuery (now : Int) :
    Reads Database.rowsOf company (prometheusMetricsQuery server company now) := fun h => by
  unfold prometheusMetricsQuery
  rw [reads_queueAges now h, reads_claimsActive now h, reads_claimLatency h, reads_cycleTime h,
    reads_reviewTime h, reads_issueSamples h, reads_eventSamples h]

/-! ### Transaction bodies -/

theorem confined_setIssue (id : String) (f : IssueRow → IssueRow) :
    Confined Database.rowsOf company
      (execute fun db => db.setIssue company id f : Tx Unit) :=
  .execute (g := fun rows =>
    { rows with issue := Function.update rows.issue id ((rows.issue id).map f) }) fun db d => by
      by_cases hd : d = company <;>
        simp [Database.rowsOf, Database.setIssue, Table.tenant_modify, hd]

theorem confined_logEvent (id : String) (ts : Int) (actor event detail : String) :
    Confined Database.rowsOf company (logEvent company id ts actor event detail) := by
  refine .bind (.query nextSeq_congr) fun seq => .bind (.query fun h => ?_) fun _ =>
    .bind (.execute (g := fun rows => { rows with
      history := Function.update rows.history seq
        (some ((rows.history seq).getD ⟨id, ts, actor, event, detail⟩)) }) fun db d => ?_)
    fun _ => .bind (.query fun h => congrArg Except.ok (issueRow_congr h id)) fun row => ?_
  · rw [checkKey, history_congr h]
    rfl
  · by_cases hd : d = company <;> simp [Database.rowsOf, Table.tenant_insert, hd]
  · cases row with
    | none => exact .pure ()
    | some row =>
        refine .bind (.query fun h => ?_) fun _ => .execute (g := fun rows => { rows with
          outbound := Function.update rows.outbound seq (some ((rows.outbound seq).getD
            ⟨company, id, row.project, ts, event, none, 0, ts, none⟩)) }) fun db d => ?_
        · rw [checkKey, outbound_congr h]
          rfl
        · by_cases hd : d = company <;> simp [Database.rowsOf, Table.tenant_insert, hd]

theorem confined_markEventTx (seq : Int) (set : Db.OutboundRow → Db.OutboundRow) :
    Confined Database.rowsOf company (markEventTx company seq set) := by
  refine .bind (.query fun h => ?_) fun attempts => ?_
  · unfold nextAttempts
    rw [outbound_congr h]
  · cases attempts with
    | none => exact .pure ()
    | some attempts =>
        refine .execute (g := fun rows => { rows with
          outbound := Function.update rows.outbound seq ((rows.outbound seq).map fun row =>
            set { row with attempts := attempts }) }) fun db d => ?_
        by_cases hd : d = company <;> simp [Database.rowsOf, Table.tenant_modify, hd]

theorem confined_ensureProjectTx (slug root idPrefix : String) (ts : Int) :
    Confined Database.rowsOf company (ensureProjectTx company slug root idPrefix ts) := by
  refine .bind (.query fun h => ?_) fun _ => .execute (g := fun rows => { rows with
    project := Function.update rows.project slug (some (((rows.project slug).map fun row =>
      { row with root := root }).getD ⟨root, idPrefix, ts⟩)) }) fun db d => ?_
  · rw [Table.select_congr (congrArg Rows.project h) fun _ _ => rfl]
  · by_cases hd : d = company <;> simp [Database.rowsOf, Table.tenant_upsert, hd]

theorem confined_ensureFolderTx (slug name : String) (parent : Option String) (now : Int) :
    Confined Database.rowsOf company (ensureFolderTx company slug name parent now) := by
  refine .bind (.query fun h => ?_) fun _ => .execute (g := fun rows => { rows with
    folder := Function.update rows.folder slug (some (((rows.folder slug).map fun row =>
      { row with name := name, parent := parent }).getD ⟨name, parent, now⟩)) }) fun db d => ?_
  · unfold checkFolderParent
    simp only [folder_congr h, folderReaches_congr h]
  · by_cases hd : d = company <;> simp [Database.rowsOf, Table.tenant_upsert, hd]

theorem confined_setProjectFolderTx (project : String) (folder : Option String) (now : Int) :
    Confined Database.rowsOf company (setProjectFolderTx company project folder now) := by
  refine .bind (.query fun h => by rw [project_congr h]) fun _ =>
    .bind (.query fun h => ?_) fun _ => ?_
  · unfold checkFolder
    simp only [folder_congr h]
  · cases trimmed folder with
    | some folder =>
        refine .execute (g := fun rows => { rows with
          projectFolder := Function.update rows.projectFolder project
            (some (((rows.projectFolder project).map fun _ => ⟨folder, now⟩).getD
              ⟨folder, now⟩)) }) fun db d => ?_
        by_cases hd : d = company <;> simp [Database.rowsOf, Table.tenant_upsert, hd]
    | none =>
        refine .execute (g := fun rows => { rows with
          projectFolder := Function.update rows.projectFolder project none }) fun db d => ?_
        by_cases hd : d = company <;> simp [Database.rowsOf, Table.tenant_erase, hd]

theorem drawId_congr {db db' : Database} (h : db.rowsOf company = db'.rowsOf company)
    (idPrefix : String) (draws : List String) :
    drawId company idPrefix db draws = drawId company idPrefix db' draws := by
  induction draws with
  | nil => rfl
  | cons suffix draws ih => rw [drawId, drawId, issueRow_congr h, ih]

theorem confined_createTx (spec : NewIssue) (project : String) (available : Int)
    (draws : List String) (now : Int) :
    Confined Database.rowsOf company (createTx company spec project available draws now) := by
  refine .bind (.query fun h => by rw [project_congr h]) fun row =>
    .bind (.query fun h => ?_) fun _ => .bind (.query fun h => ?_) fun id =>
    .bind (.ofResult _) fun metadata => .bind (.query fun h => ?_) fun _ =>
    .bind (.execute (g := fun rows => { rows with
      issue := Function.update rows.issue id (some ((rows.issue id).getD
        (newRow spec project available metadata now))) }) fun db d => ?_) fun _ =>
    .bind (confined_logEvent ..) fun _ => .pure id
  · unfold checkParent
    simp only [issueRow_congr h]
  · unfold chooseId
    simp only [issueRow_congr h, drawId_congr h]
  · rw [checkKey, ← Database.issueRow, issueRow_congr h]
    rfl
  · by_cases hd : d = company <;> simp [Database.rowsOf, Table.tenant_insert, hd]

theorem confined_updateTx (id : String) (patch : IssuePatch) (actor : String) (now : Int) :
    Confined Database.rowsOf company (updateTx server company id patch actor now) := by
  refine .bind (.query fun h => getIssue_congr h id) fun current =>
    .bind (.ofResult _) fun next => .bind (.ofResult _) fun status =>
    .bind (confined_setIssue ..) fun _ => ?_
  cases patch.statusChanged current with
  | true => exact .bind (confined_logEvent ..) fun _ => confined_logEvent ..
  | false => exact confined_logEvent ..

theorem confined_setLabels (id : String) (labels : List String) (actor : String) (now : Int) :
    Confined Database.rowsOf company (setLabels company id labels actor now) :=
  .bind (confined_setIssue ..) fun _ => confined_logEvent ..

theorem reads_labelsOf (id : String) :
    Reads Database.rowsOf company (labelsOf company id) := fun h => by
  unfold labelsOf
  rw [issueRow_congr h]

theorem confined_addLabelTx (id label actor : String) (now : Int) :
    Confined Database.rowsOf company (addLabelTx company id label actor now) := by
  refine .bind (.query (reads_labelsOf id)) fun labels => ?_
  cases addedLabel labels label with
  | some labels => exact confined_setLabels ..
  | none => exact .pure ()

theorem confined_removeLabelTx (id label actor : String) (now : Int) :
    Confined Database.rowsOf company (removeLabelTx company id label actor now) :=
  .bind (.query (reads_labelsOf id)) fun _ => confined_setLabels ..

theorem reads_requireIssue (id : String) :
    Reads Database.rowsOf company (requireIssue company id) := fun h => by
  unfold requireIssue
  rw [issueRow_congr h]

theorem confined_addDepTx (child parent actor : String) (now : Int) :
    Confined Database.rowsOf company (addDepTx company child parent actor now) := by
  refine .bind (.query (reads_requireIssue child)) fun _ =>
    .bind (.query (reads_requireIssue parent)) fun _ =>
    .bind (.query fun h => by rw [reachable_congr h]) fun _ =>
    .bind (.execute (g := fun rows => { rows with
      dep := Function.update rows.dep (depKey child parent)
        (some ((rows.dep (depKey child parent)).getD ())) }) fun db d => ?_) fun _ =>
    .bind (confined_setIssue ..) fun _ => confined_logEvent ..
  by_cases hd : d = company <;> simp [Database.rowsOf, Table.tenant_insert, hd]

theorem confined_removeDepTx (child parent actor : String) (now : Int) :
    Confined Database.rowsOf company (removeDepTx company child parent actor now) := by
  refine .bind (.execute (g := fun rows => { rows with
    dep := Function.update rows.dep (depKey child parent) none }) fun db d => ?_) fun _ =>
    confined_logEvent ..
  by_cases hd : d = company <;> simp [Database.rowsOf, Table.tenant_erase, hd]

theorem confined_claimTx (req : ClaimRequest) (ttl now : Int) :
    Confined Database.rowsOf company (claimTx company req ttl now) := by
  refine .bind (.query fun h => ?_) fun _ => .bind (confined_setIssue ..) fun _ =>
    .bind (confined_logEvent ..) fun _ => .pure _
  unfold checkHolder
  rw [issueRow_congr h]

theorem confined_touchTx (id assignee : String) (now : Int) :
    Confined Database.rowsOf company (touchTx company id assignee now) := by
  refine .bind (.query fun h => ?_) fun _ => .bind (confined_setIssue ..) fun _ =>
    .bind (confined_logEvent ..) fun _ => .pure _
  unfold touchLease
  rw [issueRow_congr h]

theorem confined_releaseTx (id actor : String) (now : Int) :
    Confined Database.rowsOf company (releaseTx company id actor now) :=
  .bind (.query (reads_requireIssue id)) fun _ => .bind (confined_setIssue ..) fun _ =>
    confined_logEvent ..

theorem confined_sweepRow (now : Int) (report : SweepReport)
    (r : (String × String) × IssueRow) :
    Confined Database.rowsOf company (sweepRow company now report r) := by
  unfold sweepRow
  split
  · split
    · exact .bind (confined_logEvent ..) fun _ => .pure _
    · exact .bind (confined_setIssue ..) fun _ => .bind (confined_logEvent ..) fun _ => .pure _
  · exact .ofResult _

theorem confined_sweepTx (now : Int) (order : List String) :
    Confined Database.rowsOf company (sweepTx company now order) :=
  .bind (.query fun h => congrArg Except.ok (reads_lapsedQuery now order h)) fun _ =>
    .foldlM (confined_sweepRow now) _

theorem confined_closeTx (id : String) (reason : Option String) (evidence : List Evidence)
    (actor : String) (now : Int) :
    Confined Database.rowsOf company (closeTx company id reason evidence actor now) := by
  refine .bind (.query fun h => ?_) fun _ => .bind (confined_setIssue ..) fun _ =>
    confined_logEvent ..
  unfold evidenceOf
  rw [issueRow_congr h]

theorem reads_checkBlockers (id : String) :
    Reads Database.rowsOf company (checkBlockers server company id) := fun h => by
  unfold checkBlockers
  rw [openBlockers_congr h]

theorem confined_supersedeTx (id replacement actor : String) (now : Int) :
    Confined Database.rowsOf company (supersedeTx company id replacement actor now) :=
  .bind (.query (reads_requireIssue replacement)) fun _ => .bind (confined_closeTx ..) fun _ =>
    confined_addLabelTx ..

/-! ### Methods -/

theorem isolated_withClient {α : Type} {q : Database → Result α}
    (hq : Reads Database.rowsOf company q) :
    Isolated Database.rowsOf company (withClient q) := .transaction (.query hq)

/-- A query that cannot fail. -/
theorem isolated_answer {α : Type} {q : Database → α} (hq : Reads Database.rowsOf company q) :
    Isolated Database.rowsOf company (withClient fun db => .ok (q db)) :=
  isolated_withClient fun h => congrArg Except.ok (hq h)

theorem isolated_get (id : String) :
    Isolated Database.rowsOf company (get server company id) :=
  isolated_withClient fun h => getIssue_congr h id

/-- A transaction whose value is not looked at. -/
theorem isolated_unit {m : Tx Unit} (hm : Confined Database.rowsOf company m) :
    Isolated Database.rowsOf company (do transaction m; pure Reply.unit) :=
  .bind (.transaction hm) fun _ => .pure _

/-- Every method of the trait is isolated to its company. -/
theorem isolated_method {op : Op} {m : Method Reply} (hm : method server company op = some m) :
    Isolated Database.rowsOf company m := by
  -- Each method is a transaction confined to the company or a query that reads its rows only; what
  -- is checked before the transaction touches nothing.
  cases op with
  | dropProject slug => cases hm
  | ensureProject => cases hm; exact isolated_unit (confined_ensureProjectTx ..)
  | projects => cases hm; exact .map _ (isolated_answer reads_projectsQuery)
  | ensureFolder folder now =>
      cases hm
      refine .bind ?_ fun _ => .pure _
      unfold ensureFolder
      split
      · exact .throw _
      · split
        · exact .throw _
        · exact .transaction (confined_ensureFolderTx ..)
  | setProjectFolder => cases hm; exact isolated_unit (confined_setProjectFolderTx ..)
  | folderView => cases hm; exact .map _ (isolated_answer reads_folderViewQuery)
  | pendingEvents now limit =>
      cases hm
      exact .map _ (isolated_answer (reads_pendingEventsQuery now limit))
  | markEventDelivered => cases hm; exact isolated_unit (confined_markEventTx ..)
  | markEventFailed => cases hm; exact isolated_unit (confined_markEventTx ..)
  | create spec draws now =>
      cases hm
      refine .map _ ?_
      unfold create
      split
      · exact .throw _
      · exact .transaction (confined_createTx ..)
  | get id => cases hm; exact .map _ (isolated_get id)
  | list project all onlyId =>
      cases hm
      exact .map _ (isolated_withClient (reads_listQuery project all onlyId))
  | ready project now => cases hm; exact .map _ (isolated_withClient (reads_readyQuery project now))
  | update id patch actor now =>
      cases hm
      exact .map _ (.bind (.transaction (.ofResult _)) fun _ =>
        .bind (.transaction (confined_updateTx ..)) fun _ => isolated_get id)
  | addLabel => cases hm; exact isolated_unit (confined_addLabelTx ..)
  | removeLabel => cases hm; exact isolated_unit (confined_removeLabelTx ..)
  | addDep child parent actor now =>
      cases hm
      refine .bind ?_ fun _ => .pure _
      unfold addDep
      split
      · exact .throw _
      · exact .transaction (confined_addDepTx ..)
  | removeDep => cases hm; exact isolated_unit (confined_removeDepTx ..)
  | claim req now =>
      cases hm
      refine .map _ ?_
      unfold claim
      split
      · exact .throw _
      · exact .transaction (confined_claimTx ..)
  | touch => cases hm; exact .map _ (.transaction (confined_touchTx ..))
  | release => cases hm; exact isolated_unit (confined_releaseTx ..)
  | sweep => cases hm; exact .map _ (.transaction (confined_sweepTx ..))
  | close id reason evidence actor now =>
      cases hm
      refine .map _ ?_
      unfold close
      split
      · exact .throw _
      · exact .bind (.transaction (.bind (.query (reads_checkBlockers id)) fun _ =>
          confined_closeTx ..)) fun _ => isolated_get id
  | supersede => cases hm; exact isolated_unit (confined_supersedeTx ..)
  | history id => cases hm; exact .map _ (isolated_answer (reads_historyQuery id))
  | stats => cases hm; exact .map _ (isolated_answer reads_statsQuery)
  | prometheusMetrics now =>
      cases hm
      exact .map _ (isolated_withClient (reads_prometheusMetricsQuery now))

/-- Tenant noninterference: a method of the trait run for a company returns the same and leaves the
same rows of that company in any two databases that agree on them, and it leaves every row of every
other company unchanged. The databases may differ in everything else. That includes what other
companies hold under the same ids. -/
theorem tenants_do_not_interfere {op : Op} {m : Method Reply}
    (hm : method server company op = some m) :
    (∀ db db', db.rowsOf company = db'.rowsOf company →
      (m db).1 = (m db').1 ∧ (m db).2.rowsOf company = (m db').2.rowsOf company) ∧
    ∀ db other, other ≠ company → (m db).2.rowsOf other = db.rowsOf other := by
  have h := isolated_method hm
  constructor
  · intro db db' hrows
    exact Prod.mk.inj (h.same hrows)
  · intro db other hother
    exact h.frame db other hother

/-- An open issue nobody holds. -/
def idle : IssueRow where
  project := "p"
  title := ""
  description := ""
  status := .«open»
  issueType := "task"
  priority := 2
  parent := none
  labelsJson := .encodes []
  assignee := none
  actorKind := none
  claimedAt := none
  expiresAt := none
  availableAt := none
  createdBy := ""
  createdAt := 0
  updatedAt := 0
  closedAt := none
  closeReason := none
  evidenceJson := .encodes []
  metadataJson := .encodes (.obj [])
  externalRef := none

/-- Company `a` waits on an issue of its own that is closed. -/
def alone : Database :=
  { Database.empty with
    issue := (Table.empty.insert ("a", "i") idle).insert ("a", "p") { idle with status := .closed }
    dep := Table.empty.insert ("a", depKey "i" "p") () }

/-- The same, next to a company `b` whose issue of that name is open. -/
def together : Database := { alone with issue := alone.issue.insert ("b", "p") idle }

/-- Company `a` closes its issue. -/
def closing : Method Reply := .issue <$> close {} "a" "i" none [.ack "done"] "me" 0

/-- The issue of company `b` neither blocks the close of company `a` nor is it touched by it. -/
theorem closed_next_to_another_company :
    Outcome.verdict (closing alone).1 = .ok ∧ (closing alone).1 = (closing together).1 ∧
      (closing together).2.rowsOf "b" = together.rowsOf "b" := by
  have hm : method {} "a" (.close "i" none [.ack "done"] "me" 0) = some closing := rfl
  have hrows : alone.rowsOf "a" = together.rowsOf "a" := by
    simp [Database.rowsOf, together, Table.tenant_insert]
  refine ⟨by decide +kernel, ?_, ?_⟩
  · exact ((tenants_do_not_interfere hm).1 alone together hrows).1
  · exact (tenants_do_not_interfere hm).2 together "b" (by decide)

end Marbles.Postgres
