import Marbles.Db.Metrics
import Marbles.Db.Tx
import Marbles.Lib.Machine
import Marbles.Lib.Prog
import Marbles.Refs

/-!
# The methods of the local store

`Db` holds its connection behind a mutex. A `Scope` is one acquisition of it, a
transaction or a query; what happens inside is in `Marbles.Db.Tx`, and a panic inside
poisons the mutex. A method is a program over scopes: several callers interleave
scope by scope, and a caller that is alone runs its scopes one after the other.

Whatever is computed before the lock is taken, such as a lease, is computed in the method and
given to the scope as an argument, as in the source. This is what makes it visible that a panic
there leaves the mutex as it was.
-/

namespace Marbles.Db

/-! ### Lock scopes -/

/-- One acquisition of the connection. Its arguments are what the method has computed by then, so
that a scope can be looked at without its method. -/
inductive Scope where
  | ensureProject (slug root idPrefix : String) (ts : Int)
  | dropProject (slug : String)
  | projects
  | ensureFolder (slug name : String) (parent : Option String) (now : Int)
  | setProjectFolder (project : String) (folder : Option String) (now : Int)
  | folderView
  | pendingEvents (now : Int) (limit : Nat)
  | markEventDelivered (seq now : Int)
  | markEventFailed (seq nextAttemptAt : Int) (error : String)
  | create (spec : NewIssue) (project : String) (available : Int) (draws : List String)
      (now : Int)
  | get (id : String)
  | list (project : Option String) (all : Bool) (onlyId : Option String)
  | readyIds (project : Option String) (now : Int)
  | update (id : String) (patch : IssuePatch) (actor : String) (now : Int)
  | setLabels (id : String) (labels : List String) (actor : String) (now : Int)
  | addDep (child parent actor : String) (now : Int)
  | removeDep (child parent actor : String) (now : Int)
  | addRemoteDep (child : String) (dependency : RemoteDependency) (actor : String) (now : Int)
  | removeRemoteDep (child canonicalRef actor : String) (now : Int)
  | remoteDependencies (child : String)
  | claim (req : ClaimRequest) (ttl now : Int)
  | touch (id assignee : String) (now : Int)
  | release (id actor : String) (now : Int)
  | sweep (now : Int) (order : List String)
  | checkBlockers (id : String)
  | closeUnchecked (id : String) (reason : Option String) (evidence : List Evidence)
      (actor : String) (now : Int)
  | history (id : String)
  | stats
  | prometheusMetrics (now : Int)

namespace Scope

/-- What a scope returns. A scope is typed by what it returns, so that a caller cannot confuse two
answers. -/
@[reducible] def Ret : Scope → Type
  | projects => List (String × String × String)
  | dropProject _ => ProjectRemoval
  | folderView => FolderView
  | pendingEvents .. => List OutboundEvent
  | create .. => String
  | get _ => Issue
  | list .. => List Issue
  | readyIds .. => List String
  | remoteDependencies _ => List RemoteDependency
  | claim .. => ClaimReceipt
  | touch .. => Int
  | sweep .. => SweepReport
  | history _ => List HistoryEvent
  | stats => Json.Value
  | prometheusMetrics _ => String
  | _ => Unit

/-- Run a scope: take the lock, run its body, release the lock. Reads leave the tables by
construction; only the writes go through a transaction. -/
def exec (cfg : Config) : (s : Scope) → Locked Tables → Result s.Ret × Locked Tables
  | ensureProject slug root idPrefix ts => Locked.tx (ensureProjectTx slug root idPrefix ts)
  | dropProject slug => Locked.tx (dropProjectTx slug)
  | projects => Locked.query fun t => .ok (projectsQuery t)
  | ensureFolder slug name parent now => Locked.tx (ensureFolderTx slug name parent now)
  | setProjectFolder project folder now => Locked.tx (setProjectFolderTx project folder now)
  | folderView => Locked.query fun t => .ok (folderViewQuery t)
  | pendingEvents now limit => Locked.query fun t => .ok (pendingEventsQuery now limit t)
  | markEventDelivered seq now => Locked.tx (markEventDeliveredTx seq now)
  | markEventFailed seq nextAttemptAt error =>
      Locked.tx (markEventFailedTx seq nextAttemptAt error)
  | create spec project available draws now =>
      Locked.tx (createTx spec project available draws now)
  | get id => Locked.query (getQuery id)
  | list project all onlyId => Locked.query fun t => .ok (listQuery project all onlyId t)
  | readyIds project now => Locked.query fun t => .ok (readyIdsQuery project now t)
  | update id patch actor now => Locked.tx (updateTx cfg id patch actor now)
  | setLabels id labels actor now => Locked.tx (setLabelsTx id labels actor now)
  | addDep child parent actor now => Locked.tx (addDepTx child parent actor now)
  | removeDep child parent actor now => Locked.tx (removeDepTx child parent actor now)
  | addRemoteDep child dependency actor now =>
      Locked.tx (addRemoteDepTx child dependency actor now)
  | removeRemoteDep child canonicalRef actor now =>
      Locked.tx (removeRemoteDepTx child canonicalRef actor now)
  | remoteDependencies child => Locked.query fun t => .ok (remoteDependenciesQuery child t)
  | claim req ttl now => Locked.tx (claimTx req ttl now)
  | touch id assignee now => Locked.tx (touchTx cfg id assignee now)
  | release id actor now => Locked.tx (releaseTx id actor now)
  | sweep now order => Locked.tx (sweepTx now order)
  | checkBlockers id => Locked.query (checkBlockersQuery id)
  | closeUnchecked id reason evidence actor now =>
      Locked.tx (closeUncheckedTx id reason evidence actor now)
  | history id => Locked.query fun t => .ok (historyQuery id t)
  | stats => Locked.query fun t => .ok (statsQuery t)
  | prometheusMetrics now => Locked.query (prometheusMetricsQuery now)

end Scope

/-- The store as its callers see it. -/
abbrev DbI : Interface := ⟨Scope, fun s => Result s.Ret⟩

/-- What a method of the store does. -/
abbrev DbM := ExceptT (Fault Error) (Prog DbI)

/-- Run one scope. -/
def call (s : Scope) : DbM s.Ret := ExceptT.mk (Prog.ask (I := DbI) s)

/-- Go on with what was computed without the lock. -/
def liftResult {α : Type} (r : Result α) : DbM α := ExceptT.mk (.ret r)

/-! ### Methods -/

section Methods

variable (cfg : Config)

/-- What is empty after trimming is refused without the lock. -/
def ensureFolder (folder : Folder) (now : Int) : DbM Unit :=
  if trim folder.slug = "" then throw (.fail (.bad "folder slug is empty"))
  else if trim folder.name = "" then throw (.fail (.bad "folder name is empty"))
  else call (.ensureFolder (trim folder.slug) (trim folder.name) (trimmed folder.parent) now)

/-- Only that a project is named is checked without the lock; everything that depends on other rows
is in the transaction. -/
def create (spec : NewIssue) (draws : List String) (now : Int) : DbM String :=
  match spec.project with
  | none => throw (.fail (.bad "create requires a project"))
  | some project =>
      let available := spec.availableAt.getD (wrapI64 (now + cfg.policy.creationGraceSeconds))
      call (.create spec project available draws now)

/-- One issue, in a scope of its own. -/
def get (id : String) : DbM Issue := call (.get id)

/-- The ids are selected in one scope and each issue is read in a scope of its own. -/
def ready (project : Option String) (now : Int) : DbM (List Issue) := do
  let ids ← call (.readyIds project now)
  ids.mapM get

/-- Three parts: the status text is checked without the lock, the patch is applied under it, and the
answer is read under it again. -/
def update (id : String) (patch : IssuePatch) (actor : String) (now : Int) : DbM Issue := do
  liftResult patch.checkStatus
  call (.update id patch actor now)
  get id

/-- The whole list is written, which is why two callers that have read the same list lose one edit.
-/
def setLabels (id : String) (labels : List String) (actor : String) (now : Int) : DbM Unit :=
  call (.setLabels id labels actor now)

/-- The labels are read in one scope and written in another. -/
def addLabel (id label actor : String) (now : Int) : DbM Unit := do
  let issue ← get id
  match addedLabel issue.labels label with
  | some labels => setLabels id labels actor now
  | none => pure ()

/-- Like `addLabel` in two scopes, but written in any case. -/
def removeLabel (id label actor : String) (now : Int) : DbM Unit := do
  let issue ← get id
  setLabels id (removedLabel issue.labels label) actor now

/-- An edge to oneself is refused without the lock. -/
def addDep (child parent actor : String) (now : Int) : DbM Unit :=
  if child = parent then throw (.fail (.cycle child parent))
  else call (.addDep child parent actor now)

/-- The reference has to name the issue it is stored for; whether that issue exists is not asked. -/
def addRemoteDep (child : String) (dependency : RemoteDependency) (actor : String) (now : Int) :
    DbM Unit :=
  match CanonicalRef.parse dependency.canonicalRef with
  | .error e => throw (.fail (.bad s!"invalid canonical ref: {e.display}"))
  | .ok parsed =>
      if parsed.names dependency.storeId dependency.remoteIssueId then
        call (.addRemoteDep child dependency actor now)
      else throw (.fail (.bad (s!"canonical ref {dependency.canonicalRef} does not name store " ++
        s!"{dependency.storeId} issue {dependency.remoteIssueId}")))

/-- The lease is computed before the lock is taken. -/
def claim (req : ClaimRequest) (now : Int) : DbM ClaimReceipt :=
  match req.ttl cfg.week cfg.policy now with
  | none => throw .abort
  | some ttl => call (.claim req ttl now)

/-- Close without the evidence or blocker gates. -/
def closeUnchecked (id : String) (reason : Option String) (evidence : List Evidence)
    (actor : String) (now : Int) : DbM Issue := do
  call (.closeUnchecked id reason evidence actor now)
  get id

/-- Blockers are checked in one scope and the issue is closed in another, so a blocker may appear
between the two. -/
def close (id : String) (reason : Option String) (evidence : List Evidence) (actor : String)
    (now : Int) : DbM Issue :=
  if evidence.isEmpty then throw (.fail (.noEvidence id))
  else do
    call (.checkBlockers id)
    closeUnchecked id reason evidence actor now

/-- Neither evidence nor blockers are asked for: the replacement is the evidence, and blockers are
passed over. -/
def supersede (id replacement actor : String) (now : Int) : DbM Unit := do
  let _ ← get replacement
  let reason := s!"superseded by {replacement}"
  let _ ← closeUnchecked id (some reason) [Evidence.ack reason] actor now
  addLabel id s!"supersedes:{replacement}" actor now

/-- The method a call of the contract stands for. What several scopes of one method do is therefore
not atomic. -/
def method : Op → DbM Reply
  | .ensureProject slug root idPrefix ts => do
      call (.ensureProject slug root idPrefix ts)
      pure .unit
  | .dropProject slug => .removal <$> call (.dropProject slug)
  | .projects => .projects <$> call .projects
  | .ensureFolder folder now => do
      ensureFolder folder now
      pure .unit
  | .setProjectFolder project folder now => do
      call (.setProjectFolder project folder now)
      pure .unit
  | .folderView => .folders <$> call .folderView
  | .pendingEvents now limit => .events <$> call (.pendingEvents now limit)
  | .markEventDelivered seq now => do
      call (.markEventDelivered seq now)
      pure .unit
  | .markEventFailed seq nextAttemptAt error => do
      call (.markEventFailed seq nextAttemptAt error)
      pure .unit
  | .create spec draws now => .id <$> create cfg spec draws now
  | .get id => .issue <$> get id
  | .list project all onlyId => .issues <$> call (.list project all onlyId)
  | .ready project now => .issues <$> ready project now
  | .update id patch actor now => .issue <$> update id patch actor now
  | .addLabel id label actor now => do
      addLabel id label actor now
      pure .unit
  | .removeLabel id label actor now => do
      removeLabel id label actor now
      pure .unit
  | .addDep child parent actor now => do
      addDep child parent actor now
      pure .unit
  | .removeDep child parent actor now => do
      call (.removeDep child parent actor now)
      pure .unit
  | .claim req now => .receipt <$> claim cfg req now
  | .touch id assignee now => .expiry <$> call (.touch id assignee now)
  | .release id actor now => do
      call (.release id actor now)
      pure .unit
  | .sweep now order => .swept <$> call (.sweep now order)
  | .close id reason evidence actor now => .issue <$> close id reason evidence actor now
  | .supersede id replacement actor now => do
      supersede id replacement actor now
      pure .unit
  | .history id => .history <$> call (.history id)
  | .stats => .stats <$> call .stats
  | .prometheusMetrics now => .text <$> call (.prometheusMetrics now)

/-! ### A caller alone -/

/-- Run a method with no other caller around. -/
def runM {α : Type} (m : DbM α) (s : Locked Tables) : Result α × Locked Tables :=
  Prog.runE (Scope.exec cfg) m s

/-- One call, its outcome and the store it leaves. -/
def perform (op : Op) (s : Locked Tables) : Result Reply × Locked Tables :=
  runM cfg (method cfg op) s

/-- The store after one call. -/
def step (op : Op) (s : Locked Tables) : Locked Tables := (perform cfg op s).2

/-- The store after a sequence of calls. -/
def run (ops : List Op) (s : Locked Tables) : Locked Tables := Machine.run (step cfg) ops s

end Methods

/-- What is made of the result does not matter to the store. -/
theorem runM_map_state (cfg : Config) {α β : Type} (g : α → β) (m : DbM α) (s : Locked Tables) :
    (runM cfg (g <$> m) s).2 = (runM cfg m s).2 := by
  rw [map_eq_pure_bind]
  exact Prog.runE_pure_state g m s

theorem runM_unit_state (cfg : Config) {α : Type} (a : α) (m : DbM Unit) (s : Locked Tables) :
    (runM cfg (do m; pure a) s).2 = (runM cfg m s).2 := Prog.runE_pure_state (fun _ => a) m s

/-- A store that has just been opened on an empty database. -/
def opened (storeId : String) : Locked Tables := .new (.empty storeId)

end Marbles.Db
