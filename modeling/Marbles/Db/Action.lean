import Marbles.Db.Effect
import Marbles.Import

/-!
# Everything a caller can do

An `Action` is a call of the store contract, a method that only the local store has, or
one of the two importers. All of them are programs over lock scopes, so what every scope
preserves holds in every state that any sequence of actions reaches, and also between
the scopes of concurrent callers.

None of these programs catches a panic. An action that comes back, with a value or with
an error, therefore leaves the lock as healthy as it found it.

Honesty is a property of programs that is closed under binding and under looking at errors,
because an error value and a panic are different outcomes here. The importers are the only
programs that look at errors, and for them there is nothing else to prove.
-/

namespace Marbles.Db

open Json (Value)

/-- A call of the contract, a method that only the local store has, or an import. An import is an
action of its own because it is one call to its caller and many scopes to everybody else. The
programs are those of the source's public methods; whatever else a process does goes through them.
-/
inductive Action where
  | op (op : Op)
  | setLabels (id : String) (labels : List String) (actor : String) (now : Int)
  | addRemoteDep (child : String) (dependency : RemoteDependency) (actor : String) (now : Int)
  | removeRemoteDep (child canonicalRef actor : String) (now : Int)
  | remoteDependencies (child : String)
  | importList (project : String) (clock : Import.ClockRead → Int) (rows : List Issue)
  | importJsonl (env : Jsonl.Env) (project : String) (rename : Option (String × String))
      (rows : List Value) (dryRun : Bool)

/-- A program whose result is only whether it came back. -/
def returns {ε α : Type} (m : ImportM ε α) : Prog DbI Bool := m.run >>= fun r => .ret (match r with
  | .error .abort => false
  | _ => true)

namespace Action

variable (cfg : Config)

/-- The program of an action; it says whether the action came back. A panic comes back to nobody,
and all later actions find the lock poisoned. -/
def prog : Action → Prog DbI Bool
  | op o => returns (method cfg o)
  | setLabels id labels actor now => returns (Db.setLabels id labels actor now)
  | addRemoteDep child dependency actor now => returns (Db.addRemoteDep child dependency actor now)
  | removeRemoteDep child canonicalRef actor now =>
      returns (call (.removeRemoteDep child canonicalRef actor now))
  | remoteDependencies child => returns (call (.remoteDependencies child))
  | importList project clock rows => returns (Import.import cfg project clock rows)
  | importJsonl env project rename rows dryRun =>
      returns (Jsonl.import cfg env project rename rows dryRun)

/-- Whether the action came back, and the store it leaves. -/
def perform (a : Action) (s : Locked Tables) : Bool × Locked Tables :=
  (a.prog cfg).run (Scope.exec cfg) s

/-- The store after one action, whatever it returned. -/
def step (a : Action) (s : Locked Tables) : Locked Tables := (perform cfg a s).2

/-- The store after a sequence of actions. -/
def run (actions : List Action) (s : Locked Tables) : Locked Tables :=
  Machine.run (step cfg) actions s

/-- Every action of the sequence came back. -/
def Returned (actions : List Action) (s : Locked Tables) : Prop :=
  Machine.Meets (step cfg) (fun s a => (perform cfg a s).1 = true) actions s

end Action

/-- A state some sequence of actions reaches. -/
def Reachable (cfg : Config) (s : Locked Tables) : Prop :=
  ∃ storeId actions, s = Action.run cfg actions (opened storeId)

/-- What every scope preserves holds in every reachable state. -/
theorem Reachable.invariant {cfg : Config} {inv : Tables → Prop}
    (hinit : ∀ storeId, inv (.empty storeId))
    (hstep : ∀ t s t', inv t → Effect cfg t s t' → inv t') {s : Locked Tables}
    (h : Reachable cfg s) : inv s.state := by
  obtain ⟨storeId, actions, rfl⟩ := h
  have hscope : ∀ (c : Scope) (s : Locked Tables), inv s.state → inv (c.exec cfg s).2.state :=
    fun c s hs => hstep _ c _ hs (exec_effect cfg c s)
  refine Machine.invariant (fun s : Locked Tables => inv s.state) (fun s a hs => ?_) actions
    (hinit storeId)
  exact @Prog.run_invariant _ _ _ _ (fun s : Locked Tables => inv s.state) hscope (a.prog cfg) _ hs

/-! ### A panic is not caught -/

/-- After a scope that panicked, all that is left of the program is a panic. -/
def HonestProg {ε α : Type} : Prog DbI (Outcome ε α) → Prop
  | .ret _ => True
  | .call _ k => k (.error .abort) = .ret (.error .abort) ∧ ∀ r, HonestProg (k r)

/-- A program that ends in a panic whenever one of its scopes does. -/
structure Honest {ε α : Type} (m : ImportM ε α) : Prop where
  prog : HonestProg m.run

namespace Honest

variable {ε α β : Type}

theorem bindProg {ε' : Type} (f : Outcome ε α → Prog DbI (Outcome ε' β))
    (habort : f (.error .abort) = .ret (.error .abort)) (hf : ∀ r, HonestProg (f r))
    {p : Prog DbI (Outcome ε α)} (hp : HonestProg p) : HonestProg (p >>= f) := by
  induction p with
  | ret r => exact hf r
  | call c k ih =>
      refine ⟨?_, fun r => ih r (hp.2 r)⟩
      have h := hp.1
      simp only [h]
      exact habort

theorem call (s : Scope) : Honest (Db.call s) := ⟨⟨rfl, fun _ => trivial⟩⟩

theorem liftResult (r : Result α) : Honest (Db.liftResult r) := ⟨trivial⟩

theorem pure (a : α) : Honest (Pure.pure a : ImportM ε α) := ⟨trivial⟩

theorem throw (e : Fault ε) : Honest (MonadExcept.throw e : ImportM ε α) := ⟨trivial⟩

theorem bind {m : ImportM ε α} {f : α → ImportM ε β} (hm : Honest m)
    (hf : ∀ a, Honest (f a)) : Honest (m >>= f) := by
  refine ⟨bindProg (ExceptT.bindCont f) rfl (fun r => ?_) hm.prog⟩
  cases r with
  | ok a => exact (hf a).prog
  | error e => exact trivial

theorem map {m : ImportM ε α} (f : α → β) (hm : Honest m) : Honest (f <$> m) := by
  rw [map_eq_pure_bind]
  exact hm.bind fun a => .pure _

theorem ite {c : Prop} [Decidable c] {m m' : ImportM ε α} (hm : Honest m) (hm' : Honest m') :
    Honest (if c then m else m') := by
  split
  · exact hm
  · exact hm'

/-- Looking at an error is not looking at a panic. -/
theorem attempt {m : DbM α} (hm : Honest m) :
    Honest (Marbles.attempt m : ImportM ε (Except Error α)) :=
  ⟨bindProg (fun r => .ret (caught r)) rfl (fun _ => trivial) hm.prog⟩

theorem orElseFail {m : DbM α} (f : Error → ε) (hm : Honest m) :
    Honest (Marbles.orElseFail f m) := by
  refine (attempt hm).bind fun r => ?_
  cases r with
  | ok a => exact .pure _
  | error e => exact .throw _

theorem foldlM {f : β → α → ImportM ε β} (hf : ∀ b a, Honest (f b a)) (xs : List α) (b : β) :
    Honest (xs.foldlM f b) := by
  induction xs generalizing b with
  | nil => exact .pure _
  | cons x xs ih =>
      rw [List.foldlM_cons]
      exact (hf b x).bind ih

theorem mapM {f : α → ImportM ε β} (hf : ∀ a, Honest (f a)) (xs : List α) :
    Honest (xs.mapM f) := by
  induction xs with
  | nil =>
      rw [List.mapM_nil]
      exact .pure _
  | cons x xs ih =>
      rw [List.mapM_cons]
      exact (hf x).bind fun y => ih.bind fun ys => .pure _

end Honest

theorem exec_returned {cfg : Config} {s : Scope} {l : Locked Tables} (hl : l.poisoned = false)
    (h : (s.exec cfg l).1 ≠ .error .abort) : (s.exec cfg l).2.poisoned = false := by
  cases s with
  | projects | folderView | pendingEvents | get | list | readyIds | remoteDependencies
  | checkBlockers | history | stats | prometheusMetrics => exact Locked.query_returned hl h
  | _ => exact Locked.tx_returned hl h

/-- An honest program that comes back leaves the lock healthy. -/
theorem run_returned {cfg : Config} {ε α : Type} {p : Prog DbI (Outcome ε α)}
    {l : Locked Tables} (hp : HonestProg p) (hl : l.poisoned = false)
    (h : (p.run (Scope.exec cfg) l).1 ≠ .error .abort) :
    (p.run (Scope.exec cfg) l).2.poisoned = false := by
  induction p generalizing l with
  | ret r => exact hl
  | call c k ih =>
      rw [Prog.run_call] at h ⊢
      refine ih _ (hp.2 _) (exec_returned hl fun habort => h ?_) h
      rw [habort, hp.1, Prog.run_ret]

/-! ### The methods are honest -/

theorem honest_get (id : String) : Honest (get id) := .call _

theorem honest_addDep (child parent actor : String) (now : Int) :
    Honest (addDep child parent actor now) := .ite (.throw _) (.call _)

theorem honest_create (cfg : Config) (spec : NewIssue) (draws : List String) (now : Int) :
    Honest (create cfg spec draws now) := by
  unfold create
  split
  · exact .throw _
  · exact .call _

theorem honest_update (id : String) (patch : IssuePatch) (actor : String) (now : Int) :
    Honest (update id patch actor now) :=
  (Honest.liftResult _).bind fun _ => (Honest.call _).bind fun _ => honest_get id

theorem honest_addLabel (id label actor : String) (now : Int) :
    Honest (addLabel id label actor now) := by
  refine (honest_get id).bind fun issue => ?_
  split
  · exact .call _
  · exact .pure _

theorem honest_closeUnchecked (id : String) (reason : Option String) (evidence : List Evidence)
    (actor : String) (now : Int) : Honest (closeUnchecked id reason evidence actor now) :=
  (Honest.call _).bind fun _ => honest_get id

theorem honest_close (id : String) (reason : Option String) (evidence : List Evidence)
    (actor : String) (now : Int) : Honest (close id reason evidence actor now) :=
  .ite (.throw _) ((Honest.call _).bind fun _ => honest_closeUnchecked ..)

theorem honest_unit {m : DbM Unit} (h : Honest m) :
    Honest (do m; Pure.pure Reply.unit : DbM Reply) := h.bind fun _ => .pure _

theorem honest_method (cfg : Config) (o : Op) : Honest (method cfg o) := by
  cases o with
  | ensureFolder folder now =>
      exact honest_unit (.ite (.throw _) (.ite (.throw _) (.call _)))
  | create spec draws now => exact .map _ (honest_create ..)
  | get id => exact .map _ (honest_get id)
  | ready project now => exact .map _ ((Honest.call _).bind fun ids => .mapM honest_get ids)
  | update id patch actor now => exact .map _ (honest_update ..)
  | addLabel id label actor now => exact honest_unit (honest_addLabel ..)
  | removeLabel id label actor now =>
      exact honest_unit ((honest_get id).bind fun _ => .call _)
  | addDep child parent actor now => exact honest_unit (honest_addDep ..)
  | claim req now =>
      refine .map _ ?_
      unfold claim
      split
      · exact .throw _
      · exact .call _
  | close id reason evidence actor now => exact .map _ (honest_close ..)
  | supersede id replacement actor now =>
      exact honest_unit ((honest_get _).bind fun _ =>
        (honest_closeUnchecked ..).bind fun _ => honest_addLabel ..)
  | ensureProject | setProjectFolder | markEventDelivered | markEventFailed | removeDep
  | release => exact honest_unit (.call _)
  | _ => exact .map _ (.call _)

theorem honest_addRemoteDep (child : String) (dependency : RemoteDependency) (actor : String)
    (now : Int) : Honest (addRemoteDep child dependency actor now) := by
  unfold addRemoteDep
  split
  · exact .throw _
  · exact .ite (.call _) (.throw _)

/-! ### So are the importers -/

theorem honest_importDep (id : String) (createdAt : Int) (report : Import.Report)
    (dep : Dependency) : Honest (Import.importDep id createdAt report dep) := by
  unfold Import.importDep
  split
  · exact .pure _
  · refine (Honest.attempt (honest_addDep ..)).bind fun r => ?_
    split
    · exact .pure _
    · exact .pure _
    · exact .throw _

theorem honest_importList (cfg : Config) (project : String) (clock : Import.ClockRead → Int)
    (rows : List Issue) : Honest (Import.import cfg project clock rows) := by
  refine .foldlM (fun report entry => ?_) _ _
  refine (Honest.orElseFail _ (honest_create ..)).bind fun id => ?_
  refine Honest.bind (.ite (.throw _) (.pure _)) fun _ => ?_
  refine (Honest.foldlM (honest_importDep _ _) _ _).bind fun report => ?_
  refine Honest.bind ?_ fun _ => .pure _
  exact .ite (.pure _) ((Honest.orElseFail _ (honest_update ..)).bind fun _ => .pure _)

theorem honest_check {α : Type} (r : Except Jsonl.ImportError α) : Honest (Jsonl.check r) := by
  cases r with
  | ok a => exact .pure _
  | error e => exact .throw _

theorem honest_storedId (ids : Jsonl.IdMap) (row : Value) : Honest (Jsonl.storedId ids row) := by
  unfold Jsonl.storedId
  split
  · exact .pure _
  · exact .throw _

theorem honest_examineRow (project : String) (rename : Option (String × String))
    (acc : Jsonl.ImportReport × Jsonl.IdMap) (row : Value) :
    Honest (Jsonl.examineRow project rename acc row) := by
  unfold Jsonl.examineRow
  dsimp only
  split
  · exact .throw _
  · refine (honest_check _).bind fun _ => (Honest.attempt (honest_get _)).bind fun r => ?_
    split
    · exact .pure _
    · exact .ite (.pure _) (.pure _)

theorem honest_createRow (cfg : Config) (env : Jsonl.Env) (project : String)
    (ids : Jsonl.IdMap) (report : Jsonl.ImportReport) (entry : Value × Nat) :
    Honest (Jsonl.createRow cfg env project ids report entry) := by
  refine (honest_storedId ..).bind fun id => (Honest.attempt (honest_get id)).bind fun r => ?_
  split
  · exact .pure _
  · refine (honest_check _).bind fun createdAt => ?_
    exact (Honest.orElseFail _ (honest_create ..)).bind fun _ => .pure _

theorem honest_linkDep (env : Jsonl.Env) (rename : Option (String × String))
    (ids : Jsonl.IdMap) (id : String) (row : Nat) (report : Jsonl.ImportReport)
    (entry : Value × Nat) : Honest (Jsonl.linkDep env rename ids id row report entry) := by
  refine .ite (.pure _) ?_
  split
  · exact .pure _
  · refine .ite (.pure _) ((Honest.attempt (honest_addDep ..)).bind fun r => ?_)
    split
    · exact .pure _
    · exact .pure _
    · exact .throw _

theorem honest_settleRow (env : Jsonl.Env) (round : Nat) (acc : Bool × List Jsonl.Pending)
    (p : Jsonl.Pending) : Honest (Jsonl.settleRow env round acc p) := by
  refine (honest_check _).bind fun status => ?_
  refine (Honest.orElseFail _ (honest_get _)).bind fun current => .ite ?_ ?_
  · refine (Honest.attempt (honest_close ..)).bind fun r => ?_
    split
    · exact .pure _
    · exact .ite (.pure _) (.throw _)
    · exact .throw _
  · exact .ite ((Honest.orElseFail _ (honest_update ..)).bind fun _ => .pure _) (.pure _)

theorem honest_settle (env : Jsonl.Env) (fuel round : Nat) (pending : List Jsonl.Pending) :
    Honest (Jsonl.settle env fuel round pending) := by
  induction fuel generalizing round pending with
  | zero => exact .throw _
  | succ fuel ih =>
      exact (Honest.foldlM (honest_settleRow env round) pending _).bind fun _ =>
        .ite (ih (round + 1) _) (.pure _)

theorem honest_importJsonl (cfg : Config) (env : Jsonl.Env) (project : String)
    (rename : Option (String × String)) (rows : List Value) (dryRun : Bool) :
    Honest (Jsonl.import cfg env project rename rows dryRun) := by
  refine (Honest.foldlM (fun acc (r : Value × Nat) => honest_examineRow project rename acc r.1) _
    _).bind
    fun examined => .ite (.throw _) (.ite (.pure _) ?_)
  refine (Honest.foldlM (honest_createRow cfg env project _) _ _).bind fun report => ?_
  have hlink : ∀ report entry, Honest (Jsonl.linkRow env rename examined.2 report entry) :=
    fun report entry => (honest_storedId ..).bind fun id =>
      .foldlM (honest_linkDep env rename _ id _) _ _
  refine (Honest.foldlM hlink _ _).bind fun report => ?_
  refine (Honest.mapM (fun r : Value × Nat => (honest_storedId _ r.1).bind fun _ => .pure _) _).bind
    fun pending => ?_
  refine (honest_settle env _ 0 pending).bind fun left => ?_
  have hclose : ∀ report p, Honest (Jsonl.closeException env report p) :=
    fun report p => (Honest.orElseFail _ (honest_closeUnchecked ..)).bind fun _ => .pure _
  exact (Honest.foldlM hclose _ _).bind fun _ => .pure _

/-! ### Every action that came back left the lock healthy -/

theorem returns_returned {cfg : Config} {ε α : Type} {m : ImportM ε α} (hm : Honest m)
    {l : Locked Tables} (hl : l.poisoned = false)
    (h : ((returns m).run (Scope.exec cfg) l).1 = true) :
    ((returns m).run (Scope.exec cfg) l).2.poisoned = false := by
  unfold returns at h ⊢
  rw [Prog.run_bind, Prog.run_ret] at h ⊢
  refine run_returned hm.prog hl fun habort => ?_
  rw [habort] at h
  exact absurd h (by simp)

theorem Action.perform_returned {cfg : Config} {a : Action} {l : Locked Tables}
    (hl : l.poisoned = false) (h : (a.perform cfg l).1 = true) :
    (a.step cfg l).poisoned = false := by
  cases a with
  | op o => exact returns_returned (honest_method cfg o) hl h
  | setLabels => exact returns_returned (Honest.call _) hl h
  | addRemoteDep => exact returns_returned (honest_addRemoteDep ..) hl h
  | removeRemoteDep => exact returns_returned (Honest.call _) hl h
  | remoteDependencies => exact returns_returned (Honest.call _) hl h
  | importList => exact returns_returned (honest_importList ..) hl h
  | importJsonl => exact returns_returned (honest_importJsonl ..) hl h

/-- After a sequence of actions that all came back, the next one finds the lock healthy. -/
theorem Action.run_healthy {cfg : Config} {actions : List Action} {storeId : String}
    (h : Action.Returned cfg actions (opened storeId)) :
    (Action.run cfg actions (opened storeId)).poisoned = false :=
  Machine.invariant_of_meets (fun s : Locked Tables => s.poisoned = false)
    (fun _ _ hs hc => Action.perform_returned hs hc) actions rfl h

end Marbles.Db
