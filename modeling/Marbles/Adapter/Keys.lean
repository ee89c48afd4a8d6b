import Marbles.Coupling

/-!
# Keys of records

Every record type declares the columns of its key, and the engine takes whatever key it is given.
What the methods store they store under a key of as many parts as the type declares, so that no
two documents stand for one issue, one project or one edge.

The engine would take any key, so the invariant is one of the methods and not of the engine. Every
method that stores a document does so through one of a few helpers, each of which builds the key
from columns. How many parts a key has is looked up in the schemas, so a type that is added there
is covered as soon as its writes are.
-/

namespace Marbles.Adapter

open Records (Engine Key Version)

/-- The key columns of each record type. A document under another key than its columns spell would
be found by one read and missed by another. -/
def schemas : List (String × List String) := [
  (issueKind, ["id"]),
  (projectKind, ["slug"]),
  (folderKind, ["slug"]),
  (projectFolderKind, ["project"]),
  (dependencyKind, ["child", "parent"]),
  (remoteDepKind, ["child", "canonical_ref"]),
  (outboundEventKind, ["seq"]),
  (marblesEventKind, ["seq"]),
  (storeMetaKind, ["key"])]

/-- The columns that make up the key of a type; a type without a schema has none. -/
def keyColumns (name : String) : List String := (schemas.lookup name).getD []

/-- A document is stored under a whole key. -/
def Call.IsKeyed : Call → Prop
  | .append name key _ deleted | .compareAndSwap name key _ _ deleted =>
      deleted = false → key.length = (keyColumns name).length
  | _ => True

/-- A method that stores documents under whole keys. Tombstones may go anywhere, as they store
nothing. -/
structure Keyed {α : Type} (m : AdapterM α) : Prop where
  only : Prog.Only Call.IsKeyed m.run

namespace Keyed

variable {α β : Type}

theorem of_looking {m : AdapterM α} (hm : Looking m) : Keyed m := by
  refine ⟨hm.only.mono fun c hc => ?_⟩
  cases c with
  | current name key => trivial
  | keys name => trivial
  | _ => exact hc.elim

theorem pure (a : α) : Keyed (Pure.pure a : AdapterM α) := of_looking (.pure a)

theorem throw (e : Fault Error) : Keyed (MonadExcept.throw e : AdapterM α) := of_looking (.throw e)

theorem bind {m : AdapterM α} {f : α → AdapterM β} (hm : Keyed m) (hf : ∀ a, Keyed (f a)) :
    Keyed (m >>= f) := ⟨hm.only.bind_except fun a => (hf a).only⟩

/-- What follows on a look. -/
theorem look {m : AdapterM α} {f : α → AdapterM β} (hm : Looking m) (hf : ∀ a, Keyed (f a)) :
    Keyed (m >>= f) := (of_looking hm).bind hf

theorem ite {c : Prop} [Decidable c] {m m' : AdapterM α} (hm : Keyed m) (hm' : Keyed m') :
    Keyed (if c then m else m') := by
  split
  · exact hm
  · exact hm'

theorem foldlM {f : β → α → AdapterM β} (hf : ∀ b a, Keyed (f b a)) (xs : List α) (b : β) :
    Keyed (xs.foldlM f b) := ⟨Prog.Only.foldlM (fun b a => (hf b a).only) xs b⟩

theorem forM {f : α → AdapterM PUnit} (hf : ∀ a, Keyed (f a)) (xs : List α) :
    Keyed (xs.forM f) := by
  induction xs with
  | nil => exact pure PUnit.unit
  | cons x xs ih => exact (hf x).bind fun _ => ih

theorem whenSome {a : Option α} {f : α → AdapterM Unit} (hf : ∀ a, Keyed (f a)) :
    Keyed (Adapter.whenSome a f) := by
  cases a with
  | none => exact pure ()
  | some a => exact hf a

/-! ### What the methods are made of -/

theorem append {name : String} {key : Key} (h : key.length = (keyColumns name).length)
    (data : Json.Value) : Keyed (Adapter.append name key data) :=
  ⟨fun _ => h, fun _ => trivial⟩

theorem tombstone (name : String) (key : Key) : Keyed (Adapter.tombstone name key) :=
  ⟨fun h => Bool.noConfusion h, fun _ => trivial⟩

theorem saveIssue (issue : Issue) : Keyed (Adapter.saveIssue issue) := append (by rfl) _

theorem saveIssueCas (issue : Issue) (expected : Version) :
    Keyed (Adapter.saveIssueCas issue expected) := by
  refine ⟨fun _ => rfl, fun r => ?_⟩
  cases r with
  | ok result => trivial
  | error message => trivial

theorem issueVersion (id : String) : Keyed (Adapter.issueVersion id) := by
  refine ⟨trivial, fun found => ?_⟩
  cases found with
  | none => trivial
  | some version => trivial

theorem logEvent (storeId id : String) (ts : Int) (actor event detail : String) :
    Keyed (Adapter.logEvent storeId id ts actor event detail) := by
  refine ⟨trivial, fun seq => ?_⟩
  refine ((append (by rfl) _).bind fun _ => look (.loadIssue id) fun found => ?_).only
  cases found with
  | none => exact pure ()
  | some data => exact append (by rfl) _

/-! ### The methods -/

theorem ensureFolder (folder : Folder) (now : Int) : Keyed (Adapter.ensureFolder folder now) := by
  refine ite (throw _) (ite (throw _) ?_)
  exact look (.checkFolderParent _ _) fun _ => look (.loadFolder _) fun _ => append (by rfl) _

theorem setProjectFolder (project : String) (folder : Option String) (now : Int) :
    Keyed (Adapter.setProjectFolder project folder now) := by
  refine look (.loadProject project) fun data => ?_
  cases data with
  | none => exact throw _
  | some data =>
      cases trimmed folder with
      | none => exact tombstone _ _
      | some folder =>
          refine look (.loadFolder folder) fun found => ?_
          cases found with
          | none => exact throw _
          | some found => exact look (.current projectFolderKind _) fun _ => append (by rfl) _

theorem markEvent (seq : Int) (f : Json.Value → Json.Value) : Keyed (Adapter.markEvent seq f) :=
  look (.current outboundEventKind _) fun _ => whenSome fun _ => ite (pure ()) (append (by rfl) _)

theorem tombstoneDocs (name : String) (gone : Json.Value → Bool) :
    Keyed (Adapter.tombstoneDocs name gone) :=
  look (.keys name) fun found => forM (fun key => look (.current name key) fun _ =>
    whenSome fun _ => ite (tombstone _ _) (pure _)) found

theorem tombstoneKeys (name : String) (gone : Key → Bool) :
    Keyed (Adapter.tombstoneKeys name gone) :=
  look (.keys name) fun found => forM (fun _ => ite (tombstone _ _) (pure _)) found

theorem dropProject (slug : String) : Keyed (Adapter.dropProject slug) := by
  refine look (.loadProject slug) fun data => ?_
  cases data with
  | none => exact throw _
  | some data =>
      refine look (.issuesOf slug) fun mine => ?_
      refine (tombstoneDocs _ _).bind fun _ => (tombstoneDocs _ _).bind fun _ => ?_
      refine (tombstoneKeys _ _).bind fun _ => (tombstoneKeys _ _).bind fun _ => ?_
      refine (forM (fun id => tombstone _ _) mine).bind fun _ => ?_
      exact (tombstone _ _).bind fun _ => pure _

section

variable (cfg : Config)

theorem create (spec : NewIssue) (draws : List String) (now : Int) :
    Keyed (Adapter.create cfg spec draws now) := by
  unfold Adapter.create
  cases spec.project with
  | none => exact throw _
  | some project =>
      refine look (.loadProject project) fun data => ?_
      cases data with
      | none => exact throw _
      | some data =>
          refine look (.checkParent _ _) fun _ => look (.chooseId _ _ _) fun id => ?_
          refine look (.liftResult _) fun metadata => ?_
          exact (append (by rfl) _).bind fun _ => (logEvent ..).bind fun _ => pure _

theorem update (id : String) (patch : IssuePatch) (actor : String) (now : Int) :
    Keyed (Adapter.update cfg id patch actor now) := by
  have hrest : Keyed (do
      Adapter.logEvent cfg.storeId id now actor "updated" ""
      Adapter.get id) := (logEvent ..).bind fun _ => of_looking (.get id)
  refine look (.liftResult _) fun _ => look (.get id) fun current => ?_
  refine look (.liftResult _) fun next => (saveIssue next).bind fun _ => ?_
  exact ite ((logEvent ..).bind fun _ => hrest) hrest

theorem saveLabels (issue : Issue) (labels : List String) (actor : String) (now : Int) :
    Keyed (Adapter.saveLabels cfg issue labels actor now) :=
  (saveIssue _).bind fun _ => logEvent ..

theorem addLabel (id label actor : String) (now : Int) :
    Keyed (Adapter.addLabel cfg id label actor now) :=
  look (.get id) fun _ => whenSome fun _ => saveLabels ..

theorem addDep (child parent actor : String) (now : Int) :
    Keyed (Adapter.addDep cfg child parent actor now) := by
  refine ite (throw _) (look (.checkIssue child) fun _ => look (.checkIssue parent) fun _ => ?_)
  refine look (.reachable parent child) fun _ => ite (throw _) ?_
  refine look (.current dependencyKind _) fun edge => ?_
  cases edge with
  | some edge => exact pure _
  | none =>
      refine (append (by rfl) _).bind fun _ => look (.get child) fun issue => ?_
      exact (saveIssue _).bind fun _ => logEvent ..

theorem removeDep (child parent actor : String) (now : Int) :
    Keyed (Adapter.removeDep cfg child parent actor now) := by
  refine look (.current dependencyKind _) fun edge => ?_
  cases edge with
  | none => exact pure _
  | some edge => exact (tombstone _ _).bind fun _ => logEvent ..

theorem claim (req : ClaimRequest) (now : Int) : Keyed (Adapter.claim cfg req now) := by
  unfold Adapter.claim
  cases req.ttl cfg.week cfg.policy now with
  | none => exact throw _
  | some ttl =>
      refine look (.projectOf _) fun _ => look (.get _) fun current => ?_
      refine (issueVersion _).bind fun _ => ite (throw _) ?_
      refine (saveIssueCas _ _).bind fun _ => ite ?_ ?_
      · exact (logEvent ..).bind fun _ => pure _
      · refine look (.get _) fun latest => ?_
        cases latest.assignee with
        | none => exact throw _
        | some holder => exact ite (throw _) (throw _)

theorem touch (id assignee : String) (now : Int) :
    Keyed (Adapter.touch cfg id assignee now) := by
  refine look (.get id) fun issue => ite (throw _) ?_
  cases touchTtl (issue.actorKind.bind ActorKind.parse) cfg.week cfg.policy now with
  | none => exact throw _
  | some ttl => exact (saveIssue _).bind fun _ => (logEvent ..).bind fun _ => pure _

theorem release (id actor : String) (now : Int) : Keyed (Adapter.release cfg id actor now) :=
  look (.get id) fun _ => (saveIssue _).bind fun _ => logEvent ..

theorem sweepClaim (now : Int) (report : SweepReport) (lapsed : String × String × String) :
    Keyed (Adapter.sweepClaim cfg now report lapsed) := by
  refine ite ((logEvent ..).bind fun _ => pure _) (look (.get _) fun _ => ?_)
  exact (saveIssue _).bind fun _ => (logEvent ..).bind fun _ => pure _

theorem closeUnchecked (id : String) (reason : Option String) (evidence : List Evidence)
    (actor : String) (now : Int) :
    Keyed (Adapter.closeUnchecked cfg id reason evidence actor now) := by
  refine look (.get id) fun issue => ?_
  exact (saveIssue _).bind fun _ => (logEvent ..).bind fun _ => of_looking (.get id)

/-- Every method of the contract. -/
theorem method (op : Op) : Keyed (Adapter.method cfg op) := by
  have hmap : ∀ {α : Type} {m : AdapterM α} (f : α → Reply), Keyed m → Keyed (f <$> m) := by
    intro α m f hm
    rw [map_eq_pure_bind]
    exact hm.bind fun _ => pure _
  have hunit : ∀ {m : AdapterM Unit}, Keyed m →
      Keyed (do m; Pure.pure Reply.unit : AdapterM Reply) := fun hm => hm.bind fun _ => pure _
  -- Every method is looking, checks and appends, put together by bind; only the appends write keys.
  cases op with
  | ensureProject slug root idPrefix ts =>
      exact hunit (look (.loadProject slug) fun _ => append (by rfl) _)
  | dropProject slug => exact hmap _ (dropProject slug)
  | projects => exact hmap _ (of_looking .projects)
  | ensureFolder folder now => exact hunit (ensureFolder folder now)
  | setProjectFolder project folder now => exact hunit (setProjectFolder project folder now)
  | folderView => exact hmap _ (of_looking .folderView)
  | pendingEvents now limit => exact hmap _ (of_looking (.pendingEvents now limit))
  | markEventDelivered seq now => exact hunit (markEvent seq _)
  | markEventFailed seq nextAttemptAt error => exact hunit (markEvent seq _)
  | create spec draws now => exact hmap _ (create cfg spec draws now)
  | get id => exact hmap _ (of_looking (.get id))
  | list project all onlyId => exact hmap _ (of_looking (.list project all onlyId))
  | ready project now => exact hmap _ (of_looking (.ready project now))
  | update id patch actor now => exact hmap _ (update cfg id patch actor now)
  | addLabel id label actor now => exact hunit (addLabel cfg id label actor now)
  | removeLabel id label actor now =>
      exact hunit (look (.get id) fun _ => saveLabels cfg _ _ actor now)
  | addDep child parent actor now => exact hunit (addDep cfg child parent actor now)
  | removeDep child parent actor now => exact hunit (removeDep cfg child parent actor now)
  | claim req now => exact hmap _ (claim cfg req now)
  | touch id assignee now => exact hmap _ (touch cfg id assignee now)
  | release id actor now => exact hunit (release cfg id actor now)
  | sweep now order =>
      exact hmap _ (look (.lapsed now) fun found => foldlM (sweepClaim cfg now) found ⟨[], []⟩)
  | close id reason evidence actor now =>
      exact hmap _ (ite (throw _) (look (.checkBlockers id) fun _ =>
        closeUnchecked cfg id reason evidence actor now))
  | supersede id replacement actor now =>
      exact hunit (look (.get replacement) fun _ =>
        (closeUnchecked cfg id _ _ actor now).bind fun _ => addLabel cfg id _ actor now)
  | history id => exact hmap _ (of_looking (.history id))
  | stats => exact hmap _ (of_looking .stats)
  | prometheusMetrics now => exact hmap _ (of_looking (.prometheusMetrics now))

end

end Keyed

/-! ### Runs -/

/-- Every document has a whole key. -/
def KeyedState (s : Inner) : Prop :=
  ∀ name key, (s.engine.current name key).isSome = true → key.length = (keyColumns name).length

theorem keyedState_opened (cfg : Config) : KeyedState (opened cfg).state := by
  intro name key hfound
  change (((⟨Engine.new, 0⟩ : Inner).put storeMetaKind _ _ false).doc name key).isSome =
      true at hfound
  rw [doc_put] at hfound
  split at hfound
  · rename_i hkey
    rw [hkey.1, hkey.2]
    rfl
  · exact absurd hfound Bool.false_ne_true

theorem KeyedState.put {s : Inner} (h : KeyedState s) {name : String} {key : Key}
    {data : Json.Value} {deleted : Bool}
    (hkey : deleted = false → key.length = (keyColumns name).length) :
    KeyedState (s.put name key data deleted) := by
  intro n k hfound
  change ((s.put name key data deleted).doc n k).isSome = true at hfound
  rw [doc_put] at hfound
  split at hfound
  · rename_i hsame
    rw [hsame.1, hsame.2]
    cases hdeleted : deleted with
    | true =>
        rw [hdeleted] at hfound
        cases hfound
    | false => exact hkey hdeleted
  · exact h n k hfound

theorem KeyedState.exec {s : Inner} (h : KeyedState s) (c : Call) (hc : c.IsKeyed) :
    KeyedState (exec c s).2 := by
  cases c with
  | append name key data deleted => exact h.put hc
  | compareAndSwap name key expected data deleted =>
      intro n k hfound
      change ((s.engine.compareAndSwap name key expected data deleted).2.current n k).isSome =
        true at hfound
      rcases s.engine.compareAndSwap_engine name key expected data deleted with heq | heq
      · rw [heq] at hfound
        exact h.put hc n k hfound
      · rw [heq] at hfound
        exact h n k hfound
  | current name key => exact h
  | keys name => exact h
  | version name key => exact h
  | nextSeq => exact h

/-- A call stores documents under whole keys, also when it fails halfway. -/
theorem KeyedState.step {cfg : Config} {s : Locked Inner} (h : KeyedState s.state) (op : Op) :
    KeyedState (perform cfg op s).2.state := by
  rw [perform, Locked.withLock_state]
  split
  · exact h
  · exact (Keyed.method cfg op).only.run_invariant (fun c s hc hs => hs.exec c hc) h

theorem Reachable.keyed {cfg : Config} {s : Locked Inner} (h : Reachable cfg s) :
    KeyedState s.state := by
  obtain ⟨actions, rfl⟩ := h
  refine Machine.invariant (fun s : Locked Inner => KeyedState s.state) (fun s a hs => ?_)
    actions (keyedState_opened cfg)
  cases a with
  | op o => exact hs.step o
  | importList project clock rows =>
      exact @Prog.run_invariant Contract.StoreI _ _ (perform cfg)
        (fun s : Locked Inner => KeyedState s.state) (fun op s hs => hs.step op)
        (Contract.import project clock rows).run s hs

end Marbles.Adapter
