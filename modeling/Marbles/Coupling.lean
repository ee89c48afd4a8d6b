import Marbles.Adapter.Alone
import Marbles.Adapter.Looking
import Marbles.Db.Sound
import Marbles.Db.Action
import Marbles.Importing.Contract
import Marbles.Lib.Rely

/-!
# Columns that go together

An issue has a closing time exactly while it is closed, and a lease and a kind of holder exactly
while it has a holder. Nothing in either store says so; every path that writes one of these
columns writes the others with it. Reports and queues of both stores read one column and mean the
other.

On the local store the invariant follows from `RowStep`, which lists everything that a scope makes
of a row. The adapter writes documents, and one method writes several of them, so the invariant is
kept write by write: `Couples` is closed under the ways methods are put together, and each method
is shown to be one of them. A method that fails halfway has kept it up to there.
-/

namespace Marbles

/-- The closing time goes with the status, the kind and the expiry of a claim with its holder. -/
structure Coupled (issue : Issue) : Prop where
  closed : issue.closedAt.isSome = true ↔ issue.status = "closed"
  kind : issue.actorKind.isSome = true ↔ issue.assignee.isSome = true
  expiry : issue.expiresAt.isSome = true ↔ issue.assignee.isSome = true

/-- A patch sets the closing time with the status, and leaves claims alone. -/
theorem Coupled.patch {patch : IssuePatch} {policy : Policy} {now : Int} {issue next : Issue}
    (hc : Coupled issue) (h : patch.apply policy now issue = .ok next) : Coupled next := by
  obtain ⟨metadata, reference, rfl, -⟩ := patch.apply_ok h
  unfold IssuePatch.setStatus
  cases patch.status with
  | none => exact ⟨hc.closed, hc.kind, hc.expiry⟩
  | some status =>
      refine ⟨?_, hc.kind, hc.expiry⟩
      by_cases hclosed : status = "closed"
      · simp [hclosed]
      · simp [hclosed]

/-! ### The local store -/

namespace Db

/-- What a scope makes of a row keeps its columns together. -/
theorem RowStep.coupled {cfg : Config} {t : Tables} {s : Scope} {id : String} {row' : IssueRow}
    (h : RowStep cfg t id s row')
    (hc : ∀ {row}, t.issue.find id = some row → Coupled (t.view id row)) :
    Coupled (t.view id row') := by
  cases h with
  | kept hrow => exact hc hrow
  | create =>
      have hopen : Status.«open».asStr ≠ "closed" := by decide
      exact ⟨iff_of_false Bool.false_ne_true hopen, Iff.rfl, Iff.rfl⟩
  | @update _ _ _ row next status hrow hnext hstatus =>
      refine ⟨?_, (hc hrow).kind, (hc hrow).expiry⟩
      change next.closedAt.isSome = true ↔ status.asStr = "closed"
      rw [Status.asStr_of_parse hstatus]
      exact ((hc hrow).patch hnext).closed
  | setLabels hrow | addDep hrow | addRemoteDep hrow =>
      exact ⟨(hc hrow).closed, (hc hrow).kind, (hc hrow).expiry⟩
  | claim hid hrow => exact ⟨(hc hrow).closed, Iff.rfl, Iff.rfl⟩
  | touch hrow hholder =>
      refine ⟨(hc hrow).closed, (hc hrow).kind, iff_of_true rfl ?_⟩
      exact Option.isSome_iff_exists.mpr ⟨_, hholder⟩
  | release hrow | sweep hrow => exact ⟨(hc hrow).closed, Iff.rfl, Iff.rfl⟩
  | closeUnchecked => exact ⟨iff_of_true rfl rfl, Iff.rfl, Iff.rfl⟩

/-- The columns of every issue go together, whatever is called. -/
theorem Reachable.coupled {cfg : Config} {s : Locked Tables} (h : Reachable cfg s) {id : String}
    {issue : Issue} (hissue : s.state.rowToIssue id = some issue) : Coupled issue := by
  have hrows : ∀ id row, s.state.issue.find id = some row → Coupled (s.state.view id row) := by
    refine @Reachable.invariant cfg
      (fun t => ∀ id row, t.issue.find id = some row → Coupled (t.view id row))
      (fun storeId id row hrow => ?_) (fun t c t' hc he id row' hrow' => ?_) s h
    · simp [Tables.empty] at hrow
    · have hrow := (he.row hrow').coupled fun hrow => hc id _ hrow
      exact ⟨hrow.closed, hrow.kind, hrow.expiry⟩
  obtain ⟨row, hrow, rfl⟩ := rowToIssue_eq_some.mp hissue
  exact hrows id row hrow

end Db

/-! ### The adapter -/

namespace Adapter

open Json (Value)
open Records (Engine Key Version)

/-- The columns of the issue of a document go together. -/
def CoupledDoc (data : Value) : Prop := Coupled (issueOfJson "" data [] 0 0)

@[simp]
theorem coupledDoc_issueOfJson {id : String} {data : Value} {parents : List String} {m n : Nat} :
    Coupled (issueOfJson id data parents m n) ↔ CoupledDoc data :=
  ⟨fun h => ⟨h.closed, h.kind, h.expiry⟩, fun h => ⟨h.closed, h.kind, h.expiry⟩⟩

@[simp]
theorem coupledDoc_toJson {issue : Issue} : CoupledDoc (issueToJson issue) ↔ Coupled issue := by
  rw [← @coupledDoc_issueOfJson issue.id _ [] 0 0, issueOfJson_toJson]
  exact ⟨fun h => ⟨h.closed, h.kind, h.expiry⟩, fun h => ⟨h.closed, h.kind, h.expiry⟩⟩

/-- What is answered about an issue is a document whose columns go together. -/
def AnswersCoupled : (c : Call) → c.Resp → Prop
  | .current name _, found => name = issueKind → ∀ data, found = some data → CoupledDoc data
  | _, _ => True

/-- What is written about an issue is a document whose columns go together. -/
def WritesCoupled : Call → Prop
  | .append name _ data deleted | .compareAndSwap name _ _ data deleted =>
      name = issueKind → deleted = false → CoupledDoc data
  | _ => True

/-- A method that keeps the columns of the issues together, and that returns what `post` says. -/
structure Couples {α : Type} (post : α → Prop) (m : AdapterM α) : Prop where
  prog : Prog.Relies AnswersCoupled WritesCoupled (fun r => ∀ a, r = .ok a → post a) m.run

namespace Couples

variable {α β : Type} {post mid : α → Prop}

theorem pure {a : α} (h : post a) : Couples post (pure a : AdapterM α) :=
  ⟨fun _ heq => Except.ok.inj heq ▸ h⟩

theorem throw (e : Fault Error) : Couples post (throw e : AdapterM α) := ⟨fun _ heq => by cases heq⟩

theorem liftResult {r : Result α} (h : ∀ a, r = .ok a → post a) :
    Couples post (Adapter.liftResult r) := ⟨h⟩

theorem bind {post : β → Prop} {m : AdapterM α} {f : α → AdapterM β} (hm : Couples mid m)
    (hf : ∀ a, mid a → Couples post (f a)) : Couples post (m >>= f) := by
  refine ⟨hm.prog.bind fun r hr => ?_⟩
  cases r with
  | ok a => exact (hf a (hr a rfl)).prog
  | error e => exact fun _ heq => by cases heq

/-- What only looks writes nothing. -/
theorem of_looking {m : AdapterM α} (hm : Looking m) : Couples (fun _ => True) m := by
  refine ⟨Prog.Relies.mono (Prog.Relies.of_only (hm.only.mono fun c hc => ?_)) fun _ _ _ _ =>
    trivial⟩
  cases c with
  | current name key => trivial
  | keys name => trivial
  | _ => exact hc.elim

/-- What follows on a look. -/
theorem look {post : β → Prop} {m : AdapterM α} {f : α → AdapterM β} (hm : Looking m)
    (hf : ∀ a, Couples post (f a)) : Couples post (m >>= f) := (of_looking hm).bind fun a _ => hf a

theorem ite {c : Prop} [Decidable c] {m m' : AdapterM α} (hm : Couples post m)
    (hm' : Couples post m') : Couples post (if c then m else m') := by
  split
  · exact hm
  · exact hm'

theorem foldlM {f : β → α → AdapterM β} (hf : ∀ b a, Couples (fun _ => True) (f b a))
    (xs : List α) (b : β) : Couples (fun _ => True) (xs.foldlM f b) := by
  induction xs generalizing b with
  | nil => exact pure trivial
  | cons x xs ih =>
      rw [List.foldlM_cons]
      exact (hf b x).bind fun b _ => ih b

theorem forM {f : α → AdapterM PUnit} (hf : ∀ a, Couples (fun _ => True) (f a)) (xs : List α) :
    Couples (fun _ => True) (xs.forM f) := by
  induction xs with
  | nil => exact pure trivial
  | cons x xs ih => exact (hf x).bind fun _ _ => ih

theorem whenSome {a : Option α} {f : α → AdapterM Unit} (hf : ∀ a, Couples (fun _ => True) (f a)) :
    Couples (fun _ => True) (Adapter.whenSome a f) := by
  cases a with
  | none => exact pure trivial
  | some a => exact hf a

/-! #### What the methods are made of -/

/-- A document of another type. -/
theorem append {name : String} (hname : name ≠ issueKind) (key : Key) (data : Value) :
    Couples (fun _ => True) (Adapter.append name key data) :=
  ⟨fun h => absurd h hname, fun _ _ _ _ => trivial⟩

theorem tombstone (name : String) (key : Key) :
    Couples (fun _ => True) (Adapter.tombstone name key) :=
  ⟨fun _ h => Bool.noConfusion h, fun _ _ _ _ => trivial⟩

theorem loadIssue (id : String) :
    Couples (fun found => ∀ data, found = some data → CoupledDoc data) (Adapter.loadIssue id) :=
  ⟨trivial, fun _ hfound _ heq => Except.ok.inj heq ▸ hfound rfl⟩

theorem rowToIssue (id : String) :
    Couples (fun found => ∀ issue, found = some issue → Coupled issue) (Adapter.rowToIssue id) := by
  refine (loadIssue id).bind fun found hfound => ?_
  cases found with
  | none => exact pure fun _ heq => by cases heq
  | some data =>
      refine look .edges fun _ => look (.countOpen _) fun _ => look .edges fun _ => ?_
      refine look (.countOpen _) fun _ => pure fun issue heq => ?_
      obtain rfl := Option.some.inj heq
      exact coupledDoc_issueOfJson.mpr (hfound data rfl)

theorem get (id : String) : Couples Coupled (Adapter.get id) := by
  refine (rowToIssue id).bind fun found hfound => ?_
  cases found with
  | none => exact throw _
  | some issue => exact pure (hfound issue rfl)

theorem saveIssue {issue : Issue} (h : Coupled issue) :
    Couples (fun _ => True) (Adapter.saveIssue issue) :=
  ⟨fun _ _ => coupledDoc_toJson.mpr h, fun _ _ _ _ => trivial⟩

theorem saveIssueCas {issue : Issue} (h : Coupled issue) (expected : Version) :
    Couples (fun _ => True) (Adapter.saveIssueCas issue expected) := by
  refine ⟨fun _ _ => coupledDoc_toJson.mpr h, fun r _ => ?_⟩
  cases r with
  | ok result => exact fun _ _ => trivial
  | error message => exact fun _ _ => trivial

theorem issueVersion (id : String) : Couples (fun _ => True) (Adapter.issueVersion id) := by
  refine ⟨trivial, fun found _ => ?_⟩
  cases found with
  | none => exact fun _ _ => trivial
  | some version => exact fun _ _ => trivial

theorem logEvent (storeId id : String) (ts : Int) (actor event detail : String) :
    Couples (fun _ => True) (Adapter.logEvent storeId id ts actor event detail) := by
  refine ⟨trivial, fun seq _ => ?_⟩
  refine ((append (by decide) _ _).bind fun _ _ => look (.loadIssue id) fun found => ?_).prog
  cases found with
  | none => exact pure trivial
  | some data => exact append (by decide) _ _

/-! #### The methods -/

theorem ensureFolder (folder : Folder) (now : Int) :
    Couples (fun _ => True) (Adapter.ensureFolder folder now) := by
  refine ite (throw _) (ite (throw _) ?_)
  refine look (.checkFolderParent _ _) fun _ => look (.loadFolder _) fun _ => ?_
  exact append (by decide) _ _

theorem setProjectFolder (project : String) (folder : Option String) (now : Int) :
    Couples (fun _ => True) (Adapter.setProjectFolder project folder now) := by
  refine look (.loadProject project) fun data => ?_
  cases data with
  | none => exact throw _
  | some data =>
      cases trimmed folder with
      | none => exact tombstone _ _
      | some folder =>
          refine look (.loadFolder folder) fun found => ?_
          cases found with
          | none => exact throw _
          | some found => exact look (.current projectFolderKind _) fun _ => append (by decide) _ _

theorem markEvent (seq : Int) (f : Value → Value) :
    Couples (fun _ => True) (Adapter.markEvent seq f) :=
  look (.current outboundEventKind _) fun _ =>
    whenSome fun _ => ite (pure trivial) (append (by decide) _ _)

theorem tombstoneDocs (name : String) (gone : Value → Bool) :
    Couples (fun _ => True) (Adapter.tombstoneDocs name gone) :=
  look (.keys name) fun found => forM (fun key => look (.current name key) fun _ =>
    whenSome fun _ => ite (tombstone _ _) (pure trivial)) found

theorem tombstoneKeys (name : String) (gone : Key → Bool) :
    Couples (fun _ => True) (Adapter.tombstoneKeys name gone) :=
  look (.keys name) fun found => forM (fun _ => ite (tombstone _ _) (pure trivial)) found

theorem dropProject (slug : String) : Couples (fun _ => True) (Adapter.dropProject slug) := by
  refine look (.loadProject slug) fun data => ?_
  cases data with
  | none => exact throw _
  | some data =>
      refine look (.issuesOf slug) fun mine => ?_
      refine (tombstoneDocs _ _).bind fun _ _ => (tombstoneDocs _ _).bind fun _ _ => ?_
      refine (tombstoneKeys _ _).bind fun _ _ => (tombstoneKeys _ _).bind fun _ _ => ?_
      refine (forM (fun id => tombstone _ _) mine).bind fun _ _ => ?_
      exact (tombstone _ _).bind fun _ _ => pure trivial

section

variable (cfg : Config)

theorem create (spec : NewIssue) (draws : List String) (now : Int) :
    Couples (fun _ => True) (Adapter.create cfg spec draws now) := by
  unfold Adapter.create
  cases spec.project with
  | none => exact throw _
  | some project =>
      refine look (.loadProject project) fun data => ?_
      cases data with
      | none => exact throw _
      | some data =>
          refine look (.checkParent _ _) fun _ => look (.chooseId _ _ _) fun id => ?_
          refine look (.liftResult _) fun metadata => ?_
          have hnew : Coupled (newIssue spec id project
              (spec.availableAt.getD (wrapI64 (now + cfg.policy.creationGraceSeconds)))
              metadata now) :=
            ⟨iff_of_false Bool.false_ne_true fun h : "open" = "closed" => absurd h (by decide),
              Iff.rfl, Iff.rfl⟩
          exact (saveIssue hnew).bind fun _ _ => (logEvent ..).bind fun _ _ => pure trivial

theorem update (id : String) (patch : IssuePatch) (actor : String) (now : Int) :
    Couples (fun _ => True) (Adapter.update cfg id patch actor now) := by
  have hrest : Couples (fun _ => True) (do
      Adapter.logEvent cfg.storeId id now actor "updated" ""
      Adapter.get id) := (logEvent ..).bind fun _ _ => of_looking (.get id)
  refine look (.liftResult _) fun _ => (get id).bind fun current hcurrent => ?_
  refine (liftResult fun next hnext => hcurrent.patch hnext).bind fun next hnext => ?_
  exact (saveIssue hnext).bind fun _ _ => ite ((logEvent ..).bind fun _ _ => hrest) hrest

theorem saveLabels {issue : Issue} (h : Coupled issue) (labels : List String) (actor : String)
    (now : Int) : Couples (fun _ => True) (Adapter.saveLabels cfg issue labels actor now) := by
  have hsaved : Coupled { issue with labels := labels } := ⟨h.closed, h.kind, h.expiry⟩
  exact (saveIssue hsaved).bind fun _ _ => logEvent ..

theorem addLabel (id label actor : String) (now : Int) :
    Couples (fun _ => True) (Adapter.addLabel cfg id label actor now) :=
  (get id).bind fun _ hissue => whenSome fun _ => saveLabels cfg hissue _ actor now

theorem removeLabel (id label actor : String) (now : Int) :
    Couples (fun _ => True) (Adapter.removeLabel cfg id label actor now) :=
  (get id).bind fun _ hissue => saveLabels cfg hissue _ actor now

theorem addDep (child parent actor : String) (now : Int) :
    Couples (fun _ => True) (Adapter.addDep cfg child parent actor now) := by
  refine ite (throw _) (look (.checkIssue child) fun _ => look (.checkIssue parent) fun _ => ?_)
  refine look (.reachable parent child) fun _ => ite (throw _) ?_
  refine look (.current dependencyKind _) fun edge => ?_
  cases edge with
  | some edge => exact pure trivial
  | none =>
      refine (append (by decide) _ _).bind fun _ _ => (get child).bind fun issue hissue => ?_
      have hsaved : Coupled { issue with updatedAt := now } :=
        ⟨hissue.closed, hissue.kind, hissue.expiry⟩
      exact (saveIssue hsaved).bind fun _ _ => logEvent ..

theorem removeDep (child parent actor : String) (now : Int) :
    Couples (fun _ => True) (Adapter.removeDep cfg child parent actor now) := by
  refine look (.current dependencyKind _) fun edge => ?_
  cases edge with
  | none => exact pure trivial
  | some edge => exact (tombstone _ _).bind fun _ _ => logEvent ..

theorem claim (req : ClaimRequest) (now : Int) :
    Couples (fun _ => True) (Adapter.claim cfg req now) := by
  unfold Adapter.claim
  cases req.ttl cfg.week cfg.policy now with
  | none => exact throw _
  | some ttl =>
      refine look (.projectOf _) fun _ => (get _).bind fun current hcurrent => ?_
      have hclaimed : Coupled { current with
          assignee := some req.assignee
          actorKind := some req.actorKind.asStr
          expiresAt := some (wrapI64 (now + ttl))
          updatedAt := now } := ⟨hcurrent.closed, Iff.rfl, Iff.rfl⟩
      refine (issueVersion _).bind fun _ _ => ite (throw _) ?_
      refine (saveIssueCas hclaimed _).bind fun _ _ => ite ?_ ?_
      · exact (logEvent ..).bind fun _ _ => pure trivial
      · refine look (.get _) fun latest => ?_
        cases latest.assignee with
        | none => exact throw _
        | some holder => exact ite (throw _) (throw _)

theorem touch (id assignee : String) (now : Int) :
    Couples (fun _ => True) (Adapter.touch cfg id assignee now) := by
  refine (get id).bind fun issue hissue => ?_
  split
  · exact throw _
  · rename_i hholder
    cases touchTtl (issue.actorKind.bind ActorKind.parse) cfg.week cfg.policy now with
    | none => exact throw _
    | some ttl =>
        have hheld : issue.assignee.isSome = true :=
          Option.isSome_iff_exists.mpr ⟨_, not_not.mp hholder⟩
        have hrenewed : Coupled { issue with
            expiresAt := some (wrapI64 (now + ttl))
            updatedAt := now } := ⟨hissue.closed, hissue.kind, iff_of_true rfl hheld⟩
        exact (saveIssue hrenewed).bind fun _ _ => (logEvent ..).bind fun _ _ => pure trivial

theorem saveUnclaimed {issue : Issue} (h : Coupled issue) (now : Int) :
    Couples (fun _ => True) (Adapter.saveIssue (unclaim issue now)) := by
  have hsaved : Coupled (unclaim issue now) := ⟨h.closed, Iff.rfl, Iff.rfl⟩
  exact saveIssue hsaved

theorem release (id actor : String) (now : Int) :
    Couples (fun _ => True) (Adapter.release cfg id actor now) :=
  (get id).bind fun _ hissue => (saveUnclaimed hissue now).bind fun _ _ => logEvent ..

theorem sweepClaim (now : Int) (report : SweepReport) (lapsed : String × String × String) :
    Couples (fun _ => True) (Adapter.sweepClaim cfg now report lapsed) := by
  refine ite ((logEvent ..).bind fun _ _ => pure trivial) ((get _).bind fun _ hissue => ?_)
  exact (saveUnclaimed hissue now).bind fun _ _ => (logEvent ..).bind fun _ _ => pure trivial

theorem sweep (now : Int) : Couples (fun _ => True) (Adapter.sweep cfg now) :=
  look (.lapsed now) fun found => foldlM (sweepClaim cfg now) found ⟨[], []⟩

theorem closeUnchecked (id : String) (reason : Option String) (evidence : List Evidence)
    (actor : String) (now : Int) :
    Couples (fun _ => True) (Adapter.closeUnchecked cfg id reason evidence actor now) := by
  refine look (.get id) fun issue => ?_
  have hclosed : Coupled { unclaim issue now with
      evidence := mergeEvidence issue.evidence evidence
      status := "closed"
      closedAt := some now } := ⟨iff_of_true rfl rfl, Iff.rfl, Iff.rfl⟩
  exact (saveIssue hclosed).bind fun _ _ => (logEvent ..).bind fun _ _ => of_looking (.get id)

theorem close (id : String) (reason : Option String) (evidence : List Evidence) (actor : String)
    (now : Int) : Couples (fun _ => True) (Adapter.close cfg id reason evidence actor now) :=
  ite (throw _) (look (.checkBlockers id) fun _ => closeUnchecked cfg id reason evidence actor now)

theorem supersede (id replacement actor : String) (now : Int) :
    Couples (fun _ => True) (Adapter.supersede cfg id replacement actor now) :=
  look (.get replacement) fun _ => (closeUnchecked cfg id _ _ actor now).bind fun _ _ =>
    addLabel cfg id _ actor now

/-- Every method of the contract. -/
theorem method (op : Op) : Couples (fun _ => True) (Adapter.method cfg op) := by
  have hmap : ∀ {α : Type} {m : AdapterM α} (f : α → Reply), Couples (fun _ => True) m →
      Couples (fun _ => True) (f <$> m) := by
    intro α m f hm
    rw [map_eq_pure_bind]
    exact hm.bind fun _ _ => pure trivial
  have hunit : ∀ {m : AdapterM Unit}, Couples (fun _ => True) m →
      Couples (fun _ => True) (do m; Pure.pure Reply.unit : AdapterM Reply) :=
    fun hm => hm.bind fun _ _ => pure trivial
  -- Looking and appending couple, and so does a method put together from them.
  cases op with
  | ensureProject slug root idPrefix ts =>
      exact hunit (look (.loadProject slug) fun _ => append (by decide) _ _)
  | dropProject slug => exact hmap _ (dropProject slug)
  | projects => exact hmap _ (of_looking .projects)
  | ensureFolder folder now => exact hunit (ensureFolder folder now)
  | setProjectFolder project folder now => exact hunit (setProjectFolder project folder now)
  | folderView => exact hmap _ (of_looking .folderView)
  | pendingEvents now limit => exact hmap _ (of_looking (.pendingEvents now limit))
  | markEventDelivered seq now => exact hunit (markEvent seq _)
  | markEventFailed seq nextAttemptAt error => exact hunit (markEvent seq _)
  | create spec draws now => exact hmap _ (create cfg spec draws now)
  | get id => exact hmap _ (of_looking (.get id))
  | list project all onlyId => exact hmap _ (of_looking (.list project all onlyId))
  | ready project now => exact hmap _ (of_looking (.ready project now))
  | update id patch actor now => exact hmap _ (update cfg id patch actor now)
  | addLabel id label actor now => exact hunit (addLabel cfg id label actor now)
  | removeLabel id label actor now => exact hunit (removeLabel cfg id label actor now)
  | addDep child parent actor now => exact hunit (addDep cfg child parent actor now)
  | removeDep child parent actor now => exact hunit (removeDep cfg child parent actor now)
  | claim req now => exact hmap _ (claim cfg req now)
  | touch id assignee now => exact hmap _ (touch cfg id assignee now)
  | release id actor now => exact hunit (release cfg id actor now)
  | sweep now order => exact hmap _ (sweep cfg now)
  | close id reason evidence actor now => exact hmap _ (close cfg id reason evidence actor now)
  | supersede id replacement actor now => exact hunit (supersede cfg id replacement actor now)
  | history id => exact hmap _ (of_looking (.history id))
  | stats => exact hmap _ (of_looking .stats)
  | prometheusMetrics now => exact hmap _ (of_looking (.prometheusMetrics now))

end

end Couples

/-! #### Runs -/

/-- The columns of every issue document go together. -/
def CoupledState (s : Inner) : Prop :=
  ∀ key data, s.engine.current issueKind key = some data → CoupledDoc data

theorem CoupledState.answers {s : Inner} (h : CoupledState s) (c : Call) :
    AnswersCoupled c (exec c s).1 := by
  cases c with
  | current name key =>
      rintro rfl data hdata
      exact h key data hdata
  | _ => trivial

theorem CoupledState.put {s : Inner} (h : CoupledState s) {name : String} {key : Key} {data : Value}
    {deleted : Bool} (hdata : name = issueKind → deleted = false → CoupledDoc data) :
    CoupledState (s.put name key data deleted) := by
  intro k found hfound
  change (s.put name key data deleted).doc issueKind k = some found at hfound
  rw [doc_put] at hfound
  split at hfound
  · rename_i hkey
    cases hdeleted : deleted with
    | true =>
        rw [hdeleted] at hfound
        cases hfound
    | false =>
        rw [hdeleted] at hfound
        obtain rfl := Option.some.inj hfound
        exact hdata hkey.1.symm hdeleted
  · exact h k found hfound

theorem CoupledState.exec {s : Inner} (h : CoupledState s) (c : Call) (hc : WritesCoupled c) :
    CoupledState (exec c s).2 := by
  cases c with
  | append name key data deleted => exact h.put hc
  | compareAndSwap name key expected data deleted =>
      intro k found hfound
      change (s.engine.compareAndSwap name key expected data deleted).2.current issueKind k =
        some found at hfound
      rcases s.engine.compareAndSwap_engine name key expected data deleted with heq | heq
      · rw [heq] at hfound
        exact h.put hc k found hfound
      · rw [heq] at hfound
        exact h k found hfound
  | current name key => exact h
  | keys name => exact h
  | version name key => exact h
  | nextSeq => exact h

theorem coupledState_opened (cfg : Config) : CoupledState (opened cfg).state := by
  intro key data hdata
  change ((⟨Engine.new, 0⟩ : Inner).put storeMetaKind _ _ false).doc issueKind key =
      some data at hdata
  rw [doc_put, if_neg fun h => absurd h.1 (by decide)] at hdata
  cases hdata

/-- Every call of the contract keeps the columns together, also when it fails halfway. -/
theorem CoupledState.step {cfg : Config} {s : Locked Inner} (h : CoupledState s.state) (op : Op) :
    CoupledState (perform cfg op s).2.state := by
  rw [perform, Locked.withLock_state]
  split
  · exact h
  · exact (Prog.Relies.run (fun c s hs => hs.answers c) (fun c s hc hs => hs.exec c hc)
      (Couples.method cfg op).prog h).1

/-- What a caller can do with an adapter: call it, or import a list into it. -/
inductive Action where
  | op (op : Op)
  | importList (project : String) (clock : Import.ClockRead → Int) (rows : List Issue)

/-- The adapter after an action. -/
def Action.step (cfg : Config) : Action → Locked Inner → Locked Inner
  | .op o, s => Adapter.step cfg o s
  | .importList project clock rows, s =>
      (Prog.runE (I := Contract.StoreI) (perform cfg) (Contract.import project clock rows) s).2

/-- A state some sequence of actions reaches. -/
def Reachable (cfg : Config) (s : Locked Inner) : Prop :=
  ∃ actions, s = Machine.run (Action.step cfg) actions (opened cfg)

/-- The columns of every issue go together, whatever is called. -/
theorem Reachable.coupled {cfg : Config} {s : Locked Inner} (h : Reachable cfg s) {id : String}
    {issue : Issue} (hissue : s.state.rowToIssue id = some issue) : Coupled issue := by
  obtain ⟨actions, rfl⟩ := h
  have hstate : CoupledState (Machine.run (Action.step cfg) actions (opened cfg)).state := by
    refine Machine.invariant (fun s : Locked Inner => CoupledState s.state) (fun s a hs => ?_)
      actions (coupledState_opened cfg)
    cases a with
    | op o => exact hs.step o
    | importList project clock rows =>
        exact @Prog.run_invariant Contract.StoreI _ _ (perform cfg)
          (fun s : Locked Inner => CoupledState s.state) (fun op s hs => hs.step op)
          (Contract.import project clock rows).run s hs
  obtain ⟨data, hdata, rfl⟩ := Option.map_eq_some_iff.mp hissue
  exact coupledDoc_issueOfJson.mpr (hstate [id] data hdata)

end Adapter

/-- In both stores a closing time is there exactly for closed issues, and a lease and a kind of
holder exactly for held ones. Nothing in the schema says so: it is a property of every statement
that writes one of these columns. -/
theorem columns_coupled (cfg : Adapter.Config) :
    (∀ s, Db.Reachable cfg.toConfig s → ∀ id issue, s.state.rowToIssue id = some issue →
      Coupled issue) ∧
    ∀ s, Adapter.Reachable cfg s → ∀ id issue, s.state.rowToIssue id = some issue →
      Coupled issue :=
  ⟨fun _ h _ _ hissue => h.coupled hissue, fun _ h _ _ hissue => h.coupled hissue⟩

/-- An issue that is claimed, and closed while it is held. -/
def closedIssue : List Op := [.ensureProject "p" "/p" "p" 0,
  .create { id := some "x", project := some "p" } [] 0, .claim ⟨"x", "a", .agent, none⟩ 1,
  .close "x" none [Evidence.ack "done"] "a" 5]

theorem columns_coupled_closed :
    (∃ issue, (Db.Action.run {} (closedIssue.map .op) (Db.opened "s")).state.rowToIssue "x" =
        some issue ∧ issue.closedAt = some 5 ∧ Coupled issue) ∧
    ∃ issue, (Machine.run (Adapter.Action.step {}) (closedIssue.map .op)
        (Adapter.opened {})).state.rowToIssue "x" = some issue ∧ issue.closedAt = some 5 ∧
      Coupled issue := by
  obtain ⟨issue, hissue, hclosed⟩ : ∃ issue, (Db.Action.run {} (closedIssue.map .op)
      (Db.opened "s")).state.rowToIssue "x" = some issue ∧ issue.closedAt = some 5 := ⟨_, rfl, rfl⟩
  obtain ⟨issue', hissue', hclosed'⟩ : ∃ issue, (Machine.run (Adapter.Action.step {})
      (closedIssue.map .op) (Adapter.opened {})).state.rowToIssue "x" = some issue ∧
      issue.closedAt = some 5 := ⟨_, rfl, rfl⟩
  exact ⟨⟨issue, hissue, hclosed,
      (columns_coupled {}).1 _ ⟨"s", closedIssue.map .op, rfl⟩ "x" issue hissue⟩,
    issue', hissue', hclosed',
      (columns_coupled {}).2 _ ⟨closedIssue.map .op, rfl⟩ "x" issue' hissue'⟩

end Marbles
