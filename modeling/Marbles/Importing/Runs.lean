import Marbles.Db.Closing
import Marbles.Db.Returns
import Marbles.Lib.Crash

/-!
# The methods an importer calls

What each method does for a caller that is alone on a healthy lock, said once as a rule for
`Runs`: which tables it leaves when it returns, and on which tables it fails. An importer
may be cut between any two lock scopes, so the rules are also about the scopes inside a
method: a method that writes does so in one of them.

`Runs` relates a program, the tables it starts from, and the outcomes it can have, wherever it is
cut. It is closed under binding and under looking at errors; the rules here are for single
methods, and the phases are put together from them.
-/

namespace Marbles.Importing

open Db

variable {cfg : Config} {ε ε' α β : Type} {inv : Tables → Prop} {ok : α → Tables → Prop}
  {err : ε → Tables → Prop} {t : Tables}

/-! ### Scopes -/

theorem runs_tx {s : Scope} {f : Tx s.Ret} {ok : s.Ret → Tables → Prop}
    {err : Error → Tables → Prop} (hexec : s.exec cfg = Locked.tx f) (hinv : inv t)
    (habort : f t ≠ .error .abort) (hok : ∀ a t', f t = .ok (a, t') → inv t' ∧ ok a t')
    (hfail : ∀ e, f t = .error (.fail e) → err e t) :
    Runs (Scope.exec cfg) inv ok err (call s) t := by
  refine ⟨⟨⟨rfl, hinv⟩, ?_⟩⟩
  rw [hexec, Locked.tx_new]
  cases hf : f t with
  | ok p => exact ⟨⟨rfl, (hok p.1 p.2 hf).1⟩, (hok p.1 p.2 hf).2⟩
  | error e =>
      cases e with
      | fail e => exact ⟨⟨rfl, hinv⟩, hfail e hf⟩
      | abort => exact absurd hf habort

theorem runs_query {s : Scope} {q : Tables → Result s.Ret} {ok : s.Ret → Tables → Prop}
    {err : Error → Tables → Prop} (hexec : s.exec cfg = Locked.query q) (hinv : inv t)
    (habort : q t ≠ .error .abort) (hok : ∀ a, q t = .ok a → ok a t)
    (hfail : ∀ e, q t = .error (.fail e) → err e t) :
    Runs (Scope.exec cfg) inv ok err (call s) t := by
  refine ⟨⟨⟨rfl, hinv⟩, ?_⟩⟩
  rw [hexec, Locked.query_new]
  cases hq : q t with
  | ok a => exact ⟨⟨rfl, hinv⟩, hok a hq⟩
  | error e =>
      cases e with
      | fail e => exact ⟨⟨rfl, hinv⟩, hfail e hq⟩
      | abort => exact absurd hq habort

/-! ### Errors as values -/

/-- Looking at the error of a method and going on. -/
theorem runs_attempt {m : DbM α} {k : Except Error α → ImportM ε β} {ok : β → Tables → Prop}
    (h : Runs (Scope.exec cfg) inv (fun a t => Runs (Scope.exec cfg) inv ok err (k (.ok a)) t)
      (fun e t => Runs (Scope.exec cfg) inv ok err (k (.error e)) t) m t) :
    Runs (Scope.exec cfg) inv ok err (attempt m >>= k) t := by
  have hcaught : Runs (Scope.exec cfg) inv (fun r t => Runs (Scope.exec cfg) inv ok err (k r) t)
      err (attempt m) t := by
    refine ⟨h.keeps.bind ?_⟩
    rintro r l hl hends
    cases r with
    | ok a => exact ⟨hl, hends⟩
    | error e =>
        cases e with
        | fail e => exact ⟨hl, hends⟩
        | abort => exact hends.elim
  exact hcaught.bind fun r t _ hr => hr

/-- Giving up on the error of a method. -/
theorem runs_orElseFail {m : DbM α} {f : Error → ε}
    (h : Runs (Scope.exec cfg) inv ok (fun e t => err (f e) t) m t) :
    Runs (Scope.exec cfg) inv ok err (orElseFail f m) t := by
  refine runs_attempt (h.mono (fun _ h => h) (fun a t hinv ha => .pure hinv ha)
    fun e t hinv he => ?_)
  exact .fail hinv he

/-! ### Reading -/

theorem runs_get {id : String} {ok : Issue → Tables → Prop} {err : Error → Tables → Prop}
    (hinv : inv t) (hfound : ∀ row, t.issue.find id = some row → ok (t.view id row) t)
    (hnone : t.issue.find id = none → err (.notFound id) t) :
    Runs (Scope.exec cfg) inv ok err (get id) t := by
  have hexec : (Scope.get id).exec cfg = Locked.query (getQuery id) := rfl
  refine runs_query hexec hinv getQuery_ne_abort (fun issue hq => ?_) fun e hq => ?_
  · obtain ⟨row, hrow, rfl⟩ := getQuery_eq_ok.mp hq
    exact hfound row hrow
  · rw [getQuery, Tables.rowToIssue] at hq
    cases hfind : t.issue.find id with
    | none =>
        rw [hfind] at hq
        cases hq
        exact hnone hfind
    | some row =>
        rw [hfind] at hq
        cases hq

/-! ### Creating -/

/-- An issue can be created with this project, parent and id. -/
structure Creatable (t : Tables) (project : String) (parent : Option String) (id : String) :
    Prop where
  exists_project : project ∈ t.project.keys
  exists_parent : ∀ p, parent = some p → ∃ row, t.issue.find p = some row ∧ row.project = project
  fresh : t.issue.find id = none

theorem createTx_creatable {spec : NewIssue} {project id : String} {metadata : Json.Object}
    {available now : Int} {draws : List String} (hid : spec.id = some id)
    (hmetadata : spec.storedMetadata = .ok metadata) (h : Creatable t project spec.parent id) :
    ∃ p, createTx spec project available draws now t = .ok p := by
  obtain ⟨prow, hprow⟩ := Table.mem_keys.mp h.exists_project
  have hparent : checkParent t project spec.parent = .ok () := by
    cases hp : spec.parent with
    | none => rfl
    | some p =>
        obtain ⟨row, hrow, hproject⟩ := h.exists_parent p hp
        simp only [checkParent, hrow, hproject, if_true]
  have hchoose : chooseId t prow.idPrefix draws spec.id = .ok id := by
    rw [hid, chooseId, if_neg (Table.find_eq_none.mp h.fresh)]
  simp only [createTx, hprow, hparent, Outcome.ofOption_some, hmetadata]
  change ∃ p, (chooseId t prow.idPrefix draws spec.id >>= fun _ => _) = .ok p
  rw [hchoose]
  exact ⟨_, rfl⟩

theorem createTx_ne_abort {spec : NewIssue} {project id : String} {available now : Int}
    {draws : List String} (hid : spec.id = some id) :
    createTx spec project available draws now t ≠ .error .abort := by
  refine Outcome.bind_ne_abort Outcome.ofOption_ne_abort fun row _ =>
    Outcome.bind_ne_abort checkParent_ne_abort fun _ _ => Outcome.bind_ne_abort ?_ fun _ _ =>
      Outcome.bind_ne_abort storedMetadata_ne_abort fun _ _ => Outcome.ok_ne_abort
  rw [hid, chooseId]
  exact Outcome.ite_ne_abort Outcome.fail_ne_abort Outcome.ok_ne_abort

/-- Creating an issue under a given id. -/
theorem runs_create {spec : NewIssue} {project id : String} {metadata : Json.Object}
    {draws : List String} {now : Int} {ok : String → Tables → Prop} {err : Error → Tables → Prop}
    (hproject : spec.project = some project) (hid : spec.id = some id)
    (hmetadata : spec.storedMetadata = .ok metadata) (hinv : inv t)
    (hok : Creatable t project spec.parent id → ∀ available t',
      t'.issue = t.issue.insert id (newRow spec project available metadata now) →
      t'.dep = t.dep → t'.project = t.project → inv t' ∧ ok id t')
    (hfail : ¬ Creatable t project spec.parent id → ∀ e, err e t) :
    Runs (Scope.exec cfg) inv ok err (create cfg spec draws now) t := by
  unfold create
  rw [hproject]
  have hexec : (Scope.create spec project (spec.availableAt.getD
      (wrapI64 (now + cfg.policy.creationGraceSeconds))) draws now).exec cfg =
      Locked.tx (createTx spec project _ draws now) := rfl
  refine runs_tx hexec hinv (createTx_ne_abort hid) (fun i t' h => ?_) fun e h => ?_
  · obtain ⟨metadata', hproject, hparent, hfresh, hi, hm, rfl⟩ := createTx_ok h
    obtain rfl := hi id hid
    obtain rfl := Except.ok.inj (hmetadata.symm.trans hm)
    exact hok ⟨hproject, hparent, hfresh⟩ _ _ rfl rfl rfl
  · refine hfail (fun hc => ?_) e
    obtain ⟨p, hp⟩ := @createTx_creatable t spec project id metadata
      (spec.availableAt.getD (wrapI64 (now + cfg.policy.creationGraceSeconds))) now draws hid
        hmetadata hc
    exact absurd (hp.symm.trans h) nofun

/-! ### Linking -/

/-- Adding an edge to an issue that is there. -/
theorem runs_addDep {child parent actor : String} {now : Int} {ok : Unit → Tables → Prop}
    {err : Error → Tables → Prop} (hinv : inv t) (hchild : child ∈ t.issue.keys)
    (hok : child ≠ parent → parent ∈ t.issue.keys → t.reachable parent child = false → ∀ t',
      t'.issue = t.issue.modify child (fun row => { row with updatedAt := now }) →
      t'.dep = t.dep.insert (child, parent) () → t'.project = t.project → inv t' ∧ ok () t')
    (hmissing : child ≠ parent → parent ∉ t.issue.keys → err (.notFound parent) t)
    (hcycle : child = parent ∨ parent ∈ t.issue.keys ∧ t.reachable parent child = true →
      err (.cycle child parent) t) :
    Runs (Scope.exec cfg) inv ok err (addDep child parent actor now) t := by
  refine .ite (fun heq => .fail hinv (hcycle (Or.inl heq))) fun hne => ?_
  have hexec : (Scope.addDep child parent actor now).exec cfg =
      Locked.tx (addDepTx child parent actor now) := rfl
  -- The three ways add_dep ends once the child is there: it adds the edge, finds the parent
  -- missing, or finds a cycle.
  refine runs_tx hexec hinv ?_ (fun u t' h => ?_) fun e h => ?_
  · exact Outcome.bind_ne_abort Outcome.ofOption_ne_abort fun _ _ =>
      Outcome.bind_ne_abort Outcome.ofOption_ne_abort fun _ _ =>
        Outcome.ite_ne_abort Outcome.fail_ne_abort Outcome.ok_ne_abort
  · obtain ⟨-, hparent, hreach, rfl⟩ := addDepTx_ok h
    exact hok hne hparent hreach _ rfl rfl rfl
  · by_cases hparent : parent ∈ t.issue.keys
    · obtain ⟨hrefused, hadded⟩ := addDepTx_eq actor now hchild hparent
      cases hreach : t.reachable parent child with
      | true =>
          obtain rfl := Fault.fail.inj (Except.error.inj (h.symm.trans (hrefused hreach)))
          exact hcycle (Or.inr ⟨hparent, hreach⟩)
      | false =>
          obtain ⟨t', ht'⟩ := hadded hreach
          exact absurd (ht'.symm.trans h) nofun
    · obtain ⟨crow, hcrow⟩ := Table.mem_keys.mp hchild
      have hfind := Table.find_eq_none.mpr hparent
      unfold addDepTx at h
      simp only [Tables.rowToIssue, hcrow, hfind, Option.map_some, Option.map_none,
        Outcome.ofOption_some, Outcome.ofOption_none] at h
      cases h
      exact hmissing hne hparent

/-! ### Setting a status -/

/-- The row after its status was set. -/
def restated (status : Status) (closedAt : Option Int) (available now : Int) (row : IssueRow) :
    IssueRow :=
  { row with
    status := status, closedAt := closedAt, availableAt := some available, updatedAt := now }

/-- An update that only sets the status and the time the issue becomes available. -/
theorem updateTx_restates {id status actor : String} {availableAt : Option Int} {now : Int}
    {t' : Tables} (h : updateTx cfg id { status := some status, availableAt := availableAt } actor
      now t =
      .ok ((), t')) :
    ∃ st closedAt available, Status.parse status = some st ∧ id ∈ t.issue.keys ∧
      t'.issue = t.issue.modify id (restated st closedAt available now) ∧ t'.dep = t.dep ∧
      t'.project = t.project := by
  obtain ⟨row, next, st, hrow, hnext, hst, hissue, hdep, hproject⟩ := updateTx_ok h
  cases hnext
  refine ⟨st, if status = "closed" then some now else none,
    IssuePatch.available { status := some status, availableAt := availableAt } cfg.policy now
      (t.view id row), hst, Table.mem_keys_of_find hrow, hissue.trans ?_, hdep, hproject⟩
  refine Table.mapRows_congr fun k v hv => ?_
  by_cases hk : k = id
  · subst hk
    obtain rfl := Option.some.inj (hrow.symm.trans hv)
    rfl
  · rw [if_neg hk, if_neg hk]

theorem updateTx_known {id status actor : String} {availableAt : Option Int} {now : Int}
    {st : Status} (hst : Status.parse status = some st) (hid : id ∈ t.issue.keys) :
    ∃ t', updateTx cfg id { status := some status, availableAt := availableAt } actor now t =
      .ok ((), t') := by
  obtain ⟨row, hrow⟩ := Table.mem_keys.mp hid
  unfold updateTx
  simp only [Tables.rowToIssue, hrow, Option.map_some, Outcome.ofOption_some]
  change ∃ t', (Outcome.ofOption _ (Status.parse status) >>= fun _ => _) = .ok ((), t')
  rw [hst]
  exact ⟨_, rfl⟩

/-- Setting the status of an issue. -/
theorem runs_restate {id status actor : String} {availableAt : Option Int} {now : Int}
    {ok : Issue → Tables → Prop} {err : Error → Tables → Prop} (hinv : inv t)
    (hok : ∀ st closedAt available, Status.parse status = some st → id ∈ t.issue.keys → ∀ t',
      t'.issue = t.issue.modify id (restated st closedAt available now) → t'.dep = t.dep →
      t'.project = t.project → inv t' ∧ ∀ issue, ok issue t')
    (hfail : status ∉ allStatuses ∨ id ∉ t.issue.keys → ∀ e, err e t) :
    Runs (Scope.exec cfg) inv ok err
      (update id { status := some status, availableAt := availableAt } actor now) t := by
  unfold update
  have hexec : (Scope.update id { status := some status, availableAt := availableAt } actor
      now).exec
      cfg = Locked.tx (updateTx cfg id _ actor now) := rfl
  -- A status that does not parse is refused before the store is asked; one that does is written
  -- whenever the issue is there.
  by_cases hstatus : status ∈ allStatuses
  · obtain ⟨st, hst⟩ := mem_allStatuses.mp hstatus
    have hcheck : liftResult (IssuePatch.checkStatus
        { status := some status, availableAt := availableAt }) = (Pure.pure () : DbM Unit) := by
      simp only [IssuePatch.checkStatus, if_pos hstatus]
      rfl
    rw [hcheck, pure_bind]
    refine Runs.bind (q := fun _ t' => id ∈ t'.issue.keys ∧ ∀ issue, ok issue t')
      (runs_tx hexec hinv ?_ (fun u t' h => ?_) fun e h => ?_) fun _ t' hinv' hread => ?_
    · exact Outcome.bind_ne_abort Outcome.ofOption_ne_abort fun _ _ =>
        Outcome.bind_ne_abort patch_apply_ne_abort fun _ _ =>
          Outcome.bind_ne_abort Outcome.ofOption_ne_abort fun _ _ => Outcome.ok_ne_abort
    · obtain ⟨st, closedAt, available, hst, hid, hissue, hdep, hproject⟩ := updateTx_restates h
      obtain ⟨hinv', hok'⟩ := hok st closedAt available hst hid t' hissue hdep hproject
      exact ⟨hinv', by rwa [hissue, Table.keys_modify], hok'⟩
    · refine hfail (Or.inr fun hid => ?_) e
      obtain ⟨t', ht'⟩ := @updateTx_known cfg t id status actor availableAt now st hst hid
      exact absurd (ht'.symm.trans h) nofun
    · refine runs_get hinv' (fun row _ => hread.2 _) fun hnone => ?_
      exact absurd hread.1 (Table.find_eq_none.mp hnone)
  · have hcheck : liftResult (IssuePatch.checkStatus
        { status := some status, availableAt := availableAt }) =
        (throw (.fail (.badStatus status)) : DbM Unit) := by
      simp only [IssuePatch.checkStatus, if_neg hstatus]
      rfl
    rw [hcheck]
    exact Runs.bind (Runs.fail hinv (hfail (Or.inl hstatus) _)) fun _ _ _ h => absurd h not_false

/-! ### Closing -/

/-- Closing an issue that is there, whatever it waits on. -/
theorem runs_closeUnchecked {id actor : String} {reason : Option String} {evidence : List Evidence}
    {now : Int} {ok : Issue → Tables → Prop} {err : Error → Tables → Prop} (hinv : inv t)
    (hid : id ∈ t.issue.keys)
    (hok : ∀ t', t'.issue = t.issue.modify id (fun row => row.close reason evidence now) →
      t'.dep = t.dep → t'.project = t.project → inv t' ∧ ∀ issue, ok issue t') :
    Runs (Scope.exec cfg) inv ok err (closeUnchecked id reason evidence actor now) t := by
  have hexec : (Scope.closeUnchecked id reason evidence actor now).exec cfg =
      Locked.tx (closeUncheckedTx id reason evidence actor now) := rfl
  refine Runs.bind (q := fun _ t' => id ∈ t'.issue.keys ∧ ∀ issue, ok issue t')
    (runs_tx hexec hinv ?_ (fun u t' h => ?_) fun e h => ?_) fun _ t' hinv' hread => ?_
  · exact Outcome.bind_ne_abort Outcome.ofOption_ne_abort fun _ _ => Outcome.ok_ne_abort
  · have hclosed := hok t'
    obtain ⟨row, hrow, rfl⟩ := closeUncheckedTx_ok h
    obtain ⟨hinv', hok'⟩ := hclosed rfl rfl rfl
    refine ⟨hinv', ?_, hok'⟩
    rwa [Tables.logEvent_issue, Tables.setIssue_issue, Table.keys_modify]
  · obtain ⟨row, hrow⟩ := Table.mem_keys.mp hid
    simp only [closeUncheckedTx, hrow, Outcome.ofOption_some] at h
    exact absurd h nofun
  · refine runs_get hinv' (fun row _ => hread.2 _) fun hnone => ?_
    exact absurd hread.1 (Table.find_eq_none.mp hnone)

/-- Closing an issue that is there with evidence. -/
theorem runs_close {id actor : String} {reason : Option String} {evidence : List Evidence}
    {now : Int} {ok : Issue → Tables → Prop} {err : Error → Tables → Prop} (hinv : inv t)
    (hid : id ∈ t.issue.keys) (hevidence : evidence.isEmpty = false)
    (hok : Unblocked t id → ∀ t',
      t'.issue = t.issue.modify id (fun row => row.close reason evidence now) →
      t'.dep = t.dep → t'.project = t.project → inv t' ∧ ∀ issue, ok issue t')
    (hwaits : ¬ Unblocked t id → ∀ blocker, err (waitsOn id blocker) t) :
    Runs (Scope.exec cfg) inv ok err (close id reason evidence actor now) t := by
  unfold close
  rw [hevidence, if_neg Bool.false_ne_true]
  have hexec : (Scope.checkBlockers id).exec cfg = Locked.query (checkBlockersQuery id) := rfl
  refine Runs.bind (q := fun _ t' => t' = t ∧ Unblocked t id)
    (runs_query hexec hinv checkBlockersQuery_ne_abort (fun u h => ⟨rfl, checkBlockersQuery_ok h⟩)
      fun e h => ?_) ?_
  · rw [checkBlockersQuery] at h
    cases hb : t.openBlockers id with
    | nil => rw [hb] at h; exact absurd h nofun
    | cons blocker rest =>
        rw [hb] at h
        cases h
        refine hwaits (fun hu => ?_) blocker
        rw [unblocked_iff.mp hu] at hb
        exact absurd hb.symm (List.cons_ne_nil _ _)
  · rintro _ _ - ⟨rfl, hu⟩
    exact runs_closeUnchecked hinv hid (hok hu)

end Marbles.Importing
