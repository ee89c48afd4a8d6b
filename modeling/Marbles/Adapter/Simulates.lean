import Marbles.Adapter.Twin
import Marbles.Db.Closing
import Marbles.Db.Returns

/-!
# Every call keeps the two stores in step

One lemma for each call that changes issues or edges: on stores in step, the method of the
adapter and the transaction of the local store end alike (`Follows`). Both go through the
same checks, so a call that fails has written nothing on either side.

`Follows` is a relation between two programs and the states they start in. It is closed under what
methods are made of: a check both sides make, a read both sides make, a write that leaves the
stores in step. Each method is then taken apart by these rules in the order of its statements.
-/

namespace Marbles.Adapter

open Json (Value)
open Records (Engine Key)
open Sorting (sortOn)
open Db (Tables IssueRow Tx)

/-- How a call ends on the adapter and on the local store that was in state `t`: both go on
in step, or both panic. Only where histories are not compared may the adapter refuse what
the local store does. -/
inductive Follows (audited : Prop) (t : Tables) {α β : Type} :
    Result α × Inner → Result (β × Tables) → Prop where
  | ok {a : α} {b : β} {s' : Inner} {t' : Tables} (h : Twins audited s' t') :
      Follows audited t (.ok a, s') (.ok (b, t'))
  | fail {e e' : Error} {s' : Inner} (h : Twins audited s' t) :
      Follows audited t (.error (.fail e), s') (.error (.fail e'))
  | refused {e : Error} {b : β} {s' : Inner} {t' : Tables} (ha : ¬ audited)
      (h : Twins audited s' t') : Follows audited t (.error (.fail e), s') (.ok (b, t'))
  | abort {s' : Inner} : Follows audited t (.error .abort, s') (.error .abort)

variable {audited : Prop} {s : Inner} {t : Tables} {cfg : Config}

namespace Follows

variable {α β γ δ : Type}

theorem map {x : Result α × Inner} {y : Result (β × Tables)} (h : Follows audited t x y)
    (g : α → γ) (k : β → δ) :
    Follows audited t (x.1.map g, x.2) (y.map fun p => (k p.1, p.2)) := by
  cases h with
  | ok h => exact .ok h
  | fail h => exact .fail h
  | refused ha h => exact .refused ha h
  | abort => exact .abort

/-- Turn what follows into a reply. -/
theorem reply {m : AdapterM α} {f : Tx β} (h : Follows audited t (runA m s) (f t)) (g : α → γ)
    (k : β → δ) : Follows audited t (runA (g <$> m) s) (Tx.map k f t) := by
  rw [runA_map]
  exact h.map g k

theorem unit {m : AdapterM Unit} {f : Tx β} (h : Follows audited t (runA m s) (f t)) :
    Follows audited t (runA (do m; pure Reply.unit) s) (Tx.map (fun _ => Reply.unit) f t) := by
  rw [runA_unit]
  exact h.map (fun _ => Reply.unit) fun _ => Reply.unit

/-- Go on after a read of the adapter. -/
theorem bind_reads {m : AdapterM α} {k : α → AdapterM γ} {a : α} {y : Result (β × Tables)}
    (hm : Reads m s a) (h : Follows audited t (runA (k a) s) y) :
    Follows audited t (runA (m >>= k) s) y := by
  rw [runA_bind_reads hm]
  exact h

/-- Go on after the adapter has read an issue. -/
theorem get (h : Twins audited s t) {id : String} {k : Issue → AdapterM α}
    {y : Result (β × Tables)}
    (hmissing : t.issue.find id = none → ∃ e, y = .error (.fail e))
    (hfound : ∀ row savedAt, t.issue.find id = some row →
      Follows audited t (runA (k { t.view id row with updatedAt := savedAt }) s) y) :
    Follows audited t (runA (Adapter.get id >>= k) s) y := by
  cases hrow : t.issue.find id with
  | none =>
      obtain ⟨e, rfl⟩ := hmissing hrow
      rw [runA_bind_error (get_missing (h.sim.rowToIssue_none hrow))]
      exact .fail h
  | some row =>
      obtain ⟨u, -, hget⟩ := h.sim.rowToIssue hrow
      exact bind_reads (reads_get hget) (hfound row u hrow)

end Follows

/-- Both stores do the call, and stay in step. -/
def Both (audited : Prop) {α β : Type} (x : Result α × Inner) (y : Result (β × Tables)) : Prop :=
  ∃ a s' b t', x = (.ok a, s') ∧ y = .ok (b, t') ∧ Twins audited s' t'

theorem Both.follows {α β : Type} {x : Result α × Inner} {y : Result (β × Tables)}
    (h : Both audited x y) : Follows audited t x y := by
  obtain ⟨a, s', b, t', rfl, rfl, h⟩ := h
  exact .ok h

/-- An issue that is there is read on both sides. -/
theorem both_get (h : Twins audited s t) {id : String} (hid : id ∈ t.issue.keys) :
    Both audited (runA (get id) s) (Tx.read (Db.getQuery id) t) := by
  obtain ⟨row, hrow⟩ := Table.mem_keys.mp hid
  obtain ⟨u, -, hget⟩ := h.sim.rowToIssue hrow
  exact ⟨_, s, t.view id row, t, (reads_get hget).eq,
    Db.Tx.read_eq_ok.mpr ⟨Db.getQuery_find hrow, rfl⟩, h⟩

/-- Saving an issue and recording an event about it. -/
theorem runA_saveLog (issue : Issue) (storeId id : String) (ts : Int)
    (actor event detail : String) :
    runA (do saveIssue issue; logEvent storeId id ts actor event detail) s =
      (.ok (), (s.save issue).log storeId id ts actor event detail) :=
  (runA_bind_ok (runA_saveIssue issue)).trans (runA_logEvent ..)

theorem getQuery_missing {id : String} (hrow : t.issue.find id = none) :
    Db.getQuery id t = .error (.fail (.notFound id)) := by
  rw [Db.getQuery, Tables.rowToIssue, hrow]
  rfl

/-! ### Labels -/

/-- The adapter does not touch the time of the last update here. -/
theorem both_saveLabels (h : Twins audited s t) {id : String} {row : IssueRow} {savedAt : Int}
    (hrow : t.issue.find id = some row) (labels : List String) (actor : String) (now : Int) :
    Both audited
      (runA (saveLabels cfg { t.view id row with updatedAt := savedAt } labels actor now) s)
      (Db.setLabelsTx id labels actor now t) := by
  have h' : Twins audited (s.save { t.view id row with updatedAt := savedAt, labels := labels })
      (t.setIssue id fun row => { row with labels := labels, updatedAt := now }) :=
    h.save (fun row => { row with labels := labels, updatedAt := now }) hrow rfl rfl
  refine ⟨(), _, (), _, runA_saveLog .., ?_, h'.log cfg.storeId id now actor "labels" _⟩
  rw [Db.setLabelsTx, Tables.rowToIssue, hrow]
  rfl

theorem both_addLabel (h : Twins audited s t) {id : String} (hid : id ∈ t.issue.keys)
    (label actor : String) (now : Int) :
    Both audited (runA (addLabel cfg id label actor now) s)
      (Db.addLabelAlone id label actor now t) := by
  obtain ⟨row, hrow⟩ := Table.mem_keys.mp hid
  obtain ⟨u, -, hget⟩ := h.sim.rowToIssue hrow
  rw [addLabel, runA_bind_reads (reads_get hget), Db.addLabelAlone, Db.getQuery_find hrow]
  cases hlabels : addedLabel (t.view id row).labels label with
  | none =>
      refine ⟨(), s, (), t, ?_, ?_, h⟩
      · simp only [whenSome]
        rfl
      · simp only [bind, Except.bind, hlabels]
        rfl
  | some labels =>
      have hwrite := @both_saveLabels audited s t cfg h id row u hrow labels actor now
      simpa only [hlabels, whenSome, bind, Except.bind] using hwrite

theorem follows_addLabel (h : Twins audited s t) (id label actor : String) (now : Int) :
    Follows audited t (runA (addLabel cfg id label actor now) s)
      (Db.addLabelAlone id label actor now t) := by
  by_cases hid : id ∈ t.issue.keys
  · exact (both_addLabel h hid label actor now).follows
  · have hrow := Table.find_eq_none.mpr hid
    rw [addLabel, runA_bind_error (get_missing (h.sim.rowToIssue_none hrow)), Db.addLabelAlone,
      getQuery_missing hrow]
    exact .fail h

theorem follows_removeLabel (h : Twins audited s t) (id label actor : String) (now : Int) :
    Follows audited t (runA (removeLabel cfg id label actor now) s)
      (Db.removeLabelAlone id label actor now t) := by
  refine .get h (fun hrow => ?_) fun row u hrow => ?_
  · rw [Db.removeLabelAlone, getQuery_missing hrow]
    exact ⟨_, rfl⟩
  · rw [Db.removeLabelAlone, Db.getQuery_find hrow]
    exact (both_saveLabels h hrow _ actor now).follows

/-! ### Checks that both stores make -/

/-- Go on after a check that comes out the same on both sides. -/
theorem Follows.check {α β γ : Type} (h : Twins audited s t) {m : AdapterM α} {r : Result α}
    (hm : runA m s = (r, s)) {k : α → AdapterM β} {f : α → Result (γ × Tables)}
    (hk : ∀ a, r = .ok a → Follows audited t (runA (k a) s) (f a)) :
    Follows audited t (runA (m >>= k) s) (r >>= f) := by
  cases r with
  | ok a =>
      rw [runA_bind_ok hm]
      exact hk a rfl
  | error e =>
      rw [runA_bind_error hm]
      cases e with
      | fail e => exact .fail h
      | abort => exact .abort

/-- Both stores do the call, and `after` holds of what they are left with, or both refuse it and
have written nothing. -/
inductive Alike (after : Inner → Tables → Prop) (s : Inner) {α β : Type} :
    Result α × Inner → Result (β × Tables) → Prop where
  | ok {a : α} {b : β} {s' : Inner} {t' : Tables} (h : after s' t') :
      Alike after s (.ok a, s') (.ok (b, t'))
  | fail {e e' : Error} : Alike after s (.error (.fail e), s) (.error (.fail e'))

namespace Alike

variable {after after' : Inner → Tables → Prop} {α β γ δ : Type}

theorem mono {x : Result α × Inner} {y : Result (β × Tables)} (h : Alike after s x y)
    (hafter : ∀ s' t', after s' t' → after' s' t') : Alike after' s x y := by
  cases h with
  | ok h => exact .ok (hafter _ _ h)
  | fail => exact .fail

/-- Stores that were in step follow when what they are left with is in step. -/
theorem follows {x : Result α × Inner} {y : Result (β × Tables)} (h : Alike after s x y)
    (ht : Twins audited s t) (hafter : ∀ s' t', after s' t' → Twins audited s' t') :
    Follows audited t x y := by
  cases h with
  | ok h => exact .ok (hafter _ _ h)
  | fail => exact .fail ht

theorem bind_reads {m : AdapterM α} {k : α → AdapterM γ} {a : α} {y : Result (β × Tables)}
    (hm : Reads m s a) (h : Alike after s (runA (k a) s) y) :
    Alike after s (runA (m >>= k) s) y := by
  rw [runA_bind_reads hm]
  exact h

/-- Go on after a check that comes out the same on both sides. -/
theorem check {m : AdapterM α} {r : Result α} (hm : runA m s = (r, s))
    (hr : r ≠ .error .abort) {k : α → AdapterM β} {f : α → Result (γ × Tables)}
    (hk : ∀ a, r = .ok a → Alike after s (runA (k a) s) (f a)) :
    Alike after s (runA (m >>= k) s) (r >>= f) := by
  cases r with
  | ok a =>
      rw [runA_bind_ok hm]
      exact hk a rfl
  | error e =>
      rw [runA_bind_error hm]
      cases e with
      | fail e => exact .fail
      | abort => exact absurd rfl hr

theorem map {x : Result α × Inner} {y : Result (β × Tables)} (h : Alike after s x y) (g : α → γ)
    (k : β → δ) : Alike after s (x.1.map g, x.2) (y.map fun p => (k p.1, p.2)) := by
  cases h with
  | ok h => exact .ok h
  | fail => exact .fail

/-- Turn what both answer into a reply. -/
theorem reply {m : AdapterM α} {f : Tx β} (h : Alike after s (runA m s) (f t)) (g : α → γ)
    (k : β → δ) : Alike after s (runA (g <$> m) s) (Tx.map k f t) := by
  rw [runA_map]
  exact h.map g k

theorem unit {m : AdapterM Unit} {f : Tx β} (h : Alike after s (runA m s) (f t)) :
    Alike after s (runA (do m; pure Reply.unit) s) (Tx.map (fun _ => Reply.unit) f t) := by
  rw [runA_unit]
  exact h.map (fun _ => Reply.unit) fun _ => Reply.unit

/-- What the stores hold once the locks are released. -/
theorem released {m : AdapterM α} {y : Result (β × Tables)} (h : Alike after s (runA m s) y)
    (hsame : after s t) : ∃ s' t', (Locked.withLock (runA m) (.new s)).2 = .new s' ∧
      (Locked.finish t y).2 = .new t' ∧ after s' t' := by
  rw [Locked.withLock_healthy _ rfl, Locked.new_state]
  generalize runA m s = x at h
  cases h with
  | ok h => exact ⟨_, _, rfl, rfl, h⟩
  | fail => exact ⟨_, _, rfl, rfl, hsame⟩

end Alike

@[simp] theorem runA_liftResult {α : Type} (r : Result α) : runA (liftResult r) s = (r, s) := rfl

theorem Sim.mem_keys (h : Sim s t) {id : String} :
    (s.doc issueKind [id]).isSome = true ↔ id ∈ t.issue.keys := by
  cases hrow : t.issue.find id with
  | none => simp [h.absent hrow, Table.find_eq_none.mp hrow]
  | some row =>
      obtain ⟨u, hdoc⟩ := h.present hrow
      simp [hdoc, Table.mem_keys_of_find hrow]

/-- A hierarchy is project-local on both sides. -/
theorem runA_checkParent (h : Sim s t) (project : String) (parent : Option String) :
    runA (checkParent project parent) s = (Db.checkParent t project parent, s) := by
  cases parent with
  | none => rfl
  | some parent =>
      refine (runA_bind_reads (reads_loadIssue parent)).trans ?_
      cases hrow : t.issue.find parent with
      | none =>
          simp only [h.absent hrow, Db.checkParent, hrow]
          rfl
      | some row =>
          obtain ⟨u, hdoc⟩ := h.present hrow
          simp only [hdoc, Db.checkParent, hrow]
          change runA (if row.project = project then _ else _) s = _
          by_cases hproject : row.project = project
          · rw [if_pos hproject, if_pos hproject]
            rfl
          · rw [if_neg hproject, if_neg hproject]
            have hnot : ", not " = ", " ++ "not " := rfl
            refine congrArg (fun m => (Except.error (Fault.fail (Error.bad m)), s)) ?_
            simp only [hnot, toString, String.append_assoc]
            rfl

/-- An id that is asked for must be free on both sides. -/
theorem runA_chooseId (h : Sim s t) (idPrefix idPrefix' : String) (draws : List String)
    (id : String) : runA (chooseId idPrefix draws (some id)) s =
      (Db.chooseId t idPrefix' draws (some id), s) := by
  refine (runA_bind_reads (reads_loadIssue id)).trans ?_
  have hkeys := @Sim.mem_keys s t h id
  rw [Db.chooseId]
  cases hdoc : s.doc issueKind [id] with
  | none =>
      rw [hdoc] at hkeys
      rw [if_neg (by simpa using hkeys)]
      rfl
  | some data =>
      rw [hdoc] at hkeys
      rw [if_pos (by simpa using hkeys)]
      rfl

theorem chooseId_some_ne_abort {idPrefix : String} {draws : List String} {id : String} :
    Db.chooseId t idPrefix draws (some id) ≠ .error .abort :=
  Outcome.ite_ne_abort Outcome.fail_ne_abort Outcome.ok_ne_abort

/-! ### Creating and editing -/

/-- Both stores make the same record of a specification. -/
@[simp] theorem newIssue_toJson (spec : NewIssue) (id project : String) (available : Int)
    (metadata : Json.Object) (now : Int) :
    issueToJson (newIssue spec id project available metadata now) =
      rowToJson id (Db.newRow spec project available metadata now) now := rfl

/-- Both stores create the issue under the id that was asked for, or both refuse it. -/
theorem create_alike (h : Sim s t) {spec : NewIssue} {id : String} (hid : spec.id = some id)
    (draws : List String) (now : Int) :
    Alike (fun s' t' => ∃ issue row, t.issue.find id = none ∧ issue.id = id ∧
        issueToJson issue = rowToJson id row now ∧ row.updatedAt = now ∧
        s' = (s.save issue).log cfg.storeId id now (spec.createdBy.getD "system") "created"
        spec.title ∧
        t' = { t with issue := t.issue.insert id row }.logEvent id now
          (spec.createdBy.getD "system") "created" spec.title)
      s (runA (create cfg spec draws now) s) (Db.createAlone cfg.toConfig spec draws now t) := by
  unfold create Db.createAlone
  cases spec.project with
  | none => exact .fail
  | some project =>
      dsimp only
      generalize spec.availableAt.getD (wrapI64 (now + cfg.policy.creationGraceSeconds)) = available
      refine .bind_reads (Reads.current projectKind [project]) ?_
      have hproject := h.project project
      rw [Table.mem_keys_iff_isSome] at hproject
      cases hrow : t.project.find project with
      | none =>
          have hdoc : s.doc projectKind [project] = none := by simpa [hrow] using hproject
          simp only [hdoc, Db.createTx, hrow]
          exact .fail
      | some row =>
          obtain ⟨data, hdoc⟩ : ∃ data, s.doc projectKind [project] = some data :=
            Option.isSome_iff_exists.mp (hproject.mpr (by rw [hrow]; rfl))
          simp only [hdoc, Db.createTx, hrow, hid]
          -- The checks of the two stores in their common order; past them both write the same row.
          refine .check (runA_checkParent h project spec.parent) Db.checkParent_ne_abort
            fun _ _ => ?_
          refine .check (runA_chooseId h _ _ draws id) chooseId_some_ne_abort fun id' hchosen => ?_
          refine .check (runA_liftResult spec.storedMetadata) Db.storedMetadata_ne_abort
            fun metadata _ => ?_
          obtain ⟨hnew, hasked⟩ := Db.chooseId_fresh hchosen
          obtain rfl := hasked id rfl
          rw [runA_bind_ok (runA_append ..), runA_bind_ok (runA_logEvent ..)]
          exact .ok ⟨newIssue spec id project available metadata now, _, hnew, rfl,
            newIssue_toJson .., rfl, rfl, rfl⟩

theorem follows_create (h : Twins audited s t) {spec : NewIssue} {id : String}
    (hid : spec.id = some id) (draws : List String) (now : Int) :
    Follows audited t (runA (create cfg spec draws now) s)
      (Db.createAlone cfg.toConfig spec draws now t) := by
  refine (create_alike h.sim hid draws now).follows h fun s' t' hafter => ?_
  obtain ⟨issue, row, hnew, hissue, hjson, -, rfl, rfl⟩ := hafter
  exact (h.insert hnew hissue hjson).log ..

/-- A patch sets the time of the last update itself. -/
theorem patch_apply_savedAt (patch : IssuePatch) (policy : Policy) (now savedAt : Int)
    (issue : Issue) :
    patch.apply policy now { issue with updatedAt := savedAt } = patch.apply policy now issue := by
  unfold IssuePatch.apply IssuePatch.merge IssuePatch.setStatus
  cases patch.metadata with
  | none => cases patch.status <;> rfl
  | some metadata =>
      cases metadata with
      | obj incoming => cases patch.status <;> rfl
      | _ => rfl

/-- Both stores write the same record of a patched issue. -/
theorem patch_apply_toJson {patch : IssuePatch} {policy : Policy} {now : Int} {id : String}
    {row : IssueRow} {next : Issue} {status : Status}
    (h : patch.apply policy now (t.view id row) = .ok next)
    (hstatus : Status.parse next.status = some status) :
    issueToJson next = rowToJson id (row.write next status) now := by
  obtain ⟨hid, hproject, htype, hassignee, hkind, hexpires, hcreated, hupdated⟩ :=
    patch_apply_frame h
  unfold issueToJson
  rw [hid, hproject, htype, hassignee, hkind, hexpires, hcreated, hupdated,
    ← Status.asStr_of_parse hstatus]
  rfl

/-- A patch that passes the check of its status leaves a known status. -/
theorem status_known {patch : IssuePatch} {policy : Policy} {now : Int} {id : String}
    {row : IssueRow} {next : Issue} (hcheck : patch.checkStatus = .ok ())
    (h : patch.apply policy now (t.view id row) = .ok next) :
    ∃ status, Status.parse next.status = some status := by
  rw [patch_apply_status h]
  unfold IssuePatch.checkStatus at hcheck
  cases hstatus : patch.status with
  | none => exact ⟨row.status, Status.parse_asStr row.status⟩
  | some text =>
      rw [hstatus] at hcheck
      by_cases hmem : text ∈ allStatuses
      · exact mem_allStatuses.mp hmem
      · simp [hmem] at hcheck

/-- The local store after an update that goes through. -/
theorem updateTx_eq {id : String} {patch : IssuePatch} {now : Int} {row : IssueRow}
    {next : Issue} {status : Status} (hrow : t.issue.find id = some row)
    (hnext : patch.apply cfg.policy now (t.view id row) = .ok next)
    (hstatus : Status.parse next.status = some status) (actor : String) :
    Db.updateTx cfg.toConfig id patch actor now t = .ok ((),
      (if patch.statusChanged (t.view id row) = true then
        (t.setIssue id fun row => row.write next status).logEvent id now actor "status"
          s!"→ {next.status}"
      else t.setIssue id fun row => row.write next status).logEvent id now actor "updated" "") := by
  rw [Db.updateTx, Tables.rowToIssue, hrow, Option.map_some, Outcome.ofOption_some]
  simp only [bind, Except.bind, hnext, hstatus, Outcome.ofOption_some]
  rfl

theorem follows_update (h : Twins audited s t) (id : String) (patch : IssuePatch)
    (actor : String) (now : Int) :
    Follows audited t (runA (update cfg id patch actor now) s)
      (Db.updateAlone cfg.toConfig id patch actor now t) := by
  refine .check h (runA_liftResult patch.checkStatus) fun _ hcheck => ?_
  refine .get h (fun hrow => ?_) fun row u hrow => ?_
  · rw [Db.updateTx, Tables.rowToIssue, hrow]
    exact ⟨_, rfl⟩
  rw [patch_apply_savedAt]
  -- A patch that cannot be applied fails alike; one that can writes the same columns and logs the
  -- same one or two events.
  cases hnext : patch.apply cfg.policy now (t.view id row) with
  | error e =>
      have hdb : Db.updateTx cfg.toConfig id patch actor now t = .error e := by
        rw [Db.updateTx, Tables.rowToIssue, hrow, Option.map_some, Outcome.ofOption_some]
        simp only [bind, Except.bind, hnext]
      rw [runA_bind_error (runA_liftResult _), hdb]
      cases e with
      | fail e => exact .fail h
      | abort => exact .abort
  | ok next =>
      obtain ⟨status, hstatus⟩ := status_known hcheck hnext
      have hsaved := h.save (fun row => row.write next status) hrow (patch_apply_frame hnext).1
        (patch_apply_toJson hnext hstatus)
      rw [runA_bind_ok (runA_liftResult _), runA_bind_ok (runA_saveIssue _),
        updateTx_eq hrow hnext hstatus]
      have hid : id ∈ (t.setIssue id fun row => row.write next status).issue.keys := by
        rw [Tables.setIssue_issue, Table.keys_modify]
        exact Table.mem_keys_of_find hrow
      change Follows audited t (runA (if patch.statusChanged (t.view id row) = true then _ else _)
          _)
        (Tx.read (Db.getQuery id) _)
      by_cases hchanged : patch.statusChanged (t.view id row) = true
      · rw [if_pos hchanged, if_pos hchanged, runA_bind_ok (runA_logEvent ..),
          runA_bind_ok (runA_logEvent ..)]
        exact (both_get ((hsaved.log ..).log ..) hid).follows
      · rw [if_neg hchanged, if_neg hchanged, runA_bind_ok (runA_logEvent ..)]
        exact (both_get (hsaved.log ..) hid).follows

/-! ### Dependencies -/

/-- An edge that is there already, or one that is not there to be removed. -/
theorem Twins.sameEdges (h : Twins audited s t) {dep : Table (String × String) Unit}
    (hdep : ∀ e, e ∈ dep.keys ↔ e ∈ t.dep.keys) : Twins audited s { t with dep := dep } := by
  refine ⟨⟨h.sim.present, h.sim.absent, h.sim.single, fun child parent => ?_, h.sim.pair,
    h.sim.project⟩, fun ha => (h.trail ha).frame (fun _ => rfl) rfl fun _ => rfl⟩
  rw [hdep]
  exact h.sim.edge child parent

/-- Only the local store marks the issue as updated. -/
theorem Twins.restamp (h : Twins audited s t) (id : String) (now : Int) :
    Twins audited s (t.setIssue id fun row => { row with updatedAt := now }) := by
  refine ⟨⟨fun {id' row'} hrow => ?_, fun {id'} hrow => ?_, h.sim.single, h.sim.edge, h.sim.pair,
    h.sim.project⟩, fun ha => (h.trail ha).frame (fun _ => rfl) rfl fun _ => rfl⟩
  · rw [Tables.setIssue_issue, Table.find_modify] at hrow
    split at hrow
    · obtain ⟨row, hold, rfl⟩ := Option.map_eq_some_iff.mp hrow
      obtain ⟨u, hdoc⟩ := h.sim.present hold
      exact ⟨u, hdoc⟩
    · exact h.sim.present hrow
  · rw [Tables.setIssue_issue, Table.find_modify] at hrow
    split at hrow
    · exact h.sim.absent (Option.map_eq_none_iff.mp hrow)
    · exact h.sim.absent hrow

theorem runA_checkIssue_missing {id : String} (hdoc : s.doc issueKind [id] = none) :
    runA (checkIssue id) s = (.error (.fail (.notFound id)), s) := by
  refine (runA_bind_reads (reads_loadIssue id)).trans ?_
  rw [hdoc]
  rfl

theorem reads_checkIssue {id : String} {data : Value} (hdoc : s.doc issueKind [id] = some data) :
    Reads (checkIssue id) s () := by
  refine (reads_loadIssue id).bind ?_
  rw [hdoc]
  exact .pure ()

theorem Twins.insertEdge (h : Twins audited s t) (child parent : String) (data : Value) :
    Twins audited (s.put dependencyKind [child, parent] data false)
      { t with dep := t.dep.insert (child, parent) () } := by
  refine h.putEdge fun e => ?_
  rw [Table.mem_keys_insert]
  by_cases he : e = (child, parent) <;> simp [he]

/-- Both stores add the edge, unless it is there already: then only the local store writes. -/
theorem addDep_alike (h : Sim s t) (child parent actor : String) (now : Int) :
    Alike (fun s' t' =>
        (child, parent) ∈ t.dep.keys ∧ s' = s ∧
          t' = ({ t with dep := t.dep.insert (child, parent) () }.setIssue child fun row =>
            { row with updatedAt := now }).logEvent child now actor "depends_on" parent ∨
        (child, parent) ∉ t.dep.keys ∧ ∃ issue row, t.issue.find child = some row ∧
          issue.id = child ∧ issueToJson issue = rowToJson child { row with updatedAt := now } now ∧
          s' = ((s.put dependencyKind [child, parent]
            (.obj [("child", .str child), ("parent", .str parent)]) false).save issue).log
              cfg.storeId child now actor "depends_on" parent ∧
          t' = ({ t with dep := t.dep.insert (child, parent) () }.setIssue child fun row =>
            { row with updatedAt := now }).logEvent child now actor "depends_on" parent)
      s (runA (addDep cfg child parent actor now) s) (Db.addDepAlone child parent actor now t) := by
  unfold addDep Db.addDepAlone
  -- The checks come in the same order in both stores: the issue itself, the child, the parent, a
  -- cycle; then an edge that is there changes nothing in the adapter.
  by_cases hself : child = parent
  · rw [if_pos hself, if_pos hself]
    exact .fail
  rw [if_neg hself, if_neg hself]
  unfold Db.addDepTx Tables.rowToIssue
  cases hchild : t.issue.find child with
  | none =>
      rw [runA_bind_error (runA_checkIssue_missing (h.absent hchild))]
      exact .fail
  | some row =>
  obtain ⟨u, hdoc⟩ := h.present hchild
  refine .bind_reads (reads_checkIssue hdoc) ?_
  cases hparent : t.issue.find parent with
  | none =>
      rw [runA_bind_error (runA_checkIssue_missing (h.absent hparent))]
      exact .fail
  | some prow =>
  obtain ⟨v, hpdoc⟩ := h.present hparent
  refine .bind_reads (reads_checkIssue hpdoc) (.bind_reads (reads_reachable parent child) ?_)
  rw [h.reachable]
  change Alike _ s (runA (if t.reachable parent child = true then _ else _) s)
    (if t.reachable parent child = true then _ else _)
  by_cases hcycle : t.reachable parent child = true
  · rw [if_pos hcycle, if_pos hcycle]
    exact .fail
  rw [if_neg hcycle, if_neg hcycle]
  refine .bind_reads (Reads.current dependencyKind [child, parent]) ?_
  have hedge := h.edge child parent
  cases hdata : s.doc dependencyKind [child, parent] with
  | some data =>
      rw [hdata] at hedge
      exact .ok (Or.inl ⟨hedge.mp rfl, rfl, rfl⟩)
  | none =>
      have hnew : (child, parent) ∉ t.dep.keys := by simpa [hdata] using hedge
      have hput := @Twins.insertEdge False s t ⟨h, False.elim⟩ child parent
        (.obj [("child", .str child), ("parent", .str parent)])
      obtain ⟨w, -, hget⟩ := hput.sim.rowToIssue hchild
      dsimp only
      rw [runA_bind_ok (runA_append ..), runA_bind_reads (reads_get hget),
        runA_bind_ok (runA_saveIssue _), runA_logEvent]
      exact .ok (Or.inr ⟨hnew, _, row, rfl, rfl, rfl, rfl, rfl⟩)

theorem follows_addDep (h : Twins audited s t) (child parent actor : String) (now : Int)
    (hnew : audited → (child, parent) ∉ t.dep.keys) :
    Follows audited t (runA (addDep cfg child parent actor now) s)
      (Db.addDepAlone child parent actor now t) := by
  refine (addDep_alike h.sim child parent actor now).follows h fun s' t' hafter => ?_
  obtain ⟨hmem, rfl, rfl⟩ | ⟨-, issue, row, hrow, hissue, hjson, rfl, rfl⟩ := hafter
  · refine ((h.sameEdges fun e => ?_).restamp child now).logDb (fun ha => hnew ha hmem) ..
    rw [Table.mem_keys_insert]
    exact or_iff_right_of_imp fun he => he ▸ hmem
  · have hput := h.insertEdge child parent (.obj [("child", .str child), ("parent", .str parent)])
    exact (hput.save (fun row => { row with updatedAt := now }) hrow hissue hjson).log ..

theorem follows_removeDep (h : Twins audited s t) (child parent actor : String) (now : Int)
    (hthere : audited → (child, parent) ∈ t.dep.keys) :
    Follows audited t (runA (removeDep cfg child parent actor now) s)
      (Db.removeDepTx child parent actor now t) := by
  have herase : ∀ e, e ∈ (t.dep.erase (child, parent)).keys ↔
      e ≠ (child, parent) ∧ e ∈ t.dep.keys := by
    intro e
    rw [Table.mem_keys_iff_isSome, Table.mem_keys_iff_isSome, Table.find_erase]
    by_cases he : e = (child, parent) <;> simp [he]
  refine .bind_reads (Reads.current dependencyKind [child, parent]) ?_
  have hedge := h.sim.edge child parent
  cases hdata : s.doc dependencyKind [child, parent] with
  | some data =>
      have hput : Twins audited (s.put dependencyKind [child, parent] .null true)
          { t with dep := t.dep.erase (child, parent) } := by
        refine h.putEdge fun e => ?_
        rw [herase]
        by_cases he : e = (child, parent) <;> simp [he]
      dsimp only
      rw [runA_bind_ok (runA_tombstone ..), runA_logEvent]
      exact .ok (hput.log ..)
  | none =>
      have hmem : (child, parent) ∉ t.dep.keys := fun hmem => by
        have := hedge.mpr hmem
        simp [hdata] at this
      refine .ok ((h.sameEdges fun e => ?_).logDb (fun ha => hmem (hthere ha)) ..)
      rw [herase]
      exact and_iff_right_of_imp fun he heq => hmem (heq ▸ he)

end Marbles.Adapter
