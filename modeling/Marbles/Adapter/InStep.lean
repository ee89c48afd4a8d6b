import Marbles.Adapter.Leases
import Marbles.Adapter.Projects

/-!
# The two stores in step

The adapter and the local store, given the same calls. As long as neither panics they stay
in step (`InStep`), and stores in step answer alike: they report the same issues, list them
in the same order and offer the same work.

`Follows` compares a method with a transaction. Here the locks are added: a call that fails leaves
both stores as they were before it, since both make all their checks before they write. What a
query returns is compared through `Reads`, first as a set of keys and then in its order.
-/

namespace Marbles.Adapter

open Json (Value)
open Records (Engine Key)
open Sorting (sortOn)
open Db (Tables IssueRow)

variable {audited : Prop} {s : Inner} {t : Tables} {cfg : Config}

/-! ### Listing -/

theorem mem_allIssues (h : Sim s t) {issue : Issue} :
    issue ∈ s.allIssues ↔ s.rowToIssue issue.id = some issue := by
  rw [Inner.allIssues, List.mem_filterMap]
  constructor
  · intro hissue
    obtain ⟨key, -, hread⟩ := hissue
    obtain ⟨id, -, hread⟩ := Option.bind_eq_some_iff.mp hread
    cases hrow : t.issue.find id with
    | none =>
        rw [h.rowToIssue_none hrow] at hread
        cases hread
    | some row =>
        obtain ⟨u, -, hview⟩ := h.rowToIssue hrow
        obtain rfl := Option.some.inj (hview.symm.trans hread)
        exact hview
  · intro hread
    obtain ⟨data, hdata, -⟩ := Option.map_eq_some_iff.mp hread
    exact ⟨[issue.id], Engine.mem_keys.mpr ⟨data, hdata⟩, hread⟩

theorem rowToIssue_id {id : String} {issue : Issue} (h : s.rowToIssue id = some issue) :
    issue.id = id := by
  obtain ⟨data, -, rfl⟩ := Option.map_eq_some_iff.mp h
  rfl

theorem nodup_allIssues (h : Sim s t) : (s.allIssues.map fun issue => issue.id).Nodup := by
  refine List.Nodup.of_map (fun id => [id]) ?_
  rw [List.map_map]
  refine (Engine.nodup_keys s.engine issueKind).sublist
    (map_filterMap_sublist fun key hkey issue hi => ?_)
  obtain ⟨data, hdata⟩ := Engine.mem_keys.mp hkey
  obtain ⟨id, rfl⟩ := h.single hdata
  exact congrArg (fun i => [i]) (rowToIssue_id hi)

/-- The id is the last part of the key that lists are sorted by. -/
def keyId (key : ListKey) : String := (ofLex (ofLex key).2).2

/-- Two selections of the same issues have the same keys. -/
theorem Sim.selected (h : Sim s t) {p : Issue → Bool} {q : String → IssueRow → Bool}
    (hpq : ∀ {id row} savedAt, t.issue.find id = some row →
      s.rowToIssue id = some { t.view id row with updatedAt := savedAt } →
      p { t.view id row with updatedAt := savedAt } = q id row) (key : ListKey) :
    key ∈ (s.allIssues.filter p).map (fun issue =>
        listKey issue.priority issue.createdAt issue.id) ↔
      key ∈ (t.issue.rows.filter fun r => q r.1 r.2).map fun r =>
        listKey r.2.priority r.2.createdAt r.1 := by
  rw [List.mem_map, List.mem_map]
  -- An issue that is read comes from a row, and every row is read as an issue that differs from its
  -- view in the time of saving only.
  constructor
  · intro hk
    obtain ⟨issue, hissue, rfl⟩ := hk
    obtain ⟨hmem, hp⟩ := List.mem_filter.mp hissue
    have hread := (mem_allIssues h).mp hmem
    cases hrow : t.issue.find issue.id with
    | none =>
        rw [h.rowToIssue_none hrow] at hread
        cases hread
    | some row =>
        obtain ⟨u, -, hview⟩ := h.rowToIssue hrow
        have heq := Option.some.inj (hread.symm.trans hview)
        rw [heq] at hp
        refine ⟨(issue.id, row), List.mem_filter.mpr ⟨Table.mem_rows.mpr hrow, ?_⟩, ?_⟩
        · rw [← hpq u hrow hview]
          exact hp
        · exact (congrArg (fun issue : Issue =>
            listKey issue.priority issue.createdAt issue.id) heq).symm
  · intro hk
    obtain ⟨⟨id, row⟩, hr, rfl⟩ := hk
    obtain ⟨hmem, hq⟩ := List.mem_filter.mp hr
    have hrow := Table.mem_rows.mp hmem
    obtain ⟨u, -, hview⟩ := h.rowToIssue hrow
    refine ⟨{ t.view id row with updatedAt := u },
      List.mem_filter.mpr ⟨(mem_allIssues h).mpr hview, ?_⟩, rfl⟩
    rw [hpq u hrow hview]
    exact hq

/-- Two selections of the same issues list the same ids in the same order. -/
theorem inOrder_ids (h : Sim s t) {p : Issue → Bool} {q : String → IssueRow → Bool}
    (hpq : ∀ {id row} savedAt, t.issue.find id = some row →
      s.rowToIssue id = some { t.view id row with updatedAt := savedAt } →
      p { t.view id row with updatedAt := savedAt } = q id row) :
    (inOrder (s.allIssues.filter p)).map (fun issue => issue.id) =
      (Db.select t q).map Prod.fst := by
  have hnodup : ((s.allIssues.filter p).map fun issue =>
      listKey issue.priority issue.createdAt issue.id).Nodup := by
    refine List.Nodup.of_map keyId ?_
    rw [List.map_map]
    exact (nodup_allIssues h).sublist (List.filter_sublist.map _)
  have hnodup' : ((t.issue.rows.filter fun r => q r.1 r.2).map fun r =>
      listKey r.2.priority r.2.createdAt r.1).Nodup := by
    refine List.Nodup.of_map keyId ?_
    rw [List.map_map]
    exact t.issue.nodup.sublist (List.filter_sublist.map _)
  have hkeys := Sorting.map_sortOn_eq_of_perm
    ((List.perm_ext_iff_of_nodup hnodup hnodup').mpr (h.selected hpq))
  have hids := congrArg (List.map keyId) hkeys
  rw [List.map_map, List.map_map] at hids
  exact hids

theorem reads_list (project : Option String) (all : Bool) (onlyId : Option String) :
    Reads (list project all onlyId) s (inOrder (s.allIssues.filter fun issue =>
      (all || issue.status ≠ "closed") && Db.matchesScope project issue.project &&
        Db.matchesScope onlyId issue.id)) :=
  reads_allIssues.map _

/-- The folders and what is filed under them. -/
def Inner.folders (s : Inner) : FolderView where
  folders := sortOn (fun f => toLex (f.name, f.slug)) ((s.docs folderKind).map fun d =>
    (⟨textOf "slug" d.2,
    textOf "name" d.2, (d.2.field "parent").asStr, (d.2.field "created_at").asInt.getD 0⟩ : Folder))
  projects := (s.docs projectFolderKind).map fun d =>
    (⟨textOf "project" d.2, textOf "folder" d.2⟩ : ProjectFolder)

theorem reads_folderView : Reads folderView s s.folders :=
  (reads_docs folderKind).bind ((reads_docs projectFolderKind).bind (.pure _))

/-- What is listed of a project. -/
def Inner.projectRow (s : Inner) (key : Key) : Option (String × String × String) :=
  key.head?.bind fun slug => (s.doc projectKind [slug]).map fun data =>
    (slug, textOf "root" data, textOf "prefix" data)

theorem reads_projects : Reads projects s (sortOn (fun p => toLex (p.1, toLex p.2))
    ((s.engine.keys projectKind).filterMap s.projectRow)) := by
  refine (Reads.keys projectKind).bind (Reads.bind (Reads.collect fun found key _ => ?_) (.pure _))
  cases key with
  | nil => exact .pure _
  | cons slug rest =>
      refine (Reads.current projectKind [slug]).bind ?_
      rw [Inner.projectRow, List.head?_cons, Option.bind_some]
      cases s.doc projectKind [slug] with
      | none => exact .pure _
      | some data => exact .pure _

/-- Is the issue offered as ready? -/
def Inner.offers (s : Inner) (project : Option String) (now : Int) (issue : Issue) : Bool :=
  (issue.status = "open" && Db.matchesScope project issue.project &&
    issue.availableAt.all (· ≤ now)) && (s.unblocked issue.id &&
      !heldAt issue.assignee issue.expiresAt now)

theorem reads_ready (project : Option String) (now : Int) :
    Reads (ready project now) s (inOrder (s.allIssues.filter (s.offers project now))) := by
  have hloop : Reads (s.allIssues.foldlM (fun found issue => do
      if issue.status = "open" && Db.matchesScope project issue.project &&
          issue.availableAt.all (· ≤ now) then
        if (← unblocked issue.id) && !heldAt issue.assignee issue.expiresAt now then
          pure (found ++ [issue])
        else pure found
      else pure found) []) s (s.allIssues.filter (s.offers project now)) := by
    rw [← List.filterMap_eq_filter]
    refine Reads.collect fun found issue _ => ?_
    -- The cheap conditions come first in the source, and the graph is only asked for what passes
    -- them.
    by_cases hopen : (issue.status = "open" && Db.matchesScope project issue.project &&
      issue.availableAt.all (· ≤ now)) = true
    · rw [if_pos hopen]
      refine (reads_unblocked issue.id).bind ?_
      by_cases hfree : (s.unblocked issue.id && !heldAt issue.assignee issue.expiresAt now) = true
      · have hoffers : s.offers project now issue = true := by rw [Inner.offers, hopen, hfree]; rfl
        rw [if_pos hfree]
        simp only [Option.guard, hoffers, if_true]
        exact .pure _
      · have hoffers : s.offers project now issue = false := by
          rw [Inner.offers, Bool.eq_false_of_not_eq_true hfree, Bool.and_false]
        rw [if_neg hfree]
        simp only [Option.guard, hoffers, Bool.false_eq_true, if_false]
        exact .pure _
    · have hoffers : s.offers project now issue = false := by
        rw [Inner.offers, Bool.eq_false_of_not_eq_true hopen, Bool.false_and]
      rw [if_neg hopen]
      simp only [Option.guard, hoffers, Bool.false_eq_true, if_false]
      exact .pure _
  exact reads_allIssues.bind (hloop.map _)

/-- In a well-formed graph there is no edge to an issue that is not there, so a missing
blocker, which the two stores would treat in opposite ways, does not occur. -/
theorem unblocked_eq (h : Sim s t) (hwf : Db.WellFormed t) (id : String) :
    s.unblocked id = (t.openBlockers id).isEmpty := by
  rw [Bool.eq_iff_iff, List.isEmpty_iff, Tables.openBlockers_eq_nil, Inner.unblocked,
    List.all_eq_true]
  simp only [h.mem_parents]
  refine forall_congr' fun p => imp_congr_right fun hp => ?_
  obtain ⟨row, hrow⟩ := Table.mem_keys.mp (hwf.endpoints hp).2
  rw [h.statusOf, Tables.isOpen, hrow]
  simp [isTerminal]

/-- Nor is there a holder without an expiry. -/
theorem not_heldAt {row : IssueRow} (hrow : row.Whole) (now : Int) :
    (!heldAt row.assignee row.expiresAt now) =
      (row.assignee.isNone || row.expiresAt.any (· ≤ now)) := by
  have hexpiry := hrow.expiry
  cases ha : row.assignee with
  | none => simp [heldAt]
  | some assignee =>
      cases he : row.expiresAt with
      | none => simp [ha, he] at hexpiry
      | some expires =>
          by_cases hle : expires ≤ now
          · simp [heldAt, hle]
          · simp [heldAt, hle, not_le.mp hle]

theorem offers_eq (h : Sim s t) (hs : Db.Sound t) (project : Option String) (now : Int)
    {id : String} {row : IssueRow} (savedAt : Int) (hrow : t.issue.find id = some row) :
    s.offers project now { t.view id row with updatedAt := savedAt } =
      Db.eligible t project now id row := by
  have hopen : decide (row.status.asStr = "open") = decide (row.status = .«open») := by simp
  have hunblocked := unblocked_eq h hs.graph id
  have hfree := not_heldAt (hs.whole hrow) now
  change ((decide (row.status.asStr = "open") && Db.matchesScope project row.project &&
    row.availableAt.all (· ≤ now)) && (s.unblocked id &&
      !heldAt row.assignee row.expiresAt now)) = _
  rw [hopen, hunblocked, hfree, Db.eligible]
  -- the same tests, made in another order
  cases decide (row.status = .«open») <;> cases row.availableAt.all (· ≤ now) <;>
    cases Db.matchesScope project row.project <;> simp

/-- What is reported of an issue, without the time of its last update. The two stores touch that
time on different calls, so it is left out of the comparison. -/
def forgetUpdate (issue : Issue) : Issue := { issue with updatedAt := 0 }

/-- The ids of a listing. -/
def ids (issues : List Issue) : List String := issues.map fun issue => issue.id

theorem runA_get (h : Twins audited s t) (id : String) :
    (runA (get id) s).1.map forgetUpdate = (Db.getQuery id t).map forgetUpdate := by
  cases hrow : t.issue.find id with
  | none => rw [get_missing (h.sim.rowToIssue_none hrow), getQuery_missing hrow]
  | some row =>
      obtain ⟨u, -, hget⟩ := h.sim.rowToIssue hrow
      rw [(reads_get hget).eq, Db.getQuery_find hrow]
      rfl

theorem runA_list (h : Twins audited s t) (project : Option String) (all : Bool)
    (onlyId : Option String) : (runA (list project all onlyId) s).1.map ids =
      .ok (ids (Db.listQuery project all onlyId t)) := by
  have hids := @inOrder_ids s t h.sim (fun issue => (all || issue.status ≠ "closed") &&
    Db.matchesScope project issue.project && Db.matchesScope onlyId issue.id)
    (fun id row => (all || row.status ≠ .closed) && Db.matchesScope project row.project &&
      Db.matchesScope onlyId id) fun _ _ _ => by simp
  rw [(reads_list project all onlyId).eq]
  refine congrArg Except.ok (hids.trans ?_)
  rw [ids, Db.listQuery, List.map_map]
  rfl

theorem runA_ready (h : Twins audited s t) (hs : Db.Sound t) (project : Option String)
    (now : Int) : (runA (ready project now) s).1.map ids =
      .ok (ids (Db.readyIssues project now t)) := by
  have hids := inOrder_ids h.sim fun u hrow _ => offers_eq h.sim hs project now u hrow
  rw [(reads_ready project now).eq]
  refine congrArg Except.ok (hids.trans ?_)
  rw [ids, Db.readyIssues, List.map_map]
  rfl

/-! ### Calls -/

/-- The calls that change issues and edges; an issue is created under an id of its own. Drawn ids
are left out, as each store draws its own. -/
def Lifecycle : Op → Prop
  | .create spec _ _ => spec.id.isSome = true
  | .update .. | .addLabel .. | .removeLabel .. | .addDep .. | .removeDep .. | .claim ..
  | .touch .. | .release .. | .sweep .. | .close .. | .supersede .. | .dropProject _ => True
  | _ => False

/-- The calls whose events both stores record: the edge is new, or there to be removed, and the
issue to be released is there. On every other call of an edge one store records what the other does
not. -/
def SameTrail (t : Tables) : Op → Prop
  | .addDep child parent _ _ => (child, parent) ∉ t.dep.keys
  | .removeDep child parent _ _ => (child, parent) ∈ t.dep.keys
  | .release id _ _ => id ∈ t.issue.keys
  | .dropProject _ => False
  | _ => True

/-- On stores in step, the method of a call and its transaction end alike. -/
theorem follows_method (h : Twins audited s t) (hs : Db.Sound t) {op : Op} (hop : Lifecycle op)
    (hlease : Db.LeaseDefined cfg.toConfig op) (htrail : audited → SameTrail t op) :
    Follows audited t (runA (method cfg op) s) (Db.alone cfg.toConfig op t) := by
  cases op with
  | create spec draws now =>
      obtain ⟨id, hid⟩ := Option.isSome_iff_exists.mp hop
      exact (follows_create h hid draws now).reply _ _
  | update id patch actor now => exact (follows_update h id patch actor now).reply _ _
  | addLabel id label actor now => exact (follows_addLabel h id label actor now).unit
  | removeLabel id label actor now => exact (follows_removeLabel h id label actor now).unit
  | addDep child parent actor now => exact (follows_addDep h child parent actor now htrail).unit
  | removeDep child parent actor now =>
      exact (follows_removeDep h child parent actor now htrail).unit
  | claim req now => exact (follows_claim h hlease).reply _ _
  | touch id assignee now => exact (follows_touch h id assignee now).reply _ _
  | release id actor now => exact (follows_release h id actor now htrail).unit
  | sweep now order => exact (follows_sweep h hs.whole now order).reply _ _
  | close id reason evidence actor now =>
      exact (follows_close h id reason evidence actor now).reply _ _
  | supersede id replacement actor now =>
      exact (follows_supersede h id replacement actor now).unit
  | dropProject slug => exact (follows_dropProject h htrail slug).reply _ _
  | _ => exact hop.elim

/-- Both locks are healthy and the stores in step, or both are poisoned. -/
inductive InStep (audited : Prop) : Locked Inner → Locked Tables → Prop where
  | healthy {s : Inner} {t : Tables} (h : Twins audited s t) (hs : Db.Sound t) :
      InStep audited (.new s) (.new t)
  | poisoned {l : Locked Inner} {l' : Locked Tables} (h : l.poisoned = true)
      (h' : l'.poisoned = true) : InStep audited l l'

/-- What follows from a method once the locks are released. -/
theorem Follows.released {α β : Type} {m : AdapterM α} {y : Result (β × Tables)}
    (h : Follows audited t (runA m s) y) (hs : Db.Sound (Locked.finish t y).2.state) :
    InStep audited (Locked.withLock (runA m) (.new s)).2 (Locked.finish t y).2 ∧
      (audited → (Locked.withLock (runA m) (.new s)).1.isOk = (Locked.finish t y).1.isOk) := by
  rw [Locked.withLock_healthy _ rfl, Locked.new_state]
  generalize runA m s = x at h
  cases h with
  | ok h => exact ⟨.healthy h hs, fun _ => rfl⟩
  | fail h => exact ⟨.healthy h hs, fun _ => rfl⟩
  | refused ha h => exact ⟨.healthy h hs, fun h' => absurd h' ha⟩
  | abort => exact ⟨.poisoned rfl rfl, fun _ => rfl⟩

/-- The adapter after a call that goes through. -/
theorem step_ok {op : Op} {reply : Reply} {s' : Inner}
    (h : runA (method cfg op) s = (.ok reply, s')) : step cfg op (.new s) = .new s' := by
  rw [step, perform, Locked.withLock_healthy _ rfl, Locked.new_state, h]
  rfl

/-- The local store after a call that goes through. -/
theorem stepDb_ok {cfg : Db.Config} {op : Op} {reply : Reply} {t' : Tables}
    (hlease : Db.LeaseDefined cfg op) (h : Db.alone cfg op t = .ok (reply, t')) :
    Db.step cfg op (.new t) = .new t' := by
  rw [Db.step, Db.perform_eq hlease, h]
  rfl

/-- One call on both stores. -/
theorem InStep.step {l : Locked Inner} {l' : Locked Tables} (h : InStep audited l l') {op : Op}
    (hop : Lifecycle op) (hlease : Db.LeaseDefined cfg.toConfig op)
    (htrail : audited → SameTrail l'.state op) :
    InStep audited (step cfg op l) (Db.step cfg.toConfig op l') ∧
      (audited → (perform cfg op l).1.isOk = (Db.perform cfg.toConfig op l').1.isOk) := by
  cases h with
  | @healthy s t h hs =>
      have hsound : Db.Sound (Db.step cfg.toConfig op (.new t)).state := hs.step
      rw [Db.step, Db.perform_eq hlease] at hsound
      rw [Adapter.step, Db.step, Db.perform_eq hlease]
      exact (follows_method h hs hop hlease htrail).released hsound
  | poisoned h h' =>
      obtain ⟨e, he⟩ := @Db.perform_poisoned cfg.toConfig op l' h'
      rw [Adapter.step, perform, Locked.withLock_poisoned _ h, Db.step, he]
      exact ⟨.poisoned h h', fun _ => rfl⟩

end Marbles.Adapter
