import Marbles.Db.Fetching
import Marbles.Portfolio

/-!
# Ready work

The portfolio decides from decoded issues what is ready, the store from its rows. Both count the
same work: what `ready` returns, goals aside, is what the portfolio calls ready, in all and project
by project.

Both sides have four conditions, in different orders and on different types. They are matched one
by one for an issue that is read from a row, and everything else is counting: the same issues are
picked out of the same list, by project or in all.
-/

namespace Marbles.Report

open Buckets (bucket Covers)
open Db (Tables Reachable IssueRow eligible readyIssues)
open Sorting (sortOn perm_sortOn)

/-! ### One issue -/

/-- The statuses of a page are those of its issues. -/
theorem find_statusesOf {issues : List Issue} (hids : (issues.map (·.id)).Nodup) (id : String) :
    (statusesOf issues).find id = (issues.map fun issue => (issue.id, issue.status)).lookup id := by
  induction issues using List.reverseRecOn with
  | nil => rfl
  | append_singleton issues issue ih =>
      rw [List.map_append, List.nodup_append] at hids
      obtain ⟨hids, -, hnew⟩ := hids
      have hold : (issues.map fun issue => (issue.id, issue.status)).lookup issue.id = none := by
        rw [Table.lookup_eq_none, List.map_map]
        intro hmem
        exact hnew _ hmem issue.id (by simp) rfl
      rw [statusesOf, List.foldl_append, ← statusesOf, List.map_append, List.lookup_append,
        ← ih hids]
      show ((statusesOf issues).upsert issue.id issue.status _).find id = _
      rw [Table.find_upsert]
      by_cases hid : id = issue.id
      · subst hid
        rw [ih hids, hold]
        simp
      · have hne : (id == issue.id) = false := by simpa using hid
        simp [hid, hne, List.lookup_cons]

@[simp] theorem statuses_stored (t : Tables) (id : String) :
    (statusesOf (issuesOf t)).find id = (t.issue.find id).map fun row => row.status.asStr := by
  have hids : ((issuesOf t).map (·.id)).Nodup := by
    rw [issuesOf, Plan.listQuery_all, List.map_map]
    exact Db.nodup_select ..
  rw [find_statusesOf hids]
  exact Plan.lookup_status t id

/-- A dependency is met when it is closed or not there. -/
theorem met_iff {t : Tables} {p : String} :
    ((statusesOf (issuesOf t)).find p).all (· = "closed") = true ↔ t.isOpen p = false := by
  have hclosed : ∀ status : Status, status.asStr = "closed" ↔ status = .closed :=
    fun status => ⟨fun h => Status.asStr_inj.mp h, fun h => by rw [h]; rfl⟩
  rw [statuses_stored, Tables.isOpen]
  cases t.issue.find p with
  | none => simp
  | some row => simp [hclosed]

theorem isReady_iff {issue : Issue} {statuses : Table String String} {now : Int} :
    isReady issue statuses now = true ↔ issue.issueType ≠ goalType ∧ issue.status = "open" ∧
      issue.availableAt.all (· ≤ now) = true ∧
      (issue.assignee = none ∨ issue.expiresAt.any (· ≤ now) = true) ∧
      issue.dependencies.all (fun dep =>
        (dep.dependsOnId.bind statuses.find).all (· = "closed")) = true := by
  have hgrace : issue.availableAt.all (· ≤ now) = true ↔
      ¬ issue.availableAt.any (· > now) = true := by
    cases issue.availableAt <;> simp
  have hfree : (issue.assignee = none ∨ issue.expiresAt.any (· ≤ now) = true) ↔
      ¬ (issue.assignee.isSome = true ∧ issue.expiresAt.all (· > now) = true) := by
    cases issue.assignee <;> cases issue.expiresAt <;> simp
  rw [hgrace, hfree, isReady]
  by_cases hwork : issue.issueType = goalType ∨ issue.status ≠ "open"
  · rw [if_pos hwork]
    simp only [Bool.false_eq_true, false_iff]
    intro h
    exact hwork.elim h.1 (fun hstatus => hstatus h.2.1)
  · rw [if_neg hwork]
    rw [not_or, not_not] at hwork
    by_cases hlater : issue.availableAt.any (· > now) = true
    · simp [hlater]
    · by_cases hheld : issue.assignee.isSome = true ∧ issue.expiresAt.all (· > now) = true
      · simp [hlater, hheld]
      · rw [if_neg hlater, if_neg hheld]
        simp only [hwork, hheld, ne_eq, not_false_eq_true, true_and]
        simp [hlater]

/-- The two ways of saying that an issue is ready. -/
theorem isReady_view {t : Tables} {id : String} {row : IssueRow} {now : Int} :
    isReady (t.view id row) (statusesOf (issuesOf t)) now = true ↔
      row.issueType ≠ goalType ∧ eligible t none now id row = true := by
  have hopen : row.status.asStr = "open" ↔ row.status = .«open» :=
    ⟨fun h => Status.asStr_inj.mp h, fun h => by rw [h]; rfl⟩
  have hdeps : ((t.dependsOn id).map fun p => (⟨some p⟩ : Dependency)).all (fun dep =>
      (dep.dependsOnId.bind (statusesOf (issuesOf t)).find).all (· = "closed")) = true ↔
      Db.Unblocked t id := by
    simp only [List.all_map, List.all_eq_true, Function.comp_apply, Option.bind_some, met_iff,
      Tables.mem_dependsOn, Db.Unblocked]
  rw [isReady_iff, Db.eligible_iff, ← hdeps, ← hopen]
  simp only [Tables.view_issueType, Tables.view_status, Tables.view_availableAt,
    Tables.view_dependencies, Tables.view_assignee, Tables.view_expiresAt, Db.matchesScope,
    Option.all_none, true_and]
  tauto

@[simp] theorem mem_issuesOf {t : Tables} {issue : Issue} :
    issue ∈ issuesOf t ↔ ∃ row, t.issue.find issue.id = some row ∧ t.view issue.id row = issue :=
  Plan.mem_listQuery_all

theorem mem_readyIssues {t : Tables} {project : Option String} {now : Int} {issue : Issue} :
    issue ∈ readyIssues project now t ↔ ∃ row, t.issue.find issue.id = some row ∧
      eligible t project now issue.id row = true ∧ t.view issue.id row = issue := by
  rw [readyIssues, List.mem_map]
  constructor
  · intro h
    obtain ⟨r, hr, rfl⟩ := h
    obtain ⟨hrow, heligible⟩ := Db.mem_select.mp hr
    exact ⟨r.2, hrow, heligible, rfl⟩
  · intro h
    obtain ⟨row, hrow, heligible, hview⟩ := h
    exact ⟨(issue.id, row), Db.mem_select.mpr ⟨hrow, heligible⟩, hview⟩

/-- Of all issues, those are ready for the portfolio that the store returns and that are no
goals. -/
theorem ready_iff {t : Tables} {issue : Issue} {now : Int} :
    (issue ∈ issuesOf t ∧ isReady issue (statusesOf (issuesOf t)) now = true) ↔
      issue ∈ readyIssues none now t ∧ issue.issueType ≠ goalType := by
  rw [mem_issuesOf, mem_readyIssues]
  constructor
  · intro h
    obtain ⟨⟨row, hrow, hview⟩, hready⟩ := h
    rw [← hview, isReady_view] at hready
    refine ⟨⟨row, hrow, hready.2, hview⟩, ?_⟩
    rw [← hview]
    exact hready.1
  · intro h
    obtain ⟨⟨row, hrow, heligible, hview⟩, hwork⟩ := h
    refine ⟨⟨row, hrow, hview⟩, ?_⟩
    rw [← hview, isReady_view]
    rw [← hview] at hwork
    exact ⟨hwork, heligible⟩

/-! ### Counting -/

/-- A project restricts what is ready to its own issues. -/
theorem eligible_project {t : Tables} {project id : String} {row : IssueRow} {now : Int} :
    eligible t (some project) now id row = (decide (row.project = project) &&
      eligible t none now id row) := by
  rw [Bool.eq_iff_iff, Bool.and_eq_true, Db.eligible_iff, Db.eligible_iff, decide_eq_true_iff]
  simp only [Db.matchesScope, Option.all_some, decide_eq_true_eq, Option.all_none, true_and]
  tauto

theorem countP_issuesOf (t : Tables) (p : Issue → Bool) :
    (issuesOf t).countP p = t.issue.rows.countP fun r => p (t.view r.1 r.2) := by
  rw [issuesOf, Plan.listQuery_all, List.countP_map, Plan.stored, Db.select,
    (perm_sortOn _ _).countP_eq, List.filter_true]
  rfl

theorem length_readyIssues (t : Tables) (project : Option String) (now : Int) :
    (workOf (readyIssues project now t)).length = t.issue.rows.countP fun r =>
      decide (r.2.issueType ≠ goalType) && eligible t project now r.1 r.2 := by
  rw [workOf, ← List.countP_eq_length_filter, readyIssues, List.countP_map, Db.select,
    (perm_sortOn _ _).countP_eq, List.countP_filter]
  rfl

theorem countP_ready (t : Tables) (now : Int) :
    (workOf (issuesOf t)).countP (fun issue => isReady issue (statusesOf (issuesOf t)) now) =
      (workOf (readyIssues none now t)).length := by
  rw [length_readyIssues, workOf, List.countP_filter, countP_issuesOf]
  refine List.countP_congr fun r _ => ?_
  simp only [Bool.and_eq_true, isReady_view, decide_eq_true_eq]
  exact ⟨fun h => h.1, fun h => ⟨h, h.1⟩⟩

theorem countP_ready_project (t : Tables) (project : String) (now : Int) :
    (workOf (bucket (·.project) (issuesOf t) project)).countP
        (fun issue => isReady issue (statusesOf (issuesOf t)) now) =
      (workOf (readyIssues (some project) now t)).length := by
  rw [length_readyIssues, workOf, bucket, List.filter_filter, List.countP_filter, countP_issuesOf]
  refine List.countP_congr fun r _ => ?_
  simp only [Bool.and_eq_true, isReady_view, eligible_project, decide_eq_true_eq]
  show _ ∧ _ ∧ r.2.project = project ↔ _
  tauto

/-- What `ready` returns on a healthy lock. -/
@[simp] theorem runM_ready (cfg : Db.Config) (project : Option String) (now : Int) (t : Tables) :
    Db.runM cfg (Db.ready project now) (.new t) = (.ok (readyIssues project now t), .new t) := by
  rw [(Db.isTx_ready cfg project now).eq]
  rfl

theorem rollups_ready {projects : List ProjectInfo} {t : Tables} {now days staleDays : Int}
    {rollup : ProjectRollup}
    (h : rollup ∈ rollups projects (issuesOf t) (issuesOf t) now days staleDays) :
    rollup.ready = (workOf (readyIssues (some rollup.slug) now t)).length := by
  rw [rollups, Sorting.mem_sortOn, List.mem_map] at h
  obtain ⟨project, -, rfl⟩ := h
  show (((workOf (bucket (·.project) (issuesOf t) project.slug)).filter fun issue =>
    isReady issue (statusesOf (issuesOf t)) now).length : Int) = _
  rw [← List.countP_eq_length_filter, countP_ready_project]
  rfl

/-- The portfolio of a store counts as ready what `ready` returns, goals aside: issue by issue, in
the totals, and project by project. The two are computed from different records of the issues, in
different ways. -/
theorem portfolio_ready {cfg : Db.Config} {s : Locked Tables} (hs : Reachable cfg s)
    (now days staleDays : Int) :
    ∃ all, Db.runM cfg (Db.ready none now) (.new s.state) = (.ok all, .new s.state) ∧
      (∀ issue, (issue ∈ issuesOf s.state ∧
          isReady issue (statusesOf (issuesOf s.state)) now = true) ↔
        issue ∈ all ∧ issue.issueType ≠ goalType) ∧
      (portfolioCommand none (projectsOf s.state) (foldersOf s.state) (issuesOf s.state) now days
        staleDays).totals.ready = (workOf all).length ∧
      ∀ rollup ∈ (portfolioCommand none (projectsOf s.state) (foldersOf s.state)
          (issuesOf s.state) now days staleDays).parts,
        ∃ own, Db.runM cfg (Db.ready (some rollup.slug) now) (.new s.state) =
            (.ok own, .new s.state) ∧
          rollup.ready = (workOf own).length := by
  have hpage := page_of_references hs.references
  have hcovers : Covers (·.project) ((projectsOf s.state).map (·.slug)) (issuesOf s.state) :=
    ⟨hpage.slugs, hpage.projects⟩
  refine ⟨_, runM_ready cfg none now s.state, fun issue => ready_iff, ?_, fun rollup hrollup => ?_⟩
  · rw [← countP_ready]
    exact sum_rollups hcovers (·.ready) _ fun project issues =>
      congrArg Int.ofNat List.countP_eq_length_filter.symm
  · have hmem := (parts_perm (foldersOf_slugs s.state)).mem_iff.mp hrollup
    exact ⟨_, runM_ready cfg _ now s.state, rollups_ready hmem⟩

/-- Once its grace is over, the one issue of the store is ready in the portfolio. -/
theorem touched_portfolio_ready :
    (portfolioCommand none (projectsOf touched.state) (foldersOf touched.state)
      (issuesOf touched.state) 100000 14 7).totals.ready = 1 := by
  obtain ⟨all, hall, -, hready, -⟩ := portfolio_ready reachable_touched 100000 14 7
  rw [runM_ready] at hall
  cases hall
  rw [hready]
  decide +kernel

end Marbles.Report
