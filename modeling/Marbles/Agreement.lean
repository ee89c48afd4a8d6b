import Marbles.Dashboard
import Marbles.Db.References
import Marbles.Frontier

/-!
# A dashboard that agrees with itself

The totals, the portfolio, the board and the chart of a dashboard count the same issues in
different ways. A page read from a store files every issue under one project and one status, so
project by project and column by column nothing is left out or counted twice. Only what is stale
can be counted differently: the totals take a negative number of days for none, the portfolio takes
it as it is.

The lists a dashboard is made from are read in three calls, so the results are about lists that go
together (`Page`), and `viewsDashboard_eq` says that the endpoint reads such lists as long as
nobody writes in between. The counting itself is done by the bucket lemmas: work split by project,
by status or by both adds up to the work that was split.
-/

namespace Marbles.Plan

/-- A chart has a bar for each of the issues it schedules. -/
theorem ganttScoped_ids {mode : Overflow} {allIssues selected : List Issue} {scope : GanttScope}
    {includeClosed : Bool} {defaultEstimateMin now : Int} {view : GanttView}
    (h : ganttScoped mode allIssues selected scope includeClosed defaultEstimateMin now =
      .ok view) :
    view.gantt.nodes.map (·.id) = (scheduled selected includeClosed).map (·.id) := by
  obtain ⟨graph, hgraph, h⟩ := Outcome.bind_eq_ok.mp h
  obtain ⟨chart, hchart, h⟩ := Outcome.bind_eq_ok.mp h
  obtain ⟨_, -, hgraph⟩ := Outcome.bind_eq_ok.mp hgraph
  have hids := ganttI64_ids hchart
  cases h
  cases hgraph
  exact hids

end Marbles.Plan

namespace Marbles.Report

open Buckets (bucket bucket_bucket Covers)
open Db (Tables Reachable)
open Sorting (sortOn perm_sortOn)

/-! ### What is read from a store -/

/-- The projects as the views see them. -/
def projectsOf (t : Tables) : List ProjectInfo :=
  projectInfos (Db.projectsQuery t) (Db.folderViewQuery t)

/-- The folders as the views see them. -/
def foldersOf (t : Tables) : List Folder := (Db.folderViewQuery t).folders

/-- All issues, closed ones included: a view filters what it has read. -/
def issuesOf (t : Tables) : List Issue := Db.listQuery none true none t

/-- Projects and issues that go together. -/
structure Page (projects : List ProjectInfo) (issues : List Issue) : Prop where
  slugs : (projects.map (·.slug)).Nodup
  ids : (issues.map (·.id)).Nodup
  projects : ∀ issue ∈ issues, issue.project ∈ projects.map (·.slug)
  statuses : ∀ issue ∈ issues, issue.status ∈ allStatuses

theorem projectsOf_slugs (t : Tables) : ((projectsOf t).map (·.slug)).Perm t.project.keys := by
  have hslugs : (projectsOf t).map (·.slug) = (Db.projectsQuery t).map (·.1) := List.map_map
  have hperm := (perm_sortOn (fun p : String × String × String => p.1)
    (t.project.rows.map fun r => (r.1, r.2.root, r.2.idPrefix))).map (·.1)
  rw [List.map_map] at hperm
  rw [hslugs]
  exact hperm

theorem page_of_references {t : Tables} (h : Db.References t) :
    Page (projectsOf t) (issuesOf t) where
  slugs := (projectsOf_slugs t).nodup_iff.mpr t.project.keys_nodup
  ids := by
    rw [issuesOf, Plan.listQuery_all, List.map_map]
    exact Db.nodup_select ..
  projects := fun issue hissue => by
    obtain ⟨row, hrow, hview⟩ := Plan.mem_listQuery_all.mp hissue
    rw [← hview]
    exact (projectsOf_slugs t).mem_iff.mpr (h.projects _ row hrow)
  statuses := fun issue hissue => by
    obtain ⟨row, -, hview⟩ := Plan.mem_listQuery_all.mp hissue
    rw [← hview]
    exact mem_allStatuses.mpr ⟨row.status, Status.parse_asStr row.status⟩

/-- What a dashboard is made from. -/
structure Contents where
  projects : List ProjectInfo
  folders : List Folder
  issues : List Issue
  page : Page projects issues

/-- The contents of a store. -/
def Contents.read {cfg : Db.Config} {s : Locked Tables} (hs : Reachable cfg s) : Contents where
  projects := projectsOf s.state
  folders := foldersOf s.state
  issues := issuesOf s.state
  page := page_of_references hs.references

/-- The issues of a scope. -/
def Contents.selected (c : Contents) (scope : ViewScope) : List Issue :=
  scopeIssues c.issues c.projects scope

/-- On a healthy lock the endpoint shows what is in the store. -/
theorem viewsDashboard_eq (mode : Overflow) (cfg : Db.Config) (body : ViewsDashboardBody)
    (now : Int) (t : Tables) : Db.runM cfg (viewsDashboard mode body now) (.new t) =
      (dashboard mode (projectsOf t) (foldersOf t) (issuesOf t) ⟨body.project, body.folder,
      body.plan⟩
        body.days body.staleDays Plan.defaultEstimateMinutes now, .new t) := rfl

/-! ### The scope -/

section Scope

variable {projects : List ProjectInfo} {issues : List Issue} {scope : ViewScope}

theorem Page.inScope (h : Page projects issues) :
    Page projects (scopeIssues issues projects scope) where
  slugs := h.slugs
  ids := h.ids.sublist (List.filter_sublist.map _)
  projects := fun issue hissue => h.projects issue (List.mem_filter.mp hissue).1
  statuses := fun issue hissue => h.statuses issue (List.mem_filter.mp hissue).1

/-- The projects of a scope cover its issues. -/
theorem Page.covers (h : Page projects issues) : Covers (·.project)
    ((selectedProjects projects (scopeIssues issues projects scope) scope).map (·.slug))
    (scopeIssues issues projects scope) where
  nodup := h.slugs.sublist (List.filter_sublist.map _)
  mem := fun issue hissue => by
    obtain ⟨hmem, hscope⟩ := List.mem_filter.mp hissue
    simp only [Bool.and_eq_true] at hscope
    obtain ⟨⟨hproject, hfolder⟩, -⟩ := hscope
    obtain ⟨project, hin, hslug⟩ := List.mem_map.mp (h.projects issue hmem)
    refine List.mem_map.mpr ⟨project, List.mem_filter.mpr ⟨hin, ?_⟩, hslug⟩
    have hpresent : project.slug ∈ (scopeIssues issues projects scope).map (·.project) :=
      List.mem_map.mpr ⟨issue, hissue, hslug.symm⟩
    -- there is one project with this slug, so it is the one that is in the folder
    have hfiled : scope.folder.all (project.folder = some ·) = true := by
      cases hf : scope.folder with
      | none => rfl
      | some folder =>
          rw [hf, Option.all_some, decide_eq_true_iff] at hfolder
          obtain ⟨other, hother, hsame⟩ := List.mem_map.mp hfolder
          obtain ⟨hother, hfolder⟩ := List.mem_filter.mp hother
          rw [List.inj_on_of_nodup_map h.slugs hin hother (hslug.trans hsame.symm)]
          exact hfolder
    rw [Bool.and_eq_true, Bool.and_eq_true, Bool.or_eq_true, hslug]
    exact ⟨⟨hproject, hfiled⟩, Or.inr (decide_eq_true (hslug ▸ hpresent))⟩

end Scope

/-! ### Project by project -/

theorem sum_natCast {κ : Type} (keys : List κ) (f : κ → Nat) :
    (keys.map fun k => (f k : Int)).sum = ((keys.map f).sum : Nat) := by
  have hsum := map_list_sum (Nat.castAddMonoidHom Int) (keys.map f)
  rw [List.map_map] at hsum
  exact hsum.symm

/-- What every rollup counts of its work, the rollups together count of all work. -/
theorem sum_rollups {projects : List ProjectInfo} {selected allIssues : List Issue}
    {now days staleDays : Int} (hcover : Covers (·.project) (projects.map (·.slug)) selected)
    (f : ProjectRollup → Int) (p : Issue → Bool)
    (hf : ∀ project issues, f (projectRollup project issues (statusesOf allIssues) now days
      staleDays) = (workOf issues).countP p) :
    ((rollups projects selected allIssues now days staleDays).map f).sum =
      (workOf selected).countP p := by
  have hcount : (projects.map fun project => f (projectRollup project
      (bucket (·.project) selected project.slug) (statusesOf allIssues) now days staleDays)) =
      (projects.map (·.slug)).map fun slug =>
        (((bucket (·.project) (workOf selected) slug).countP p : Nat) : Int) := by
    rw [List.map_map]
    refine List.map_congr_left fun project _ => ?_
    rw [hf, Function.comp_apply, workOf, workOf, Buckets.bucket_filter]
  rw [rollups, ((perm_sortOn _ _).map f).sum_eq, List.map_map]
  show (projects.map fun project => f (projectRollup project
      (bucket (·.project) selected project.slug) (statusesOf allIssues) now days staleDays)).sum = _
  rw [hcount, sum_natCast, workOf, (hcover.filter _).sum_countP p]

/-! ### Column by column -/

/-- The column has a card of this issue. -/
def ScrumColumn.Shows (column : ScrumColumn) (id : String) : Prop := id ∈ column.cards.map (·.id)

instance (column : ScrumColumn) (id : String) : Decidable (column.Shows id) :=
  inferInstanceAs (Decidable (_ ∈ _))

theorem covers_statuses {issues : List Issue} (h : ∀ issue ∈ issues, issue.status ∈ allStatuses) :
    Covers (·.status) allStatuses issues where
  nodup := by decide
  mem := h

section Board

variable {work : List Issue} {statuses : Table String String} {now : Int}

theorem cards_ids (work : List Issue) :
    (work.map (scrumCard statuses now)).map (·.id) = work.map (·.id) := List.map_map

/-- The columns count all work. -/
theorem scrumColumns_counts (h : Covers (·.status) allStatuses work) :
    ((scrumColumns work statuses now).map (·.count)).sum = work.length := by
  have hcounts : (scrumColumns work statuses now).map (·.count) =
      allStatuses.map fun status => (((bucket (·.status) work status).length : Nat) : Int) := by
    rw [scrumColumns, List.map_map]
    refine List.map_congr_left fun status _ => ?_
    simp only [Function.comp_apply, List.length_map]
  rw [hcounts, sum_natCast, h.sum_length]

theorem scrumColumns_shows (h : Covers (·.status) allStatuses work)
    (hids : (work.map (·.id)).Nodup) {issue : Issue} (hissue : issue ∈ work) :
    (scrumColumns work statuses now).countP (·.Shows issue.id) = 1 := by
  rw [scrumColumns, List.countP_map, ← h.countP_names hids hissue]
  refine List.countP_congr fun status _ => ?_
  simp only [Function.comp_apply, ScrumColumn.Shows, cards_ids]

theorem covers_distinct (work : List Issue) :
    Covers (·.project) (distinct (work.map (·.project))) work where
  nodup := Sorting.nodup_sortOn.mpr (List.nodup_dedup _)
  mem := fun _ hissue =>
    Sorting.mem_sortOn.mpr (List.mem_dedup.mpr (List.mem_map_of_mem hissue))

/-- Over all swimlanes there is one column for every project and status. -/
theorem swimlanes_shows {projects : List String} (hprojects : Covers (·.project) projects work)
    (h : Covers (·.status) allStatuses work) (hids : (work.map (·.id)).Nodup) {issue : Issue}
    (hissue : issue ∈ work) :
    (projects.flatMap fun project =>
      scrumColumns (bucket (·.project) work project) statuses now).countP
        (·.Shows issue.id) = 1 := by
  have hcolumns : (projects.flatMap fun project =>
      scrumColumns (bucket (·.project) work project) statuses now) =
      (projects ×ˢ allStatuses).map fun key =>
        let cards := (bucket (fun issue => (issue.project, issue.status)) work key).map
          (scrumCard statuses now)
        ⟨key.2, columnTitle key.2, cards.length, none, cards⟩ := by
    change _ = (projects.flatMap fun project => allStatuses.map (Prod.mk project)).map _
    rw [List.map_flatMap]
    refine List.flatMap_congr fun project _ => ?_
    rw [List.map_map, scrumColumns]
    refine List.map_congr_left fun status _ => ?_
    simp only [Function.comp_apply, bucket_bucket]
  rw [hcolumns, List.countP_map, ← (hprojects.product h).countP_names hids hissue]
  refine List.countP_congr fun key _ => ?_
  simp only [Function.comp_apply, ScrumColumn.Shows, cards_ids]

end Board

/-! ### Agreement -/

/-- The parts of a dashboard agree about the issues selected for it. Each part counts on its own in
the source, so that they agree has to be proved. -/
structure Agrees (d : Dashboard) (selected : List Issue) : Prop where
  total : d.totals.total = d.portfolio.totals.progress.total
  ready : d.totals.ready = d.portfolio.totals.ready
  stale : d.totals.stale = d.portfolio.totals.stale
  counts : d.totals.total = (d.scrum.columns.map (·.count)).sum
  column : ∀ issue ∈ workOf selected, d.scrum.columns.countP (·.Shows issue.id) = 1
  /-- One column of one swimlane, that is one column of them all. -/
  swimlane : ∀ issue ∈ workOf selected,
    (d.scrum.swimlanes.flatMap (·.columns)).countP (·.Shows issue.id) = 1
  gantt : (d.gantt.nodes.map (·.id)).Perm
    (((workOf selected).filter fun issue => issue.status ≠ "closed").map (·.id))

section Dashboard

variable {mode : Overflow} {projects : List ProjectInfo} {folders : List Folder}
  {allIssues : List Issue} {scope : ViewScope} {days staleDays defaultEstimateMin now : Int}
    {d : Dashboard}

/-- Only the two counts of what is stale can differ. -/
theorem Page.agrees_iff (page : Page projects allIssues)
    (h : dashboard mode projects folders allIssues scope days staleDays defaultEstimateMin now =
      .ok d) :
    Agrees d (scopeIssues allIssues projects scope) ↔
      (workOf (scopeIssues allIssues projects scope)).countP
          (fun issue => isStale issue (staleCutoff now (max staleDays 0))) =
        (workOf (scopeIssues allIssues projects scope)).countP
          (fun issue => isStale issue (staleCutoff now staleDays)) := by
  obtain ⟨view, hview, h⟩ := Outcome.bind_eq_ok.mp h
  cases h
  have hselected := @Page.inScope projects allIssues scope page
  have hcovers := @Page.covers projects allIssues scope page
  generalize scopeIssues allIssues projects scope = selected at hview hselected hcovers ⊢
  generalize selectedProjects projects selected scope = shown at hcovers ⊢
  have hready := @sum_rollups shown selected allIssues now (max days 1) staleDays hcovers (·.ready)
    (fun issue => isReady issue (statusesOf allIssues) now) fun project issues =>
      congrArg Int.ofNat List.countP_eq_length_filter.symm
  have hstale := @sum_rollups shown selected allIssues now (max days 1) staleDays hcovers (·.stale)
    (fun issue => isStale issue (staleCutoff now staleDays)) fun project issues => rfl
  -- the board shows the work in an order of its own
  have hperm := perm_sortOn (fun issue : Issue => listKey issue.priority issue.createdAt issue.id)
    (workOf selected)
  have hids := (hperm.map (·.id)).nodup_iff.mpr (hselected.ids.sublist (List.filter_sublist.map _))
  have hstatuses := ((covers_statuses hselected.statuses).filter fun issue =>
    decide (issue.issueType ≠ goalType)).of_perm hperm
  constructor
  · intro h
    have hagree := h.stale
    exact Int.ofNat.inj (hagree.trans hstale)
  · intro h
    refine ⟨rfl, hready.symm, (congrArg Int.ofNat h).trans hstale.symm, ?_, fun issue hissue => ?_,
      fun issue hissue => ?_, ?_⟩
    · show (Progress.fromIssues (workOf selected)).total = _
      rw [Progress.total_fromIssues, ← hperm.length_eq]
      exact (scrumColumns_counts hstatuses).symm
    · exact scrumColumns_shows hstatuses hids (hperm.mem_iff.mpr hissue)
    · show (((distinct _).map _).flatMap _).countP _ = 1
      rw [List.flatMap_map]
      exact swimlanes_shows (covers_distinct _) hstatuses hids (hperm.mem_iff.mpr hissue)
    · show (view.gantt.nodes.map (·.id)).Perm _
      rw [Plan.ganttScoped_ids hview, workOf, List.filter_filter]
      refine ((perm_sortOn Plan.planKey _).map _).trans (List.Perm.of_eq (congrArg _ ?_))
      refine List.filter_congr fun issue _ => ?_
      rw [Bool.false_or, Bool.and_comm]

end Dashboard

/-! ### What is stale -/

/-- Two conditions, one of which implies the other, count the same when nothing lies between. -/
theorem countP_eq_iff {α : Type} {p q : α → Bool} {l : List α}
    (himp : ∀ a ∈ l, p a = true → q a = true) :
    l.countP p = l.countP q ↔ ∀ a ∈ l, q a = true → p a = true := by
  have hfilter : l.filter p = (l.filter q).filter p := by
    rw [List.filter_filter]
    refine List.filter_congr fun a ha => ?_
    cases hp : p a with
    | false => rfl
    | true => exact (himp a ha hp).symm
  rw [List.countP_eq_length_filter, List.countP_eq_length_filter, hfilter,
    List.length_filter_eq_length_iff]
  simp only [List.mem_filter, and_imp]

theorem isStale_iff {issue : Issue} {cutoff : Int} : isStale issue cutoff = true ↔
    (issue.status = "open" ∨ issue.status = "in_progress") ∧ issue.updatedAt < cutoff := by
  rw [isStale, decide_eq_true_iff]

theorem satI64_mono {a b : Int} (h : a ≤ b) : satI64 a ≤ satI64 b := by
  unfold satI64
  omega

/-- A negative number of days puts the cutoff ahead of now. -/
theorem staleCutoff_le {now staleDays : Int} :
    staleCutoff now (max staleDays 0) ≤ staleCutoff now staleDays := by
  have hdays : satI64 (staleDays * 86400) ≤ satI64 (max staleDays 0 * 86400) :=
    satI64_mono (by omega)
  exact satI64_mono (by omega)

/-- Both counts of what is stale are the same when nothing has been touched between now and the
cutoff. -/
theorem stale_eq_iff {work : List Issue} {now staleDays : Int} (hnow : IsI64 now) :
    work.countP (fun issue => isStale issue (staleCutoff now (max staleDays 0))) =
        work.countP (fun issue => isStale issue (staleCutoff now staleDays)) ↔
      0 ≤ staleDays ∨ ∀ issue ∈ work, issue.status = "open" ∨ issue.status = "in_progress" →
        ¬ (now ≤ issue.updatedAt ∧
          issue.updatedAt < satI64 (now - satI64 (staleDays * 86400))) := by
  by_cases hdays : 0 ≤ staleDays
  · rw [max_eq_left hdays]
    simp [hdays]
  · have hzero : staleCutoff now (max staleDays 0) = now := by
      rw [max_eq_right (by omega)]
      show satI64 (now - 0) = now
      rw [Int.sub_zero, satI64_of_isI64 hnow]
    rw [countP_eq_iff fun issue _ hstale => by
      obtain ⟨hstatus, hlt⟩ := isStale_iff.mp hstale
      exact isStale_iff.mpr ⟨hstatus, Int.lt_of_lt_of_le hlt staleCutoff_le⟩]
    simp only [hdays, false_or, isStale_iff, hzero]
    refine forall₂_congr fun issue _ => ?_
    constructor
    · intro h hstatus hbetween
      exact absurd (h ⟨hstatus, hbetween.2⟩).2 (Int.not_lt.mpr hbetween.1)
    · intro h hstale
      refine ⟨hstale.1, ?_⟩
      by_contra hnot
      exact h hstale.1 ⟨Int.not_lt.mp hnot, hstale.2⟩

/-- The parts of a dashboard agree, except about what is stale when the number of days is negative
and an open issue has been touched from now on, but before the cutoff that lies ahead. The two
cutoffs are computed from the same days, one of them after raising a negative number to 0. -/
theorem dashboard_agrees_iff {mode : Overflow} (c : Contents) {scope : ViewScope}
    {days staleDays defaultEstimateMin now : Int} {d : Dashboard} (hnow : IsI64 now)
    (h : dashboard mode c.projects c.folders c.issues scope days staleDays defaultEstimateMin now =
      .ok d) :
    Agrees d (c.selected scope) ↔
      0 ≤ staleDays ∨ ∀ issue ∈ workOf (c.selected scope),
        issue.status = "open" ∨ issue.status = "in_progress" →
          ¬ (now ≤ issue.updatedAt ∧ issue.updatedAt < satI64 (now - satI64 (staleDays * 86400))) :=
  (c.page.agrees_iff h).trans (stale_eq_iff hnow)

/-! ### An issue that waits for another -/

/-- A project with two issues touched at 100, the second of which depends on the first. -/
def touched : Locked Tables := Db.Action.run {} [.op (.ensureProject "p" "/p" "p" 0),
  .op (.create { id := some "p-1", project := some "p", title := "t" } [] 100),
  .op (.create { id := some "p-2", project := some "p", title := "u" } [] 100),
  .op (.addDep "p-2" "p-1" "me" 100)] (Db.opened "s")

theorem reachable_touched : Reachable {} touched := ⟨"s", _, rfl⟩

theorem touched_dashboard (staleDays : Int) : ∃ d, dashboard .panics (projectsOf touched.state)
    (foldersOf touched.state) (issuesOf touched.state) {} 14 staleDays 30 100 = .ok d := by
  have hok : (Plan.ganttScoped .panics (issuesOf touched.state)
      (scopeIssues (issuesOf touched.state) (projectsOf touched.state) {}) ⟨none, none, none⟩ false
        30 100).toOption.isSome = true := by
    decide +kernel
  obtain ⟨view, hview⟩ := Option.isSome_iff_exists.mp hok
  rw [dashboard, Outcome.toOption_eq_some.mp hview]
  exact ⟨_, rfl⟩

/-- With minus one day the portfolio counts the issues as stale and the totals do not. -/
theorem negative_days_disagree : ∃ (s : Locked Tables) (hs : Reachable {} s) (d : Dashboard),
    dashboard .panics (Contents.read hs).projects (Contents.read hs).folders
      (Contents.read hs).issues {} 14 (-1) 30 100 = .ok d ∧ ¬ Agrees d
      ((Contents.read hs).selected {}) := by
  obtain ⟨d, hd⟩ := touched_dashboard (-1)
  refine ⟨touched, reachable_touched, d, hd, fun hagrees => ?_⟩
  have hcounts := ((Contents.read reachable_touched).page.agrees_iff hd).mp hagrees
  revert hcounts
  decide +kernel

/-- With a week the two counts are the same. -/
theorem week_agrees : ∃ (s : Locked Tables) (hs : Reachable {} s) (d : Dashboard),
    dashboard .panics (Contents.read hs).projects (Contents.read hs).folders
      (Contents.read hs).issues {} 14 7 30 100 = .ok d ∧ Agrees d
      ((Contents.read hs).selected {}) := by
  obtain ⟨d, hd⟩ := touched_dashboard 7
  refine ⟨touched, reachable_touched, d, hd, ?_⟩
  exact (dashboard_agrees_iff (.read reachable_touched) (by decide) hd).mpr (Or.inl (by decide))

end Marbles.Report
