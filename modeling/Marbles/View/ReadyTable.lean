import Marbles.Agreement
import Marbles.ReadyWork
import Marbles.View.Document

/-!
# The table of ready work

The viewer takes the cards of the open column that nothing blocks for ready work. A card does not
say whether its issue is still in its grace or under a live claim, and it counts a dependency that
is not in the store as a blocker, which the count of ready issues does not. `readyTable_iff` says
for which dashboards the table is the ready work all the same.

The cards are in the order of the listing, and the table takes the first of them. So two things
have to hold: no card among these is of an issue that is not ready, and no ready issue is left out
while there is room. The condition says exactly that, in terms of the issues.
-/

namespace Marbles.View

open Json (Value)
open Report (Dashboard Contents ViewScope blockedBy dashboard isReady scrumCard scrumColumns
  statusesOf
  workOf)
open Sorting (sortOn perm_sortOn)

/-- The row of an issue in the table. -/
def readyRow (statuses : Table String String) (issue : Issue) : Value :=
  .arr [.str "open", .str issue.id, .str issue.project, .str issue.title,
    .str (issue.assignee.getD ""), .str (toString (blockedBy issue statuses)),
    .str (estimate (.ofInt? (Plan.metadataEstimate issue)))]

/-- Every row is that of a ready issue, and up to eighteen of them are all there. -/
structure ReadyTable (d : Dashboard) (work : List Issue) (statuses : Table String String)
    (now : Int) (rows : List Value) : Prop where
  ready : ∀ row ∈ rows, ∃ issue ∈ work, isReady issue statuses now = true ∧
    row = readyRow statuses issue
  all : d.totals.ready ≤ maxReadyRows → ∀ issue ∈ work, isReady issue statuses now = true →
    readyRow statuses issue ∈ rows

/-- The issues of the open column that nothing blocks, in the order of the board. -/
def unblocked (work : List Issue) (statuses : Table String String) : List Issue :=
  (sortOn (fun issue => listKey issue.priority issue.createdAt issue.id) work).filter fun issue =>
    issue.status = "open" ∧ blockedBy issue statuses = 0

/-- Past its grace and under no live claim. -/
def Available (now : Int) (issue : Issue) : Prop :=
  issue.availableAt.all (· ≤ now) = true ∧
    (issue.assignee = none ∨ issue.expiresAt.any (· ≤ now) = true)

/-- Every dependency of an issue is in the store. -/
def DependsOnStored (statuses : Table String String) (issue : Issue) : Prop :=
  ∀ dep ∈ issue.dependencies, (dep.dependsOnId.bind statuses.find).isSome = true

/-! ### One issue -/

/-- Nothing blocks an issue whose dependencies are all there and closed. -/
theorem blockedBy_eq_zero {issue : Issue} {statuses : Table String String} :
    blockedBy issue statuses = 0 ↔
      ∀ dep ∈ issue.dependencies, dep.dependsOnId.bind statuses.find = some "closed" := by
  rw [blockedBy, Int.natCast_eq_zero, List.countP_eq_zero]
  refine forall₂_congr fun dep _ => ?_
  cases dep.dependsOnId.bind statuses.find <;> simp

theorem isReady_of_unblocked {issue : Issue} {statuses : Table String String} {now : Int}
    (hwork : issue.issueType ≠ Report.goalType) (hopen : issue.status = "open")
    (hblocked : blockedBy issue statuses = 0) :
    isReady issue statuses now = true ↔ Available now issue := by
  rw [Report.isReady_iff]
  have hdeps : issue.dependencies.all (fun dep =>
      (dep.dependsOnId.bind statuses.find).all (· = "closed")) = true := by
    refine List.all_eq_true.mpr fun dep hdep => ?_
    rw [blockedBy_eq_zero.mp hblocked dep hdep]
    rfl
  exact ⟨fun h => ⟨h.2.2.1, h.2.2.2.1⟩, fun h => ⟨hwork, hopen, h.1, h.2, hdeps⟩⟩

/-- A ready issue is blocked by what is not there only. -/
theorem blockedBy_of_ready {issue : Issue} {statuses : Table String String} {now : Int}
    (h : isReady issue statuses now = true) :
    blockedBy issue statuses = 0 ↔ DependsOnStored statuses issue := by
  obtain ⟨-, -, -, -, hdeps⟩ := Report.isReady_iff.mp h
  rw [blockedBy_eq_zero]
  refine forall₂_congr fun dep hdep => ?_
  have hclosed := List.all_eq_true.mp hdeps dep hdep
  cases hstatus : dep.dependsOnId.bind statuses.find with
  | none => simp
  | some status =>
      rw [hstatus, Option.all_some, decide_eq_true_iff] at hclosed
      simp [hclosed]

/-- The row names the issue. -/
theorem id_of_readyRow {statuses : Table String String} {issue issue' : Issue}
    (h : readyRow statuses issue = readyRow statuses issue') : issue.id = issue'.id := by
  simp only [readyRow, Value.arr.injEq, List.cons.injEq, Value.str.injEq] at h
  exact h.2.1

/-! ### The rows -/

theorem field_cardJson (card : Report.ScrumCard) :
    ((cardJson card).field "id" = .str card.id ∧ (cardJson card).field "project" =
    .str card.project ∧
      (cardJson card).field "title" = .str card.title) ∧
    (cardJson card).field "assignee" = .ofStr? card.assignee ∧
      (cardJson card).field "blocked_by" = .num card.blockedBy ∧
      (cardJson card).field "estimate" = .ofInt? card.estimate :=
  ⟨⟨rfl, rfl, rfl⟩, rfl, rfl, rfl⟩

theorem cardRow_cardJson {issue : Issue} {statuses : Table String String} {now : Int}
    (h : issue.dependencies.length < 2 ^ 63) :
    number ((cardJson (scrumCard statuses now issue)).field "blocked_by") =
        blockedBy issue statuses ∧
      cardRow (cardJson (scrumCard statuses now issue)) "open" = readyRow statuses issue := by
  have hle : blockedBy issue statuses ≤ issue.dependencies.length :=
    Int.ofNat_le.mpr List.countP_le_length
  have hfits : IsI64 (blockedBy issue statuses) := by
    have hnonneg : 0 ≤ blockedBy issue statuses := Int.natCast_nonneg _
    unfold IsI64
    omega
  obtain ⟨⟨hid, hproject, htitle⟩, hassignee, hblocked, hestimate⟩ :=
    field_cardJson (scrumCard statuses now issue)
  have hnumber : number ((cardJson (scrumCard statuses now issue)).field "blocked_by") =
      blockedBy issue statuses := by
    rw [hblocked]
    exact number_num hfits
  refine ⟨hnumber, ?_⟩
  rw [cardRow, hnumber, hid, hproject, htitle, hassignee, hestimate, text, text, text, text,
    Value.asStr_ofStr?]
  simp only [Value.asStr_str, Option.getD_some, scrumCard, readyRow]

theorem field_columnJson (column : Report.ScrumColumn) :
    (columnJson column).field "status" = .str column.status ∧
      (columnJson column).field "cards" = .arr (column.cards.map cardJson) :=
  ⟨rfl, rfl⟩

/-- The open column is the one whose cards count. -/
theorem laneCards_board (work : List Issue) (statuses : Table String String) (now : Int) :
    (laneCards ((scrumColumns work statuses now).map columnJson)).1 =
      (((Buckets.bucket (·.status) work "open").map (scrumCard statuses now)).map cardJson).filter
        fun card => number (card.field "blocked_by") = 0 := by
  simp [laneCards, scrumColumns, allStatuses, Status.all, Status.asStr, text, field_columnJson,
    Value.asArray]

theorem filter_map_map {α β γ : Type} (f : α → β) (g : β → γ) (p : γ → Bool) (l : List α) :
    ((l.map f).map g).filter p = (l.filter fun a => p (g (f a))).map fun a => g (f a) := by
  rw [List.map_map, List.filter_map]
  rfl

/-- The cards of the open column that nothing blocks are those of the issues. -/
theorem laneCards_open {work : List Issue} {statuses : Table String String} {now : Int}
    (h : ∀ issue ∈ work, issue.dependencies.length < 2 ^ 63) :
    (laneCards ((scrumColumns work statuses now).map columnJson)).1 =
      (work.filter fun issue => issue.status = "open" ∧ blockedBy issue statuses = 0).map
        fun issue => cardJson (scrumCard statuses now issue) := by
  have hkept : ∀ issue ∈ work,
      (decide (number ((cardJson (scrumCard statuses now issue)).field "blocked_by") = 0) &&
        decide (issue.status = "open")) =
      decide (issue.status = "open" ∧ blockedBy issue statuses = 0) := by
    intro issue hissue
    rw [(cardRow_cardJson (h issue hissue)).1, Bool.decide_and, Bool.and_comm]
  rw [laneCards_board, filter_map_map, Buckets.bucket, List.filter_filter, List.filter_congr hkept]

theorem render_ready {dashboard : Value} {tables : Tables}
    (h : render dashboard = .ok (.tables tables)) :
    tables.ready = ((laneCards ((((dashboard.field "scrum").field "columns").asArray).getD
      [])).1.take maxReadyRows).map fun card => cardRow card "open" := by
  unfold render at h
  split at h
  · cases h
  · have hproject := Except.ok.inj h
    unfold project at hproject
    dsimp only at hproject
    split at hproject
    · cases hproject
    · rw [← Document.tables.inj hproject]

/-! ### When the table is the ready work -/

section Board

variable {build : Overflow} {c : Contents} {scope : ViewScope}
  {days staleDays defaultEstimateMin now : Int} {d : Dashboard} {revision : Nat} {mode : String}
    {tables : Tables}

theorem dashboard_parts (h : dashboard build c.projects c.folders c.issues scope days staleDays
    defaultEstimateMin now = .ok d) :
    d.scrum = Report.scrum (c.selected scope) c.issues now ∧
      d.totals.ready = (workOf (c.selected scope)).countP fun issue =>
        isReady issue (statusesOf c.issues) now := by
  obtain ⟨view, -, h⟩ := Outcome.bind_eq_ok.mp h
  cases h
  exact ⟨rfl, rfl⟩

/-- The table has the first eighteen of the issues that nothing blocks. -/
theorem ready_rows (hdeps : ∀ issue ∈ c.issues, issue.dependencies.length < 2 ^ 63)
    (h : dashboard build c.projects c.folders c.issues scope days staleDays defaultEstimateMin now =
      .ok d)
    (hrender : render (dashboardJson d revision mode) = .ok (.tables tables)) :
    tables.ready = ((unblocked (workOf (c.selected scope)) (statusesOf c.issues)).take
      maxReadyRows).map (readyRow (statusesOf c.issues)) := by
  have hsorted : ∀ issue ∈ sortOn (fun issue => listKey issue.priority issue.createdAt issue.id)
      (workOf (c.selected scope)), issue.dependencies.length < 2 ^ 63 := by
    intro issue hissue
    have hwork := Sorting.mem_sortOn.mp hissue
    exact hdeps issue (List.mem_filter.mp (List.mem_filter.mp hwork).1).1
  have hcolumns : ((((dashboardJson d revision mode).field "scrum").field "columns").asArray).getD
      [] = d.scrum.columns.map columnJson := rfl
  rw [render_ready hrender, hcolumns, (dashboard_parts h).1, Report.scrum, laneCards_open hsorted,
    ← List.map_take, List.map_map, unblocked]
  refine List.map_congr_left fun issue hissue => ?_
  exact (cardRow_cardJson (hsorted issue (List.mem_filter.mp (List.mem_of_mem_take hissue)).1)).2

end Board

/-- A list whose first items are all counted leaves nothing out when few are counted. -/
theorem mem_take_of_countP {α : Type} {p : α → Bool} {l : List α} {n : Nat} {a : α} (ha : a ∈ l)
    (hp : p a = true) (htake : ∀ b ∈ l.take n, p b = true) (hcount : l.countP p ≤ n) :
    a ∈ l.take n := by
  rw [← List.take_append_drop n l] at ha
  refine (List.mem_append.mp ha).resolve_right fun hdrop => ?_
  have hfirst : (l.take n).countP p = n := by
    rw [List.countP_eq_length.mpr htake, List.length_take]
    have hpos := List.length_pos_of_mem hdrop
    rw [List.length_drop] at hpos
    omega
  have hlater : 0 < (l.drop n).countP p := List.countP_pos_iff.mpr ⟨a, hdrop, hp⟩
  rw [← List.take_append_drop n l, List.countP_append, hfirst] at hcount
  omega

section Board

variable {build : Overflow} {c : Contents} {scope : ViewScope}
  {days staleDays defaultEstimateMin now : Int} {d : Dashboard} {revision : Nat} {mode : String}
    {tables : Tables}

theorem mem_unblocked {work : List Issue} {statuses : Table String String} {issue : Issue} :
    issue ∈ unblocked work statuses ↔
      issue ∈ work ∧ issue.status = "open" ∧ blockedBy issue statuses = 0 := by
  rw [unblocked, List.mem_filter, Sorting.mem_sortOn, decide_eq_true_iff]

/-- The table shows the ready work exactly when the first eighteen open issues that nothing blocks
are available, and, if there is room for all, no ready issue depends on one that is not there. The
card of an issue does not carry what would decide it. -/
theorem readyTable_iff (hdeps : ∀ issue ∈ c.issues, issue.dependencies.length < 2 ^ 63)
    (h : dashboard build c.projects c.folders c.issues scope days staleDays defaultEstimateMin now =
      .ok d)
    (hrender : render (dashboardJson d revision mode) = .ok (.tables tables)) :
    ReadyTable d (workOf (c.selected scope)) (statusesOf c.issues) now tables.ready ↔
      (∀ issue ∈ (unblocked (workOf (c.selected scope)) (statusesOf c.issues)).take maxReadyRows,
        Available now issue) ∧
      ((workOf (c.selected scope)).countP (fun issue => isReady issue (statusesOf c.issues) now) ≤
        maxReadyRows → ∀ issue ∈ workOf (c.selected scope),
          isReady issue (statusesOf c.issues) now = true →
            DependsOnStored (statusesOf c.issues) issue) := by
  have hrows := ready_rows hdeps h hrender
  have htotal := (dashboard_parts h).2
  have hids : ((workOf (c.selected scope)).map (·.id)).Nodup :=
    c.page.inScope.ids.sublist (List.filter_sublist.map _)
  have hgoal : ∀ issue ∈ workOf (c.selected scope), issue.issueType ≠ Report.goalType :=
    fun issue hissue => by simpa using (List.mem_filter.mp hissue).2
  generalize workOf (c.selected scope) = work at hrows htotal hids hgoal ⊢
  generalize statusesOf c.issues = statuses at hrows htotal ⊢
  -- an issue and its row are one to one
  have hsame : ∀ issue ∈ work, ∀ issue' ∈ work,
      readyRow statuses issue = readyRow statuses issue' → issue = issue' :=
    fun issue hissue issue' hissue' hrow =>
      List.inj_on_of_nodup_map hids hissue hissue' (id_of_readyRow hrow)
  have hready : ∀ issue ∈ unblocked work statuses,
      (isReady issue statuses now = true ↔ Available now issue) := by
    intro issue hissue
    obtain ⟨hwork, hopen, hblocked⟩ := mem_unblocked.mp hissue
    exact isReady_of_unblocked (hgoal issue hwork) hopen hblocked
  rw [hrows]
  constructor
  · intro htable
    constructor
    · intro issue hissue
      have hmem := List.mem_of_mem_take hissue
      obtain ⟨issue', hwork', hready', hrow⟩ :=
        htable.ready _ (List.mem_map_of_mem hissue)
      obtain rfl := hsame issue (mem_unblocked.mp hmem).1 issue' hwork' hrow
      exact (hready issue hmem).mp hready'
    · intro hcount issue hissue hissueReady
      have hfew : d.totals.ready ≤ maxReadyRows := by
        rw [htotal]
        exact Int.ofNat_le.mpr hcount
      obtain ⟨shown, hshown, hrow⟩ := List.mem_map.mp (htable.all hfew issue hissue hissueReady)
      have hmem := mem_unblocked.mp (List.mem_of_mem_take hshown)
      obtain rfl := hsame shown hmem.1 issue hissue hrow
      exact (blockedBy_of_ready hissueReady).mp hmem.2.2
  · intro hcond
    obtain ⟨havailable, hstored⟩ := hcond
    constructor
    · intro row hrow
      obtain ⟨issue, hissue, rfl⟩ := List.mem_map.mp hrow
      have hmem := List.mem_of_mem_take hissue
      exact ⟨issue, (mem_unblocked.mp hmem).1, (hready issue hmem).mpr (havailable issue hissue),
        rfl⟩
    · intro hfew issue hissue hissueReady
      rw [htotal] at hfew
      have hcount : work.countP (fun issue => isReady issue statuses now) ≤ maxReadyRows :=
        Int.ofNat_le.mp hfew
      have hblocked := (blockedBy_of_ready hissueReady).mpr
          (hstored hcount issue hissue hissueReady)
      have hopen := (Report.isReady_iff.mp hissueReady).2.1
      have hmem : issue ∈ unblocked work statuses := mem_unblocked.mpr ⟨hissue, hopen, hblocked⟩
      have hle : (unblocked work statuses).countP (fun issue => isReady issue statuses now) ≤
          maxReadyRows := by
        refine le_trans ?_ hcount
        have hperm := perm_sortOn (fun issue : Issue =>
          listKey issue.priority issue.createdAt issue.id) work
        rw [← hperm.countP_eq]
        exact List.filter_sublist.countP_le
      refine List.mem_map_of_mem (mem_take_of_countP hmem hissueReady (fun other hother => ?_) hle)
      exact (hready other (List.mem_of_mem_take hother)).mpr (havailable other hother)

end Board

/-! ### An issue in its grace -/

/-- A dashboard that is not shown as a burndown is shown as tables. -/
theorem render_dashboardJson {build : Overflow} {projects : List Report.ProjectInfo}
    {folders : List Folder} {issues : List Issue} {scope : ViewScope}
    {days staleDays defaultEstimateMin now : Int} {d : Dashboard}
    (h : dashboard build projects folders issues scope days staleDays defaultEstimateMin now =
      .ok d)
    (revision : Nat) {mode : String} (hmode : mode ≠ "burndown") :
    ∃ tables, render (dashboardJson d revision mode) = .ok (.tables tables) := by
  have hschema : ((dashboardJson d revision mode).field "schema").asStr =
      some "marbles.view.dashboard.v1" := by
    obtain ⟨view, -, h⟩ := Outcome.bind_eq_ok.mp h
    cases h
    rfl
  have hother : ((dashboardJson d revision mode).field "view_mode").asStr ≠ some "burndown" :=
    fun hsame => hmode (Option.some.inj hsame)
  rw [render, if_neg (not_not.mpr hschema), project, if_neg hother]
  exact ⟨_, rfl⟩

open Report (issuesOf projectsOf foldersOf touched reachable_touched)

theorem touched_dashboard_later : ∃ d, dashboard .panics (projectsOf touched.state)
    (foldersOf touched.state) (issuesOf touched.state) {} 14 7 30 1000 = .ok d := by
  have hok : (Plan.ganttScoped .panics (issuesOf touched.state)
      (Report.scopeIssues (issuesOf touched.state) (projectsOf touched.state) {}) ⟨none, none, none⟩
        false 30 1000).toOption.isSome = true := by
    decide +kernel
  obtain ⟨view, hview⟩ := Option.isSome_iff_exists.mp hok
  rw [dashboard, Outcome.toOption_eq_some.mp hview]
  exact ⟨_, rfl⟩

theorem touched_dependencies : ∀ issue ∈ issuesOf touched.state,
    issue.dependencies.length < 2 ^ 63 := by
  decide +kernel

/-- At 100 the first issue is in its grace, and it is the row of the table. -/
theorem grace_shown_ready : ∃ (hs : Db.Reachable {} touched) (d : Dashboard) (tables : Tables),
    dashboard .panics (Contents.read hs).projects (Contents.read hs).folders
        (Contents.read hs).issues {} 14 7 30 100 = .ok d ∧
      render (dashboardJson d 1 "work") = .ok (.tables tables) ∧ d.totals.ready = 0 ∧
      tables.ready.length = 1 ∧ ¬ ReadyTable d (workOf ((Contents.read hs).selected {}))
        (statusesOf (Contents.read hs).issues) 100 tables.ready := by
  obtain ⟨d, hd⟩ := Report.touched_dashboard 7
  have hmode : "work" ≠ "burndown" := by decide
  obtain ⟨tables, hrender⟩ := render_dashboardJson hd 1 hmode
  refine ⟨reachable_touched, d, tables, hd, hrender, ?_, ?_, fun h => ?_⟩
  · rw [(dashboard_parts (c := .read reachable_touched) hd).2]
    decide +kernel
  · rw [ready_rows (c := .read reachable_touched) touched_dependencies hd hrender, List.length_map]
    decide +kernel
  · have havailable := ((readyTable_iff (c := .read reachable_touched) touched_dependencies hd
      hrender).mp h).1
    revert havailable
    unfold Available
    decide +kernel

/-- At 1000 its grace is over, and the table is the ready work. -/
theorem ready_after_grace : ∃ (hs : Db.Reachable {} touched) (d : Dashboard) (tables : Tables),
    dashboard .panics (Contents.read hs).projects (Contents.read hs).folders
        (Contents.read hs).issues {} 14 7 30 1000 = .ok d ∧
      render (dashboardJson d 1 "work") = .ok (.tables tables) ∧ d.totals.ready = 1 ∧
      ReadyTable d (workOf ((Contents.read hs).selected {})) (statusesOf (Contents.read hs).issues)
        1000 tables.ready := by
  obtain ⟨d, hd⟩ := touched_dashboard_later
  have hmode : "work" ≠ "burndown" := by decide
  obtain ⟨tables, hrender⟩ := render_dashboardJson hd 1 hmode
  refine ⟨reachable_touched, d, tables, hd, hrender, ?_, ?_⟩
  · rw [(dashboard_parts (c := .read reachable_touched) hd).2]
    decide +kernel
  · refine (readyTable_iff (c := .read reachable_touched) touched_dependencies hd hrender).mpr ?_
    unfold Available DependsOnStored
    decide +kernel

end Marbles.View
