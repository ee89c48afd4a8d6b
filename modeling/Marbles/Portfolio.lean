import Marbles.Agreement

/-!
# The portfolio adds up

`mb portfolio` shows every project in its folder or among the unfiled ones, and totals. Ready and
stale work is summed over the projects, progress is counted over the page of issues. With a folder
given the projects are restricted to it and the page is not, so the progress of the totals is the
sum of the parts exactly when all work of the page belongs to a project that is shown.

Sums over projects and counts over the page are compared bucket by bucket. An issue is counted
twice by no one, because slugs are different, and missed exactly when its project is not among
those that are shown. So the difference between totals and parts is the work of other projects,
and the condition says that there is none.
-/

namespace Marbles.Report

open Buckets (bucket Covers)
open Db (Reachable)
open Sorting (sortOn perm_sortOn)

/-! ### The command -/

/-- The projects `--folder` keeps. -/
def keptProjects (folder : Option String) (projects : List ProjectInfo) : List ProjectInfo :=
  match folder with
  | none => projects
  | some folder => projects.filter fun project => project.folder = some folder

/-- `Command::Portfolio`: the issues are those of the whole store. -/
def portfolioCommand (folder : Option String) (projects : List ProjectInfo) (folders : List Folder)
    (issues : List Issue) (now days staleDays : Int) : Portfolio :=
  portfolio (keptProjects folder projects) folders issues now days staleDays

/-- Every rollup of a project, in its folder or unfiled. -/
def Portfolio.parts (p : Portfolio) : List ProjectRollup :=
  p.folders.flatMap (·.projects) ++ p.unfiled

/-- The parts are the given projects, each once, and the totals are their sums. -/
structure SumsUp (p : Portfolio) (given : List ProjectInfo) : Prop where
  once : (p.parts.map (·.slug)).Perm (given.map (·.slug))
  ready : p.totals.ready = (p.parts.map (·.ready)).sum
  stale : p.totals.stale = (p.parts.map (·.stale)).sum
  total : p.totals.progress.total = (p.parts.map (·.progress.total)).sum
  closed : p.totals.progress.closed = (p.parts.map (·.progress.closed)).sum

/-! ### Folders -/

section Folders

variable {folders : List Folder} {rollups : List ProjectRollup}

/-- A list of known folders holds the projects filed in them, and the others are unfiled. -/
theorem filed_append_unfiled (hfolders : (folders.map (·.slug)).Nodup) :
    (folders.flatMap (fun folder => rollups.filter fun project =>
        project.folder = some folder.slug) ++
      rollups.filter fun project =>
        !folders.any fun folder => some folder.slug = project.folder).Perm rollups := by
  let known : ProjectRollup → Bool := fun project =>
    folders.any fun folder => some folder.slug = project.folder
  have hcovers : Covers (·.folder) (folders.map fun folder => some folder.slug)
      (rollups.filter known) := by
    constructor
    · have hslugs := hfolders.map (Option.some_injective String)
      rwa [List.map_map] at hslugs
    · intro project hproject
      have hknown : known project = true := (List.mem_filter.mp hproject).2
      obtain ⟨folder, hfolder, hslug⟩ := List.any_eq_true.mp hknown
      exact List.mem_map.mpr ⟨folder, hfolder, of_decide_eq_true hslug⟩
  have hbuckets : (folders.map fun folder => some folder.slug).flatMap
      (bucket (·.folder) (rollups.filter known)) =
      folders.flatMap fun folder => rollups.filter fun project =>
        project.folder = some folder.slug := by
    rw [List.flatMap_map]
    refine List.flatMap_congr fun folder hfolder => ?_
    rw [Buckets.bucket_filter]
    -- what is filed in a folder of the list is known
    refine List.filter_eq_self.mpr fun project hproject => ?_
    have hslug := (Buckets.mem_bucket.mp hproject).2
    exact List.any_eq_true.mpr ⟨folder, hfolder, decide_eq_true hslug.symm⟩
  have hparts := hcovers.perm
  rw [hbuckets] at hparts
  exact (hparts.append_right _).trans (List.filter_append_perm known rollups)

end Folders

section Parts

variable {projects : List ProjectInfo} {folders : List Folder} {issues : List Issue}
  {now days staleDays : Int}

/-- Folders without projects have no line, and add none. -/
theorem flatMap_folders :
    ((portfolio projects folders issues now days staleDays).folders.flatMap (·.projects)).Perm
      (folders.flatMap fun folder =>
        (rollups projects issues issues now days staleDays).filter fun project =>
          project.folder = some folder.slug) := by
  refine ((perm_sortOn _ _).flatMap_right _).trans (List.Perm.of_eq ?_)
  induction folders with
  | nil => rfl
  | cons folder folders ih =>
      rw [List.filterMap_cons, List.flatMap_cons, ← ih]
      by_cases hempty : ((rollups projects issues issues now days staleDays).filter fun project =>
          project.folder = some folder.slug).isEmpty = true
      · simp only [if_pos hempty]
        rw [List.isEmpty_iff.mp hempty, List.nil_append]
      · simp only [if_neg hempty]
        rfl

/-- The parts of a portfolio are the rollups of its projects. -/
theorem parts_perm (hfolders : (folders.map (·.slug)).Nodup) :
    (portfolio projects folders issues now days staleDays).parts.Perm
      (rollups projects issues issues now days staleDays) := by
  have hunfiled : (portfolio projects folders issues now days staleDays).unfiled =
      (rollups projects issues issues now days staleDays).filter fun project =>
        !folders.any fun folder => some folder.slug = project.folder := by
    refine List.filter_congr fun project _ => ?_
    cases hfolder : project.folder with
    | none => simp
    | some slug => simp
  rw [Portfolio.parts, hunfiled]
  exact (flatMap_folders.append_right _).trans (filed_append_unfiled hfolders)

/-! ### Progress -/

@[simp] theorem Progress.closed_count (out : Progress) (issue : Issue) :
    (out.count issue).closed = out.closed + if issue.status = "closed" then 1 else 0 := by
  unfold Progress.count
  dsimp only
  split <;> split <;> simp_all

@[simp] theorem Progress.closed_fromIssues (issues : List Issue) :
    (Progress.fromIssues issues).closed = issues.countP fun issue => issue.status = "closed" := by
  have hfold : ∀ (issues : List Issue) (out : Progress), (issues.foldl Progress.count out).closed =
      out.closed + issues.countP fun issue => issue.status = "closed" := by
    intro issues
    induction issues with
    | nil => exact fun out => (Int.add_zero _).symm
    | cons issue issues ih =>
        intro out
        rw [List.foldl_cons, ih, Progress.closed_count, List.countP_cons]
        simp only [decide_eq_true_eq]
        split
        · push_cast
          omega
        · simp
  have h := hfold issues {}
  rwa [Int.zero_add] at h

/-- The issues of the page that belong to one of the projects. -/
def shown (projects : List ProjectInfo) (issues : List Issue) : List Issue :=
  issues.filter fun issue => issue.project ∈ projects.map (·.slug)

/-- Issues of other projects are in no rollup. -/
@[simp] theorem rollups_shown (all : List Issue) :
    rollups projects (shown projects issues) all now days staleDays =
      rollups projects issues all now days staleDays := by
  unfold rollups
  refine congrArg (sortOn _) (List.map_congr_left fun project hproject => ?_)
  have hbucket : bucket (·.project) (shown projects issues) project.slug =
      bucket (·.project) issues project.slug := by
    rw [shown, Buckets.bucket_filter, List.filter_eq_self]
    intro issue hissue
    rw [(Buckets.mem_bucket.mp hissue).2]
    exact decide_eq_true (List.mem_map_of_mem hproject)
  rw [hbucket]

theorem covers_shown (hprojects : (projects.map (·.slug)).Nodup) :
    Covers (·.project) (projects.map (·.slug)) (shown projects issues) where
  nodup := hprojects
  mem := fun _ hissue => of_decide_eq_true (List.mem_filter.mp hissue).2

/-- What the parts count of their work they count together of the work that is shown. -/
theorem sum_parts (hprojects : (projects.map (·.slug)).Nodup)
    (hfolders : (folders.map (·.slug)).Nodup) (f : ProjectRollup → Int) (p : Issue → Bool)
    (hf : ∀ project list, f (projectRollup project list (statusesOf issues) now days staleDays) =
      (workOf list).countP p) :
    ((portfolio projects folders issues now days staleDays).parts.map f).sum =
      (workOf (shown projects issues)).countP p := by
  rw [((parts_perm hfolders).map f).sum_eq, ← rollups_shown issues]
  exact sum_rollups (covers_shown hprojects) f p hf

theorem sum_parts_total (hprojects : (projects.map (·.slug)).Nodup)
    (hfolders : (folders.map (·.slug)).Nodup) :
    ((portfolio projects folders issues now days staleDays).parts.map (·.progress.total)).sum =
      (workOf (shown projects issues)).length := by
  rw [sum_parts hprojects hfolders (·.progress.total) (fun _ => true)
    fun project list => by
      rw [List.countP_true]
      exact Progress.total_fromIssues _]
  rw [List.countP_true]

theorem workOf_shown : workOf (shown projects issues) =
    (workOf issues).filter fun issue => issue.project ∈ projects.map (·.slug) := by
  rw [workOf, workOf, shown, List.filter_filter, List.filter_filter]
  exact List.filter_congr fun issue _ => Bool.and_comm ..

/-- Whatever the issues are, the given projects are the parts, each once, and ready and stale work
is summed over them. -/
theorem parts_counted (hfolders : (folders.map (·.slug)).Nodup) :
    ((portfolio projects folders issues now days staleDays).parts.map (·.slug)).Perm
        (projects.map (·.slug)) ∧
      (portfolio projects folders issues now days staleDays).totals.ready =
        ((portfolio projects folders issues now days staleDays).parts.map (·.ready)).sum ∧
      (portfolio projects folders issues now days staleDays).totals.stale =
        ((portfolio projects folders issues now days staleDays).parts.map (·.stale)).sum := by
  have hparts := @parts_perm projects folders issues now days staleDays hfolders
  have hsum : ∀ f : ProjectRollup → Int,
      ((rollups projects issues issues now days staleDays).map f).sum =
        ((portfolio projects folders issues now days staleDays).parts.map f).sum :=
    fun f => (hparts.map f).sum_eq.symm
  have hslugs : ((rollups projects issues issues now days staleDays).map (·.slug)).Perm
      (projects.map (·.slug)) := by
    refine ((perm_sortOn _ _).map fun project : ProjectRollup => project.slug).trans ?_
    rw [List.map_map]
    exact List.Perm.refl _
  exact ⟨(hparts.map _).trans hslugs, hsum (·.ready), hsum (·.stale)⟩

/-- The parts sum up exactly when all work belongs to a project of the portfolio. -/
theorem sumsUp_iff (hprojects : (projects.map (·.slug)).Nodup)
    (hfolders : (folders.map (·.slug)).Nodup) :
    SumsUp (portfolio projects folders issues now days staleDays) projects ↔
      ∀ issue ∈ workOf issues, issue.project ∈ projects.map (·.slug) := by
  have htotals : (portfolio projects folders issues now days staleDays).totals.progress =
      .fromIssues (workOf issues) := rfl
  constructor
  · intro h issue hissue
    have htotal := h.total
    rw [sum_parts_total hprojects hfolders, htotals, Progress.total_fromIssues,
      workOf_shown] at htotal
    have hall := List.length_filter_eq_length_iff.mp (Int.ofNat.inj htotal).symm
    exact of_decide_eq_true (hall issue hissue)
  · intro h
    have hwork : workOf (shown projects issues) = workOf issues := by
      rw [workOf_shown, List.filter_eq_self]
      exact fun issue hissue => decide_eq_true (h issue hissue)
    obtain ⟨honce, hready, hstale⟩ := parts_counted hfolders
    refine ⟨honce, hready, hstale, ?_, ?_⟩
    · rw [sum_parts_total hprojects hfolders, hwork, htotals, Progress.total_fromIssues]
    · rw [sum_parts hprojects hfolders (·.progress.closed) (fun issue => issue.status = "closed")
        fun project list => Progress.closed_fromIssues _]
      rw [hwork, htotals, Progress.closed_fromIssues]

end Parts

/-! ### What the command is called with -/

/-- A restriction to a folder keeps the slugs different. -/
theorem keptProjects_slugs {projects : List ProjectInfo} (h : (projects.map (·.slug)).Nodup)
    (folder : Option String) : ((keptProjects folder projects).map (·.slug)).Nodup := by
  cases folder with
  | none => exact h
  | some folder => exact h.sublist (List.filter_sublist.map _)

/-- The totals of `mb portfolio` are the sums of its parts exactly when no issue but a goal belongs
to a project that is not shown. Progress is counted over all issues that were read, while the parts
go by the projects that were kept. -/
theorem portfolioCommand_sumsUp {projects : List ProjectInfo} {folders : List Folder}
    (hprojects : (projects.map (·.slug)).Nodup) (hfolders : (folders.map (·.slug)).Nodup)
    (folder : Option String) (issues : List Issue) (now days staleDays : Int) :
    SumsUp (portfolioCommand folder projects folders issues now days staleDays)
        (keptProjects folder projects) ↔
      ∀ issue ∈ issues, issue.issueType ≠ goalType →
        issue.project ∈ (keptProjects folder projects).map (·.slug) := by
  rw [portfolioCommand, sumsUp_iff (keptProjects_slugs hprojects folder) hfolders]
  simp only [workOf, List.mem_filter, decide_eq_true_eq, and_imp]

/-- All projects of the store are shown, and its issues belong to one of them. -/
theorem whole_portfolio_sumsUp :
    SumsUp (portfolioCommand none (projectsOf touched.state) (foldersOf touched.state)
      (issuesOf touched.state) 100 14 7) (projectsOf touched.state) := by
  refine (portfolioCommand_sumsUp ?_ ?_ none _ 100 14 7).mpr ?_
  · decide +kernel
  · decide +kernel
  · decide +kernel

/-- A folder in which nothing is filed has no parts, and the issues of the store in its totals. -/
theorem folder_portfolio_leaks :
    ¬ SumsUp (portfolioCommand (some "f") (projectsOf touched.state) (foldersOf touched.state)
      (issuesOf touched.state) 100 14 7) (keptProjects (some "f") (projectsOf touched.state)) ∧
    (portfolioCommand (some "f") (projectsOf touched.state) (foldersOf touched.state)
      (issuesOf touched.state) 100 14 7).totals.progress.total = 2 ∧
    ((portfolioCommand (some "f") (projectsOf touched.state) (foldersOf touched.state)
      (issuesOf touched.state) 100 14 7).parts.map (·.progress.total)).sum = 0 := by
  have htotal : (portfolioCommand (some "f") (projectsOf touched.state) (foldersOf touched.state)
      (issuesOf touched.state) 100 14 7).totals.progress.total = 2 := by
    show (Progress.fromIssues (workOf (issuesOf touched.state))).total = 2
    rw [Progress.total_fromIssues]
    decide +kernel
  have hsum : ((portfolioCommand (some "f") (projectsOf touched.state) (foldersOf touched.state)
      (issuesOf touched.state) 100 14 7).parts.map (·.progress.total)).sum = 0 := by
    rw [portfolioCommand, sum_parts_total]
    · decide +kernel
    · decide +kernel
    · decide +kernel
  refine ⟨fun h => ?_, htotal, hsum⟩
  have heq := h.total
  rw [htotal, hsum] at heq
  cases heq

/-! ### Over a store -/

/-- `mb portfolio` on a local store. -/
def mbPortfolio (folder : Option String) (days staleDays now : Int) : Db.DbM Portfolio := do
  let view ← Db.call .folderView
  let projects ← viewProjects
  let issues ← Db.call (.list none true none)
  pure (portfolioCommand folder projects view.folders issues now days staleDays)

/-- On a healthy lock the command shows what is in the store. -/
theorem mbPortfolio_eq (cfg : Db.Config) (folder : Option String) (days staleDays now : Int)
    (t : Db.Tables) :
    Db.runM cfg (mbPortfolio folder days staleDays now) (.new t) =
      (.ok (portfolioCommand folder (projectsOf t) (foldersOf t) (issuesOf t) now days staleDays),
        .new t) := rfl

theorem foldersOf_slugs (t : Db.Tables) : ((foldersOf t).map (·.slug)).Nodup := by
  have hslugs : (foldersOf t).map (·.slug) =
      (sortOn (fun r : String × Db.FolderRow =>
        toLex (r.2.name, r.1)) t.folder.rows).map (·.1) := by
    rw [foldersOf, Db.folderViewQuery, List.map_map]
    rfl
  rw [hslugs]
  exact ((perm_sortOn _ _).map _).nodup_iff.mpr t.folder.keys_nodup

/-- Over a store the whole portfolio always sums up, and that of a folder exactly when the store
has no work outside the folder. -/
theorem mbPortfolio_sumsUp {cfg : Db.Config} {s : Locked Db.Tables} (hs : Reachable cfg s)
    (folder : Option String) (days staleDays now : Int) :
    SumsUp (portfolioCommand folder (projectsOf s.state) (foldersOf s.state) (issuesOf s.state) now
        days staleDays) (keptProjects folder (projectsOf s.state)) ↔
      ∀ f, folder = some f → ∀ issue ∈ issuesOf s.state, issue.issueType ≠ goalType →
        issue.project ∈ folderProjects (projectsOf s.state) f := by
  have hpage := page_of_references hs.references
  rw [portfolioCommand, sumsUp_iff (keptProjects_slugs hpage.slugs folder) (foldersOf_slugs _)]
  simp only [workOf, List.mem_filter, decide_eq_true_eq, and_imp]
  cases folder with
  | none =>
      simp only [reduceCtorEq, false_implies, implies_true, iff_true]
      exact fun issue hissue _ => hpage.projects issue hissue
  | some folder =>
      simp only [Option.some.injEq, forall_eq']
      rfl

end Marbles.Report
