import Marbles.Db.Action
import Marbles.Db.Alone
import Marbles.Db.Rows
import Marbles.Report

/-!
# The hierarchy of goals

An issue may have a parent. The parent is looked at when the issue is created and never again:
that it stays there, in the same project, and that no issue is above itself, is because an issue
never changes its parent and a project only goes as a whole. The tree of a goal is printed without
a record of what was printed, and relies on it.

Three facts are kept together, since none of them is preserved alone: parents are there, parents
are of the same project, and the parent relation has no cycle. `RowStep.placed` says what a scope
may do to the parent of a row. A new row cannot close a cycle because nothing has it for a parent
yet; dropping a project cannot leave a parent behind because the children go with it. Printing is
then a walk over a forest, whose fuel the number of issues bounds.
-/

namespace Marbles

open Report

/-- A list of issues with their parents. -/
structure Hierarchy (issues : List Issue) : Prop where
  ids : (issues.map (·.id)).Nodup
  parents : ∀ issue ∈ issues, ∀ p, issue.parent = some p →
    ∃ parent ∈ issues, parent.id = p ∧ parent.project = issue.project
  acyclic : Graph.Acyclic fun child parent =>
    ∃ issue ∈ issues, issue.id = child ∧ issue.parent = some parent

/-- The tree of the root is printed: the recursion ends, and prints a line for each issue that
is the root or below it, and no second one. -/
structure Printed (issues : List Issue) (root : String) (nodes : List (Nat × Issue)) : Prop where
  lines : ∀ fuel, issues.length ≤ fuel →
    treeLines issues root fuel = some (nodes.map fun node => treeLine node.1 node.2)
  listed : ∀ node ∈ nodes, node.2 ∈ issues
  once : (nodes.map fun node => node.2.id).Nodup
  each : ∀ issue ∈ issues, issue.id ∈ nodes.map (fun node => node.2.id) ↔
    issue.id ∈ descendantIds issues root

namespace Hierarchy

variable {issues : List Issue}

@[simp] theorem mem_kids {parent : String} {issue : Issue} :
    issue ∈ kids issues parent ↔ issue ∈ issues ∧ issue.parent = some parent := by
  simp [kids]

/-- Everything below an issue of the list is in the list. -/
theorem below_mem {issue below : Issue} (hissue : issue ∈ issues)
    (h : Forest.Below (fun issue => kids issues issue.id) issue below) : below ∈ issues := by
  induction h with
  | refl => exact hissue
  | tail _ hkid => exact (mem_kids.mp hkid).1

theorem eq_of_id (h : Hierarchy issues) {issue issue' : Issue} (hissue : issue ∈ issues)
    (hissue' : issue' ∈ issues) (hid : issue.id = issue'.id) : issue = issue' :=
  List.inj_on_of_nodup_map h.ids hissue hissue' hid

theorem tree (h : Hierarchy issues) {issue : Issue} (hissue : issue ∈ issues) :
    Forest.Tree (fun issue => kids issues issue.id) issue where
  ends := by
    have hwf : WellFounded fun child parent => Graph.Edge (parentEdges issues) parent child := by
      refine Graph.Acyclic.wellFounded (h.acyclic.swap.mono fun parent child hedge => ?_)
      obtain ⟨issue, hissue, hedge⟩ := List.mem_filterMap.mp hedge
      obtain ⟨p, hp, hedge⟩ := Option.map_eq_some_iff.mp hedge
      obtain ⟨rfl, rfl⟩ := Prod.mk.inj hedge
      exact ⟨issue, hissue, rfl, hp⟩
    refine (Subrelation.wf (fun {kid parent} hkid => ?_)
      (InvImage.wf (fun issue : Issue => issue.id) hwf)).apply issue
    obtain ⟨hkid, hparent⟩ := mem_kids.mp hkid
    exact List.mem_filterMap.mpr ⟨kid, hkid, by simp [hparent]⟩
  nodup := fun parent _ => by
    rw [kids, Sorting.nodup_sortOn]
    exact (List.Nodup.of_map _ h.ids).filter _
  parent := fun parent parent' kid hparent hparent' hkid hkid' => by
    have heq := (mem_kids.mp hkid).2.symm.trans (mem_kids.mp hkid').2
    exact h.eq_of_id (below_mem hissue hparent) (below_mem hissue hparent') (Option.some.inj heq)

/-- What is below an issue are its descendants. -/
theorem below_iff {issue : Issue} {id : String} :
    (∃ below, Forest.Below (fun issue => kids issues issue.id) issue below ∧ below.id = id) ↔
      id ∈ descendantIds issues issue.id := by
  rw [mem_descendantIds]
  constructor
  · rintro ⟨below, hbelow, rfl⟩
    induction hbelow with
    | refl => exact .refl
    | tail _ hkid ih =>
        obtain ⟨hkid, hparent⟩ := mem_kids.mp hkid
        exact ih.tail ⟨_, hkid, hparent, rfl⟩
  · intro hpath
    induction hpath with
    | refl => exact ⟨issue, .refl, rfl⟩
    | tail _ hstep ih =>
        obtain ⟨parent, hparent, rfl⟩ := ih
        obtain ⟨kid, hkid, heq, rfl⟩ := hstep
        exact ⟨kid, hparent.tail (mem_kids.mpr ⟨hkid, heq⟩), rfl⟩

/-- Nothing is below an issue that is not in the list. -/
theorem not_descendant (h : Hierarchy issues) {root : String}
    (hroot : ∀ issue ∈ issues, issue.id ≠ root) {issue : Issue} (hissue : issue ∈ issues) :
    issue.id ∉ descendantIds issues root := by
  rw [mem_descendantIds]
  intro hpath
  rcases hpath.cases_head with heq | ⟨child, ⟨kid, hkid, hparent, -⟩, -⟩
  · exact hroot issue hissue heq.symm
  · obtain ⟨parent, hmem, hid, -⟩ := h.parents kid hkid root hparent
    exact hroot parent hmem hid

theorem printed (h : Hierarchy issues) (root : String) : ∃ nodes, Printed issues root nodes := by
  -- Without an issue of that id the tree is empty; otherwise the walk visits what is below the root
  -- once each.
  cases hfind : issues.find? fun issue => issue.id = root with
  | none =>
      have hroot : ∀ issue ∈ issues, issue.id ≠ root := by simpa using hfind
      refine ⟨[], fun fuel _ => by simp [treeLines, hfind], by simp, by simp,
        fun issue hissue => ?_⟩
      simpa using h.not_descendant hroot hissue
  | some issue =>
      have hissue := List.mem_of_find?_eq_some hfind
      obtain rfl : issue.id = root := by simpa using List.find?_some hfind
      obtain ⟨nodes, hnodes⟩ := (h.tree hissue).visited
      have hlisted : ∀ below ∈ nodes.map Prod.snd, below ∈ issues := fun below hbelow =>
        below_mem hissue ((hnodes.mem below).mp hbelow)
      have hlength : nodes.length ≤ issues.length := by
        have hle := (hnodes.nodup.subperm hlisted).length_le
        rwa [List.length_map] at hle
      refine ⟨nodes, fun fuel hfuel => ?_, fun node hnode => ?_, ?_, fun below hbelow => ?_⟩
      · rw [treeLines, hfind]
        have hwalk := hnodes.walk treeLine fuel 0 [] (hlength.trans hfuel)
        simpa using hwalk
      · exact hlisted _ (List.mem_map_of_mem hnode)
      · have hids := hnodes.nodup.map_on fun below hbelow below' hbelow' heq =>
          h.eq_of_id (hlisted below hbelow) (hlisted below' hbelow') heq
        rwa [List.map_map] at hids
      · rw [← below_iff, List.mem_map]
        constructor
        · rintro ⟨node, hnode, hid⟩
          exact ⟨node.2, (hnodes.mem node.2).mp (List.mem_map_of_mem hnode), hid⟩
        · rintro ⟨found, hfound, hid⟩
          obtain ⟨node, hnode, rfl⟩ := List.mem_map.mp ((hnodes.mem found).mpr hfound)
          exact ⟨node, hnode, hid⟩

end Hierarchy

/-! ### The local store -/

namespace Db

/-- `child` has the parent `parent`. -/
def ChildOf (t : Tables) (child parent : String) : Prop :=
  ∃ row, t.issue.find child = some row ∧ row.parent = some parent

/-- Every parent is there, in the project of its child, and no issue is above itself. -/
structure Rooted (t : Tables) : Prop where
  parents : ∀ id row, t.issue.find id = some row → ∀ p, row.parent = some p →
    ∃ prow, t.issue.find p = some prow ∧ prow.project = row.project
  acyclic : Graph.Acyclic (ChildOf t)

/-- A row keeps its parent and its project, or is new, and its parent is there. -/
theorem RowStep.placed {cfg : Config} {t : Tables} {s : Scope} {id : String} {row' : IssueRow}
    (h : RowStep cfg t id s row') :
    (∃ row, t.issue.find id = some row ∧ row'.parent = row.parent ∧ row'.project = row.project) ∨
      t.issue.find id = none ∧ ∀ p, row'.parent = some p →
        ∃ prow, t.issue.find p = some prow ∧ prow.project = row'.project := by
  cases h with
  | kept hrow | setLabels hrow | addDep hrow | addRemoteDep hrow | touch hrow | claim _ hrow
  | release hrow | sweep hrow | closeUnchecked hrow => exact Or.inl ⟨_, hrow, rfl, rfl⟩
  | create hrow _ hparent => exact Or.inr ⟨hrow, hparent⟩
  | @update patch _ _ row next _ hrow hnext =>
      refine Or.inl ⟨row, hrow, ?_, rfl⟩
      obtain ⟨metadata, reference, rfl, -⟩ := patch.apply_ok hnext
      unfold IssueRow.write IssuePatch.setStatus
      cases patch.status with
      | none => rfl
      | some status => rfl

/-- Of a project that is dropped no issue is left. -/
theorem Effect.dropped {cfg : Config} {t t' : Tables} {slug : String}
    (he : Effect cfg t (.dropProject slug) t') :
    t'.issue = t.issue ∨ ∀ id row, t'.issue.find id = some row → row.project ≠ slug := by
  cases he with
  | idle hissue => exact Or.inl hissue
  | dropProject hissue =>
      refine Or.inr fun id row hrow => ?_
      rw [hissue, Table.find_filter, Option.filter_eq_some_iff] at hrow
      simpa using hrow.2

/-- The parent of a row stays as long as the row, and in its project. -/
theorem Effect.parent_stays {cfg : Config} {t t' : Tables} {s : Scope} {id p : String}
    {row' prow : IssueRow} (he : Effect cfg t s t') (hrow' : t'.issue.find id = some row')
    (hprow : t.issue.find p = some prow) (hproject : prow.project = row'.project) :
    ∃ prow', t'.issue.find p = some prow' ∧ prow'.project = row'.project := by
  have hstays : ∃ prow', t'.issue.find p = some prow' := by
    by_cases hdrop : s = .dropProject prow.project
    · subst hdrop
      rcases he.dropped with hsame | hgone
      · exact ⟨prow, hsame ▸ hprow⟩
      · exact absurd hproject.symm (hgone id row' hrow')
    · exact he.stays hprow hdrop
  obtain ⟨prow', hprow'⟩ := hstays
  refine ⟨prow', hprow', ?_⟩
  rcases (he.row hprow').placed with ⟨old, hold, -, hsame⟩ | ⟨hnone, -⟩
  · obtain rfl := Option.some.inj (hprow.symm.trans hold)
    exact hsame.trans hproject
  · rw [hprow] at hnone
    cases hnone

theorem Rooted.effect {cfg : Config} {t t' : Tables} {s : Scope} (h : Rooted t)
    (he : Effect cfg t s t') : Rooted t' := by
  refine ⟨fun id row' hrow' p hp => ?_, ?_⟩
  · have hparent : ∃ prow, t.issue.find p = some prow ∧ prow.project = row'.project := by
      rcases (he.row hrow').placed with ⟨row, hrow, hsame, hproject⟩ | ⟨-, hnew⟩
      · rw [hproject]
        exact h.parents id row hrow p (hsame ▸ hp)
      · exact hnew p hp
    obtain ⟨prow, hprow, hproject⟩ := hparent
    exact he.parent_stays hrow' hprow hproject
  · -- the edges that are new start at issues that are new
    let added : String → String → Prop := fun child parent =>
      t.issue.find child = none ∧ ∃ prow, t.issue.find parent = some prow
    have hadded : ∀ a b, Relation.TransGen added a b → t.issue.find a = none ∧
        ∃ prow, t.issue.find b = some prow := by
      intro a b hab
      induction hab with
      | single hab => exact hab
      | tail _ hbc ih => exact ⟨ih.1, hbc.2⟩
    have hacyclic : Graph.Acyclic added := by
      intro a ha
      obtain ⟨hnone, prow, hprow⟩ := hadded a a ha
      rw [hnone] at hprow
      cases hprow
    refine (Graph.Acyclic.union (p := fun a => ∃ row, t.issue.find a = some row) h.acyclic
      hacyclic ?_ ?_).mono ?_
    · intro a b ⟨row, hrow, hp⟩
      obtain ⟨prow, hprow, -⟩ := h.parents a row hrow b hp
      exact ⟨⟨row, hrow⟩, prow, hprow⟩
    · intro a b hab ⟨row, hrow⟩
      rw [hab.1] at hrow
      cases hrow
    · intro a b ⟨row', hrow', hp⟩
      rcases (he.row hrow').placed with ⟨row, hrow, hsame, -⟩ | ⟨hnone, hparent⟩
      · exact Or.inl ⟨row, hrow, hsame ▸ hp⟩
      · obtain ⟨prow, hprow, -⟩ := hparent b hp
        exact Or.inr ⟨hnone, prow, hprow⟩

theorem Reachable.rooted {cfg : Config} {s : Locked Tables} (h : Reachable cfg s) :
    Rooted s.state := by
  have hnone : ∀ storeId id row, (Tables.empty storeId).issue.find id ≠ some row := by
    intro storeId id row hrow
    simp [Tables.empty] at hrow
  refine h.invariant (fun storeId => ⟨fun id row hrow => absurd hrow (hnone _ _ _), fun a ha => ?_⟩)
    fun t c t' hr he => hr.effect he
  obtain ⟨row, hrow, -⟩ := (Relation.TransGen.head'_iff.mp ha).choose_spec.1
  exact hnone _ _ _ hrow

theorem mem_listQuery_project {t : Tables} {project : Option String} {issue : Issue} :
    issue ∈ listQuery project true none t ↔ ∃ id row, t.issue.find id = some row ∧
      matchesScope project row.project = true ∧ t.view id row = issue := by
  simp [listQuery, mem_select, matchesScope, and_assoc]

/-- The issues of a project, closed ones included, are listed with their parents. -/
theorem Rooted.hierarchy {t : Tables} (h : Rooted t) (project : Option String) :
    Hierarchy (listQuery project true none t) where
  ids := by
    rw [listQuery, List.map_map]
    exact nodup_select ..
  parents := fun issue hissue p hp => by
    obtain ⟨id, row, hrow, hproject, rfl⟩ := mem_listQuery_project.mp hissue
    obtain ⟨prow, hprow, hsame⟩ := h.parents id row hrow p hp
    exact ⟨t.view p prow, mem_listQuery_project.mpr ⟨p, prow, hprow, hsame ▸ hproject, rfl⟩, rfl,
      hsame⟩
  acyclic := by
    refine h.acyclic.mono fun child parent hedge => ?_
    obtain ⟨issue, hissue, rfl, hp⟩ := hedge
    obtain ⟨id, row, hrow, -, rfl⟩ := mem_listQuery_project.mp hissue
    exact ⟨row, hrow, hp⟩

end Db

/-- In every reachable store the parent of an issue is there, in the same project, and no issue is
above itself. The issues of a project therefore make a hierarchy, and of every hierarchy the tree of
any root is printed, an issue a line. The printer keeps no record of where it was, so it relies on
all three. -/
theorem hierarchy_printed {cfg : Db.Config} {s : Locked Db.Tables} (h : Db.Reachable cfg s) :
    (∀ id issue, s.state.rowToIssue id = some issue → ∀ p, issue.parent = some p →
      ∃ parent, s.state.rowToIssue p = some parent ∧ parent.project = issue.project) ∧
    (Graph.Acyclic fun child parent =>
      ∃ issue, s.state.rowToIssue child = some issue ∧ issue.parent = some parent) ∧
    (∀ project, Hierarchy (Db.listQuery project true none s.state)) ∧
    ∀ issues, Hierarchy issues → ∀ root, ∃ nodes, Printed issues root nodes := by
  have hrooted := h.rooted
  refine ⟨fun id issue hissue p hp => ?_, hrooted.acyclic.mono fun child parent hedge => ?_,
    hrooted.hierarchy, fun _ h root => h.printed root⟩
  · obtain ⟨row, hrow, rfl⟩ := Db.rowToIssue_eq_some.mp hissue
    obtain ⟨prow, hprow, hproject⟩ := hrooted.parents id row hrow p hp
    exact ⟨_, Db.rowToIssue_eq_some.mpr ⟨prow, hprow, rfl⟩, hproject⟩
  · obtain ⟨issue, hissue, hp⟩ := hedge
    obtain ⟨row, hrow, rfl⟩ := Db.rowToIssue_eq_some.mp hissue
    exact ⟨row, hrow, hp⟩

/-- A project with a goal and a task below it. -/
def plantedGoal : List Op := [.ensureProject "p" "/p" "p" 0,
  .create { title := "goal", issueType := "goal", id := some "g", project := some "p" } [] 0,
  .create { title := "task", parent := some "g", id := some "x", project := some "p" } [] 0]

/-- The project is dropped, and all of it created again. -/
def replantedGoal : List Db.Action := (plantedGoal ++ .dropProject "p" :: plantedGoal).map .op

theorem hierarchy_printed_goal :
    let s := Db.Action.run {} replantedGoal (Db.opened "s")
    let issues := Db.listQuery (some "p") true none s.state
    issues.length = 2 ∧ Hierarchy issues ∧ (∃ nodes, Printed issues "g" nodes) ∧
      Report.treeLines issues "g" 2 =
        some ["g [open] goal (goal, p2)", "  x [open] task (task, p2)"] := by
  intro s issues
  have hreachable : Db.Reachable {} s := ⟨"s", replantedGoal, rfl⟩
  have hhierarchy := (hierarchy_printed hreachable).2.2.1 (some "p")
  exact ⟨by decide, hhierarchy, (hierarchy_printed hreachable).2.2.2 _ hhierarchy "g", by decide⟩

end Marbles
