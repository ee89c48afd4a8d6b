import Marbles.Importing.Runs

/-!
# The edges of a list import

The list importer adds the edges of a row as soon as it has created the row, while the rows
after it are not there yet. An edge to a row further down therefore counts as missing and
is never added: the importer keeps the graph of the export exactly when the rows come in
an order in which every row is listed after the rows it depends on.

What the edges come to is said by three definitions over the rows in file order, without the
store: which edges are added, which are missed, and which ids are known by then. The store is
brought in once, row by row, and the condition on the order is then a fact about lists.
-/

namespace Marbles.Import

open Db Importing

/-- The issues a row depends on. -/
def targets (row : Issue) : List String := row.dependencies.filterMap Dependency.dependsOnId

/-- The ids an export speaks of. -/
def ids (rows : List Issue) : List String := rows.map Issue.id

/-- The edges of an export. -/
def edges (rows : List Issue) : List (String × String) :=
  rows.flatMap fun row => (targets row).map fun target => (row.id, target)

/-- The edges to issues that are neither in the export nor in a store with these ids. -/
def dangling (stored : List String) (rows : List Issue) : List (String × String) :=
  (edges rows).filter fun e => e.2 ∉ ids rows ∧ e.2 ∉ stored

/-- A row that another row depends on is listed before it. -/
def BlockersFirst (rows : List Issue) : Prop :=
  ∀ before row after, rows = before ++ row :: after →
    ∀ target ∈ targets row, target ∈ ids rows → target ∈ ids before

/-! ### What the importer makes of the edges

The three definitions follow the rows in file order; `known` are the ids that are stored
when the first of them is created. -/

/-- Every row has a new id, and none depends on itself. -/
def Fresh : List String → List Issue → Prop
  | _, [] => True
  | known, row :: rows => row.id ∉ known ∧ row.id ∉ targets row ∧ Fresh (known ++ [row.id]) rows

/-- The edges that are added. -/
def Linked : List String → List Issue → String → String → Prop
  | _, [], _, _ => False
  | known, row :: rows, a, b =>
      (a = row.id ∧ b ∈ targets row ∧ b ∈ known ++ [row.id]) ∨ Linked (known ++ [row.id]) rows a b

/-- How many edges are counted as missing. -/
def missed : List String → List Issue → Nat
  | _, [] => 0
  | known, row :: rows =>
      ((targets row).filter (· ∉ known ++ [row.id])).length + missed (known ++ [row.id]) rows

/-! ### One row -/

variable {cfg : Config} {t : Tables}

/-- What has become of the edges to `seen` from a row that is stored in `t`. -/
structure Linking (t : Tables) (id : String) (seen : List String) (missing : Int) (report : Report)
    (u : Tables) : Prop where
  keys : u.issue.keys = t.issue.keys
  edges : ∀ a b, u.DependsOn a b ↔ t.DependsOn a b ∨ (a = id ∧ b ∈ seen ∧ b ∈ t.issue.keys)
  missing : report.missingDeps = missing + ((seen.filter (· ∉ t.issue.keys)).length : Nat)
  irreflexive : id ∉ seen

theorem Linking.add {id target : String} {seen : List String} {missing : Int}
    {report : Report} {u u' : Tables} (h : Linking t id seen missing report u) (hne : id ≠ target)
    (htarget : target ∈ t.issue.keys) (hkeys : u'.issue.keys = u.issue.keys)
    (hdep : u'.dep = u.dep.insert (id, target) ()) :
    Linking t id (seen ++ [target]) missing { report with deps := report.deps + 1 } u' := by
  refine ⟨hkeys.trans h.keys, fun a b => ?_, ?_, ?_⟩
  · rw [Tables.DependsOn, hdep, Table.mem_keys_insert, Prod.mk.injEq]
    change _ ∨ u.DependsOn a b ↔ _
    rw [h.edges, List.mem_append, List.mem_singleton]
    constructor
    · rintro (⟨rfl, rfl⟩ | hold | ⟨ha, hb, hstored⟩)
      · exact Or.inr ⟨rfl, Or.inr rfl, htarget⟩
      · exact Or.inl hold
      · exact Or.inr ⟨ha, Or.inl hb, hstored⟩
    · rintro (hold | ⟨rfl, hb | rfl, hstored⟩)
      · exact Or.inr (Or.inl hold)
      · exact Or.inr (Or.inr ⟨rfl, hb, hstored⟩)
      · exact Or.inl ⟨rfl, rfl⟩
  · rw [h.missing, List.filter_append, List.filter_singleton]
    simp [htarget]
  · rw [List.mem_append, List.mem_singleton]
    exact not_or.mpr ⟨h.irreflexive, hne⟩

theorem Linking.skip {id target : String} {seen : List String} {missing : Int}
    {report : Report} {u : Tables} (h : Linking t id seen missing report u) (hne : id ≠ target)
    (htarget : target ∉ t.issue.keys) :
    Linking t id (seen ++ [target]) missing { report with missingDeps := report.missingDeps + 1 }
    u := by
  refine ⟨h.keys, fun a b => ?_, ?_, ?_⟩
  · rw [h.edges, List.mem_append, List.mem_singleton]
    constructor
    · rintro (hold | ⟨ha, hb, hstored⟩)
      · exact Or.inl hold
      · exact Or.inr ⟨ha, Or.inl hb, hstored⟩
    · rintro (hold | ⟨ha, hb | rfl, hstored⟩)
      · exact Or.inl hold
      · exact Or.inr ⟨ha, hb, hstored⟩
      · exact absurd hstored htarget
  · change report.missingDeps + 1 = _
    rw [h.missing, List.filter_append, List.filter_singleton]
    simp [htarget]
    omega
  · rw [List.mem_append, List.mem_singleton]
    exact not_or.mpr ⟨h.irreflexive, hne⟩

/-- One edge of a row. -/
theorem runs_importDep {id : String} {createdAt : Int} {report : Report} {dep : Dependency}
    {seen : List String} {missing : Int} {u : Tables} (hid : id ∈ t.issue.keys)
    (h : Linking t id seen missing report u) :
    Runs (Scope.exec cfg) (fun _ => True)
      (Linking t id (seen ++ dep.dependsOnId.toList) missing) (fun _ _ => True)
      (importDep id createdAt report dep) u := by
  unfold importDep
  cases dep.dependsOnId with
  | none =>
      rw [Option.toList_none, List.append_nil]
      exact .pure trivial h
  | some target =>
      refine runs_attempt (runs_addDep trivial (h.keys ▸ hid) (fun hne htarget _ u' hi hd _ => ?_)
        (fun hne htarget => ?_) fun _ => ?_)
      · refine ⟨trivial, .pure trivial (h.add hne (h.keys ▸ htarget) ?_ hd)⟩
        rw [hi, Table.keys_modify]
      · exact .pure trivial (h.skip hne (h.keys ▸ htarget))
      · exact .fail trivial trivial

/-- What importing one row has done. -/
structure Imported (t : Tables) (row : Issue) (missing : Int) (report : Report) (u : Tables) :
    Prop where
  fresh : row.id ∉ t.issue.keys
  irreflexive : row.id ∉ targets row
  keys : u.issue.keys = t.issue.keys ++ [row.id]
  edges : ∀ a b, u.DependsOn a b ↔
    t.DependsOn a b ∨ (a = row.id ∧ b ∈ targets row ∧ b ∈ t.issue.keys ++ [row.id])
  missing : report.missingDeps =
    missing + (((targets row).filter (· ∉ t.issue.keys ++ [row.id])).length : Nat)

theorem runs_importRow (project : String) (clock : ClockRead → Int) (report : Report)
    (row : Issue) (index : Nat) :
    Runs (Scope.exec cfg) (fun _ => True) (Imported t row report.missingDeps) (fun _ _ => True)
      (importRow cfg project clock report (row, index)) t := by
  unfold importRow
  -- the row is created,
  refine Runs.bind (q := fun _ u => row.id ∉ t.issue.keys ∧
      u.issue.keys = t.issue.keys ++ [row.id] ∧ u.dep = t.dep)
    (runs_orElseFail (runs_create rfl rfl rfl
      trivial (fun hc available u hi hd _ => ⟨trivial, ?_, ?_, hd⟩) fun _ _ => trivial))
    ?_
  · exact Table.find_eq_none.mp hc.fresh
  · rw [hi, Table.keys, Table.rows_insert_new hc.fresh, List.map_append]
    rfl
  rintro _ u - ⟨hfresh, hkeys, hdep⟩
  refine Runs.bind (q := fun _ u' => u' = u) (.ite (fun _ => .fail trivial trivial) fun _ =>
    .pure trivial rfl) ?_
  rintro _ u - rfl
  -- then its edges,
  refine Runs.bind (q := Linking u row.id (targets row) report.missingDeps) ?_ ?_
  · refine Runs.imp (Runs.foldlM (q := fun deps =>
      Linking u row.id (deps.filterMap Dependency.dependsOnId) report.missingDeps) trivial
      ⟨rfl, fun a b => ?_, by simp, List.not_mem_nil⟩ ?_) fun _ _ _ h => h
    · simp
    · intro pre dep post report' u' _ _ h
      have hid : row.id ∈ u.issue.keys := by
        rw [hkeys]
        exact List.mem_append_right _ (List.mem_singleton_self _)
      have hdep := @runs_importDep cfg u row.id (if row.createdAt > 0 then row.createdAt
        else clock (.createdAt index)) report' dep _ _ u' hid h
      rw [List.filterMap_append]
      exact hdep
  -- and its status, which does not touch the graph
  intro report' v _ hlinked
  have hdone : ∀ (report'' : Report) (v' : Tables), report''.missingDeps = report'.missingDeps →
      v'.issue.keys = v.issue.keys → v'.dep = v.dep → Imported t row report.missingDeps report''
          v' := by
    intro report'' v' hreport hvkeys hvdep
    refine ⟨hfresh, hlinked.irreflexive, ?_, fun a b => ?_, ?_⟩
    · rw [hvkeys, hlinked.keys, hkeys]
    · rw [Tables.DependsOn, hvdep, ← Tables.DependsOn, hlinked.edges, hkeys]
      rw [Tables.DependsOn, hdep, ← Tables.DependsOn]
    · rw [hreport, hlinked.missing, hkeys]
  refine Runs.bind (q := fun report'' v' => report''.missingDeps = report'.missingDeps ∧
      v'.issue.keys = v.issue.keys ∧ v'.dep = v.dep) ?_ fun report'' v' _ h =>
    .pure trivial (hdone _ v' h.1 h.2.1 h.2.2)
  refine .ite (fun _ => .pure trivial ⟨rfl, rfl, rfl⟩) fun _ => ?_
  refine Runs.bind (runs_orElseFail
      (runs_restate trivial (fun st closedAt available _ _ v' hi hd _ =>
    ⟨trivial, fun _ => ?_⟩) fun _ _ => trivial)) fun _ v' _ h => .pure trivial ⟨rfl, h⟩
  exact ⟨by rw [hi, Table.keys_modify], hd⟩

/-! ### All rows -/

theorem runs_rows (project : String) (clock : ClockRead → Int) (rows : List Issue) (index : Nat)
    (report : Report) (t : Tables) :
    Runs (Scope.exec cfg) (fun _ => True)
      (fun report' u => Fresh t.issue.keys rows ∧
        (∀ a b, u.DependsOn a b ↔ t.DependsOn a b ∨ Linked t.issue.keys rows a b) ∧
        report'.missingDeps = report.missingDeps + (missed t.issue.keys rows : Nat))
      (fun _ _ => True) ((rows.zipIdx index).foldlM (importRow cfg project clock) report) t := by
  induction rows generalizing index report t with
  | nil => exact .pure trivial ⟨trivial, fun a b => by simp [Linked], by simp [missed]⟩
  | cons row rows ih =>
      rw [List.zipIdx_cons, List.foldlM_cons]
      refine (runs_importRow project clock report row index).bind fun report' u _ h => ?_
      refine (ih (index + 1) report' u).imp fun report'' v _ ⟨hfresh, hedges, hmissing⟩ => ?_
      rw [h.keys] at hfresh hedges hmissing
      refine ⟨⟨h.fresh, h.irreflexive, hfresh⟩, fun a b => ?_, ?_⟩
      · rw [hedges, h.edges, Linked, or_assoc]
      · rw [hmissing, h.missing, missed]
        push_cast
        omega

theorem Fresh.nodup {known : List String} {rows : List Issue} (h : Fresh known rows)
    (hknown : known.Nodup) : (known ++ ids rows).Nodup := by
  induction rows generalizing known with
  | nil => simpa [ids] using hknown
  | cons row rows ih =>
      have htail := ih h.2.2 (List.nodup_append_comm.mp (List.nodup_cons.mpr ⟨h.1, hknown⟩))
      rwa [List.append_assoc] at htail

theorem Fresh.irreflexive {known : List String} {rows : List Issue} (h : Fresh known rows) :
    ∀ row ∈ rows, row.id ∉ targets row := by
  induction rows generalizing known with
  | nil => exact fun _ h => absurd h List.not_mem_nil
  | cons row rows ih =>
      intro r hr
      rcases List.mem_cons.mp hr with rfl | hr
      · exact h.2.1
      · exact ih h.2.2 r hr

/-- The edges added are those to an issue stored before, or to a row listed before. -/
theorem linked_iff {known : List String} {rows : List Issue} {a b : String} :
    Linked known rows a b ↔ ∃ before row after, rows = before ++ row :: after ∧ a = row.id ∧
      b ∈ targets row ∧ b ∈ known ++ ids before ++ [row.id] := by
  induction rows generalizing known with
  | nil =>
      constructor
      · exact False.elim
      · rintro ⟨before, row, after, hrows, -⟩
        exact absurd hrows.symm (by simp)
  | cons row rows ih =>
      rw [Linked, ih]
      constructor
      · rintro (⟨rfl, hb, hknown⟩ | ⟨before, row', after, rfl, ha, hb, hknown⟩)
        · exact ⟨[], row, rows, rfl, rfl, hb, by simpa [ids] using hknown⟩
        · exact ⟨row :: before, row', after, rfl, ha, hb, by simpa [ids] using hknown⟩
      · rintro ⟨before, row', after, hrows, ha, hb, hknown⟩
        cases before with
        | nil =>
            obtain ⟨rfl, rfl⟩ := List.cons.inj hrows
            exact Or.inl ⟨ha, hb, by simpa [ids] using hknown⟩
        | cons head before =>
            obtain ⟨rfl, rfl⟩ := List.cons.inj hrows
            exact Or.inr ⟨before, row', after, rfl, ha, hb, by simpa [ids] using hknown⟩

/-- Where the blockers come first, the edges counted as missing are the dangling ones. -/
theorem missed_eq {stored : List String} {rows : List Issue} (h : BlockersFirst rows)
    (hirreflexive : ∀ row ∈ rows, row.id ∉ targets row) :
    missed stored rows = (dangling stored rows).length := by
  -- Strengthened to any initial piece of the rows as what is stored already.
  suffices hafter : ∀ after before, rows = before ++ after →
      missed (stored ++ ids before) after =
        ((edges after).filter fun e => e.2 ∉ ids rows ∧ e.2 ∉ stored).length by
    have hall := hafter rows [] rfl
    rwa [ids, List.map_nil, List.append_nil] at hall
  intro after
  induction after with
  | nil => exact fun before _ => rfl
  | cons row after ih =>
      intro before hrows
      have htail := ih (before ++ [row]) (by rw [hrows, List.append_assoc, List.singleton_append])
      have hids : stored ++ ids before ++ [row.id] = stored ++ ids (before ++ [row]) := by
        simp [ids]
      have hhead : (targets row).filter (· ∉ stored ++ ids before ++ [row.id]) =
          (targets row).filter fun b => b ∉ ids rows ∧ b ∉ stored := by
        refine List.filter_congr fun b hb => decide_eq_decide.mpr ?_
        have hself : b ≠ row.id := by
          rintro rfl
          exact hirreflexive row (hrows ▸ List.mem_append_right _ (List.mem_cons_self ..)) hb
        have hbefore : b ∈ ids rows ↔ b ∈ ids before := by
          refine ⟨h before row after hrows b hb, fun hmem => ?_⟩
          rw [hrows, ids, List.map_append]
          exact List.mem_append_left _ hmem
        rw [hbefore, List.mem_append, List.mem_append, List.mem_singleton]
        tauto
      rw [missed, hids, htail, ← hids, hhead]
      simp only [edges, List.flatMap_cons, List.filter_append, List.length_append, List.filter_map,
        List.length_map]
      rfl

/-- The rows that share an id are one row. -/
theorem ids_before_eq {rows before before' after after' : List Issue} {row row' : Issue}
    (hnodup : (ids rows).Nodup) (hrows : rows = before ++ row :: after)
    (hrows' : rows = before' ++ row' :: after') (hid : row.id = row'.id) :
    ids before = ids before' := by
  have hids : ids before ++ row.id :: ids after = ids before' ++ row'.id :: ids after' := by
    have h := congrArg ids (hrows.symm.trans hrows')
    simpa [ids] using h
  have hfree : row'.id ∉ ids before ∧ row'.id ∉ ids after := by
    rw [hrows, ids, List.map_append, List.map_cons, hid] at hnodup
    obtain ⟨-, htail, hdisjoint⟩ := List.nodup_append.mp hnodup
    exact ⟨fun hmem => hdisjoint _ hmem _ (List.mem_cons_self ..) rfl, (List.nodup_cons.mp htail).1⟩
  exact ((List.append_cons_inj_of_notMem hfree.1 hfree.2).mp hids).1

@[simp] theorem mem_edges {rows : List Issue} {e : String × String} :
    e ∈ edges rows ↔ ∃ row ∈ rows, row.id = e.1 ∧ e.2 ∈ targets row := by
  simp only [edges, List.mem_flatMap, List.mem_map]
  constructor
  · rintro ⟨row, hrow, target, htarget, rfl⟩
    exact ⟨row, hrow, rfl, htarget⟩
  · rintro ⟨row, hrow, hid, htarget⟩
    exact ⟨row, hrow, e.2, htarget, Prod.ext hid rfl⟩

/-- On a poisoned lock only an empty export is imported. -/
theorem import_poisoned {project : String} {clock : ClockRead → Int} {rows : List Issue}
    {s s' : Locked Tables} {report : Report} (hs : s.poisoned = true)
    (h : Prog.runE (Scope.exec cfg) («import» cfg project clock rows) s = (.ok report, s')) :
    rows = [] := by
  cases rows with
  | nil => rfl
  | cons row rows =>
      have hcreate : Prog.runE (Scope.exec cfg) (importRow cfg project clock {} (row, 0)) s =
          (.error .abort, s) := by
        refine Prog.runE_bind_error (Prog.runE_bind_error ?_)
        change Prog.run _ (Prog.call _ _) s = _
        rw [Prog.run_call, exec_poisoned hs]
        rfl
      have himport := Prog.runE_bind_error (f := fun r => (rows.zipIdx 1).foldlM
        (importRow cfg project clock) r) hcreate
      exact absurd (himport.symm.trans h) nofun

/-- An import that returned has kept the graph of the export, and has counted as missing exactly the
edges that dangle, if and only if every blocker in the export is listed before the rows that wait on
it. An edge is added together with its row, and nobody comes back to the ones that were missing. -/
theorem keeps_graph_iff (project : String) (clock : ClockRead → Int) (rows : List Issue)
    {s s' : Locked Tables} {report : Report} (hs : Reachable cfg s)
    (h : Prog.runE (Scope.exec cfg) («import» cfg project clock rows) s = (.ok report, s')) :
    ((∀ e ∈ edges rows, e.2 ∈ ids rows → s'.state.DependsOn e.1 e.2) ∧
        report.missingDeps = (dangling s.state.issue.keys rows).length) ↔
      BlockersFirst rows := by
  cases hhealthy : s.poisoned with
  | true =>
      obtain rfl := import_poisoned hhealthy h
      cases h
      refine iff_of_true ⟨fun e he => absurd he List.not_mem_nil, rfl⟩ ?_
      exact fun before row after hrows => absurd hrows.symm (by simp)
  | false =>
      rw [Locked.eq_new hhealthy] at h
      obtain ⟨u, rfl, -, hfresh, hedges, hmissing⟩ :=
        (runs_rows project clock rows 0 {} s.state).returned h
      have hnodup := hfresh.nodup s.state.issue.keys_nodup
      have hnew : ∀ id ∈ ids rows, id ∉ s.state.issue.keys := fun id hid hold =>
        (List.nodup_append.mp hnodup).2.2 id hold id hid rfl
      constructor
      -- An edge that is stored was linked when its row came, hence its target was known by then: it
      -- came earlier, or it is the row itself.
      · rintro ⟨hstored, -⟩ before row after hrows target htarget htargets
        have hrow : row ∈ rows := hrows ▸ List.mem_append_right _ (List.mem_cons_self ..)
        have hadded := hstored (row.id, target) (mem_edges.mpr ⟨row, hrow, rfl, htarget⟩) htargets
        rcases (hedges row.id target).mp hadded with hold | hlinked
        · exact absurd (hs.wellFormed.endpoints hold).1 (hnew _ (List.mem_map_of_mem hrow))
        · obtain ⟨before', row', after', hrows', hid, htarget', hknown⟩ := linked_iff.mp hlinked
          have hrow' : row' ∈ rows := hrows' ▸ List.mem_append_right _ (List.mem_cons_self ..)
          rw [ids_before_eq (List.nodup_append.mp hnodup).2.1 hrows hrows' hid]
          rcases List.mem_append.mp hknown with hknown | hself
          · exact (List.mem_append.mp hknown).resolve_left (hnew target htargets)
          · rw [List.mem_singleton] at hself
            exact absurd (hself ▸ htarget') (hfresh.irreflexive row' hrow')
      -- Conversely every target is known when its row comes, so the edge is linked and none is
      -- counted as missing.
      · intro hfirst
        refine ⟨fun e he htarget => ?_, ?_⟩
        · obtain ⟨row, hrow, hid, htargets⟩ := mem_edges.mp he
          obtain ⟨before, after, hrows⟩ := List.append_of_mem hrow
          refine (hedges e.1 e.2).mpr (Or.inr (linked_iff.mpr ⟨before, row, after, hrows, hid.symm,
            htargets, ?_⟩))
          refine List.mem_append_left _ (List.mem_append_right _ ?_)
          exact hfirst before row after hrows e.2 htargets htarget
        · rw [hmissing, missed_eq hfirst hfresh.irreflexive]
          exact zero_add _

/-! ### Two rows, in either order -/

/-- An open row with these blockers. -/
def exported (id : String) (blockers : List String) : Issue where
  id := id
  title := id
  description := ""
  status := "open"
  priority := 2
  issueType := "task"
  labels := []
  metadata := .obj []
  externalRef := none
  dependencyCount := 0
  dependentCount := 0
  dependencies := blockers.map fun blocker => ⟨some blocker⟩
  evidence := []
  parent := none
  assignee := none
  actorKind := none
  expiresAt := none
  availableAt := none
  closedAt := none
  createdAt := 1700000000
  updatedAt := 1700000000
  project := "demo"

/-- A store with one project. -/
def demo : List Action := [.op (.ensureProject "demo" "/tmp/demo" "demo" 0)]

/-- Each issue after what it depends on. -/
def blockerFirst : List Issue := [exported "demo-one" [], exported "demo-two" ["demo-one"]]

/-- The same rows the other way round. -/
def blockerLast : List Issue := [exported "demo-two" ["demo-one"], exported "demo-one" []]

/-- A sound export with the blocker listed last: the import returns, without the edge. -/
theorem blocker_listed_last :
    Reachable {} (Action.run {} demo (opened "s")) ∧ (ids blockerLast).Nodup ∧
      (∀ id ∈ ids blockerLast, id ∉ (Action.run {} demo (opened "s")).state.issue.keys) ∧
      (∀ row ∈ blockerLast, row.parent = none) ∧
      Graph.Acyclic (fun a b => (a, b) ∈ edges blockerLast) ∧
      edges blockerLast = [("demo-two", "demo-one")] ∧ "demo-one" ∈ ids blockerLast ∧
      (Prog.runE (Scope.exec {}) («import» {} "demo" (fun _ => 0) blockerLast)
        (Action.run {} demo (opened "s"))).1 = .ok ⟨2, 0, 0, 1⟩ ∧
      ¬ (Prog.runE (Scope.exec {}) («import» {} "demo" (fun _ => 0) blockerLast)
        (Action.run {} demo (opened "s"))).2.state.DependsOn "demo-two" "demo-one" ∧
      dangling (Action.run {} demo (opened "s")).state.issue.keys blockerLast = [] := by
  refine ⟨⟨"s", demo, rfl⟩, by decide, by decide, by decide, ?_, by decide, by decide, by decide,
    by decide, by decide⟩
  have hnone : Graph.Acyclic fun _ _ : String => False := fun a ha => by
    cases ha with
    | single h => exact h
    | tail _ h => exact h
  refine (@Graph.Acyclic.insert _ _ "demo-two" "demo-one" hnone fun hpath => ?_).mono
    fun a b hab => ?_
  · rcases Relation.reflTransGen_iff_eq_or_transGen.mp hpath with h | h
    · exact absurd h (by decide)
    · cases h with
      | single h => exact h
      | tail _ h => exact h
  · have hedges : edges blockerLast = [("demo-two", "demo-one")] := by decide
    rw [hedges, List.mem_singleton] at hab
    exact Or.inr (Prod.mk.inj hab)

theorem blocker_listed_first : BlockersFirst blockerFirst :=
  (@keeps_graph_iff {} "demo" (fun _ => 0) blockerFirst _ _ _ ⟨"s", demo, rfl⟩
    (Prod.ext (by decide) rfl :
      Prog.runE (Scope.exec {}) («import» {} "demo" (fun _ => 0) blockerFirst)
        (Action.run {} demo (opened "s")) = (.ok ⟨2, 1, 0, 0⟩, _))).mp ⟨by decide, by decide⟩

end Marbles.Import
