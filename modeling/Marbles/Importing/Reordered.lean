import Marbles.Importing.Collisions

/-!
# An export in another order

Edges are added when every issue is there, and they point at the renamed ids. A parent is
checked when its child is created, and is stored as the row spells it. So the order of the
rows matters for the parents only, and only they are lost in a renaming.

Two orders are compared by what is left to do when both imports have ended, and that is a function
of the rows as a set. Parents are the exception. The condition says of either order whether its
parents are in place.
-/

namespace Marbles.Jsonl

open Json (Value Object)
open Db Importing

/-- The two stores have the same issues under the same parents, with the same statuses and
edges. -/
structure Alike (w w' : Tables) : Prop where
  ids : ∀ id, id ∈ w.issue.keys ↔ id ∈ w'.issue.keys
  parents : ∀ id, (w.issue.find id).map IssueRow.parent = (w'.issue.find id).map IssueRow.parent
  statuses : ∀ id, (w.issue.find id).map IssueRow.status = (w'.issue.find id).map IssueRow.status
  edges : ∀ a b, w.DependsOn a b ↔ w'.DependsOn a b

namespace Export

/-- The two ends of importing an export in two orders agree, and every parent that the import
stores is the renamed one if it is a row of the export. -/
structure OrderFree (x : Export) (t : Tables)
    (r r' : Outcome ImportError ImportReport × Locked Tables) : Prop where
  succeeds : r.1.isOk = r'.1.isOk
  alike : r.1.isOk = true → r'.1.isOk = true → Alike r.2.state r'.2.state
  parents : r.1.isOk = true → ∀ row ∈ x.rows, x.key row ∉ t.issue.keys →
    ∀ p, (row.field "parent_id").asStr = some p → p ∈ x.rows.map originalId →
      (r.2.state.issue.find (x.key row)).map IssueRow.parent = some (some (mapped x.rename p))

/-- What the order of the rows has nothing to do with. Under these conditions no order of the rows
makes the import fail. -/
structure Admissible (x : Export) (parse : String → Except String Int) (s : Locked Tables) :
    Prop where
  healthy : s.poisoned = false
  readable : ∀ row ∈ x.rows, Readable row
  mine : ∀ row ∈ x.rows, x.Mine s.state row
  created : ∀ row ∈ x.rows, x.key row ∉ s.state.issue.keys →
    x.project ∈ s.state.project.keys ∧ ValidTimestamp parse (row.get "created_at")
  acyclic : Graph.Acyclic (x.DependsAt s.state)

/-- The parent of every new issue is an issue of the project or a row listed before. -/
def ParentsInPlace (x : Export) (t : Tables) : Prop :=
  ∀ before row after, x.rows = before ++ row :: after → x.key row ∉ t.issue.keys →
    ∀ p, (row.field "parent_id").asStr = some p →
      p ∈ before.map x.key ∨ ∃ stored, t.issue.find p = some stored ∧ stored.project = x.project

/-- No new issue has a parent in the export that is renamed. -/
def ParentsKeepNames (x : Export) (t : Tables) : Prop :=
  ∀ row ∈ x.rows, x.key row ∉ t.issue.keys → ∀ p, (row.field "parent_id").asStr = some p →
    p ∈ x.rows.map originalId → mapped x.rename p = p

variable {x : Export} {t w w' : Tables} {s : Locked Tables} {rows' : List Value}
  {parse : String → Except String Int}

/-- What can be imported has its parents in place. -/
theorem importable_iff (hhealthy : s.poisoned = false) (hdistinct : x.keys.Nodup) :
    x.Importable parse s.state ↔ x.Admissible parse s ∧ x.ParentsInPlace s.state := by
  constructor
  · intro h
    have hplaced : ∀ before row after, x.rows = before ++ row :: after →
        x.key row ∉ s.state.issue.keys → x.Insertable parse s.state before row := by
      intro before row after hrows hnew
      refine h.placed before row after hrows hnew fun hmem => ?_
      rw [keys, hrows, List.map_append, List.map_cons] at hdistinct
      exact List.disjoint_of_nodup_append hdistinct hmem (List.mem_cons_self ..)
    refine ⟨⟨hhealthy, h.readable, h.mine, fun row hrow hnew => ?_, h.acyclic⟩,
      fun before row after hrows hnew => (hplaced before row after hrows hnew).parent⟩
    obtain ⟨before, after, hrows⟩ := List.append_of_mem hrow
    exact ⟨(hplaced before row after hrows hnew).project,
      (hplaced before row after hrows hnew).createdAt⟩
  · rintro ⟨h, hplaces⟩
    refine ⟨h.readable, h.mine, fun before row after hrows hnew _ => ?_, h.acyclic⟩
    have hrow : row ∈ x.rows := hrows ▸ List.mem_append_right _ (List.mem_cons_self ..)
    exact ⟨(h.created row hrow hnew).1, (h.created row hrow hnew).2, hplaces before row after hrows
      hnew⟩

theorem parentsInPlace_of_roots (h : ∀ row ∈ x.rows, (row.field "parent_id").asStr = none) :
    x.ParentsInPlace t := fun _ row _ hrows _ _ hp =>
  absurd ((h row (hrows ▸ List.mem_append_right _ (List.mem_cons_self ..))).symm.trans hp) nofun

/-! ### The same rows in another order -/

theorem edge_perm (h : x.rows.Perm rows') (a b : String) :
    ({ x with rows := rows' } : Export).Edge a b ↔ x.Edge a b :=
  exists_congr fun _ => and_congr_left fun _ => h.mem_iff.symm

theorem mem_keys_perm (h : x.rows.Perm rows') (id : String) :
    id ∈ ({ x with rows := rows' } : Export).keys ↔ id ∈ x.keys := ((h.map x.key).mem_iff).symm

theorem dependsAt_perm (h : x.rows.Perm rows') (a b : String) :
    ({ x with rows := rows' } : Export).DependsAt t a b ↔ x.DependsAt t a b := by
  rw [DependsAt, DependsAt, edge_perm h, mem_keys_perm h]

/-- An issue has one row at most, wherever it is listed. -/
theorem rowsOf_perm (h : x.rows.Perm rows') (hdistinct : x.keys.Nodup) (id : String) :
    ({ x with rows := rows' } : Export).rowsOf id = x.rowsOf id := by
  have hperm : (x.rowsOf id).Perm (({ x with rows := rows' } : Export).rowsOf id) := h.filter _
  have hone : (x.rowsOf id).length ≤ 1 := by
    rw [← count_keys]
    exact List.nodup_iff_count_le_one.mp hdistinct id
  cases hrows : x.rowsOf id with
  | nil => exact List.perm_nil.mp (hrows ▸ hperm).symm
  | cons row rest =>
      rw [hrows, List.length_cons] at hone
      obtain rfl := List.length_eq_zero_iff.mp (Nat.le_zero.mp (Nat.le_of_succ_le_succ hone))
      exact List.perm_singleton.mp (hrows ▸ hperm).symm

theorem admissible_perm (h : x.rows.Perm rows') (ha : x.Admissible parse s) :
    ({ x with rows := rows' } : Export).Admissible parse s where
  healthy := ha.healthy
  readable := fun row hrow => ha.readable row (h.mem_iff.mpr hrow)
  mine := fun row hrow => ha.mine row (h.mem_iff.mpr hrow)
  created := fun row hrow => ha.created row (h.mem_iff.mpr hrow)
  acyclic := ha.acyclic.mono fun a b hab => (dependsAt_perm h a b).mp hab

/-- What two imports have done in two orders. -/
theorem alike_of_done (h : x.rows.Perm rows') (hdistinct : x.keys.Nodup) (hdone : x.Done w)
    (ha : x.Advances t w) (hdone' : ({ x with rows := rows' } : Export).Done w')
    (ha' : ({ x with rows := rows' } : Export).Advances t w') : Alike w w' := by
  have hcontent : ∀ id, (w.issue.find id).map IssueRow.content =
      (w'.issue.find id).map IssueRow.content := fun id => by
    rw [← hdone.content, ← hdone'.content, ha.content, ha'.content, contentAt, contentAt,
      rowsOf_perm h hdistinct]
    rfl
  have hstatus : ∀ id, (w.issue.find id).map IssueRow.status =
      (w'.issue.find id).map IssueRow.status := fun id => by
    rw [← hdone.status, ← hdone'.status, ha.status, ha'.status, statusAt, statusAt,
      rowsOf_perm h hdistinct]
  refine ⟨fun id => ?_, fun id => ?_, hstatus, fun a b => ?_⟩
  · rw [← not_iff_not, ← Table.find_eq_none, ← Table.find_eq_none, ← @Option.map_eq_none_iff _ _ _
      IssueRow.content, hcontent, Option.map_eq_none_iff]
  · have hparent := congrArg (Option.map Content.parent) (hcontent id)
    rwa [Option.map_map, Option.map_map] at hparent
  · rw [← hdone.edges, ← hdone'.edges, ha.edges, ha'.edges, dependsAt_perm h]

theorem rowsOf_eq_singleton (hdistinct : x.keys.Nodup) {row : Value} (hrow : row ∈ x.rows) :
    x.rowsOf (x.key row) = [row] := by
  have hlength : (x.rowsOf (x.key row)).length ≤ 1 := by
    rw [← count_keys]
    exact List.nodup_iff_count_le_one.mp hdistinct _
  have hmem : row ∈ x.rowsOf (x.key row) := mem_rowsOf.mpr ⟨hrow, rfl⟩
  obtain ⟨first, hfirst⟩ := List.length_eq_one_iff.mp
    (Nat.le_antisymm hlength (List.length_pos_of_mem hmem))
  rw [hfirst, List.mem_singleton] at hmem
  rw [hfirst, hmem]

/-- The parent a new issue is stored with. -/
theorem Done.parent (hdone : x.Done w) (ha : x.Advances t w) (hdistinct : x.keys.Nodup)
    {row : Value}
    (hrow : row ∈ x.rows) (hnew : x.key row ∉ t.issue.keys) :
    (w.issue.find (x.key row)).map IssueRow.parent = some (row.field "parent_id").asStr := by
  have hcontent := hdone.content (x.key row)
  rw [ha.content, contentAt, Table.find_eq_none.mpr hnew, rowsOf_eq_singleton hdistinct
    hrow] at hcontent
  have hparent := congrArg (Option.map Content.parent) hcontent
  rw [Option.map_map] at hparent
  exact hparent.symm

end Export

section Order

variable {cfg : Config} {env env' : Env} {project : String} {rename : Option (String × String)}
  {rows rows' : List Value} {s : Locked Tables}

theorem returned_of_isOk {r : Outcome ImportError ImportReport × Locked Tables}
    (h : r.1.isOk = true) : ∃ report, r = (.ok report, r.2) := by
  obtain ⟨r, l⟩ := r
  cases r with
  | ok report => exact ⟨report, rfl⟩
  | error e => exact absurd h nofun

/-- On a healthy lock an import returns exactly when the export can be imported. -/
theorem import_isOk_iff (hhealthy : s.poisoned = false) (hwf : WellFormed s.state) :
    (Prog.runE (Scope.exec cfg) («import» cfg env project rename rows false) s).1.isOk = true ↔
      (exportOf project rename rows).Importable env.parseRfc3339 s.state := by
  constructor
  · intro h
    obtain ⟨report, hrun⟩ := returned_of_isOk h
    exact (Export.imported_of_returned hwf hrun).1.importable
  · intro h
    obtain ⟨r, w, hrun, -, hends⟩ :=
      (@Export.runs_import _ cfg env project rename rows hwf).result
    rw [Locked.eq_new hhealthy, hrun]
    cases r with
    | ok report => rfl
    | error e =>
        cases e with
        | fail e => exact absurd h hends
        | abort => exact hends.elim

/-- On a poisoned lock an import returns exactly when there is nothing to import. -/
theorem import_isOk_poisoned (hpoisoned : s.poisoned = true) :
    (Prog.runE (Scope.exec cfg) («import» cfg env project rename rows false) s).1.isOk = true ↔
      (exportOf project rename rows).rows = [] := by
  constructor
  · intro h
    obtain ⟨report, hrun⟩ := returned_of_isOk h
    exact import_poisoned hpoisoned hrun
  · intro h
    obtain ⟨report, hpure⟩ := @import_nil cfg env project rename rows false h
    rw [hpure]
    rfl

/-- An import that the order of the rows alone can stop returns when the parents are in place. -/
theorem Export.Admissible.isOk_iff (hwf : WellFormed s.state)
    (hdistinct : (exportOf project rename rows).keys.Nodup)
    (h : (exportOf project rename rows).Admissible env.parseRfc3339 s) :
    (Prog.runE (Scope.exec cfg) («import» cfg env project rename rows false) s).1.isOk = true ↔
      (exportOf project rename rows).ParentsInPlace s.state :=
  (import_isOk_iff h.healthy hwf).trans
    ((Export.importable_iff h.healthy hdistinct).trans (and_iff_right h))

/-- An import that returns can be stopped by the order of its rows alone, unless it has none. -/
theorem admissible_of_isOk (hwf : WellFormed s.state)
    (hdistinct : (exportOf project rename rows).keys.Nodup)
    (h : (Prog.runE (Scope.exec cfg)
      («import» cfg env project rename rows false) s).1.isOk = true) :
    (exportOf project rename rows).Admissible env.parseRfc3339 s ∨
      s.poisoned = true ∧ (exportOf project rename rows).rows = [] := by
  cases hlock : s.poisoned with
  | false =>
      exact Or.inl ((Export.importable_iff hlock hdistinct).mp ((import_isOk_iff hlock hwf).mp h)).1
  | true => exact Or.inr ⟨rfl, (import_isOk_poisoned hlock).mp h⟩

/-- Imports of one export in two orders that both return leave the same. -/
theorem alike_of_isOk (hwf : WellFormed s.state) (hperm : rows.Perm rows')
    (hdistinct : (exportOf project rename rows).keys.Nodup)
    (h : (Prog.runE (Scope.exec cfg) («import» cfg env project rename rows false) s).1.isOk = true)
    (h' : (Prog.runE (Scope.exec cfg) («import» cfg env' project rename rows' false) s).1.isOk =
      true) :
    Alike (Prog.runE (Scope.exec cfg) («import» cfg env project rename rows false) s).2.state
      (Prog.runE (Scope.exec cfg) («import» cfg env' project rename rows' false) s).2.state := by
  obtain ⟨report, hrun⟩ := returned_of_isOk h
  obtain ⟨report', hrun'⟩ := returned_of_isOk h'
  obtain ⟨himported, hunder⟩ := Export.imported_of_returned hwf hrun
  obtain ⟨himported', hunder'⟩ := Export.imported_of_returned hwf hrun'
  exact Export.alike_of_done (hperm.filter _) hdistinct himported.done hunder.advances
    himported'.done hunder'.advances

/-- Where the import can go through in some order at all, it is the same in every order exactly when
the parents are in place in both or in neither, and if they are, none of them is renamed. Edges wait
until all issues are there, parents do not. -/
theorem order_free_iff (hs : Reachable cfg s) (henv : env'.parseRfc3339 = env.parseRfc3339)
    (hperm : rows.Perm rows') (hdistinct : (exportOf project rename rows).keys.Nodup) :
    (exportOf project rename rows).OrderFree s.state
        (Prog.runE (Scope.exec cfg) («import» cfg env project rename rows false) s)
        (Prog.runE (Scope.exec cfg) («import» cfg env' project rename rows' false) s) ↔
      ((exportOf project rename rows).Admissible env.parseRfc3339 s →
        ((exportOf project rename rows).ParentsInPlace s.state ↔
            (exportOf project rename rows').ParentsInPlace s.state) ∧
          ((exportOf project rename rows).ParentsInPlace s.state →
            (exportOf project rename rows).ParentsKeepNames s.state)) := by
  have hwf := hs.wellFormed
  have hrows : (exportOf project rename rows).rows.Perm (exportOf project rename rows').rows :=
    hperm.filter _
  have hdistinct' : (exportOf project rename rows').keys.Nodup :=
    ((hrows.map (exportOf project rename rows).key).nodup_iff).mp hdistinct
  -- the parent that the first import stores for a new issue
  have hstored : (Prog.runE (Scope.exec cfg)
      («import» cfg env project rename rows false) s).1.isOk = true →
      ∀ row ∈ (exportOf project rename rows).rows,
        (exportOf project rename rows).key row ∉ s.state.issue.keys →
          ((Prog.runE (Scope.exec cfg) («import» cfg env project rename rows false)
            s).2.state.issue.find
            ((exportOf project rename rows).key row)).map IssueRow.parent =
              some (row.field "parent_id").asStr := by
    intro hok row hrow hnew
    obtain ⟨report, hrun⟩ := returned_of_isOk hok
    obtain ⟨himported, hunder⟩ := Export.imported_of_returned hwf hrun
    exact himported.done.parent hunder.advances hdistinct hrow hnew
  constructor
  · intro hfree hadmissible
    have hadmissible' : (exportOf project rename rows').Admissible env'.parseRfc3339 s :=
      henv ▸ Export.admissible_perm hrows hadmissible
    have hok := @Export.Admissible.isOk_iff cfg _ _ _ _ _ hwf hdistinct hadmissible
    have hok' := @Export.Admissible.isOk_iff cfg _ _ _ _ _ hwf hdistinct' hadmissible'
    refine ⟨by rw [← hok, ← hok', hfree.succeeds], fun hplaces row hrow hnew p hp hexported => ?_⟩
    have hparent := hstored (hok.mpr hplaces) row hrow hnew
    rw [hfree.parents (hok.mpr hplaces) row hrow hnew p hp hexported, hp] at hparent
    exact Option.some.inj (Option.some.inj hparent)
  · intro hcondition
    refine ⟨Bool.eq_iff_iff.mpr ?_, alike_of_isOk hwf hperm hdistinct,
      fun hok row hrow hnew p hp hexported => ?_⟩
    · by_cases hadmissible : (exportOf project rename rows).Admissible env.parseRfc3339 s
      · have hadmissible' : (exportOf project rename rows').Admissible env'.parseRfc3339 s :=
          henv ▸ Export.admissible_perm hrows hadmissible
        rw [hadmissible.isOk_iff hwf hdistinct, hadmissible'.isOk_iff hwf hdistinct']
        exact (hcondition hadmissible).1
      · constructor
        · intro hok
          obtain ⟨hlock, hnone⟩ := (admissible_of_isOk hwf hdistinct hok).resolve_left hadmissible
          exact (import_isOk_poisoned hlock).mpr (List.perm_nil.mp (hnone ▸ hrows.symm))
        · intro hok
          obtain ⟨hlock, hnone⟩ := (admissible_of_isOk hwf hdistinct' hok).resolve_left
            fun hadmissible' => hadmissible (henv ▸ Export.admissible_perm hrows.symm hadmissible')
          exact (import_isOk_poisoned hlock).mpr (List.perm_nil.mp (hnone ▸ hrows))
    · rcases admissible_of_isOk hwf hdistinct hok with hadmissible | ⟨-, hnone⟩
      · have hplaces := (hadmissible.isOk_iff hwf hdistinct).mp hok
        have hkept := (hcondition hadmissible).2 hplaces row hrow hnew p hp hexported
        rw [hstored hok row hrow hnew, hp, hkept]
      · rw [hnone] at hrow
        exact absurd hrow List.not_mem_nil

end Order

/-! ### A child before its parent -/

/-- An open row under a parent. -/
def childRow (id title parent : String) : Value :=
  .obj [("id", .str id), ("parent_id", .str parent), ("title", .str title)]

/-- An export that lists a child before its parent is refused, and the same rows in the other
order are imported. -/
theorem child_listed_first :
    Reachable {} demo ∧
      (exportOf "demo" none [childRow "demo-a" "child" "demo-b",
      plainRow "demo-b" "parent"]).keys.Nodup ∧
      ¬ (exportOf "demo" none [childRow "demo-a" "child" "demo-b",
      plainRow "demo-b" "parent"]).OrderFree
        demo.state
        (Prog.runE (Scope.exec {}) («import» {} still "demo" none
          [childRow "demo-a" "child" "demo-b", plainRow "demo-b" "parent"] false) demo)
        (Prog.runE (Scope.exec {}) («import» {} still "demo" none
          [plainRow "demo-b" "parent", childRow "demo-a" "child" "demo-b"] false) demo) := by
  refine ⟨reachable_demo, by decide, fun h => ?_⟩
  have hsucceeds := h.succeeds
  revert hsucceeds
  decide

theorem two_orders :
    (exportOf "demo" none [plainRow "demo-a" "first", plainRow "demo-b" "second"]).OrderFree
    demo.state
      (Prog.runE (Scope.exec {}) («import» {} still "demo" none
        [plainRow "demo-a" "first", plainRow "demo-b" "second"] false) demo)
      (Prog.runE (Scope.exec {}) («import» {} still "demo" none
        [plainRow "demo-b" "second", plainRow "demo-a" "first"] false) demo) := by
  have hroots : ∀ row ∈ (exportOf "demo" none
      [plainRow "demo-a" "first", plainRow "demo-b" "second"]).rows,
      (row.field "parent_id").asStr = none := by decide
  exact (@order_free_iff {} still still "demo" none
    [plainRow "demo-a" "first", plainRow "demo-b" "second"]
    [plainRow "demo-b" "second", plainRow "demo-a" "first"] demo reachable_demo rfl
    (List.Perm.swap ..) (by decide)).mpr fun _ =>
      ⟨iff_of_true (Export.parentsInPlace_of_roots hroots)
        (Export.parentsInPlace_of_roots (by decide)),
        fun _ row hrow _ p hp => absurd ((hroots row hrow).symm.trans hp) nofun⟩

end Marbles.Jsonl
