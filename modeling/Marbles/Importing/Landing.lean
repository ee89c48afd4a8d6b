import Marbles.Importing.Settling

/-!
# A whole import

The four phases together: an import that returns shows that the export could be imported,
and leaves nothing to do; one that fails shows that it could not be imported; and wherever
it is cut, the store has been advanced by a part of the import. So importing again from
there comes to the same end.

Failing is treated together with returning. The phases fail only for reasons that the conditions
exclude, so an import that failed shows that one of them did not hold before it started. On a
poisoned lock no import gets past its first call.
-/

namespace Marbles.Jsonl

open Json (Value Object)
open Db Importing

/-- The export that the importer is given. -/
def exportOf (project : String) (rename : Option (String × String)) (rows : List Value) : Export :=
  ⟨project, rename, rows.filter (!isSkip ·)⟩

theorem mapM_eq_pure {m : Type → Type} [Monad m] [LawfulMonad m] {α β : Type} {f : α → m β}
    {g : α → β} {xs : List α} (h : ∀ x ∈ xs, f x = pure (g x)) : xs.mapM f = pure (xs.map g) := by
  induction xs with
  | nil => exact List.mapM_nil
  | cons x xs ih =>
      rw [List.mapM_cons, h x (List.mem_cons_self ..), ih fun y hy =>
        h y (List.mem_cons_of_mem _ hy)]
      simp

namespace Export

variable {x : Export} {t u v w : Tables} {cfg : Config} {env : Env}

/-- The rows that the forced pass closed, `v` being the store before it. -/
structure Forced (x : Export) (t v w : Tables) (forced : List Value) : Prop where
  sublist : forced.Sublist x.rows
  closed : ∀ row ∈ forced, asked row = .closed
  waiting : ∀ row ∈ forced, Waiting v (x.key row)
  done : ∀ row ∈ x.rows, row ∈ forced ∨ x.RowDone v row
  orderly : Orderly t.issue.keys v
  closes : ClosedIn v (forced.map x.key) w

/-- What an import that returned has done. The last part says which rows were closed although
something still blocked them. -/
structure Imported (x : Export) (parse : String → Except String Int) (t : Tables)
    (report : ImportReport) (w : Tables) : Prop where
  importable : x.Importable parse t
  done : x.Done w
  keys : ∀ id, id ∈ w.issue.keys ↔ id ∈ t.issue.keys ∨ id ∈ x.keys
  imported : (w.issue.keys.length : Int) = t.issue.keys.length + report.imported
  unchanged : report.unchanged = ((x.keys.filter (· ∈ t.issue.keys)).length : Nat)
  forced : ∃ v forced, x.Forced t v w forced ∧ report.exceptionClosed = (forced.length : Nat)

/-- Nothing is left to do once every row is done and every edge is there. -/
theorem done_of (hstored : ∀ row ∈ x.rows, x.key row ∈ w.issue.keys)
    (hrows : ∀ row ∈ x.rows, x.RowDone w row)
    (hedges : ∀ a b, x.Edge a b → b ∈ w.issue.keys → w.DependsOn a b) : x.Done w := by
  have habsent : ∀ id, w.issue.find id = none → x.rowsOf id = [] := by
    intro id hnone
    rw [rowsOf, List.filter_eq_nil_iff]
    intro row hrow hkey
    rw [decide_eq_true_eq] at hkey
    exact Table.find_eq_none.mp hnone (hkey ▸ hstored row hrow)
  -- For an id of the export the rows have done what they ask; for any other id there are no rows.
  refine ⟨fun id => ?_, fun id => ?_, fun a b => ?_⟩
  · rw [contentAt]
    cases hfind : w.issue.find id with
    | some row => rfl
    | none => rw [habsent id hfind]; rfl
  · rw [statusAt]
    cases hfind : w.issue.find id with
    | some row =>
        rw [Option.map_some, Option.some_or, Option.map_some, settled_self]
        · intro hclosed
          obtain ⟨r, hr, hasked⟩ := List.mem_map.mp hclosed
          obtain ⟨hmem, rfl⟩ := mem_rowsOf.mp hr
          exact (hrows r hmem).closed hasked row hfind
        · intro hopen st hst
          obtain ⟨r, hr, rfl⟩ := List.mem_map.mp hst
          obtain ⟨hmem, rfl⟩ := mem_rowsOf.mp hr
          by_contra hne
          exact (hrows r hmem).moved hne row hfind hopen
    | none => rw [habsent id hfind]; rfl
  · refine ⟨fun h => ?_, Or.inl⟩
    rcases h with h | ⟨hedge, hb⟩
    · exact h
    · refine hedges a b hedge ?_
      rcases hb with hb | hb
      · exact hb
      · obtain ⟨row, hrow, rfl⟩ := mem_keys.mp hb
        exact hstored row hrow

/-- When nothing is left to do, the graph of the export is the graph of the store. -/
theorem Done.acyclic (h : x.Done w) (hunder : x.Underway t w) : Graph.Acyclic (x.DependsAt t) :=
  hunder.graph.acyclic.mono fun a b hab => (h.edges a b).mp ((hunder.advances.edges a b).mpr hab)

/-- Phases 1 to 3, after phase 0 has found no conflict. -/
theorem runs_write {report : ImportReport} {ids : IdMap} {skipped : Int} (hwf : WellFormed t)
    (h : x.Examined t x.rows report ids) (hnone : report.conflicts = []) :
    Runs (Scope.exec cfg) (x.Underway t) (fun report' w => x.Imported env.parseRfc3339 t report' w)
      (fun _ _ => ¬ x.Importable env.parseRfc3339 t)
      (do
        let report ← x.rows.zipIdx.foldlM (createRow cfg env x.project ids) report
        let report ← x.rows.zipIdx.foldlM (linkRow env x.rename ids) report
        let pending ← x.rows.zipIdx.mapM fun r => do
          let id ← storedId ids r.1
          pure ({ row := r.1, index := r.2, id := id } : Pending)
        let pending ← settle env (pending.length + 1) 0 pending
        let report ← pending.foldlM (closeException env) report
        pure { report with skippedMemories := skipped }) t := by
  have hmine := h.conflicts.mp hnone
  -- Phase 1: the rows whose ids are new are created, open.
  refine (runs_create h.ids hmine hwf h.created).bind
    fun report₁ u hu ⟨hcreated, hunchanged, hforced⟩ => ?_
  have hstored : ∀ row ∈ x.rows, x.key row ∈ u.issue.keys := fun row hrow =>
    (hcreated.keys _).mpr (Or.inr (key_mem_keys hrow))
  -- Phase 2: the edges. A cycle among the rows is the one way in which this phase fails.
  refine ((runs_link h.ids hstored hu).mono (fun _ hi => hi) (fun _ _ _ hl => hl)
    fun _ _ _ hcyclic himportable => hcyclic himportable.acyclic).bind
      fun report₂ v hv ⟨hcounts, hlinked⟩ => ?_
  have hmap : x.rows.zipIdx.mapM (fun r => do
      let id ← storedId ids r.1
      pure ({ row := r.1, index := r.2, id := id } : Pending)) =
      (pure (x.rows.zipIdx.map fun r => ⟨r.1, r.2, x.key r.1⟩) : M (List Pending)) :=
    mapM_eq_pure fun r hr => by
      rw [h.ids.storedId (List.fst_mem_of_mem_zipIdx hr), pure_bind]
  rw [hmap, pure_bind]
  generalize hpending : x.rows.zipIdx.map (fun r => (⟨r.1, r.2, x.key r.1⟩ : Pending)) = pending
  have hrows : pending.map Pending.row = x.rows := by
    rw [← hpending, List.map_map]
    exact List.zipIdx_map_fst 0 x.rows
  have hready : ∀ p ∈ pending, x.Ready v p := by
    intro p hp
    rw [← hpending] at hp
    obtain ⟨r, hr, rfl⟩ := List.mem_map.mp hp
    have hrow := List.fst_mem_of_mem_zipIdx hr
    exact ⟨hrow, rfl, h.readable _ hrow, hlinked.keys ▸ hstored _ hrow⟩
  -- What phase 1 created is still open when the rounds of phase 3 start, so nothing counts as
  -- settled by them yet.
  have hsettles : x.Settles t v v := by
    refine ⟨hv, .refl v, fun id row hid hrow hclosed => ?_⟩
    have hstatus := hlinked.status id
    rw [hrow] at hstatus
    obtain ⟨old, hold, heq⟩ := Option.map_eq_some_iff.mp hstatus.symm
    rw [hcreated.opened id old hid hold] at heq
    exact absurd (heq.trans hclosed) nofun
  have hall : ∀ row ∈ x.rows, (∃ p ∈ pending, p.row = row) ∨ x.RowDone v row := fun row hrow =>
    Or.inl (List.mem_map.mp (hrows.symm ▸ hrow))
  -- Phase 3: the rounds, with fuel for one more round than there are rows, then the exception
  -- closes of what they left.
  refine ((runs_settle hready hsettles (Or.inl hrows) hall (Nat.lt_succ_self _)).mono
    (fun _ hi => hi) (fun _ _ _ hl => hl) fun _ _ _ => False.elim).bind
      fun left s hs ⟨hleft, hsettled⟩ => ?_
  refine ((runs_closeExceptions hready hsettled hleft).mono (fun _ hi => hi) (fun _ _ _ hl => hl)
    fun _ _ _ => False.elim).bind fun report₃ w hw ⟨hreport, hcloses⟩ => .pure hw ?_
  have hleftReady : ∀ p ∈ left, p.id = x.key p.row := fun p hp =>
    (hready p (hleft.sublist.subset hp)).id
  have hids : left.map Pending.id = (left.map Pending.row).map x.key := by
    rw [List.map_map]
    exact List.map_congr_left hleftReady
  have hkeys : w.issue.keys = u.issue.keys := by
    rw [hcloses.later.keys, hsettled.later.keys, hlinked.keys]
  have hforcedRows : x.Forced t s w (left.map Pending.row) := by
    refine ⟨?_, ?_, ?_, fun row hrow => ?_, hsettled.orderly, hids ▸ hcloses⟩
    · rw [← hrows]
      exact hleft.sublist.map _
    · exact List.forall_mem_map.mpr hleft.closed
    · exact List.forall_mem_map.mpr fun p hp => hleftReady p hp ▸ hleft.waiting p hp
    · exact (hleft.done row hrow).imp_left fun ⟨p, hp, heq⟩ => heq ▸ List.mem_map_of_mem hp
  have hdone : x.Done w := by
    refine done_of (fun row hrow => hkeys ▸ hstored row hrow) (fun row hrow => ?_)
      fun a b hedge hb => ?_
    · rcases hforcedRows.done row hrow with hrow | hrow
      · have hclosed := hforcedRows.closes.closed (x.key row) (List.mem_map_of_mem hrow)
        exact ⟨fun _ => hclosed, fun _ stored hfind => by rw [hclosed stored hfind]; exact nofun⟩
      · exact hrow.later hcloses.later
    · rw [Tables.DependsOn, hcloses.later.dep, hsettled.later.dep]
      exact hlinked.edges a b hedge (hkeys ▸ hb)
  refine ⟨⟨h.readable, hmine, hcreated.placed, hdone.acyclic hw⟩, hdone, fun id => ?_, ?_, ?_,
    s, left.map Pending.row, hforcedRows, ?_⟩
  · rw [hkeys]
    exact hcreated.keys id
  · rw [hreport, hkeys, hcounts.imported]
    exact hcreated.imported
  · rw [hreport, hcounts.unchanged, hunchanged]
    exact h.unchanged hnone
  · rw [hreport, List.length_map, hcounts.forced, hforced, h.forced, Int.zero_add]

/-- An import that is not a dry run. -/
theorem runs_import (project : String) (rename : Option (String × String)) (rows : List Value)
    (hwf : WellFormed t) :
    Runs (Scope.exec cfg) ((exportOf project rename rows).Underway t)
      (fun report w => (exportOf project rename rows).Imported env.parseRfc3339 t report w)
      (fun _ _ => ¬ (exportOf project rename rows).Importable env.parseRfc3339 t)
      («import» cfg env project rename rows false) t := by
  generalize hx : exportOf project rename rows = x
  have hunder : x.Underway t t := ⟨.refl x t, hwf⟩
  unfold «import»
  have hexamine := @runs_examine cfg x t
  subst hx
  refine (hexamine.mono (fun u hu => hu ▸ hunder) (fun acc u hu h => And.intro hu h)
    fun _ _ _ hbad himportable => hbad himportable.readable).bind ?_
  rintro ⟨report, ids⟩ u - ⟨rfl, hexamined⟩
  refine .ite (fun hconflicts => .fail hunder fun himportable => ?_) fun hnone => ?_
  · exact hconflicts (hexamined.conflicts.mpr himportable.mine)
  · exact runs_write hwf hexamined (not_not.mp hnone)

/-- A dry run reads the rows and looks for conflicts. -/
theorem runs_dryRun (project : String) (rename : Option (String × String)) (rows : List Value) :
    Runs (Scope.exec cfg) (fun u => u = t)
      (fun _ _ => (∀ row ∈ (exportOf project rename rows).rows, Readable row) ∧
        ∀ row ∈ (exportOf project rename rows).rows, (exportOf project rename rows).Mine t row)
      (fun _ _ => ¬ ((∀ row ∈ (exportOf project rename rows).rows, Readable row) ∧
        ∀ row ∈ (exportOf project rename rows).rows, (exportOf project rename rows).Mine t row))
      («import» cfg env project rename rows true) t := by
  unfold «import»
  have hexamine := @runs_examine cfg (exportOf project rename rows) t
  refine (hexamine.mono (fun u hu => hu) (fun acc u hu h => And.intro hu h)
    fun _ _ _ hbad himportable => hbad himportable.1).bind ?_
  rintro ⟨report, ids⟩ u - ⟨rfl, hexamined⟩
  refine .ite (fun hconflicts => .fail rfl fun h => ?_) fun hnone => ?_
  · exact hconflicts (hexamined.conflicts.mpr h.2)
  · exact .pure rfl ⟨hexamined.readable, hexamined.conflicts.mp (not_not.mp hnone)⟩

end Export

/-! ### Whatever the lock is like -/

section Lock

variable {cfg : Config} {env : Env} {project : String} {rename : Option (String × String)}
  {rows : List Value} {dryRun : Bool} {s s' : Locked Tables} {report : ImportReport}

/-- Without issue rows the importer does not touch the store. -/
theorem import_nil (h : rows.filter (!isSkip ·) = []) :
    ∃ report, «import» cfg env project rename rows dryRun = pure report := by
  unfold «import»
  rw [h]
  cases dryRun with
  | true => exact ⟨_, rfl⟩
  | false => exact ⟨_, rfl⟩

theorem import_poisoned (hs : s.poisoned = true)
    (h : Prog.runE (Scope.exec cfg) («import» cfg env project rename rows dryRun) s =
    (.ok report, s')) :
    rows.filter (!isSkip ·) = [] := by
  cases hrows : rows.filter (!isSkip ·) with
  | nil => rfl
  | cons row rest =>
      have hexamine : ∃ e, Prog.runE (Scope.exec cfg)
          (examineRow project rename ({}, []) row) s = (.error e, s) := by
        unfold examineRow
        cases (row.field "id").asStr with
        | none => exact ⟨_, rfl⟩
        | some raw =>
            cases normalizeStatus (rawStatus row) with
            | error e => exact ⟨_, rfl⟩
            | ok status =>
                refine ⟨.abort, (Prog.runE_bind_ok rfl).trans (Prog.runE_bind_error ?_)⟩
                change Prog.run _ (Prog.call _ _) s = _
                rw [Prog.run_call, exec_poisoned hs]
                rfl
      obtain ⟨e, he⟩ := hexamine
      unfold «import» at h
      rw [hrows] at h
      have hloop : Prog.runE (Scope.exec cfg) ((row :: rest).zipIdx.foldlM
          (fun acc r => examineRow project rename acc r.1) ({}, [])) s = (.error e, s) :=
        Prog.runE_bind_error he
      exact absurd ((Prog.runE_bind_error hloop).symm.trans h) nofun

/-- An import that returned would have done the same on a fresh lock. -/
theorem import_returned
    (h : Prog.runE (Scope.exec cfg) («import» cfg env project rename rows dryRun) s =
    (.ok report, s')) :
    ∃ l, Prog.runE (Scope.exec cfg) («import» cfg env project rename rows dryRun) (.new s.state) =
      (.ok report, l) ∧ l.state = s'.state := by
  cases hp : s.poisoned with
  | false => exact ⟨s', Locked.eq_new hp ▸ h, rfl⟩
  | true =>
      obtain ⟨report', hpure⟩ := @import_nil cfg env project rename rows dryRun
          (import_poisoned hp h)
      rw [hpure, Prog.runE_pure] at h ⊢
      cases h
      exact ⟨_, rfl, rfl⟩

end Lock

/-- An open row without edges. -/
def plainRow (id title : String) : Value := .obj [("id", .str id), ("title", .str title)]

/-- Two rows, of which the second waits for the first. -/
def linkedRows : List Value :=
  [plainRow "demo-a" "first",
    .obj [("dependencies", .arr [.obj [("depends_on_id", .str "demo-a")]]),
      ("id", .str "demo-b"), ("title", .str "second")]]

/-- A clock that stands still, and a parser that rejects every timestamp. -/
def still : Env := ⟨fun _ => 0, fun _ => .error "unreadable"⟩

/-- A store with one project. -/
def demo : Locked Tables :=
  Action.run {} [.op (.ensureProject "demo" "/tmp/demo" "demo" 0)] (opened "s")

theorem reachable_demo : Reachable {} demo := ⟨"s", _, rfl⟩

/-- What an import that returned has done. -/
theorem Export.imported_of_returned {cfg : Config} {env : Env} {project : String}
    {rename : Option (String × String)} {rows : List Value} {s s' : Locked Tables}
    {report : ImportReport} (hwf : WellFormed s.state)
    (h : Prog.runE (Scope.exec cfg) («import» cfg env project rename rows false) s =
    (.ok report, s')) :
    (exportOf project rename rows).Imported env.parseRfc3339 s.state report s'.state ∧
      (exportOf project rename rows).Underway s.state s'.state := by
  obtain ⟨l, hrun, hstate⟩ := import_returned h
  obtain ⟨w, rfl, hunder, himported⟩ := (runs_import project rename rows hwf).returned hrun
  rw [← hstate]
  exact ⟨himported, hunder⟩

end Marbles.Jsonl
