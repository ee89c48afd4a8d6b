import Marbles.Importing.Reordered

/-!
# The statuses an import lands

An export that meets `Sound` is imported, every issue ends with the status its row asks
for, and the forced pass closes exactly the rows that wait: a closed row waits when an open
issue can be reached from it over the dependencies of closed rows. Which rows these are does
not depend on the order in which the rounds got to them.

Waiting is a property of the export, defined by what can be reached in it. The rounds close a row
exactly when it does not wait, and the rest follows from that equivalence.
-/

namespace Marbles.Jsonl

open Json (Value Object)
open Db Importing

namespace Export

/-- An export that goes into a store which knows nothing of it yet. Such an import is a fresh one,
so what it stores is decided by the rows alone. -/
structure Sound (x : Export) (parse : String → Except String Int) (t : Tables) : Prop where
  project : x.project ∈ t.project.keys
  readable : ∀ row ∈ x.rows, Readable row
  timestamps : ∀ row ∈ x.rows, ValidTimestamp parse (row.get "created_at")
  distinct : x.keys.Nodup
  absent : ∀ row ∈ x.rows, x.key row ∉ t.issue.keys
  parents : x.ParentsInPlace t
  acyclic : Graph.Acyclic x.Edge

/-- The issues of the closed rows. -/
def closedKeys (x : Export) : List String :=
  (x.rows.filter fun row => asked row = .closed).map x.key

/-- An issue that is not closed can be reached over the dependencies of closed rows. -/
def Waits (x : Export) (w : Tables) (a : String) : Prop :=
  ∃ y, w.isOpen y = true ∧ Relation.ReflTransGen (fun a b => a ∈ x.closedKeys ∧ w.DependsOn a b) a y

variable {x : Export} {t v w : Tables} {parse : String → Except String Int} {report : ImportReport}

theorem waits_iff {a : String} : x.Waits w a ↔ ∃ y ∈ w.issue.keys, w.isOpen y = true ∧
    Graph.reachesBreadthFirst (w.dep.keys.filter fun e => e.1 ∈ x.closedKeys) a y = true := by
  have hedge : (fun a b => a ∈ x.closedKeys ∧ w.DependsOn a b) =
      Graph.Edge (w.dep.keys.filter fun e => e.1 ∈ x.closedKeys) := by
    funext a b
    rw [Graph.Edge, List.mem_filter, decide_eq_true_iff, and_comm]
    rfl
  rw [Waits, hedge]
  refine exists_congr fun y => ?_
  rw [Graph.reachesBreadthFirst_iff]
  refine ⟨fun h => ⟨?_, h⟩, fun h => h.2⟩
  obtain ⟨row, hrow, -⟩ := Tables.isOpen_iff.mp h.1
  exact Table.mem_keys_of_find hrow

instance (w : Tables) (a : String) : Decidable (x.Waits w a) := decidable_of_iff' _ waits_iff

@[simp] theorem mem_closedKeys {a : String} :
    a ∈ x.closedKeys ↔ ∃ row ∈ x.rows, asked row = .closed ∧ x.key row = a := by
  rw [closedKeys, List.mem_map]
  refine exists_congr fun row => ?_
  rw [List.mem_filter, decide_eq_true_iff, and_assoc]

/-- The edges of new issues close no cycle with the edges that are there. -/
theorem Sound.importable (h : x.Sound parse t) (hwf : WellFormed t) : x.Importable parse t := by
  refine ⟨h.readable, fun row hrow stored hstored => ?_,
    fun before row after hrows hnew _ => ?_, ?_⟩
  · exact absurd (Table.mem_keys_of_find hstored) (h.absent row hrow)
  · have hrow : row ∈ x.rows := hrows ▸ List.mem_append_right _ (List.mem_cons_self ..)
    exact ⟨h.project, h.timestamps row hrow, h.parents before row after hrows hnew⟩
  · have hunion : Graph.Acyclic fun a b => t.DependsOn a b ∨ x.Edge a b := by
      refine @Graph.Acyclic.union _ _ _ (fun a => a ∈ t.issue.keys) hwf.acyclic h.acyclic
        (fun a b => hwf.endpoints) fun a b ⟨row, hrow, hkey, _⟩ => ?_
      exact hkey ▸ h.absent row hrow
    exact hunion.mono fun a b hab => hab.imp_right And.left

/-- An issue whose rows were not stored before ends with the status its row asks for. -/
theorem Done.status_of_new (hdone : x.Done w) (ha : x.Advances t w) (hdistinct : x.keys.Nodup)
    {row : Value} (hrow : row ∈ x.rows) (hnew : x.key row ∉ t.issue.keys) :
    (w.issue.find (x.key row)).map IssueRow.status = some (asked row) := by
  rw [← hdone.status, ha.status, statusAt, Table.find_eq_none.mpr hnew,
    rowsOf_eq_singleton hdistinct hrow]
  exact congrArg some (settled_singleton _)

/-! ### The forced pass -/

/-- Only rows that wait are closed by force. -/
theorem Forced.waits {forced : List Value} (h : x.Forced t v w forced) (hwf : WellFormed w)
    {row : Value} (hrow : row ∈ forced) : x.Waits w (x.key row) := by
  -- what blocked an issue before the pass is closed by the pass or still open
  have hstep : ∀ a, a ∈ forced.map x.key →
      ∃ b, Graph.Edge w.dep.keys a b ∧ (b ∈ forced.map x.key ∨ w.isOpen b = true) := by
    intro a ha
    obtain ⟨r, hr, rfl⟩ := List.mem_map.mp ha
    obtain ⟨p, hp, hopen⟩ : ∃ p, v.DependsOn (x.key r) p ∧ v.isOpen p = true := by
      have hblocked := (h.waiting r hr).blocked
      by_contra hnone
      exact hblocked fun p hp => by simpa using fun hopen => hnone ⟨p, hp, hopen⟩
    refine ⟨p, ?_, ?_⟩
    · rw [Tables.DependsOn, ← h.closes.later.dep] at hp
      exact hp
    · by_cases hforced : p ∈ forced.map x.key
      · exact Or.inl hforced
      · obtain ⟨old, hold, hnot⟩ := Tables.isOpen_iff.mp hopen
        have hstatus := h.closes.others p hforced
        rw [hold] at hstatus
        obtain ⟨new, hnew, heq⟩ := Option.map_eq_some_iff.mp hstatus
        exact Or.inr (Tables.isOpen_iff.mpr ⟨new, hnew, heq ▸ hnot⟩)
  obtain ⟨y, hy, hpath⟩ := Graph.Acyclic.reaches hwf.acyclic hstep (List.mem_map_of_mem hrow)
  refine ⟨y, hy, Relation.ReflTransGen.mono (fun a b hab => ⟨?_, hab.2⟩) _ _ hpath⟩
  obtain ⟨r, hr, rfl⟩ := List.mem_map.mp hab.1
  exact mem_closedKeys.mpr ⟨r, h.sublist.subset hr, h.closed r hr, rfl⟩

/-- Every closed row that waits is left to be closed by force. -/
theorem Forced.of_waits {forced : List Value} (h : x.Forced t v w forced)
    (habsent : ∀ row ∈ x.rows, x.key row ∉ t.issue.keys)
    (hstored : ∀ row ∈ x.rows, x.key row ∈ w.issue.keys) {row : Value} (hrow : row ∈ x.rows)
    (hasked : asked row = .closed) (hwaits : x.Waits w (x.key row)) : row ∈ forced := by
  obtain ⟨y, hopen, hpath⟩ := hwaits
  by_contra hnot
  have hclosed : v.isOpen (x.key row) = false := by
    rw [← Bool.not_eq_true, Tables.isOpen_iff]
    rintro ⟨stored, hfind, hunclosed⟩
    exact hunclosed (((h.done row hrow).resolve_left hnot).closed hasked stored hfind)
  -- the issue of a closed row that is not open was closed when nothing blocked it
  have hsteps : ∀ a b, v.isOpen a = false → (a ∈ x.closedKeys ∧ w.DependsOn a b) →
      v.isOpen b = false := by
    rintro a b ha ⟨hkey, hdep⟩
    obtain ⟨r, hr, -, rfl⟩ := mem_closedKeys.mp hkey
    obtain ⟨stored, hfind⟩ := Table.mem_keys.mp (h.closes.later.keys ▸ hstored r hr)
    have hstatus : stored.status = .closed := by
      by_contra hunclosed
      exact Bool.false_ne_true (ha.symm.trans (Tables.isOpen_iff.mpr ⟨stored, hfind, hunclosed⟩))
    refine h.orderly _ stored (habsent r hr) hfind hstatus b ?_
    rw [Tables.DependsOn, h.closes.later.dep] at hdep
    exact hdep
  have hy : v.isOpen y = false :=
    Graph.reaches_mem_of_closed (s := fun a => v.isOpen a = false) hclosed hsteps hpath
  exact Bool.false_ne_true ((h.closes.later.isOpen hy).symm.trans hopen)

/-- How many rows the forced pass closes. -/
theorem Imported.exceptionClosed (h : x.Imported parse t report w) (hwf : WellFormed w)
    (hdistinct : x.keys.Nodup) (habsent : ∀ row ∈ x.rows, x.key row ∉ t.issue.keys) :
    report.exceptionClosed =
      ((x.rows.filter fun row => asked row = .closed ∧ x.Waits w (x.key row)).length : Nat) := by
  obtain ⟨v, forced, hforced, hcount⟩ := h.forced
  have hstored : ∀ row ∈ x.rows, x.key row ∈ w.issue.keys := fun row hrow =>
    (h.keys _).mpr (Or.inr (key_mem_keys hrow))
  have hnodup : x.rows.Nodup := hdistinct.of_map
  have hperm : forced.Perm (x.rows.filter fun row => asked row = .closed ∧
      x.Waits w (x.key row)) := by
    refine (List.perm_ext_iff_of_nodup (hnodup.sublist hforced.sublist) (hnodup.filter _)).mpr
      fun row => ?_
    rw [List.mem_filter, decide_eq_true_iff]
    constructor
    · intro hrow
      exact ⟨hforced.sublist.subset hrow, hforced.closed row hrow, hforced.waits hwf hrow⟩
    · rintro ⟨hrow, hasked, hwaits⟩
      exact hforced.of_waits habsent hstored hrow hasked hwaits
  rw [hcount, hperm.length_eq]

end Export

section Landing

variable {cfg : Config} {env : Env} {project : String} {rename : Option (String × String)}
  {rows : List Value} {s : Locked Tables}

/-- A sound export is imported: every issue ends with the status of its row, and what was closed
by force is what waits for an issue that is not closed. -/
theorem import_lands_statuses (hs : Reachable cfg s) (hhealthy : s.poisoned = false)
    (h : (exportOf project rename rows).Sound env.parseRfc3339 s.state) :
    ∃ report s', Prog.runE (Scope.exec cfg) («import» cfg env project rename rows false) s =
        (.ok report, s') ∧
      (∀ row ∈ (exportOf project rename rows).rows, ∃ issue,
        s'.state.issue.find ((exportOf project rename rows).key row) = some issue ∧
          normalizeStatus (rawStatus row) = .ok issue.status.asStr) ∧
      report.exceptionClosed = (((exportOf project rename rows).rows.filter fun row =>
        asked row = .closed ∧ (exportOf project rename rows).Waits s'.state
          ((exportOf project rename rows).key row)).length : Nat) := by
  obtain ⟨report, hrun⟩ := returned_of_isOk
    ((@import_isOk_iff cfg _ _ _ _ _ hhealthy hs.wellFormed).mpr (h.importable hs.wellFormed))
  obtain ⟨himported, hunder⟩ := Export.imported_of_returned hs.wellFormed hrun
  refine ⟨report, _, hrun, fun row hrow => ?_,
    himported.exceptionClosed hunder.graph h.distinct h.absent⟩
  have hstatus := himported.done.status_of_new hunder.advances h.distinct hrow (h.absent row hrow)
  obtain ⟨issue, hissue, hasked⟩ := Option.map_eq_some_iff.mp hstatus
  obtain ⟨status, hok⟩ := (h.readable row hrow).status
  exact ⟨issue, hissue, by rw [hok, hasked, asked_asStr hok]⟩

end Landing

/-! ### A closed row that waits -/

/-- A closed row with one blocker. -/
def closedRow (id title blocker : String) : Value :=
  .obj [("dependencies", .arr [.obj [("depends_on_id", .str blocker)]]), ("id", .str id),
    ("status", .str "closed"), ("title", .str title)]

/-- A store with two projects, the second of which has an issue. -/
def taken : Locked Tables :=
  Action.run {} [.op (.ensureProject "demo" "/tmp/demo" "demo" 0),
    .op (.ensureProject "other" "/tmp/other" "other" 0),
    .importJsonl still "other" none [plainRow "demo-a" "one"] false] (opened "s")

/-- A closed row and the open row that blocks it. -/
def closedPastBlocker : List Value := [closedRow "demo-a" "done" "demo-b", plainRow "demo-b" "one"]

theorem sound_closedPastBlocker :
    (exportOf "demo" none closedPastBlocker).Sound still.parseRfc3339 demo.state := by
  have hroots : ∀ row ∈ (exportOf "demo" none closedPastBlocker).rows,
      (row.field "parent_id").asStr = none ∧ row.get "created_at" = none := by decide
  have hedges : ∀ row ∈ (exportOf "demo" none closedPastBlocker).rows,
      ∀ b ∈ (exportOf "demo" none closedPastBlocker).blockers row,
        (exportOf "demo" none closedPastBlocker).key row = "demo-a" ∧ b = "demo-b" := by decide
  have hreadable : ∀ row ∈ closedPastBlocker, Readable row :=
    List.forall_mem_cons.mpr ⟨⟨by decide, "closed", rfl⟩,
      List.forall_mem_singleton.mpr ⟨by decide, "open", rfl⟩⟩
  refine ⟨by decide, fun row hrow => hreadable row (List.mem_filter.mp hrow).1, fun row hrow => ?_,
    by decide, by decide, Export.parentsInPlace_of_roots fun row hrow => (hroots row hrow).1,
    fun a ha => ?_⟩
  · rw [(hroots row hrow).2]
    trivial
  · obtain ⟨b, ⟨row, hrow, rfl, hb⟩, -⟩ := Relation.TransGen.head'_iff.mp ha
    obtain ⟨c, -, row', hrow', rfl, hkey⟩ := Relation.TransGen.tail'_iff.mp ha
    exact absurd ((hedges row hrow b hb).1.symm.trans (hedges row' hrow' _ hkey).2) (by decide)

theorem one_row_waits :
    ∃ report s', Prog.runE (Scope.exec {}) («import» {} still "demo" none closedPastBlocker false)
        demo = (.ok report, s') ∧
      (∀ row ∈ (exportOf "demo" none closedPastBlocker).rows, ∃ issue,
        s'.state.issue.find ((exportOf "demo" none closedPastBlocker).key row) = some issue ∧
          normalizeStatus (rawStatus row) = .ok issue.status.asStr) ∧
      report.exceptionClosed = (((exportOf "demo" none closedPastBlocker).rows.filter fun row =>
        asked row = .closed ∧ (exportOf "demo" none closedPastBlocker).Waits s'.state
          ((exportOf "demo" none closedPastBlocker).key row)).length : Nat) :=
  @import_lands_statuses {} still "demo" none closedPastBlocker demo reachable_demo (by decide)
    sound_closedPastBlocker

example :
    (Prog.runE (Scope.exec {}) («import» {} still "demo" none closedPastBlocker false) demo).1 =
      .ok { imported := 2, exceptionClosed := 1, deps := 1 } := by decide

/-- An id that an issue of another project has is a conflict, and a parent is not renamed. -/
theorem sound_export_refused :
    Reachable {} taken ∧ taken.poisoned = false ∧ "demo" ∈ taken.state.project.keys ∧
      (taken.state.issue.find "demo-a").map IssueRow.project = some "other" ∧
      (Prog.runE (Scope.exec {}) («import» {} still "demo" none [plainRow "demo-a" "one"] false)
        taken).1.isOk = false ∧
      Reachable {} demo ∧
      (Prog.runE (Scope.exec {}) («import» {} still "demo" (some ("demo", "pkpro"))
        [plainRow "demo-a" "parent", childRow "demo-b" "child" "demo-a"] false)
        demo).1.isOk = false :=
  ⟨⟨"s", _, rfl⟩, by decide, by decide, by decide, by decide, reachable_demo, by decide⟩

end Marbles.Jsonl
