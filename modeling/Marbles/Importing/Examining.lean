import Marbles.Importing.Export

/-!
# When an export can be imported

`Importable` are the conditions under which all four phases go through: they are about the
rows and the store before the import, and they still hold of whatever the store has become
when the import is cut. Phase 0 decides the first two of them and builds the map of ids.

The conditions are closed under advancing the store by any part of the import, and that is what
makes a second run possible. Each of them is therefore about something no write of the importer
changes, or changes only in the direction that keeps it.
-/

namespace Marbles.Jsonl

open Json (Value Object)
open Db Importing

/-- A timestamp that is read without an error. -/
def ValidTimestamp (parse : String → Except String Int) : Option Value → Prop
  | none | some .null => True
  | some (.str text) => ∃ n, parse text = .ok n
  | some (.num n) => (Value.num n).asI64.isSome = true
  | some _ => False

/-- A row with an id and a status of the table. -/
structure Readable (row : Value) : Prop where
  id : ((row.field "id").asStr).isSome = true
  status : ∃ status, normalizeStatus (rawStatus row) = .ok status

namespace Export

variable (x : Export)

/-- An issue that is stored under the id of a row is a copy that this importer made. -/
def Mine (t : Tables) (row : Value) : Prop :=
  ∀ stored, t.issue.find (x.key row) = some stored →
    stored.project = x.project ∧ Marked stored.metadata

/-- The issue of a row can be created when the rows before it have been. -/
structure Insertable (parse : String → Except String Int) (t : Tables) (before : List Value)
    (row : Value) : Prop where
  project : x.project ∈ t.project.keys
  createdAt : ValidTimestamp parse (row.get "created_at")
  parent : ∀ p, (row.field "parent_id").asStr = some p →
    p ∈ before.map x.key ∨ ∃ stored, t.issue.find p = some stored ∧ stored.project = x.project

/-- The rows that create an issue can do so in the order of the file. -/
def Placed (parse : String → Except String Int) (t : Tables) : Prop :=
  ∀ before row after, x.rows = before ++ row :: after → x.key row ∉ t.issue.keys →
    x.key row ∉ before.map x.key → x.Insertable parse t before row

/-- Everything an import of this file asks of the store before it starts. -/
structure Importable (parse : String → Except String Int) (t : Tables) : Prop where
  readable : ∀ row ∈ x.rows, Readable row
  mine : ∀ row ∈ x.rows, x.Mine t row
  placed : x.Placed parse t
  acyclic : Graph.Acyclic (x.DependsAt t)

variable {x} {t t' : Tables} {parse : String → Except String Int}

/-- The content of a stored issue is the one that was to be expected. -/
theorem Advances.content_of_find (h : x.Advances t t') {id : String} {stored : IssueRow}
    (hstored : t'.issue.find id = some stored) : x.contentAt t id = some stored.content := by
  rw [← h.content, contentAt, hstored]
  rfl

theorem Advances.mine (h : x.Advances t t') (hmine : ∀ row ∈ x.rows, x.Mine t row) :
    ∀ row ∈ x.rows, x.Mine t' row := by
  intro row hrow stored hstored
  have hcontent := h.content_of_find hstored
  rw [contentAt] at hcontent
  cases hold : t.issue.find (x.key row) with
  | some old =>
      rw [hold, Option.map_some, Option.some_or] at hcontent
      obtain ⟨hproject, hmarked⟩ := hmine row hrow old hold
      have heq := Option.some.inj hcontent
      have hmetadata : old.metadata = stored.metadata := congrArg Content.metadata heq
      exact ⟨(congrArg Content.project heq).symm.trans hproject, hmetadata ▸ hmarked⟩
  | none =>
      rw [hold, Option.map_none, Option.none_or] at hcontent
      obtain ⟨first, -, heq⟩ := Option.map_eq_some_iff.mp hcontent
      have hmetadata : Value.obj (storedMetadata first) = stored.metadata :=
        congrArg Content.metadata heq
      exact ⟨(congrArg Content.project heq).symm, hmetadata ▸ marked_storedMetadata first⟩

theorem Insertable.advances {before : List Value} {row : Value}
    (h : x.Insertable parse t before row)
    (ha : x.Advances t t') : x.Insertable parse t' before row where
  project := ha.project ▸ h.project
  createdAt := h.createdAt
  parent := fun p hp => (h.parent p hp).imp_right fun ⟨stored, hstored, hproject⟩ => by
    obtain ⟨stored', hstored', heq⟩ := ha.kept p stored hstored
    exact ⟨stored', hstored', (congrArg Content.project heq).trans hproject⟩

/-- What can be imported can be imported from wherever the import was cut. -/
theorem Importable.advances (h : x.Importable parse t) (ha : x.Advances t t') :
    x.Importable parse t' where
  readable := h.readable
  mine := ha.mine h.mine
  placed := fun before row after hrows hnew hfirst =>
    (h.placed before row after hrows (fun hold => hnew (ha.keys hold)) hfirst).advances ha
  acyclic := h.acyclic.mono fun a b hab => (ha.edges a b).mp hab

end Export

/-! ### The map of ids -/

@[simp] theorem IdMap.lookup_insert (m : IdMap) (original id k : String) :
    (m.insert original id).lookup k = if k = original then some id else m.lookup k := by
  have hfilter : ∀ l : IdMap, k ≠ original →
      (l.filter fun e => e.1 ≠ original).lookup k = l.lookup k := by
    intro l hk
    induction l with
    | nil => rfl
    | cons e l ih =>
        obtain ⟨o, i⟩ := e
        rw [List.filter_cons, Table.lookup_cons]
        by_cases ho : o = original
        · subst ho
          rw [if_neg (by simp), if_neg hk, ih]
        · rw [if_pos (by simpa using ho), Table.lookup_cons, ih]
  rw [IdMap.insert, Table.lookup_cons]
  split
  · rfl
  · rename_i hk
    exact hfilter m hk

namespace Export

variable {x : Export} {t : Tables}

/-- The map of the ids of these rows. -/
def Maps (x : Export) (rows : List Value) (ids : IdMap) : Prop :=
  ∀ raw, ids.lookup raw = if raw ∈ rows.map originalId then some (mapped x.rename raw) else none

theorem Maps.storedId {ids : IdMap} {rows : List Value} {row : Value} (h : x.Maps rows ids)
    (hrow : row ∈ rows) : storedId ids row = pure (x.key row) := by
  rw [Jsonl.storedId, h, if_pos (List.mem_map_of_mem hrow)]
  rfl

theorem Maps.edgeTarget {ids : IdMap} {rows : List Value} (h : x.Maps rows ids) (target : String) :
    edgeTarget x.rename ids target = mapped x.rename
    ((stripPrefix "memory:" target).getD target) := by
  simp only [Jsonl.edgeTarget]
  rw [h]
  split <;> rfl

/-! ### Phase 0 -/

variable {cfg : Config}

/-- What has been found out about these rows in a store. Nothing has been written so far, hence all
of it is about the store as it was found. -/
structure Examined (x : Export) (t : Tables) (rows : List Value) (report : ImportReport)
    (ids : IdMap) : Prop where
  readable : ∀ row ∈ rows, Readable row
  ids : x.Maps rows ids
  conflicts : report.conflicts = [] ↔ ∀ row ∈ rows, x.Mine t row
  unchanged : report.conflicts = [] →
    report.unchanged = (((rows.map x.key).filter (· ∈ t.issue.keys)).length : Nat)
  created : report.imported = 0
  forced : report.exceptionClosed = 0

theorem Maps.snoc {ids : IdMap} {rows : List Value} {row : Value} {raw : String}
    (h : x.Maps rows ids) (hraw : (row.field "id").asStr = some raw) :
    x.Maps (rows ++ [row]) (ids.insert raw (mapped x.rename raw)) := by
  intro k
  have horiginal : originalId row = raw := by rw [originalId, hraw]; rfl
  rw [IdMap.lookup_insert, h, List.map_append, List.map_singleton, horiginal]
  by_cases hk : k = raw
  · subst hk
    rw [if_pos rfl, if_pos (List.mem_append_right _ (List.mem_singleton_self _))]
  · rw [if_neg hk]
    congr 1
    rw [List.mem_append, List.mem_singleton, eq_iff_iff]
    exact ⟨Or.inl, fun h => h.resolve_right hk⟩

/-- One more row, whose issue is not stored or is a copy. -/
theorem Examined.pass {rows : List Value} {report : ImportReport} {ids ids' : IdMap} {row : Value}
    {n : Nat} (h : x.Examined t rows report ids) (hreadable : Readable row)
    (hids : x.Maps (rows ++ [row]) ids') (hmine : x.Mine t row)
    (hn : ([x.key row].filter (· ∈ t.issue.keys)).length = n) :
    x.Examined t (rows ++ [row]) { report with unchanged := report.unchanged + n } ids' where
  readable := fun r hr => (List.mem_append.mp hr).elim (h.readable r) fun hr =>
    List.mem_singleton.mp hr ▸ hreadable
  ids := hids
  conflicts := by
    refine h.conflicts.trans ⟨fun hall r hr => ?_, fun hall r hr =>
      hall r (List.mem_append_left _ hr)⟩
    exact (List.mem_append.mp hr).elim (hall r) fun hr => List.mem_singleton.mp hr ▸ hmine
  unchanged := fun hnone => by
    change report.unchanged + n = _
    rw [h.unchanged hnone, List.map_append, List.filter_append, List.length_append,
      List.map_singleton, hn]
    push_cast
    rfl
  created := h.created
  forced := h.forced

/-- One more row, whose issue is somebody else's. -/
theorem Examined.conflict {rows : List Value} {report : ImportReport} {ids ids' : IdMap}
    {row : Value} (h : x.Examined t rows report ids) (hreadable : Readable row)
    (hids : x.Maps (rows ++ [row]) ids') (hmine : ¬ x.Mine t row) (message : String) :
    x.Examined t (rows ++ [row]) { report with conflicts := report.conflicts ++ [message] }
        ids' where
  readable := fun r hr => (List.mem_append.mp hr).elim (h.readable r) fun hr =>
    List.mem_singleton.mp hr ▸ hreadable
  ids := hids
  conflicts := iff_of_false (by simp) fun hall =>
    hmine (hall row (List.mem_append_right _ (List.mem_singleton_self _)))
  unchanged := fun hnone => absurd hnone (by simp)
  created := h.created
  forced := h.forced

theorem runs_examineRow {rows : List Value} {report : ImportReport} {ids : IdMap} {row : Value}
    (h : x.Examined t rows report ids) :
    Runs (Scope.exec cfg) (fun u => u = t)
    (fun (acc : ImportReport × IdMap) _ => x.Examined t (rows ++ [row]) acc.1 acc.2)
      (fun _ _ => ¬ Readable row) (examineRow x.project x.rename (report, ids) row) t := by
  unfold examineRow
  -- A row without an id or with an unknown status is refused, and a readable one is passed, counted
  -- as unchanged or noted as a conflict.
  cases hraw : (row.field "id").asStr with
  | none => exact .fail rfl fun hread => by simpa [hraw] using hread.id
  | some raw =>
      have horiginal : originalId row = raw := by rw [originalId, hraw]; rfl
      have hkey : x.key row = mapped x.rename raw := by rw [key, horiginal]
      cases hstatus : normalizeStatus (rawStatus row) with
      | error e =>
          refine Runs.bind (q := fun _ _ => False) (.fail rfl fun hread => ?_) fun _ _ _ =>
            False.elim
          obtain ⟨status, hok⟩ := hread.status
          exact absurd (hok.symm.trans hstatus) nofun
      | ok status =>
          have hreadable : Readable row := ⟨by rw [hraw]; rfl, status, hstatus⟩
          have hids := h.ids.snoc hraw
          refine Runs.bind (q := fun _ u => u = t) (.pure rfl rfl) ?_
          rintro _ u - rfl
          refine runs_attempt (runs_get rfl (fun stored hstored => ?_) fun hnone => ?_)
          · rw [← hkey] at hstored
            have hkeys := Table.mem_keys_of_find hstored
            refine .ite (fun hmine => .pure rfl ?_) fun hforeign => .pure rfl ?_
            · refine h.pass hreadable hids (fun other hother => ?_) (by simp [hkeys])
              exact Option.some.inj (hstored.symm.trans hother) ▸ hmine
            · exact h.conflict hreadable hids (fun hmine => hforeign (hmine stored hstored)) _
          · rw [← hkey] at hnone
            have hpass := h.pass (n := 0) hreadable hids
              (fun other hother => absurd (hother.symm.trans hnone) nofun)
              (by simp [Table.find_eq_none.mp hnone])
            refine .pure rfl ?_
            rwa [Nat.cast_zero, Int.add_zero] at hpass

/-- Phase 0 reads every row, writes nothing, and fails when a row cannot be read. -/
theorem runs_examine (x : Export) (t : Tables) :
    Runs (Scope.exec cfg) (fun u => u = t)
      (fun (acc : ImportReport × IdMap) _ => x.Examined t x.rows acc.1 acc.2)
      (fun _ _ => ¬ ∀ row ∈ x.rows, Readable row)
      (x.rows.zipIdx.foldlM (fun acc r => examineRow x.project x.rename acc r.1) ({}, [])) t := by
  refine Runs.foldlM_zipIdx (q := fun pre (acc : ImportReport × IdMap) _ =>
    x.Examined t pre acc.1 acc.2) rfl ⟨by simp, fun raw => rfl, by simp, fun _ => rfl, rfl, rfl⟩ ?_
  rintro pre row post index ⟨report, ids⟩ u hsplit rfl h
  refine (runs_examineRow h).mono (fun _ hu => hu) (fun _ _ _ hacc => hacc)
    fun e v _ hbad hall => ?_
  exact hbad (hall row (hsplit ▸ List.mem_append_right _ (List.mem_cons_self ..)))

end Export

end Marbles.Jsonl
