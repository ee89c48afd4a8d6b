import Mathlib.Data.Finset.Card
import Mathlib.Data.Finset.Dedup
import Marbles.Importing.Verbatim

/-!
# What an import drops

Phase 0 compares the rows with the store but not with each other. Two rows that share a
stored id, because one of them is listed twice or because a renaming makes their ids
meet, become one issue: the first of them creates it and the content of the other is
lost without a conflict.

`Represents` says what the store holds of a row after the import. It is a statement about
both stores, since an issue that an earlier import has left is not rewritten: such an issue
keeps its content, and only a new one has the content of the row. Nothing is dropped exactly
when rows with one stored id are equal and none that is listed twice was stored before, which
would count it twice.

The count is one of the conditions because the report of an import is what an operator sees: rows
that are dropped should show there, and with equal rows under one id they do. Whether anything was
dropped is decided on the rows alone; the store before the import only matters for the count.
-/

namespace Marbles.Jsonl

open Json (Value Object)
open Db Importing

namespace Export

/-- What the import from `t` to `w` has made of a row: the issue `id`, stored as `issue`. The
fields of a row that have no column are in its description, so `content` is all that the importer
reads of a row besides its status, its edges and the time it was created at. -/
structure Describes (x : Export) (parse : String → Except String Int) (t w : Tables)
    (row : Value) (id : String) (issue : IssueRow) : Prop where
  named : x.key row = id
  project : issue.project = x.project
  marked : Marked issue.metadata
  /-- An issue of an earlier import keeps its content, and its status unless it has to move on. -/
  kept : ∀ old, t.issue.find id = some old →
    issue.content = old.content ∧ issue.status = settled old.status [asked row]
  /-- A new issue has what the row has. -/
  fresh : t.issue.find id = none →
    issue.content = x.content row ∧ issue.status = asked row ∧ Dates parse row issue.createdAt
  edges : ∀ b, w.DependsOn id b ↔ t.DependsOn id b ∨ b ∈ x.blockers row ∧ b ∈ w.issue.keys

/-- The issue `id` stands for a row. -/
def Represents (x : Export) (parse : String → Except String Int) (t w : Tables) (row : Value)
    (id : String) : Prop :=
  ∃ issue, w.issue.find id = some issue ∧ x.Describes parse t w row id issue

/-- An issue stands for every row, and different issues for rows with different ids; the counters
account for every id; and no issue stands for two different rows. -/
structure NothingDropped (x : Export) (parse : String → Except String Int) (t : Tables)
    (report : ImportReport) (w : Tables) : Prop where
  held : ∀ row ∈ x.rows, ∃ id, x.Represents parse t w row id
  distinct : ∀ row ∈ x.rows, ∀ row' ∈ x.rows, originalId row ≠ originalId row' → ∀ id id',
    x.Represents parse t w row id → x.Represents parse t w row' id' → id ≠ id'
  counted : report.imported + report.unchanged = ((x.rows.map originalId).dedup.length : Nat)
  faithful : ∀ row ∈ x.rows, ∀ row' ∈ x.rows, ∀ id, x.Represents parse t w row id →
    x.Represents parse t w row' id → row = row'

variable {x : Export} {t w : Tables} {parse : String → Except String Int} {report : ImportReport}

/-- How often an id is listed. -/
@[simp] theorem count_keys (id : String) : x.keys.count id = (x.rowsOf id).length := by
  rw [keys, List.count, List.countP_map, List.countP_eq_length_filter, rowsOf]
  congr 1

/-- The ids that were stored are counted once exactly when none is listed twice. -/
theorem nodup_filter_iff {stored : List String} :
    (x.keys.filter (· ∈ stored)).Nodup ↔ ∀ id ∈ stored, (x.rowsOf id).length ≤ 1 := by
  rw [List.nodup_iff_count_le_one]
  constructor
  · intro h id hid
    have hcount := h id
    rwa [List.count_filter (by simpa using hid), count_keys] at hcount
  · intro h id
    by_cases hid : id ∈ stored
    · rw [List.count_filter (by simpa using hid), count_keys]
      exact h id hid
    · rw [List.count_eq_zero_of_not_mem]
      · exact Nat.zero_le _
      · exact fun hmem => hid (by simpa using (List.mem_filter.mp hmem).2)

/-- Every stored id is imported or was stored. -/
theorem Imported.card (h : x.Imported parse t report w) :
    report.imported = ((x.keys.toFinset \ t.issue.keys.toFinset).card : Nat) := by
  have hunion : w.issue.keys.toFinset = t.issue.keys.toFinset ∪ x.keys.toFinset := by
    ext id
    rw [Finset.mem_union, List.mem_toFinset, List.mem_toFinset, List.mem_toFinset]
    exact h.keys id
  have hw := List.toFinset_card_of_nodup w.issue.keys_nodup
  have ht := List.toFinset_card_of_nodup t.issue.keys_nodup
  rw [hunion, ← Finset.union_sdiff_self_eq_union, Finset.card_union_of_disjoint
    Finset.disjoint_sdiff, ht] at hw
  have himported := h.imported
  rw [← hw] at himported
  push_cast at himported
  omega

theorem length_dedup_iff {l : List String} : l.dedup.length = l.length ↔ l.Nodup :=
  ⟨fun h => List.dedup_eq_self.mp ((List.dedup_sublist l).eq_of_length h),
    fun h => by rw [h.dedup]⟩

/-- Where different ids stay different, the counters account for every id exactly when no
stored id is listed twice. -/
theorem Imported.counted_iff (h : x.Imported parse t report w)
    (hdistinct : ∀ row ∈ x.rows, ∀ row' ∈ x.rows, originalId row ≠ originalId row' →
      x.key row ≠ x.key row') :
    report.imported + report.unchanged = ((x.rows.map originalId).dedup.length : Nat) ↔
      (x.keys.filter (· ∈ t.issue.keys)).Nodup := by
  have hids : (x.rows.map originalId).dedup.length = x.keys.toFinset.card := by
    have himage : x.keys.toFinset = (x.rows.map originalId).toFinset.image (mapped x.rename) := by
      ext id
      simp [key]
    rw [himage, Finset.card_image_of_injOn, List.card_toFinset]
    intro raw hraw raw' hraw' heq
    rw [Finset.mem_coe, List.mem_toFinset] at hraw hraw'
    obtain ⟨row, hrow, rfl⟩ := List.mem_map.mp hraw
    obtain ⟨row', hrow', rfl⟩ := List.mem_map.mp hraw'
    by_contra hne
    exact hdistinct row hrow row' hrow' hne heq
  have hinter : x.keys.toFinset ∩ t.issue.keys.toFinset =
      (x.keys.filter (· ∈ t.issue.keys)).toFinset := by
    ext id
    simp
  have hsplit := Finset.card_sdiff_add_card_inter x.keys.toFinset t.issue.keys.toFinset
  rw [hinter, List.card_toFinset] at hsplit
  rw [h.card, h.unchanged, hids, ← hsplit, ← length_dedup_iff]
  push_cast
  omega

/-! ### What the store holds of a row -/

theorem Represents.key_eq {row : Value} {id : String} (h : x.Represents parse t w row id) :
    x.key row = id := by
  obtain ⟨issue, -, hdescribes⟩ := h
  exact hdescribes.named

/-- Asking for one status several times is asking for it once. -/
@[simp] theorem settled_replicate (status st : Status) (n : Nat) :
    settled status (List.replicate (n + 1) st) = settled status [st] := by
  have hclosed : Status.closed ∈ List.replicate (n + 1) st ↔ Status.closed ∈ [st] := by simp
  have hfirst : (List.replicate (n + 1) st).find? (· ≠ .«open») = [st].find? (· ≠ .«open») := by
    by_cases hst : st = .«open» <;> simp [hst]
  rw [settled, settled, hfirst]
  simp only [hclosed]

/-- The rows of an issue are copies of one if none differs from it. -/
theorem rowsOf_eq_replicate {row : Value} (hrow : row ∈ x.rows)
    (hsame : ∀ row' ∈ x.rowsOf (x.key row), row' = row) :
    ∃ n, x.rowsOf (x.key row) = List.replicate (n + 1) row := by
  have hlength : (x.rowsOf (x.key row)).length ≠ 0 :=
    List.length_pos_iff_exists_mem.mpr ⟨row, mem_rowsOf.mpr ⟨hrow, rfl⟩⟩ |>.ne'
  obtain ⟨n, hn⟩ := Nat.exists_eq_succ_of_ne_zero hlength
  exact ⟨n, List.eq_replicate_iff.mpr ⟨hn, hsame⟩⟩

/-- The issue of a row stands for it, unless another row has its id. -/
theorem Imported.represents (h : x.Imported parse t report w) (hunder : x.Underway t w)
    (hdated : x.Dated parse t w) {row : Value} (hrow : row ∈ x.rows)
    (hsame : ∀ row' ∈ x.rowsOf (x.key row), row' = row) :
    x.Represents parse t w row (x.key row) := by
  obtain ⟨issue, hissue⟩ := Table.mem_keys.mp ((h.keys _).mpr (Or.inr (key_mem_keys hrow)))
  have hmine := hunder.advances.mine h.importable.mine row hrow issue hissue
  have hcontent := hunder.advances.content_of_find hissue
  obtain ⟨n, hrows⟩ := rowsOf_eq_replicate hrow hsame
  have hstatus : x.statusAt t (x.key row) = some issue.status := by
    rw [← hunder.advances.status, h.done.status, hissue]
    rfl
  rw [contentAt, hrows, List.replicate_succ, List.head?_cons] at hcontent
  rw [statusAt, hrows, List.map_replicate] at hstatus
  -- All rows under this id are equal, so the content that was created and the statuses asked for
  -- are this row's.
  refine ⟨issue, hissue, rfl, hmine.1, hmine.2, fun old hold => ?_, fun hnew => ?_, fun b => ?_⟩
  · rw [hold] at hcontent hstatus
    refine ⟨(Option.some.inj hcontent).symm, ?_⟩
    rw [← Option.some.inj hstatus]
    exact settled_replicate ..
  · rw [hnew] at hcontent hstatus
    obtain ⟨dated, hmem, hkey, hdates⟩ := hdated _ issue hissue hnew
    rw [hsame dated (mem_rowsOf.mpr ⟨hmem, hkey⟩)] at hdates
    refine ⟨(Option.some.inj hcontent).symm, ?_, hdates⟩
    rw [← Option.some.inj hstatus]
    exact (settled_replicate ..).trans (settled_singleton _)
  · have hkeys : b ∈ t.issue.keys ∨ b ∈ x.keys ↔ b ∈ w.issue.keys := (h.keys b).symm
    have hedge : x.Edge (x.key row) b ↔ b ∈ x.blockers row := by
      refine ⟨fun hedge => ?_, fun hb => ⟨row, hrow, rfl, hb⟩⟩
      obtain ⟨row', hrow', hkey, hb⟩ := hedge
      rwa [hsame row' (mem_rowsOf.mpr ⟨hrow', hkey⟩)] at hb
    rw [← h.done.edges, hunder.advances.edges, DependsAt, hkeys, hedge]

/-- An import that returned has dropped nothing exactly when rows that share a stored id are equal,
and none of them is listed twice that was stored before. Rows are compared with the store and never
with each other, so the second row of an id is taken for a copy of the first. -/
theorem nothing_dropped_iff {cfg : Config} {env : Env} {project : String}
    {rename : Option (String × String)} {rows : List Value} {s s' : Locked Tables}
    {report : ImportReport} (hs : Reachable cfg s)
    (h : Prog.runE (Scope.exec cfg) («import» cfg env project rename rows false) s =
      (.ok report, s')) :
    (exportOf project rename rows).NothingDropped env.parseRfc3339 s.state report s'.state ↔
      (∀ row ∈ (exportOf project rename rows).rows, ∀ row' ∈ (exportOf project rename rows).rows,
          (exportOf project rename rows).key row = (exportOf project rename rows).key row' →
            row = row') ∧
        ∀ id ∈ s.state.issue.keys, ((exportOf project rename rows).rowsOf id).length ≤ 1 := by
  obtain ⟨himported, hunder⟩ := imported_of_returned hs.wellFormed h
  have hdated : (exportOf project rename rows).Dated env.parseRfc3339 s.state s'.state := by
    have hdated := @import_dated cfg env project rename rows false s
    rwa [h] at hdated
  generalize exportOf project rename rows = x at himported hunder hdated
  rw [← nodup_filter_iff]
  constructor
  · intro hdropped
    -- both rows are represented, and by the issue of their common id
    have hequal : ∀ row ∈ x.rows, ∀ row' ∈ x.rows, x.key row = x.key row' → row = row' := by
      intro row hrow row' hrow' heq
      obtain ⟨id, hid⟩ := hdropped.held row hrow
      obtain ⟨id', hid'⟩ := hdropped.held row' hrow'
      have hids : id' = id := hid'.key_eq.symm.trans (heq.symm.trans hid.key_eq)
      exact hdropped.faithful row hrow row' hrow' id hid (hids ▸ hid')
    refine ⟨hequal, (himported.counted_iff fun row hrow row' hrow' hne heq => ?_).mp
      hdropped.counted⟩
    exact hne (congrArg originalId (hequal row hrow row' hrow' heq))
  · rintro ⟨hequal, hnodup⟩
    have hdistinct : ∀ row ∈ x.rows, ∀ row' ∈ x.rows, originalId row ≠ originalId row' →
        x.key row ≠ x.key row' := fun row hrow row' hrow' hne heq =>
      hne (congrArg originalId (hequal row hrow row' hrow' heq))
    refine ⟨fun row hrow => ⟨x.key row, himported.represents hunder hdated hrow ?_⟩,
      fun row hrow row' hrow' hne id id' hid hid' => ?_,
      (himported.counted_iff hdistinct).mpr hnodup, fun row hrow row' hrow' id hid hid' => ?_⟩
    · intro row' hrow'
      obtain ⟨hmem, hkey⟩ := mem_rowsOf.mp hrow'
      exact hequal row' hmem row hrow hkey
    · rw [← hid.key_eq, ← hid'.key_eq]
      exact hdistinct row hrow row' hrow' hne
    · exact hequal row hrow row' hrow' (hid.key_eq.trans hid'.key_eq.symm)

end Export

/-! ### Two rows -/

/-- Two rows that differ in their titles share an id: the import returns, and the second of
them is nowhere. -/
theorem second_row_dropped :
    Reachable {} demo ∧
      (Prog.runE (Scope.exec {}) («import» {} still "demo" none
        [plainRow "demo-a" "first", plainRow "demo-a" "second"] false) demo).1 =
          .ok { imported := 1 } ∧
      ¬ (∃ id, (exportOf "demo" none [plainRow "demo-a" "first",
        plainRow "demo-a" "second"]).Represents
        still.parseRfc3339 demo.state (Prog.runE (Scope.exec {}) («import» {} still "demo" none
          [plainRow "demo-a" "first", plainRow "demo-a" "second"] false) demo).2.state
        (plainRow "demo-a" "second") id) ∧
      ¬ (exportOf "demo" none [plainRow "demo-a" "first",
        plainRow "demo-a" "second"]).NothingDropped
        still.parseRfc3339 demo.state { imported := 1 }
        (Prog.runE (Scope.exec {}) («import» {} still "demo" none
          [plainRow "demo-a" "first", plainRow "demo-a" "second"] false) demo).2.state := by
  have hnowhere : ¬ ∃ id,
      (exportOf "demo" none [plainRow "demo-a" "first", plainRow "demo-a" "second"]).Represents
        still.parseRfc3339 demo.state (Prog.runE (Scope.exec {}) («import» {} still "demo" none
          [plainRow "demo-a" "first", plainRow "demo-a" "second"] false) demo).2.state
        (plainRow "demo-a" "second") id := by
    rintro ⟨id, issue, hissue, hdescribes⟩
    obtain rfl : "demo-a" = id := hdescribes.named
    have htitle : issue.title = "second" :=
      congrArg Content.title (hdescribes.fresh (by decide)).1
    have hstored := congrArg (Option.map IssueRow.title) hissue
    rw [Option.map_some, htitle] at hstored
    exact absurd hstored (by decide)
  exact ⟨reachable_demo, by decide, hnowhere,
    fun h => hnowhere (h.held (plainRow "demo-a" "second") (by decide))⟩

theorem two_rows_kept :
    (exportOf "demo" none linkedRows).NothingDropped still.parseRfc3339 demo.state
      { imported := 2, deps := 1 }
      (Prog.runE (Scope.exec {}) («import» {} still "demo" none linkedRows false) demo).2.state :=
  (@Export.nothing_dropped_iff {} still "demo" none linkedRows demo _ _ reachable_demo
    (Prod.ext (by decide) rfl)).mpr ⟨by decide, by decide⟩

end Marbles.Jsonl
