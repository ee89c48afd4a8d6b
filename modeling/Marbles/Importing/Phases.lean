import Marbles.Importing.Examining

/-!
# Creating the issues and adding the edges

Phases 1 and 2 of the JSONL importer, as loops that advance the store row by row. A row
whose issue cannot be created, or an edge that is refused, shows that the export cannot be
imported: the store had already been advanced by what the importer itself wrote, and that
never stands in its way.

Both loops are proved by the same rule: after a part of the rows, the store has been advanced by
that part. What can go wrong in a turn is matched with one of the conditions for importing, which
is how a failure in the middle becomes a statement about the export.
-/

namespace Marbles.Jsonl

open Json (Value Object)
open Db Importing

/-- The ways to split a list with one more item. -/
theorem concat_eq_split {α : Type} {xs before after : List α} {x y : α}
    (h : xs ++ [x] = before ++ y :: after) :
    (∃ rest, after = rest ++ [x] ∧ xs = before ++ y :: rest) ∨ (before = xs ∧ y = x) := by
  rcases List.eq_nil_or_concat after with rfl | ⟨rest, last, rfl⟩
  · obtain ⟨hxs, hx⟩ := List.append_inj' h rfl
    exact Or.inr ⟨hxs.symm, (List.singleton_inj.mp hx).symm⟩
  · rw [List.concat_eq_append, ← List.cons_append, ← List.append_assoc] at h
    obtain ⟨hxs, hx⟩ := List.append_inj' h rfl
    refine Or.inl ⟨rest, ?_, hxs⟩
    rw [List.concat_eq_append, (List.singleton_inj.mp hx)]

@[simp] theorem parseTs_isOk {env : Env} {read : ClockRead} {v : Option Value} :
    (∃ n, parseTs env read v = .ok n) ↔ ValidTimestamp env.parseRfc3339 v := by
  cases v with
  | none => exact iff_of_true ⟨_, rfl⟩ trivial
  | some v =>
      cases v with
      | null => exact iff_of_true ⟨_, rfl⟩ trivial
      | str text =>
          cases h : env.parseRfc3339 text with
          | ok n => simp [parseTs, ValidTimestamp, h]
          | error e => simp [parseTs, ValidTimestamp, h]
      | num n =>
          cases h : (Value.num n).asI64 with
          | some m => simp [parseTs, ValidTimestamp, h]
          | none => simp [parseTs, ValidTimestamp, h]
      | _ => simp [parseTs, ValidTimestamp]

namespace Export

variable {x : Export} {t u : Tables} {cfg : Config} {env : Env}

/-- What holds wherever the import is cut. -/
structure Underway (x : Export) (t u : Tables) : Prop where
  advances : x.Advances t u
  graph : WellFormed u

/-! ### Phase 1 -/

/-- The issues of these rows have been created. -/
structure Created (x : Export) (parse : String → Except String Int) (t : Tables) (rows : List Value)
    (report : ImportReport) (u : Tables) : Prop where
  keys : ∀ id, id ∈ u.issue.keys ↔ id ∈ t.issue.keys ∨ id ∈ rows.map x.key
  imported : (u.issue.keys.length : Int) = t.issue.keys.length + report.imported
  opened : ∀ id row, id ∉ t.issue.keys → u.issue.find id = some row → row.status = .«open»
  placed : ∀ before row after, rows = before ++ row :: after → x.key row ∉ t.issue.keys →
    x.key row ∉ before.map x.key → x.Insertable parse t before row

theorem Created.skip {rows : List Value} {report report' : ImportReport} {row : Value}
    {parse : String → Except String Int} (h : x.Created parse t rows report u)
    (hreport : report'.imported = report.imported) (hstored : x.key row ∈ u.issue.keys) :
    x.Created parse t (rows ++ [row]) report' u where
  keys := fun id => by
    rw [h.keys, List.map_append, List.mem_append, ← or_assoc, List.map_singleton,
      List.mem_singleton]
    refine (or_iff_left_of_imp ?_).symm
    rintro rfl
    exact (h.keys _).mp hstored
  imported := hreport ▸ h.imported
  opened := h.opened
  placed := fun before r after hrows hnew hfirst => by
    rcases concat_eq_split hrows with ⟨rest, -, hsplit⟩ | ⟨rfl, rfl⟩
    · exact h.placed before r rest hsplit hnew hfirst
    · exact absurd ((h.keys _).mp hstored) (not_or.mpr ⟨hnew, hfirst⟩)

theorem Created.create {rows : List Value} {report report' : ImportReport} {row : Value}
    {u' : Tables} {available now : Int}
    {parse : String → Except String Int} (h : x.Created parse t rows report u)
    (hreport : report'.imported = report.imported + 1)
    (hfresh : u.issue.find (x.key row) = none)
    (hissue : u'.issue = u.issue.insert (x.key row)
      (newRow (specOf x.project (x.key row) row) x.project available (storedMetadata row) now))
    (hplaced : x.Insertable parse t rows row) : x.Created parse t (rows ++ [row]) report' u' where
  -- The row just created is the last one so far, and its id is new to the table.
  keys := fun id => by
    rw [hissue, Table.mem_keys_insert, h.keys, List.map_append, List.mem_append, List.map_singleton,
      List.mem_singleton]
    tauto
  imported := by
    have hlength : u'.issue.keys.length = u.issue.keys.length + 1 := by
      rw [hissue, Table.keys, Table.rows_insert_new hfresh, List.map_append, List.length_append]
      rfl
    rw [hlength, hreport]
    push_cast
    rw [h.imported]
    omega
  opened := fun id r hid hr => by
    by_cases hkey : id = x.key row
    · rw [hkey, hissue, Table.find_insert_new hfresh] at hr
      cases hr
      rfl
    · rw [hissue, Table.find_insert_ne hkey] at hr
      exact h.opened id r hid hr
  placed := fun before r after hrows hnew hfirst => by
    rcases concat_eq_split hrows with ⟨rest, -, hsplit⟩ | ⟨rfl, rfl⟩
    · exact h.placed before r rest hsplit hnew hfirst
    · exact hplaced

/-- A row that may create its issue now is one that was to be placed. -/
theorem Created.creatable {rows : List Value} {report : ImportReport} {row : Value}
    {parse : String → Except String Int} (h : x.Created parse t rows report u)
    (hunder : x.Underway t u) (hmine : ∀ r ∈ x.rows, x.Mine t r) (hrows : ∀ r ∈ rows, r ∈ x.rows)
    (hfresh : u.issue.find (x.key row) = none) :
    Creatable u x.project (row.field "parent_id").asStr (x.key row) ↔
      x.project ∈ t.project.keys ∧ ∀ p, (row.field "parent_id").asStr = some p →
        p ∈ rows.map x.key ∨ ∃ stored, t.issue.find p = some stored ∧
        stored.project = x.project := by
  have hparent : ∀ p, (∃ stored, u.issue.find p = some stored ∧ stored.project = x.project) ↔
      p ∈ rows.map x.key ∨ ∃ stored, t.issue.find p = some stored ∧ stored.project = x.project := by
    intro p
    constructor
    · rintro ⟨stored, hstored, hproject⟩
      refine ((h.keys p).mp (Table.mem_keys_of_find hstored)).symm.imp_right fun hold => ?_
      obtain ⟨old, hold⟩ := Table.mem_keys.mp hold
      obtain ⟨stored', hstored', heq⟩ := hunder.advances.kept p old hold
      obtain rfl := Option.some.inj (hstored.symm.trans hstored')
      exact ⟨old, hold, (congrArg Content.project heq).symm.trans hproject⟩
    · rintro (hp | ⟨old, hold, hproject⟩)
      · obtain ⟨stored, hstored⟩ := Table.mem_keys.mp ((h.keys p).mpr (Or.inr hp))
        obtain ⟨r, hr, rfl⟩ := List.mem_map.mp hp
        exact ⟨stored, hstored, (hunder.advances.mine hmine r (hrows r hr) stored hstored).1⟩
      · obtain ⟨stored, hstored, heq⟩ := hunder.advances.kept p old hold
        exact ⟨stored, hstored, (congrArg Content.project heq).trans hproject⟩
  constructor
  · intro hc
    exact ⟨hunder.advances.project ▸ hc.exists_project, fun p hp =>
      (hparent p).mp (hc.exists_parent p hp)⟩
  · rintro ⟨hproject, hparents⟩
    exact ⟨hunder.advances.project ▸ hproject, fun p hp => (hparent p).mpr (hparents p hp), hfresh⟩

theorem runs_createRow {rows post : List Value} {report : ImportReport} {ids : IdMap}
    {row : Value} {index : Nat} (hids : x.Maps x.rows ids) (hrows : x.rows = rows ++ row :: post)
    (hmine : ∀ r ∈ x.rows, x.Mine t r)
    (hunder : x.Underway t u) (h : x.Created env.parseRfc3339 t rows report u) :
    Runs (Scope.exec cfg) (x.Underway t)
      (fun report' u' => x.Created env.parseRfc3339 t (rows ++ [row]) report' u' ∧
        report'.unchanged = report.unchanged ∧ report'.exceptionClosed = report.exceptionClosed)
      (fun _ _ => ¬ x.Importable env.parseRfc3339 t)
      (createRow cfg env x.project ids report (row, index)) u := by
  have hrow : row ∈ x.rows := hrows ▸ List.mem_append_right _ (List.mem_cons_self ..)
  unfold createRow
  dsimp only
  rw [hids.storedId hrow, pure_bind]
  generalize hreport : (if x.key row ≠ originalId row then
    { report with renamed := report.renamed + 1 } else report) = report'
  have hcounts : report'.imported = report.imported ∧ report'.unchanged = report.unchanged ∧
      report'.exceptionClosed = report.exceptionClosed := by
    subst hreport
    split <;> exact ⟨rfl, rfl, rfl⟩
  -- A row whose id is there already is skipped; a new one is created, and fails only when its
  -- creation time or its place in the store forbids it.
  refine runs_attempt (runs_get hunder (fun stored hstored => ?_) fun hfresh => ?_)
  · exact .pure hunder ⟨h.skip hcounts.1 (Table.mem_keys_of_find hstored), hcounts.2⟩
  · have hnew : x.key row ∉ t.issue.keys ∧ x.key row ∉ rows.map x.key :=
      not_or.mp (mt (h.keys _).mpr (Table.find_eq_none.mp hfresh))
    have hbefore : ∀ r ∈ rows, r ∈ x.rows := fun r hr => hrows ▸ List.mem_append_left _ hr
    have hcreatable := h.creatable hunder hmine hbefore hfresh
    cases hts : parseTs env (.createdAt index) (row.get "created_at") with
    | error e =>
        refine Runs.bind (q := fun _ _ => False) (.fail hunder fun himportable => ?_)
          fun _ _ _ => False.elim
        obtain ⟨n, hn⟩ := parseTs_isOk.mpr
          (himportable.placed rows row post hrows hnew.1 hnew.2).createdAt
        exact absurd (hn.symm.trans hts) nofun
    | ok createdAt =>
        refine Runs.bind (q := fun n v => n = createdAt ∧ v = u) (.pure hunder ⟨rfl, rfl⟩) ?_
        rintro _ v - ⟨rfl, rfl⟩
        refine Runs.bind (runs_orElseFail (runs_create rfl rfl (storedMetadata_specOf ..) hunder
          (fun hc available v' hissue hdep hproject => ?_) fun hc _ himportable => ?_))
          fun _ v' hv hcreated => .pure hv hcreated
        · have hfirst : (x.rowsOf (x.key row)).head? = some row := by
            have hnone : (rows.filter fun r => x.key r = x.key row) = [] :=
              List.filter_eq_nil_iff.mpr fun r hr => by
                have hne : x.key r ≠ x.key row := fun heq => hnew.2 (heq ▸ List.mem_map_of_mem hr)
                simpa using hne
            rw [rowsOf, hrows, List.filter_append, hnone, List.filter_cons_of_pos (by simp)]
            rfl
          have hinsert : x.Insertable env.parseRfc3339 t rows row :=
            ⟨(hcreatable.mp hc).1, parseTs_isOk.mp ⟨_, hts⟩, (hcreatable.mp hc).2⟩
          have hadvances := hunder.advances.trans (.create hissue hdep hproject hfresh hfirst)
          refine ⟨⟨hadvances, hunder.graph.frame (fun k hk => ?_) hdep⟩,
            h.create (congrArg (· + 1) hcounts.1) hfresh hissue hinsert, hcounts.2⟩
          rw [hissue]
          exact Table.mem_keys_insert.mpr (Or.inr hk)
        · have hinsert := himportable.placed rows row post hrows hnew.1 hnew.2
          exact hc (hcreatable.mpr ⟨hinsert.project, hinsert.parent⟩)

theorem created_nil (parse : String → Except String Int) {report : ImportReport}
    (hreport : report.imported = 0) : x.Created parse t [] report t where
  keys := fun id => by simp
  imported := by rw [hreport, Int.add_zero]
  opened := fun id row hid hrow => absurd (Table.mem_keys_of_find hrow) hid
  placed := fun before row after hrows => absurd hrows.symm (by simp)

/-- Phase 1 creates the issues that are not stored. -/
theorem runs_create {report : ImportReport} {ids : IdMap} (hids : x.Maps x.rows ids)
    (hmine : ∀ r ∈ x.rows, x.Mine t r) (hwf : WellFormed t)
    (hreport : report.imported = 0) :
    Runs (Scope.exec cfg) (x.Underway t)
      (fun report' u => x.Created env.parseRfc3339 t x.rows report' u ∧
        report'.unchanged = report.unchanged ∧ report'.exceptionClosed = report.exceptionClosed)
      (fun _ _ => ¬ x.Importable env.parseRfc3339 t)
      (x.rows.zipIdx.foldlM (createRow cfg env x.project ids) report) t := by
  refine Runs.foldlM_zipIdx (q := fun pre report' u =>
    x.Created env.parseRfc3339 t pre report' u ∧
      report'.unchanged = report.unchanged ∧ report'.exceptionClosed = report.exceptionClosed)
    ⟨.refl x t, hwf⟩ ⟨created_nil _ hreport, rfl, rfl⟩ ?_
  rintro pre row post index report' u hrows hunder ⟨hcreated, hunchanged, hforced⟩
  exact (runs_createRow hids hrows hmine hunder hcreated).imp fun report'' v _ h =>
    ⟨h.1, h.2.1.trans hunchanged, h.2.2.trans hforced⟩

/-! ### Phase 2 -/

/-- The counters that phases 2 and 3 leave alone. -/
structure SameCounts (report report' : ImportReport) : Prop where
  imported : report'.imported = report.imported
  unchanged : report'.unchanged = report.unchanged
  forced : report'.exceptionClosed = report.exceptionClosed

theorem SameCounts.refl (report : ImportReport) : SameCounts report report := ⟨rfl, rfl, rfl⟩

theorem SameCounts.trans {report report' report'' : ImportReport} (h : SameCounts report report')
    (h' : SameCounts report' report'') : SameCounts report report'' :=
  ⟨h'.imported.trans h.imported, h'.unchanged.trans h.unchanged, h'.forced.trans h.forced⟩

/-- `u` is `v` with edges added, and the edges `e` are among them where both ends are stored. -/
structure Linked (v : Tables) (e : String → String → Prop) (u : Tables) : Prop where
  keys : u.issue.keys = v.issue.keys
  status : ∀ id, (u.issue.find id).map IssueRow.status = (v.issue.find id).map IssueRow.status
  edges : ∀ a b, e a b → b ∈ v.issue.keys → u.DependsOn a b

theorem Linked.touch {v u u' : Tables} {e e' : String → String → Prop} {child parent : String}
    {now : Int} (h : Linked v e u)
    (hissue : u'.issue = u.issue.modify child fun row => { row with updatedAt := now })
    (hdep : u'.dep = u.dep.insert (child, parent) ())
    (he : ∀ a b, e' a b → e a b ∨ (a = child ∧ b = parent)) : Linked v e' u' where
  keys := by rw [hissue, Table.keys_modify, h.keys]
  status := fun id => by
    rw [← h.status, hissue, Table.find_modify]
    split
    · rw [Option.map_map]
      rfl
    · rfl
  edges := fun a b hab hb => by
    rw [Tables.DependsOn, hdep, Table.mem_keys_insert, Prod.mk.injEq]
    exact (he a b hab).symm.imp_right fun hab => h.edges a b hab hb

theorem Linked.skip {v u : Tables} {e e' : String → String → Prop} (h : Linked v e u)
    (he : ∀ a b, e' a b → e a b ∨ b ∉ v.issue.keys) : Linked v e' u where
  keys := h.keys
  status := h.status
  edges := fun a b hab hb => h.edges a b ((he a b hab).resolve_right (not_not.mpr hb)) hb

/-- A refused edge shows that the edges of the export close a cycle. -/
theorem Underway.cyclic {child parent : String} (h : x.Underway t u) (hedge : x.Edge child parent)
    (hparent : parent ∈ u.issue.keys) (hreach : u.reachable parent child = true) :
    ¬ Graph.Acyclic (x.DependsAt t) := by
  intro hacyclic
  have hmono : ∀ a b, u.DependsOn a b → x.DependsAt t a b := fun a b hab =>
    (h.advances.edges a b).mp (Or.inl hab)
  have hpath : Relation.ReflTransGen (x.DependsAt t) parent child :=
    Relation.ReflTransGen.mono hmono _ _ (Tables.reachable_iff.mp hreach)
  have hlast : x.DependsAt t child parent :=
    (h.advances.edges child parent).mp (Or.inr ⟨hedge, Or.inl hparent⟩)
  exact hacyclic child (Relation.TransGen.head' hlast hpath)

theorem runs_linkDep {v : Tables} {e : String → String → Prop} {report : ImportReport} {ids : IdMap}
    {row dep : Value} {n index : Nat} (hids : x.Maps x.rows ids) (hrow : row ∈ x.rows)
    (hdep : dep ∈ (row.field "dependencies").asArray.getD [])
    (hstored : x.key row ∈ v.issue.keys) (hunder : x.Underway t u) (h : Linked v e u) :
    Runs (Scope.exec cfg) (x.Underway t)
      (fun report' u' => SameCounts report report' ∧
        Linked v (fun a b => e a b ∨ (a = x.key row ∧ x.blocker (x.key row) dep = some b)) u')
      (fun _ _ => ¬ Graph.Acyclic (x.DependsAt t))
      (linkDep env x.rename ids (x.key row) n report (dep, index)) u := by
  have hnone : x.blocker (x.key row) dep = none → Linked v (fun a b => e a b ∨
      (a = x.key row ∧ x.blocker (x.key row) dep = some b)) u := fun hblocker =>
    h.skip fun a b hab => Or.inl (hab.resolve_right fun hb => absurd (hblocker.symm.trans hb.2)
      nofun)
  -- A dependency of another type, without a target or on the row itself is passed over; one on a
  -- stored issue is added unless it closes a cycle.
  unfold linkDep
  dsimp only
  refine .ite (fun htype => .pure hunder ⟨.refl _, hnone ?_⟩) fun htype => ?_
  · rw [blocker, if_pos htype]
  cases htarget : (dep.field "depends_on_id").asStr with
  | none =>
      refine .pure hunder ⟨.refl _, hnone ?_⟩
      rw [blocker, if_neg htype, htarget]
      rfl
  | some target =>
      dsimp only
      rw [hids.edgeTarget]
      generalize hparent : mapped x.rename ((stripPrefix "memory:" target).getD target) = parent
      have hblocker : x.blocker (x.key row) dep = (some parent).filter (· ≠ x.key row) := by
        rw [blocker, if_neg htype, htarget, Option.map_some, hparent]
      refine .ite (fun hself => .pure hunder ⟨.refl _, hnone ?_⟩) fun hne => ?_
      · rw [hblocker, Option.filter_some_neg (by simpa using hself)]
      have hsome : x.blocker (x.key row) dep = some parent := by
        rw [hblocker, Option.filter_some_pos (by simpa using hne)]
      have hedge : x.Edge (x.key row) parent :=
        ⟨row, hrow, rfl, List.mem_filterMap.mpr ⟨dep, hdep, hsome⟩⟩
      have hchild : x.key row ∈ u.issue.keys := h.keys ▸ hstored
      refine runs_attempt (runs_addDep hunder hchild (fun _ hparent hreach u' hi hd hp => ?_)
        (fun _ hmissing => ?_) fun hcycle => ?_)
      · refine ⟨⟨hunder.advances.trans (.addDep hi hd hp hedge hparent),
          hunder.graph.addEdge hchild hparent hreach (by rw [hi, Table.keys_modify]) hd⟩, ?_⟩
        refine .pure ⟨hunder.advances.trans (.addDep hi hd hp hedge hparent),
          hunder.graph.addEdge hchild hparent hreach (by rw [hi, Table.keys_modify]) hd⟩
          ⟨⟨rfl, rfl, rfl⟩, h.touch hi hd fun a b hab => hab.imp_right fun hb => ?_⟩
        exact ⟨hb.1, (Option.some.inj (hsome.symm.trans hb.2)).symm⟩
      · refine .pure hunder ⟨⟨rfl, rfl, rfl⟩, h.skip fun a b hab => hab.imp_right fun hb => ?_⟩
        rw [← Option.some.inj (hsome.symm.trans hb.2), ← h.keys]
        exact hmissing
      · obtain ⟨hstored, hreach⟩ := hcycle.resolve_left fun heq => hne heq.symm
        exact .fail hunder (hunder.cyclic hedge hstored hreach)

theorem runs_linkRow {v : Tables} {e : String → String → Prop} {report : ImportReport} {ids : IdMap}
    {row : Value} {index : Nat} (hids : x.Maps x.rows ids) (hrow : row ∈ x.rows)
    (hstored : x.key row ∈ v.issue.keys) (hunder : x.Underway t u) (h : Linked v e u) :
    Runs (Scope.exec cfg) (x.Underway t)
      (fun report' u' => SameCounts report report' ∧
        Linked v (fun a b => e a b ∨ (a = x.key row ∧ b ∈ x.blockers row)) u')
      (fun _ _ => ¬ Graph.Acyclic (x.DependsAt t))
      (linkRow env x.rename ids report (row, index)) u := by
  unfold linkRow
  dsimp only
  rw [hids.storedId hrow, pure_bind]
  refine Runs.foldlM_zipIdx (q := fun pre report' u' => SameCounts report report' ∧
    Linked v (fun a b => e a b ∨ (a = x.key row ∧ b ∈ pre.filterMap (x.blocker (x.key row)))) u')
    hunder ⟨.refl _, h.skip fun a b hab => Or.inl (by simpa using hab)⟩ ?_
  intro pre dep post i report' u' hdeps hunder' ⟨hcounts, hlinked⟩
  have hdep : dep ∈ (row.field "dependencies").asArray.getD [] :=
    hdeps ▸ List.mem_append_right _ (List.mem_cons_self ..)
  refine (runs_linkDep hids hrow hdep hstored hunder' hlinked).imp fun report'' u'' _ h' =>
    ⟨hcounts.trans h'.1, h'.2.skip fun a b hab => Or.inl ?_⟩
  rw [List.filterMap_append, List.mem_append] at hab
  rcases hab with hab | ⟨ha, hb | hb⟩
  · exact Or.inl (Or.inl hab)
  · exact Or.inl (Or.inr ⟨ha, hb⟩)
  · obtain ⟨last, hlast, hblocker⟩ := List.mem_filterMap.mp hb
    obtain rfl := List.mem_singleton.mp hlast
    exact Or.inr ⟨ha, hblocker⟩

/-- Phase 2 adds the edges between stored issues. -/
theorem runs_link {v : Tables} {report : ImportReport} {ids : IdMap} (hids : x.Maps x.rows ids)
    (hstored : ∀ row ∈ x.rows, x.key row ∈ v.issue.keys) (hunder : x.Underway t v) :
    Runs (Scope.exec cfg) (x.Underway t)
      (fun report' u => SameCounts report report' ∧ Linked v x.Edge u)
      (fun _ _ => ¬ Graph.Acyclic (x.DependsAt t))
      (x.rows.zipIdx.foldlM (linkRow env x.rename ids) report) v := by
  refine Runs.foldlM_zipIdx (q := fun pre report' u => SameCounts report report' ∧
    Linked v (fun a b => ∃ row ∈ pre, x.key row = a ∧ b ∈ x.blockers row) u) hunder
    ⟨.refl _, rfl, fun _ => rfl, fun a b ⟨row, hrow, _⟩ => absurd hrow List.not_mem_nil⟩ ?_
  intro pre row post i report' u hrows hunder' ⟨hcounts, hlinked⟩
  have hrow : row ∈ x.rows := hrows ▸ List.mem_append_right _ (List.mem_cons_self ..)
  refine (runs_linkRow hids hrow (hstored row hrow) hunder' hlinked).imp fun report'' u'' _ h =>
    ⟨hcounts.trans h.1, h.2.skip fun a b ⟨r, hr, hkey, hb⟩ => Or.inl ?_⟩
  rcases List.mem_append.mp hr with hr | hr
  · exact Or.inl ⟨r, hr, hkey, hb⟩
  · obtain rfl := List.mem_singleton.mp hr
    exact Or.inr ⟨hkey.symm, hb⟩

end Export

end Marbles.Jsonl
