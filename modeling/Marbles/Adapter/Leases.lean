import Marbles.Adapter.Simulates

/-!
# Leases and receipts on both stores

Claims, the sweep and the calls that close an issue. The sweep visits the lapsed claims in
an order of its own on each side; no issue is visited twice, so the order shows in no issue
and in no history.

A lease is computed by the same function of the policy on both sides, from columns that agree, so
claims need no more than that the row and the document tell the same. The sweep is compared turn
by turn for one fixed order, and then shown not to depend on it.
-/

namespace Marbles.Adapter

open Json (Value)
open Records (Engine Key)
open Sorting (sortOn)
open Db (Tables IssueRow Tx)

variable {audited : Prop} {s : Inner} {t : Tables} {cfg : Config}

/-! ### Claims -/

theorem runA_projectOf_missing {id : String} (hdoc : s.doc issueKind [id] = none) :
    runA (projectOf id) s = (.error (.fail (.notFound id)), s) := by
  refine (runA_bind_reads (reads_loadIssue id)).trans ?_
  rw [hdoc]
  rfl

theorem reads_projectOf {id : String} {data : Value} (hdoc : s.doc issueKind [id] = some data) :
    Reads (projectOf id) s (textOf "project" data) := by
  refine (reads_loadIssue id).bind ?_
  rw [hdoc]
  exact .pure _

theorem reads_issueVersion {id : String} {v : Records.Version}
    (hv : s.engine.version issueKind [id] = some v) : Reads (issueVersion id) s v := by
  refine Reads.bind (a := some v) ⟨?_⟩ (.pure v)
  rw [← hv]
  rfl

/-- Nothing comes between the reading of a version and the write under it. -/
theorem runA_saveIssueCas {issue : Issue} {v : Records.Version}
    (hv : s.engine.version issueKind [issue.id] = some v) :
    runA (saveIssueCas issue v) s = (.ok true, s.save issue) := by
  obtain ⟨result, happlied, hswap⟩ :=
    Engine.compareAndSwap_version hv (issueToJson issue) false
  have hask : runA (ask (.compareAndSwap issueKind [issue.id] (some v) (issueToJson issue) false))
      s =
      (.ok (.ok result), s.save issue) := by
    change ((Except.ok (s.engine.compareAndSwap issueKind [issue.id] (some v) (issueToJson issue)
      false).1 : Result _), ({ s with engine :=
        (s.engine.compareAndSwap issueKind [issue.id] (some v)
        (issueToJson issue) false).2 } : Inner)) = _
    rw [hswap]
    rfl
  refine (runA_bind_ok hask).trans ?_
  rw [← happlied]
  rfl

theorem follows_claim (h : Twins audited s t) {req : ClaimRequest} {now : Int}
    (hlease : (req.ttl cfg.week cfg.policy now).isSome = true) :
    Follows audited t (runA (claim cfg req now) s) (Db.claimAlone cfg.toConfig req now t) := by
  obtain ⟨ttl, httl⟩ := Option.isSome_iff_exists.mp hlease
  unfold claim Db.claimAlone
  rw [httl]
  dsimp only
  unfold Db.claimTx
  cases hrow : t.issue.find req.id with
  | none =>
      rw [runA_bind_error (runA_projectOf_missing (h.sim.absent hrow))]
      exact .fail h
  | some row =>
      obtain ⟨u, hdoc, hget⟩ := h.sim.rowToIssue hrow
      obtain ⟨v, hv⟩ := Engine.version_of_current hdoc
      refine .bind_reads (reads_projectOf hdoc) (.bind_reads (reads_get hget)
        (.bind_reads (reads_issueVersion hv) ?_))
      change Follows audited t (runA (if (heldAt row.assignee row.expiresAt now &&
        decide (row.assignee ≠ some req.assignee)) = true then _ else _) s)
        (if (heldAt row.assignee row.expiresAt now &&
          decide (row.assignee ≠ some req.assignee)) = true then _ else _)
      by_cases hheld : (heldAt row.assignee row.expiresAt now &&
        decide (row.assignee ≠ some req.assignee)) = true
      · rw [if_pos hheld, if_pos hheld]
        exact .fail h
      rw [if_neg hheld, if_neg hheld, runA_bind_ok (runA_saveIssueCas hv), if_pos rfl,
        runA_bind_ok (runA_logEvent ..)]
      exact .ok ((h.save (fun row => row.claim req.assignee req.actorKind.asStr now
        (wrapI64 (now + ttl))) hrow rfl rfl).log ..)

/-- A missing kind counts as an agent on both sides. -/
@[simp]
theorem touchTtl_getD (kind : Option String) (week : WorkWeek) (policy : Policy) (now : Int) :
    touchTtl (ActorKind.parse (kind.getD "agent")) week policy now =
      touchTtl (kind.bind ActorKind.parse) week policy now := by
  cases kind with
  | none => rfl
  | some kind => rfl

theorem follows_touch (h : Twins audited s t) (id assignee : String) (now : Int) :
    Follows audited t (runA (touch cfg id assignee now) s)
      (Db.touchTx cfg.toConfig id assignee now t) := by
  refine .get h (fun hrow => ?_) fun row u hrow => ?_
  · rw [Db.touchTx, hrow]
    exact ⟨_, rfl⟩
  rw [Db.touchTx, hrow]
  change Follows audited t (runA (if row.assignee ≠ some assignee then _ else _) s)
    (if row.assignee ≠ some assignee then _ else _)
  by_cases hholder : row.assignee ≠ some assignee
  · rw [if_pos hholder, if_pos hholder]
    exact .fail h
  rw [if_neg hholder, if_neg hholder, touchTtl_getD]
  dsimp only [Tables.view]
  cases touchTtl (row.actorKind.bind ActorKind.parse) cfg.week cfg.policy now with
  | none => exact .abort
  | some ttl =>
      rw [runA_bind_ok (runA_saveIssue _), runA_bind_ok (runA_logEvent ..)]
      exact .ok ((h.save (fun row => { row with
        expiresAt := some (wrapI64 (now + ttl)), updatedAt := now }) hrow rfl rfl).log ..)

/-- The local store releases an issue that is not there and records it; the adapter refuses. -/
theorem follows_release (h : Twins audited s t) (id actor : String) (now : Int)
    (hknown : audited → id ∈ t.issue.keys) :
    Follows audited t (runA (release cfg id actor now) s) (Db.releaseTx id actor now t) := by
  cases hrow : t.issue.find id with
  | none =>
      have ha : ¬ audited := fun ha => Table.find_eq_none.mp hrow (hknown ha)
      have hsame : t.issue.modify id (fun row => { row.unclaim with updatedAt := now }) =
          t.issue := by
        refine Table.mapRows_eq_self fun k v hv => ?_
        by_cases hk : k = id
        · rw [hk, hrow] at hv
          cases hv
        · rw [if_neg hk]
      rw [release, runA_bind_error (get_missing (h.sim.rowToIssue_none hrow)), Db.releaseTx,
        Tables.setIssue, hsame]
      exact .refused ha (h.logDb ha ..)
  | some row =>
      obtain ⟨u, -, hget⟩ := h.sim.rowToIssue hrow
      refine .bind_reads (reads_get hget) ?_
      rw [runA_bind_ok (runA_saveIssue _), runA_logEvent]
      exact .ok ((h.save (fun row => { row.unclaim with updatedAt := now }) hrow rfl rfl).log ..)

/-! ### The sweep -/

/-- A claim of the sweep is there, with this holder and kind, and has lapsed. -/
def IsLapsed (t : Tables) (now : Int) (c : String × String × String) : Prop :=
  ∃ row, t.issue.find c.1 = some row ∧ row.assignee = some c.2.1 ∧ row.actorKind = some c.2.2 ∧
    row.expiresAt.any (· ≤ now) = true

/-- The lapsed claims of the documents, in the order the adapter visits them. -/
def Inner.lapsed (s : Inner) (now : Int) : List (String × String × String) :=
  sortOn (fun c => toLex (c.1, toLex c.2)) ((s.engine.keys issueKind).filterMap fun key =>
    key.head?.bind fun id => (s.doc issueKind [id]).bind fun data => lapsedClaim id data now)

theorem reads_lapsed (now : Int) : Reads (lapsed now) s (s.lapsed now) := by
  refine (Reads.keys issueKind).bind ((Reads.collect fun found key _ => ?_).map _)
  cases key with
  | nil => exact .pure found
  | cons id rest =>
      refine (reads_loadIssue id).bind ?_
      simp only [List.head?_cons, Option.bind_some]
      cases s.doc issueKind [id] with
      | none => exact .pure found
      | some data =>
          simp only [Option.bind_some]
          cases lapsedClaim id data now with
          | none =>
              simp only [Option.toList_none, List.append_nil]
              exact .pure found
          | some claim => exact .pure _

theorem lapsedClaim_id {id : String} {data : Value} {now : Int} {c : String × String × String}
    (h : lapsedClaim id data now = some c) : c.1 = id := by
  obtain ⟨assignee, -, h⟩ := Option.bind_eq_some_iff.mp h
  obtain ⟨expires, -, h⟩ := Option.bind_eq_some_iff.mp h
  split at h
  · cases h
    rfl
  · cases h

/-- The claim a stored row carries. -/
theorem lapsedClaim_rowToJson {id : String} {row : IssueRow} (hrow : row.Whole) (savedAt now : Int)
    (c : String × String × String) : lapsedClaim id (rowToJson id row savedAt) now = some c ↔
      id = c.1 ∧ row.assignee = some c.2.1 ∧ row.actorKind = some c.2.2 ∧
        row.expiresAt.any (· ≤ now) = true := by
  have hread : lapsedClaim id (rowToJson id row savedAt) now = row.assignee.bind fun assignee =>
      row.expiresAt.bind fun expires =>
        if expires ≤ now then some (id, assignee, row.actorKind.getD "agent") else none := by
    have hassignee : ((rowToJson id row savedAt).field "assignee").asStr = row.assignee :=
      Value.asStr_ofStr? _
    have hkind : ((rowToJson id row savedAt).field "actor_kind").asStr = row.actorKind :=
      Value.asStr_ofStr? _
    have hexpires : ((rowToJson id row savedAt).field "expires_at").asInt = row.expiresAt :=
      Value.asInt_ofInt? _
    rw [lapsedClaim, hassignee, hkind, hexpires]
    rfl
  rw [hread]
  obtain ⟨i, a, k⟩ := c
  have hkind := hrow.kind
  cases ha : row.assignee with
  | none => simp
  | some assignee =>
      cases hk : row.actorKind with
      | none => simp [ha, hk] at hkind
      | some kind =>
          cases row.expiresAt with
          | none => simp
          | some expires =>
              by_cases hle : expires ≤ now <;> simp [hle]

theorem mem_lapsed (h : Sim s t) (hwhole : ∀ {id row}, t.issue.find id = some row → row.Whole)
    {now : Int} {c : String × String × String} : c ∈ s.lapsed now ↔ IsLapsed t now c := by
  rw [Inner.lapsed, Sorting.mem_sortOn, List.mem_filterMap]
  constructor
  · intro hc
    obtain ⟨key, hkey, hc⟩ := hc
    obtain ⟨id, -, hc⟩ := Option.bind_eq_some_iff.mp hc
    obtain ⟨data, hdata, hc⟩ := Option.bind_eq_some_iff.mp hc
    cases hrow : t.issue.find id with
    | none =>
        rw [h.absent hrow] at hdata
        cases hdata
    | some row =>
        obtain ⟨u, hdoc⟩ := h.present hrow
        obtain rfl := Option.some.inj (hdoc.symm.trans hdata)
        obtain ⟨rfl, hclaim⟩ := (lapsedClaim_rowToJson (hwhole hrow) u now c).mp hc
        exact ⟨row, hrow, hclaim⟩
  · intro hc
    obtain ⟨row, hrow, hclaim⟩ := hc
    obtain ⟨u, hdoc⟩ := h.present hrow
    refine ⟨[c.1], Engine.mem_keys.mpr ⟨_, hdoc⟩, ?_⟩
    simp only [List.head?_cons, Option.bind_some, hdoc]
    exact (lapsedClaim_rowToJson (hwhole hrow) u now c).mpr ⟨rfl, hclaim⟩

/-- No issue is visited twice. -/
theorem nodup_lapsed (h : Sim s t) (now : Int) : ((s.lapsed now).map Prod.fst).Nodup := by
  refine (((Sorting.perm_sortOn _ _).map Prod.fst).nodup_iff).mpr ?_
  refine List.Nodup.of_map (fun id => [id]) ?_
  rw [List.map_map]
  refine (Engine.nodup_keys s.engine issueKind).sublist
    (map_filterMap_sublist fun key hkey c hc => ?_)
  obtain ⟨data, hdata⟩ := Engine.mem_keys.mp hkey
  obtain ⟨id, rfl⟩ := h.single hdata
  obtain ⟨_, hid, hc⟩ := Option.bind_eq_some_iff.mp hc
  obtain ⟨data, -, hc⟩ := Option.bind_eq_some_iff.mp hc
  obtain rfl := Option.some.inj hid
  simp [lapsedClaim_id hc]

/-- Rows whose claims are whole have texts in the columns of the sweep. -/
theorem mapM_claimColumns {rows : List (String × IssueRow)}
    (h : ∀ r ∈ rows, r.2.assignee.isSome = true ∧ r.2.Whole) :
    ∃ claims, rows.mapM Db.claimColumns = .ok claims ∧
      claims.map Prod.fst = rows.map Prod.fst := by
  induction rows with
  | nil => exact ⟨[], rfl, rfl⟩
  | cons r rows ih =>
      obtain ⟨claims, hclaims, hids⟩ := ih fun r hr => h r (List.mem_cons_of_mem _ hr)
      obtain ⟨hassignee, hwhole⟩ := h r (List.mem_cons_self ..)
      obtain ⟨assignee, ha⟩ := Option.isSome_iff_exists.mp hassignee
      obtain ⟨kind, hk⟩ := Option.isSome_iff_exists.mp (hwhole.kind.trans hassignee)
      refine ⟨(r.1, assignee, kind) :: claims, ?_, by rw [List.map_cons, List.map_cons, hids]⟩
      rw [List.mapM_cons, hclaims, Db.claimColumns, ha, hk]
      rfl

/-- Both stores handle the same claims in the same order, with the same report. -/
theorem twins_foldl_sweep (now : Int) (claims : List (String × String × String))
    (report : SweepReport) {s : Inner} {t : Tables} (h : Twins audited s t)
    (hthere : ∀ c ∈ claims, c.1 ∈ t.issue.keys) :
    ∃ s', runA (claims.foldlM (sweepClaim cfg now) report) s =
        (.ok (claims.foldl (Db.sweepRow now) (report, t)).1, s') ∧
      Twins audited s' (claims.foldl (Db.sweepRow now) (report, t)).2 := by
  induction claims generalizing report s t with
  | nil => exact ⟨s, rfl, h⟩
  | cons claim claims ih =>
      obtain ⟨id, assignee, kind⟩ := claim
      rw [List.foldlM_cons, List.foldl_cons, Db.sweepRow, sweepClaim]
      have hrest := fun c hc => hthere c (List.mem_cons_of_mem _ hc)
      by_cases hk : kind = ActorKind.human.asStr
      · rw [if_pos hk, if_pos hk]
        -- the claim of a human is logged only
        obtain ⟨s', hrun, htwins⟩ := ih
          { report with escalated := report.escalated ++ [s!"{id} ({assignee})"] }
          (h.log cfg.storeId id now "sweeper" "escalated" assignee) hrest
        refine ⟨s', ?_, htwins⟩
        rw [runA_bind_ok ((runA_bind_ok (runA_logEvent ..)).trans rfl)]
        exact hrun
      · rw [if_neg hk, if_neg hk]
        obtain ⟨row, hrow⟩ := Table.mem_keys.mp (hthere _ (List.mem_cons_self ..))
        obtain ⟨u, -, hget⟩ := h.sim.rowToIssue hrow
        have hsaved := h.save IssueRow.unclaim hrow rfl (@rfl _ (rowToJson id row.unclaim now))
        obtain ⟨s', hrun, htwins⟩ := ih
          { report with requeued := report.requeued ++ [id] }
          (hsaved.log cfg.storeId id now "sweeper" "claim_expired" assignee) fun c hc => by
            rw [Tables.logEvent_issue, Tables.setIssue_issue, Table.keys_modify]
            exact hrest c hc
        refine ⟨s', ?_, htwins⟩
        rw [runA_bind_ok ((runA_bind_reads (reads_get hget)).trans ((runA_bind_ok
          (runA_saveIssue _)).trans ((runA_bind_ok (runA_logEvent ..)).trans rfl)))]
        exact hrun

/-- The event the sweep records for a claim. -/
def sweepEvent (now : Int) (c : String × String × String) : HistoryEvent :=
  ⟨c.1, now, "sweeper", if c.2.2 = ActorKind.human.asStr then "escalated" else "claim_expired",
    c.2.1⟩

theorem historyQuery_sweep (now : Int) (id : String) (claims : List (String × String × String))
    (report : SweepReport) (t : Tables) :
    Db.historyQuery id (claims.foldl (Db.sweepRow now) (report, t)).2 =
      Db.historyQuery id t ++ (claims.filter fun c => c.1 = id).map (sweepEvent now) := by
  induction claims generalizing report t with
  | nil => simp
  | cons claim claims ih =>
      obtain ⟨i, assignee, kind⟩ := claim
      rw [List.foldl_cons, Db.sweepRow]
      by_cases hk : kind = ActorKind.human.asStr
      · rw [if_pos hk, ih, Db.historyQuery_logEvent, List.append_assoc]
        by_cases hid : i = id <;> simp [hid, sweepEvent, hk]
      · rw [if_neg hk, ih, Db.historyQuery_logEvent, List.append_assoc]
        have hset : Db.historyQuery id (t.setIssue i IssueRow.unclaim) = Db.historyQuery id t := rfl
        rw [hset]
        by_cases hid : i = id <;> simp [hid, sweepEvent, hk]

/-- No issue is swept twice, so the order of the claims shows in no history. -/
theorem filter_perm {claims claims' : List (String × String × String)} (hperm : claims.Perm claims')
    (hnodup : (claims.map Prod.fst).Nodup) (id : String) :
    claims.filter (fun c => c.1 = id) = claims'.filter fun c => c.1 = id := by
  have hapart : ∀ l : List (String × String × String), (l.map Prod.fst).Nodup →
      (l.filter fun c => c.1 = id).Pairwise fun a b => a.1 ≠ b.1 := fun l hl =>
    (List.pairwise_map.mp hl).filter _
  refine List.Perm.eq_of_pairwise (fun a b ha hb hab _ => ?_) (hapart _ hnodup)
    (hapart _ ((hperm.map Prod.fst).nodup_iff.mp hnodup)) (hperm.filter _)
  -- two claims of one issue are one claim
  have hid : a.1 = id ∧ b.1 = id :=
    ⟨by simpa using (List.mem_filter.mp ha).2, by simpa using (List.mem_filter.mp hb).2⟩
  exact absurd (hid.1.trans hid.2.symm) hab

/-- The order in which the claims are swept does not matter. -/
theorem Twins.reorder {now : Int} {claims claims' : List (String × String × String)}
    {report report' : SweepReport} (hperm : claims.Perm claims')
    (hnodup : (claims.map Prod.fst).Nodup)
    (h : Twins audited s (claims.foldl (Db.sweepRow now) (report, t)).2) :
    Twins audited s (claims'.foldl (Db.sweepRow now) (report', t)).2 := by
  obtain ⟨hissue, hdep, hproject, -⟩ := Db.foldl_sweepRow now claims report t
  obtain ⟨hissue', hdep', hproject', -⟩ := Db.foldl_sweepRow now claims' report' t
  have hids : ∀ id, id ∈ Db.requeuedIds claims ↔ id ∈ Db.requeuedIds claims' := fun id =>
    ((hperm.filter _).map _).mem_iff
  refine ⟨h.sim.frame (fun _ _ _ => rfl) ?_ (hdep'.trans hdep.symm) (hproject'.trans hproject.symm),
    fun ha => (h.trail ha).frame (fun _ => rfl) rfl fun id => ?_⟩
  · rw [hissue', hissue]
    simp only [hids]
  · rw [historyQuery_sweep, historyQuery_sweep, filter_perm hperm hnodup]

theorem follows_sweep (h : Twins audited s t)
    (hwhole : ∀ {id row}, t.issue.find id = some row → row.Whole) (now : Int)
    (order : List String) :
    Follows audited t (runA (sweep cfg now) s) (Db.sweepTx now order t) := by
  have hrows : ∀ r ∈ Db.lapsed t now order, r.2.assignee.isSome = true ∧ r.2.Whole := by
    intro r hr
    obtain ⟨hrow, hassignee, -⟩ := Db.mem_lapsed.mp hr
    exact ⟨hassignee, hwhole hrow⟩
  obtain ⟨claims, hclaims, hids⟩ := mapM_claimColumns hrows
  have hnodup : (claims.map Prod.fst).Nodup := by
    rw [hids]
    refine (((Sorting.perm_sortOn _ _).map Prod.fst).nodup_iff).mpr ?_
    exact t.issue.nodup.sublist (List.filter_sublist.map Prod.fst)
  have hmem : ∀ c, c ∈ s.lapsed now ↔ c ∈ claims := by
    intro c
    rw [mem_lapsed h.sim hwhole, Db.mem_claimColumns hclaims]
    constructor
    · intro hc
      obtain ⟨row, hrow, ha, hk, he⟩ := hc
      exact ⟨(c.1, row), Db.mem_lapsed.mpr ⟨hrow, by simp [ha], he⟩, rfl, ha, hk⟩
    · intro hc
      obtain ⟨r, hr, hid, ha, hk⟩ := hc
      obtain ⟨hrow, -, he⟩ := Db.mem_lapsed.mp hr
      exact ⟨r.2, hid ▸ hrow, ha, hk, he⟩
  -- The adapter walks the lapsed claims in the order of its keys, the local store in that of its
  -- query; they are the same claims.
  have hperm : (s.lapsed now).Perm claims :=
    (List.perm_ext_iff_of_nodup (nodup_lapsed h.sim now).of_map hnodup.of_map).mpr hmem
  obtain ⟨s', hrun, htwins⟩ := @twins_foldl_sweep audited cfg now (s.lapsed now) ⟨[], []⟩ s t h
    fun c hc => by
      obtain ⟨row, hrow, -⟩ := (mem_lapsed h.sim hwhole).mp hc
      exact Table.mem_keys_of_find hrow
  have hsweep : runA (sweep cfg now) s = _ := (runA_bind_reads (reads_lapsed now)).trans hrun
  rw [hsweep, Db.sweepTx, hclaims]
  exact .ok (htwins.reorder hperm (nodup_lapsed h.sim now))

/-! ### Terminal operations -/

/-- A loop of checks goes through, or fails at the first item that does not pass. -/
theorem runA_forM_checks {α : Type} {f : α → AdapterM Unit} {bad : α → Bool}
    (hgood : ∀ x, bad x = false → Reads (f x) s ())
    (hbad : ∀ x, bad x = true → ∃ e, runA (f x) s = (.error (.fail e), s)) (xs : List α) :
    (xs.any bad = false ∧ Reads (xs.forM f) s ()) ∨
      (xs.any bad = true ∧ ∃ e, runA (xs.forM f) s = (.error (.fail e), s)) := by
  induction xs with
  | nil => exact .inl ⟨rfl, .pure ()⟩
  | cons x xs ih =>
      cases hx : bad x with
      | true =>
          obtain ⟨e, he⟩ := hbad x hx
          exact .inr ⟨by simp [hx], e, runA_bind_error he⟩
      | false =>
          have hskip : (x :: xs).any bad = xs.any bad := by simp [hx]
          rw [hskip]
          refine ih.imp (fun h => ⟨h.1, (hgood x hx).bind h.2⟩) fun h => ⟨h.1, ?_⟩
          obtain ⟨e, he⟩ := h.2
          exact ⟨e, (runA_bind_reads (hgood x hx)).trans he⟩

/-- The blockers are looked at one by one; the first one that is open is an error. -/
theorem runA_checkBlockers (s : Inner) (id : String) :
    ((s.parents id).any s.isOpen = false ∧ Reads (checkBlockers id) s ()) ∨
      ((s.parents id).any s.isOpen = true ∧
        ∃ e, runA (checkBlockers id) s = (.error (.fail e), s)) := by
  have hloop := @runA_forM_checks s String (fun blocker => do
    if (← statusOf blocker).any fun st => !isTerminal st then throw (.fail (waitsOn id blocker))
    else pure ()) s.isOpen (fun p hp => ?_) (fun p hp => ?_) (s.parents id)
  · unfold checkBlockers
    exact hloop.imp (fun h => ⟨h.1, reads_edges.bind h.2⟩) fun h => ⟨h.1, by
      rw [runA_bind_reads reads_edges]
      exact h.2⟩
  · refine (reads_statusOf p).bind ?_
    change Reads (if s.isOpen p = true then _ else _) s ()
    rw [hp, if_neg Bool.false_ne_true]
    exact .pure ()
  · refine ⟨waitsOn id p, (runA_bind_reads (reads_statusOf p)).trans ?_⟩
    change runA (if s.isOpen p = true then _ else _) s = _
    rw [hp, if_pos rfl]
    rfl

/-- An issue that is there is closed on both sides, and is still there. -/
theorem both_closeUnchecked (h : Twins audited s t) {id : String} (hid : id ∈ t.issue.keys)
    (reason : Option String) (evidence : List Evidence) (actor : String) (now : Int) :
    ∃ a s' b t', runA (closeUnchecked cfg id reason evidence actor now) s = (.ok a, s') ∧
      Db.closeUncheckedAlone id reason evidence actor now t = .ok (b, t') ∧
      Twins audited s' t' ∧ id ∈ t'.issue.keys := by
  obtain ⟨row, hrow⟩ := Table.mem_keys.mp hid
  obtain ⟨u, -, hget⟩ := h.sim.rowToIssue hrow
  have hlogged := (h.save (fun row => row.close reason evidence now) hrow rfl
    (@rfl _ (rowToJson id (row.close reason evidence now) now))).log cfg.storeId id now actor
      "closed" (closedDetail reason evidence)
  have hkept : id ∈ ((t.setIssue id fun row => row.close reason evidence now).logEvent id now actor
      "closed" (closedDetail reason evidence)).issue.keys := by
    rw [Tables.logEvent_issue, Tables.setIssue_issue, Table.keys_modify]
    exact hid
  obtain ⟨a, s', b, t', hrun, hread, htwins⟩ := both_get hlogged hkept
  obtain ⟨-, rfl⟩ := Db.Tx.read_eq_ok.mp hread
  refine ⟨a, s', b, _, ?_, ?_, htwins, hkept⟩
  · refine (runA_bind_reads (reads_get hget)).trans ?_
    rw [runA_bind_ok (runA_saveIssue _), runA_bind_ok (runA_logEvent ..)]
    exact hrun
  · rw [Db.closeUncheckedAlone, Db.closeUncheckedTx, hrow]
    exact hread

/-- An issue that is not there is closed on neither side. -/
theorem closeUnchecked_missing (h : Twins audited s t) {id : String} (hid : id ∉ t.issue.keys)
    (reason : Option String) (evidence : List Evidence) (actor : String) (now : Int) :
    runA (closeUnchecked cfg id reason evidence actor now) s = (.error (.fail (.notFound id)), s) ∧
      Db.closeUncheckedAlone id reason evidence actor now t =
        .error (.fail (.sqlite "Query returned no rows")) := by
  have hrow := Table.find_eq_none.mpr hid
  refine ⟨runA_bind_error (get_missing (h.sim.rowToIssue_none hrow)), ?_⟩
  rw [Db.closeUncheckedAlone, Db.closeUncheckedTx, hrow]
  rfl

theorem follows_closeUnchecked (h : Twins audited s t) (id : String) (reason : Option String)
    (evidence : List Evidence) (actor : String) (now : Int) :
    Follows audited t (runA (closeUnchecked cfg id reason evidence actor now) s)
      (Db.closeUncheckedAlone id reason evidence actor now t) := by
  by_cases hid : id ∈ t.issue.keys
  · obtain ⟨a, s', b, t', hrun, hdb, htwins, -⟩ :=
      @both_closeUnchecked audited s t cfg h id hid reason evidence actor now
    rw [hrun, hdb]
    exact .ok htwins
  · obtain ⟨hrun, hdb⟩ := @closeUnchecked_missing audited s t cfg h id hid reason evidence actor now
    rw [hrun, hdb]
    exact .fail h

theorem follows_close (h : Twins audited s t) (id : String) (reason : Option String)
    (evidence : List Evidence) (actor : String) (now : Int) :
    Follows audited t (runA (close cfg id reason evidence actor now) s)
      (Db.closeAlone id reason evidence actor now t) := by
  unfold close Db.closeAlone
  by_cases hempty : evidence.isEmpty = true
  · rw [if_pos hempty, if_pos hempty]
    exact .fail h
  rw [if_neg hempty, if_neg hempty]
  -- both look at the same blockers, in an order of their own
  have hblockers : t.openBlockers id = [] ↔ (s.parents id).any s.isOpen = false := by
    rw [Tables.openBlockers_eq_nil, List.any_eq_false]
    simp only [h.sim.mem_parents, h.sim.isOpen, Bool.not_eq_true]
  rcases runA_checkBlockers s id with ⟨hclosed, hrun⟩ | ⟨hopen, e, hrun⟩
  · rw [runA_bind_reads hrun, Db.checkBlockersQuery, hblockers.mpr hclosed]
    exact follows_closeUnchecked h id reason evidence actor now
  · rw [runA_bind_error hrun, Db.checkBlockersQuery]
    cases hopens : t.openBlockers id with
    | nil => simp [hblockers.mp hopens] at hopen
    | cons blocker rest => exact .fail h

theorem follows_supersede (h : Twins audited s t) (id replacement actor : String) (now : Int) :
    Follows audited t (runA (supersede cfg id replacement actor now) s)
      (Db.supersedeAlone id replacement actor now t) := by
  refine .get h (fun hrow => ?_) fun row u hrow => ?_
  · rw [Db.supersedeAlone, getQuery_missing hrow]
    exact ⟨_, rfl⟩
  have hdb : Db.supersedeAlone id replacement actor now t =
      Db.closeUncheckedAlone id (some s!"superseded by {replacement}")
        [Evidence.ack s!"superseded by {replacement}"] actor now t >>= fun p =>
          Db.addLabelAlone id s!"supersedes:{replacement}" actor now p.2 := by
    rw [Db.supersedeAlone, Db.getQuery_find hrow]
    rfl
  rw [hdb]
  by_cases hid : id ∈ t.issue.keys
  · obtain ⟨a, s', b, t', hrun, hclose, htwins, hkept⟩ := @both_closeUnchecked audited s t cfg h id
      hid (some s!"superseded by {replacement}") [Evidence.ack s!"superseded by {replacement}"]
        actor
      now
    rw [runA_bind_ok hrun, hclose]
    exact (both_addLabel htwins hkept s!"supersedes:{replacement}" actor now).follows
  · obtain ⟨hrun, hclose⟩ := @closeUnchecked_missing audited s t cfg h id hid
      (some s!"superseded by {replacement}") [Evidence.ack s!"superseded by {replacement}"] actor
        now
    rw [runA_bind_error hrun, hclose]
    exact .fail h

end Marbles.Adapter
