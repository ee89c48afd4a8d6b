import Marbles.Db.Ops

/-!
# What a lock scope can do

`exec_effect` says once, for every scope, what it may do to the issues, the edges and the
projects, with all the checks it has passed. The invariants of the later modules are case
analyses over `Effect`; none of them unfolds a transaction body again. History, outbox,
folders and remote edges do not appear in it.

A constructor says what was there before, what has been checked, and what is there now, so that a
case of an invariant starts from facts and not from a program. Scopes that differ only in the
event they log share one constructor. A failing scope is the constructor in which nothing changes,
whatever it failed with.
-/

namespace Marbles.Db

/-- Is this row a lapsed claim that the sweep clears? -/
def sweeps (now : Int) (row : IssueRow) : Bool :=
  row.assignee.isSome && row.expiresAt.any (· ≤ now) &&
    row.actorKind ≠ some ActorKind.human.asStr

/-- What became of the issues, edges and projects of `t` in a scope. Whatever a later invariant
needs to know of a scope has to be said here, guards included. -/
inductive Effect (cfg : Config) (t : Tables) : Scope → Tables → Prop where
  /-- Nothing was written to the three tables. -/
  | idle {s : Scope} {t' : Tables} (hissue : t'.issue = t.issue) (hdep : t'.dep = t.dep)
      (hproject : t'.project = t.project) : Effect cfg t s t'
  | ensureProject {slug root idPrefix : String} {ts : Int} {f : ProjectRow → ProjectRow}
      {t' : Tables} (hissue : t'.issue = t.issue) (hdep : t'.dep = t.dep)
      (hproject : t'.project = t.project.upsert slug ⟨root, idPrefix, ts⟩ f) :
      Effect cfg t (.ensureProject slug root idPrefix ts) t'
  | dropProject {slug : String} {t' : Tables}
      (hissue : t'.issue = t.issue.filter fun _ row => row.project ≠ slug)
      (hdep : t'.dep = t.dep.filter fun e _ =>
        !((t.issue.find e.1).any (fun row => row.project = slug) ||
          (t.issue.find e.2).any (fun row => row.project = slug)))
      (hproject : t'.project = t.project.erase slug) : Effect cfg t (.dropProject slug) t'
  | create {spec : NewIssue} {project : String} {available : Int} {draws : List String}
      {now : Int} {id : String} {metadata : Json.Object} {t' : Tables}
      (hproject : project ∈ t.project.keys)
      (hparent : ∀ p, spec.parent = some p →
        ∃ row, t.issue.find p = some row ∧ row.project = project)
      (hfresh : t.issue.find id = none)
      (hid : ∀ i, spec.id = some i → i = id)
      (hissue : t'.issue = t.issue.insert id (newRow spec project available metadata now))
      (hdep : t'.dep = t.dep) (hprojects : t'.project = t.project) :
      Effect cfg t (.create spec project available draws now) t'
  | update {id : String} {patch : IssuePatch} {actor : String} {now : Int} {row : IssueRow}
      {next : Issue} {status : Status} {t' : Tables} (hrow : t.issue.find id = some row)
      (hnext : patch.apply cfg.policy now (t.view id row) = .ok next)
      (hstatus : Status.parse next.status = some status)
      (hissue : t'.issue = t.issue.modify id fun row => row.write next status)
      (hdep : t'.dep = t.dep) (hproject : t'.project = t.project) :
      Effect cfg t (.update id patch actor now) t'
  | setLabels {id : String} {labels : List String} {actor : String} {now : Int} {t' : Tables}
      (hissue : t'.issue = t.issue.modify id fun row =>
        { row with labels := labels, updatedAt := now })
      (hdep : t'.dep = t.dep) (hproject : t'.project = t.project) :
      Effect cfg t (.setLabels id labels actor now) t'
  | addDep {child parent actor : String} {now : Int} {t' : Tables}
      (hchild : child ∈ t.issue.keys) (hparent : parent ∈ t.issue.keys)
      (hreach : t.reachable parent child = false)
      (hissue : t'.issue = t.issue.modify child fun row => { row with updatedAt := now })
      (hdep : t'.dep = t.dep.insert (child, parent) ()) (hproject : t'.project = t.project) :
      Effect cfg t (.addDep child parent actor now) t'
  | removeDep {child parent actor : String} {now : Int} {t' : Tables}
      (hissue : t'.issue = t.issue) (hdep : t'.dep = t.dep.erase (child, parent))
      (hproject : t'.project = t.project) : Effect cfg t (.removeDep child parent actor now) t'
  | addRemoteDep {child : String} {dependency : RemoteDependency} {actor : String} {now : Int}
      {t' : Tables}
      (hissue : t'.issue = t.issue.modify child fun row => { row with updatedAt := now })
      (hdep : t'.dep = t.dep) (hproject : t'.project = t.project) :
      Effect cfg t (.addRemoteDep child dependency actor now) t'
  | claim {req : ClaimRequest} {ttl now : Int} {row : IssueRow} {t' : Tables}
      (hrow : t.issue.find req.id = some row)
      (hfree : heldAt row.assignee row.expiresAt now = true → row.assignee = some req.assignee)
      (hissue : t'.issue = t.issue.modify req.id fun row =>
        row.claim req.assignee req.actorKind.asStr now (wrapI64 (now + ttl)))
      (hdep : t'.dep = t.dep) (hproject : t'.project = t.project) :
      Effect cfg t (.claim req ttl now) t'
  | touch {id assignee : String} {now ttl : Int} {row : IssueRow} {t' : Tables}
      (hrow : t.issue.find id = some row) (hholder : row.assignee = some assignee)
      (hissue : t'.issue = t.issue.modify id fun row =>
        { row with expiresAt := some (wrapI64 (now + ttl)), updatedAt := now })
      (hdep : t'.dep = t.dep) (hproject : t'.project = t.project) :
      Effect cfg t (.touch id assignee now) t'
  | release {id actor : String} {now : Int} {t' : Tables}
      (hissue : t'.issue = t.issue.modify id fun row => { row.unclaim with updatedAt := now })
      (hdep : t'.dep = t.dep) (hproject : t'.project = t.project) :
      Effect cfg t (.release id actor now) t'
  | sweep {now : Int} {order : List String} {t' : Tables}
      (hissue : t'.issue = t.issue.mapRows fun _ row =>
        if sweeps now row then row.unclaim else row)
      (hdep : t'.dep = t.dep) (hproject : t'.project = t.project) :
      Effect cfg t (.sweep now order) t'
  | closeUnchecked {id : String} {reason : Option String} {evidence : List Evidence}
      {actor : String} {now : Int} {row : IssueRow} {t' : Tables}
      (hrow : t.issue.find id = some row)
      (hissue : t'.issue = t.issue.modify id fun row => row.close reason evidence now)
      (hdep : t'.dep = t.dep) (hproject : t'.project = t.project) :
      Effect cfg t (.closeUnchecked id reason evidence actor now) t'

/-! ### The bodies that return -/

theorem rowToIssue_eq_some {t : Tables} {id : String} {issue : Issue} :
    t.rowToIssue id = some issue ↔ ∃ row, t.issue.find id = some row ∧ t.view id row = issue := by
  rw [Tables.rowToIssue, Option.map_eq_some_iff]

/-- A drawn id is free. -/
theorem drawId_fresh {t : Tables} {idPrefix id : String} {draws : List String}
    (h : drawId t idPrefix draws = .ok id) : t.issue.find id = none := by
  induction draws with
  | nil => simp [drawId] at h
  | cons suffix draws ih =>
      rw [drawId] at h
      split at h
      · exact ih h
      · rename_i hfree
        cases h
        exact Table.find_eq_none.mpr hfree

theorem chooseId_fresh {t : Tables} {idPrefix id : String} {draws : List String}
    {wanted : Option String} (h : chooseId t idPrefix draws wanted = .ok id) :
    t.issue.find id = none ∧ ∀ i, wanted = some i → i = id := by
  cases wanted with
  | none => exact ⟨drawId_fresh h, nofun⟩
  | some i =>
      rw [chooseId] at h
      split at h
      · simp at h
      · rename_i hfree
        cases h
        exact ⟨Table.find_eq_none.mpr hfree, fun _ hi => (Option.some.inj hi).symm⟩

theorem checkParent_ok {t : Tables} {project : String} {parent : Option String} {u : Unit}
    (h : checkParent t project parent = .ok u) :
    ∀ p, parent = some p → ∃ row, t.issue.find p = some row ∧ row.project = project := by
  rintro p rfl
  rw [checkParent] at h
  split at h
  · simp at h
  · rename_i row hrow
    split at h
    · rename_i hp
      exact ⟨row, hrow, hp⟩
    · simp at h

theorem ensureProjectTx_ok {slug root idPrefix : String} {ts : Int} {t t' : Tables}
    (h : ensureProjectTx slug root idPrefix ts t = .ok ((), t')) :
    t' = { t with project := t.project.upsert slug ⟨root, idPrefix, ts⟩ fun row =>
      { row with root := root } } := by
  unfold ensureProjectTx at h
  split at h
  · exact absurd h Outcome.fail_ne_ok
  · cases h
    rfl

/-- Dropping a project deletes the rows about its issues and nothing else. -/
theorem dropProjectTx_ok {slug : String} {t t' : Tables} {r : ProjectRemoval}
    (h : dropProjectTx slug t = .ok (r, t')) :
    ∃ mine : String → Bool, (mine = fun id => (t.issue.find id).any fun row => row.project = slug) ∧
      t' = { t with
        ledger := t.ledger.forget mine
        dep := t.dep.filter fun e _ => !(mine e.1 || mine e.2)
        remoteDep := t.remoteDep.filter fun e _ => !mine e.1
        issue := t.issue.filter fun _ row => row.project ≠ slug
        project := t.project.erase slug
        projectFolder := t.projectFolder.erase slug } := by
  unfold dropProjectTx at h
  split at h
  · cases h
    exact ⟨_, rfl, rfl⟩
  · exact absurd h Outcome.fail_ne_ok

/-- Assigning a project to a folder writes the one row, either way. -/
theorem setProjectFolderTx_ok {project : String} {folder : Option String} {now : Int}
    {t t' : Tables} (h : setProjectFolderTx project folder now t = .ok ((), t')) :
    ∃ assigned, t' = { t with projectFolder := assigned } := by
  unfold setProjectFolderTx at h
  split at h
  · exact absurd h Outcome.fail_ne_ok
  · split at h
    · split at h
      · exact absurd h Outcome.fail_ne_ok
      · cases h
        exact ⟨_, rfl⟩
    · cases h
      exact ⟨_, rfl⟩

theorem createTx_ok {spec : NewIssue} {project : String} {available : Int}
    {draws : List String} {now : Int} {t t' : Tables} {id : String}
    (h : createTx spec project available draws now t = .ok (id, t')) :
    ∃ metadata, project ∈ t.project.keys ∧
      (∀ p, spec.parent = some p → ∃ row, t.issue.find p = some row ∧ row.project = project) ∧
      t.issue.find id = none ∧ (∀ i, spec.id = some i → i = id) ∧
      spec.storedMetadata = .ok metadata ∧
      t' = { t with
        issue := t.issue.insert id (newRow spec project available metadata now) }.logEvent id now
          (spec.createdBy.getD "system") "created" spec.title := by
  unfold createTx at h
  obtain ⟨prow, hp, h⟩ := Outcome.bind_eq_ok.mp h
  have hproject := Table.mem_keys_of_find (Outcome.ofOption_eq_ok.mp hp)
  obtain ⟨u, hu, h⟩ := Outcome.bind_eq_ok.mp h
  obtain ⟨i, hi, h⟩ := Outcome.bind_eq_ok.mp h
  obtain ⟨metadata, hm, h⟩ := Outcome.bind_eq_ok.mp h
  cases h
  obtain ⟨hfresh, hid⟩ := chooseId_fresh hi
  exact ⟨metadata, hproject, checkParent_ok hu, hfresh, hid, hm, rfl⟩

theorem updateTx_ok {cfg : Config} {id : String} {patch : IssuePatch} {actor : String}
    {now : Int} {t t' : Tables} (h : updateTx cfg id patch actor now t = .ok ((), t')) :
    ∃ row next status, t.issue.find id = some row ∧
      patch.apply cfg.policy now (t.view id row) = .ok next ∧
      Status.parse next.status = some status ∧
      t'.issue = t.issue.modify id (fun row => row.write next status) ∧
      t'.dep = t.dep ∧ t'.project = t.project := by
  unfold updateTx at h
  obtain ⟨current, hc, h⟩ := Outcome.bind_eq_ok.mp h
  obtain ⟨row, hrow, rfl⟩ := rowToIssue_eq_some.mp (Outcome.ofOption_eq_ok.mp hc)
  obtain ⟨next, hn, h⟩ := Outcome.bind_eq_ok.mp h
  obtain ⟨status, hs, h⟩ := Outcome.bind_eq_ok.mp h
  cases h
  refine ⟨row, next, status, hrow, hn, Outcome.ofOption_eq_ok.mp hs, ?_, ?_, ?_⟩ <;>
    · simp only [Tables.logEvent_issue, Tables.logEvent_dep, Tables.logEvent_project]
      split <;> rfl

theorem addDepTx_ok {child parent actor : String} {now : Int} {t t' : Tables}
    (h : addDepTx child parent actor now t = .ok ((), t')) :
    child ∈ t.issue.keys ∧ parent ∈ t.issue.keys ∧ t.reachable parent child = false ∧
      t' = ({ t with dep := t.dep.insert (child, parent) () }.setIssue child fun row =>
        { row with updatedAt := now }).logEvent child now actor "depends_on" parent := by
  obtain ⟨c, hc, h⟩ := Outcome.bind_eq_ok.mp h
  obtain ⟨p, hp, h⟩ := Outcome.bind_eq_ok.mp h
  obtain ⟨crow, hcrow, -⟩ := rowToIssue_eq_some.mp (Outcome.ofOption_eq_ok.mp hc)
  obtain ⟨prow, hprow, -⟩ := rowToIssue_eq_some.mp (Outcome.ofOption_eq_ok.mp hp)
  split at h
  · exact absurd h Outcome.fail_ne_ok
  · rename_i hreach
    cases h
    exact ⟨Table.mem_keys_of_find hcrow, Table.mem_keys_of_find hprow,
      Bool.not_eq_true _ ▸ hreach, rfl⟩

theorem claimTx_ok {req : ClaimRequest} {ttl now : Int} {t t' : Tables} {r : ClaimReceipt}
    (h : claimTx req ttl now t = .ok (r, t')) :
    ∃ row, t.issue.find req.id = some row ∧
      (heldAt row.assignee row.expiresAt now = true → row.assignee = some req.assignee) ∧
      r = ⟨req.id, req.assignee, req.actorKind, wrapI64 (now + ttl)⟩ ∧
      t' = (t.setIssue req.id fun row =>
        row.claim req.assignee req.actorKind.asStr now (wrapI64 (now + ttl))).logEvent req.id now
          req.assignee "claimed" req.actorKind.asStr := by
  unfold claimTx at h
  obtain ⟨row, hrow, h⟩ := Outcome.bind_eq_ok.mp h
  split at h
  · simp at h
  · rename_i hnot
    cases h
    refine ⟨row, Outcome.ofOption_eq_ok.mp hrow, ?_, rfl, rfl⟩
    intro hheld
    simpa [hheld] using hnot

theorem touchTx_ok {cfg : Config} {id assignee : String} {now expiry : Int} {t t' : Tables}
    (h : touchTx cfg id assignee now t = .ok (expiry, t')) :
    ∃ row ttl, t.issue.find id = some row ∧ row.assignee = some assignee ∧
      touchTtl (ActorKind.parse (row.actorKind.getD "agent")) cfg.week cfg.policy now = some ttl ∧
      expiry = wrapI64 (now + ttl) ∧
      t' = (t.setIssue id fun row =>
        { row with expiresAt := some (wrapI64 (now + ttl)), updatedAt := now }).logEvent id now
          assignee "heartbeat" "" := by
  unfold touchTx at h
  obtain ⟨row, hrow, h⟩ := Outcome.bind_eq_ok.mp h
  split at h
  · simp at h
  · rename_i hholder
    split at h
    · simp at h
    · rename_i ttl httl
      cases h
      exact ⟨row, ttl, Outcome.ofOption_eq_ok.mp hrow, not_not.mp hholder, httl, rfl, rfl⟩

theorem closeUncheckedTx_ok {id : String} {reason : Option String} {evidence : List Evidence}
    {actor : String} {now : Int} {t t' : Tables}
    (h : closeUncheckedTx id reason evidence actor now t = .ok ((), t')) :
    ∃ row, t.issue.find id = some row ∧
      t' = (t.setIssue id fun row => row.close reason evidence now).logEvent id now actor "closed"
        (closedDetail reason evidence) := by
  obtain ⟨row, hrow, h⟩ := Outcome.bind_eq_ok.mp h
  cases h
  exact ⟨row, Outcome.ofOption_eq_ok.mp hrow, rfl⟩

/-! ### The sweep -/

/-- The ids a list of selected claims requeues. -/
def requeuedIds (claims : List (String × String × String)) : List String :=
  (claims.filter fun c => c.2.2 ≠ ActorKind.human.asStr).map (·.1)

theorem foldl_sweepRow (now : Int) (claims : List (String × String × String))
    (report : SweepReport) (t : Tables) :
    ((claims.foldl (sweepRow now) (report, t)).2.issue = t.issue.mapRows fun id row =>
        if id ∈ requeuedIds claims then row.unclaim else row) ∧
      (claims.foldl (sweepRow now) (report, t)).2.dep = t.dep ∧
      (claims.foldl (sweepRow now) (report, t)).2.project = t.project ∧
      (claims.foldl (sweepRow now) (report, t)).1.requeued =
        report.requeued ++ requeuedIds claims := by
  -- On the lapsed claims: a human one is escalated and its row left, an agent's is cleared.
  induction claims generalizing report t with
  | nil =>
      refine ⟨?_, rfl, rfl, by simp [requeuedIds]⟩
      exact (Table.mapRows_eq_self fun k v _ => by simp [requeuedIds]).symm
  | cons claim claims ih =>
      obtain ⟨id, assignee, kind⟩ := claim
      rw [List.foldl_cons, sweepRow]
      by_cases hk : kind = ActorKind.human.asStr
      · rw [if_pos hk]
        have hids : requeuedIds ((id, assignee, kind) :: claims) = requeuedIds claims := by
          simp [requeuedIds, hk]
        rw [hids]
        exact ih _ _
      · rw [if_neg hk]
        have hids : requeuedIds ((id, assignee, kind) :: claims) = id :: requeuedIds claims := by
          simp [requeuedIds, hk]
        obtain ⟨hissue, hdep, hproject, hreq⟩ := ih
          { report with requeued := report.requeued ++ [id] }
          ((t.setIssue id IssueRow.unclaim).logEvent id now "sweeper" "claim_expired" assignee)
        refine ⟨?_, hdep, hproject, ?_⟩
        · rw [hissue, hids, Tables.logEvent_issue, Tables.setIssue_issue, Table.modify,
            Table.mapRows_mapRows]
          refine Table.mapRows_congr fun k v _ => ?_
          by_cases hki : k = id
          · simp only [hki, if_true, List.mem_cons, true_or]
            split <;> rfl
          · simp [hki]
        · rw [hreq, hids, List.append_assoc, List.singleton_append]

/-- The claims of a sweep are the lapsed rows. -/
@[simp] theorem mem_lapsed {t : Tables} {now : Int} {order : List String} {r : String × IssueRow} :
    r ∈ lapsed t now order ↔ t.issue.find r.1 = some r.2 ∧
      r.2.assignee.isSome = true ∧ r.2.expiresAt.any (· ≤ now) = true := by
  rw [lapsed, Sorting.mem_sortOn, List.mem_filter, ← Table.mem_rows, Bool.and_eq_true]

theorem claimColumns_texts {rows : List (String × IssueRow)}
    {claims : List (String × String × String)} (h : rows.mapM claimColumns = .ok claims) :
    ∀ r ∈ rows, ∃ kind, r.2.actorKind = some kind := by
  induction rows generalizing claims with
  | nil => simp
  | cons r rows ih =>
      rw [List.mapM_cons] at h
      obtain ⟨head, hhead, h⟩ := Outcome.bind_eq_ok.mp h
      obtain ⟨tail, htail, -⟩ := Outcome.bind_eq_ok.mp h
      intro r' hr'
      rcases List.mem_cons.mp hr' with rfl | hr'
      · unfold claimColumns at hhead
        split at hhead
        · rename_i kind _ hk
          exact ⟨kind, hk⟩
        · simp at hhead
      · exact ih htail r' hr'

/-- The columns of the selected claims, when all of them are texts. -/
theorem mem_claimColumns {rows : List (String × IssueRow)}
    {claims : List (String × String × String)} (h : rows.mapM claimColumns = .ok claims)
    {c : String × String × String} : c ∈ claims ↔
      ∃ r ∈ rows, r.1 = c.1 ∧ r.2.assignee = some c.2.1 ∧ r.2.actorKind = some c.2.2 := by
  -- On the rows, each of which has both columns or makes the query fail.
  induction rows generalizing claims with
  | nil =>
      cases h
      simp
  | cons r rows ih =>
      rw [List.mapM_cons] at h
      obtain ⟨head, hhead, h⟩ := Outcome.bind_eq_ok.mp h
      obtain ⟨tail, htail, h⟩ := Outcome.bind_eq_ok.mp h
      cases h
      rw [List.mem_cons, ih htail]
      unfold claimColumns at hhead
      split at hhead
      · rename_i assignee kind ha hk
        cases hhead
        constructor
        · rintro (rfl | ⟨r', hr', hc⟩)
          · exact ⟨r, List.mem_cons_self .., rfl, ha, hk⟩
          · exact ⟨r', List.mem_cons_of_mem _ hr', hc⟩
        · rintro ⟨r', hr', h1, h2, h3⟩
          rcases List.mem_cons.mp hr' with rfl | hr'
          · rw [ha] at h2
            rw [hk] at h3
            exact Or.inl (Prod.ext h1.symm
              (Prod.ext (Option.some.inj h2).symm (Option.some.inj h3).symm))
          · exact Or.inr ⟨r', hr', h1, h2, h3⟩
      · simp at hhead

theorem sweepTx_ok {now : Int} {order : List String} {t t' : Tables} {report : SweepReport}
    (h : sweepTx now order t = .ok (report, t')) :
    (t'.issue = t.issue.mapRows fun _ row => if sweeps now row then row.unclaim else row) ∧
      t'.dep = t.dep ∧ t'.project = t.project ∧
      ∀ id, id ∈ report.requeued ↔ ∃ row, t.issue.find id = some row ∧ sweeps now row = true := by
  unfold sweepTx at h
  obtain ⟨claims, hclaims, h⟩ := Outcome.bind_eq_ok.mp h
  have hfold : claims.foldl (sweepRow now) (⟨[], []⟩, t) = (report, t') := Except.ok.inj h
  obtain ⟨hissue, hdep, hproject, hreq⟩ := foldl_sweepRow now claims ⟨[], []⟩ t
  rw [hfold] at hissue hdep hproject hreq
  -- An id is requeued when its claim is among the lapsed ones and not a human's, which the row
  -- says.
  have hmem : ∀ id, id ∈ requeuedIds claims ↔
      ∃ row, t.issue.find id = some row ∧ sweeps now row = true := by
    intro id
    unfold requeuedIds sweeps
    constructor
    · intro hid
      obtain ⟨c, hc, rfl⟩ := List.mem_map.mp hid
      obtain ⟨hc, hkind⟩ := List.mem_filter.mp hc
      obtain ⟨r, hr, h1, h2, h3⟩ := (mem_claimColumns hclaims).mp hc
      obtain ⟨hfind, ha, he⟩ := mem_lapsed.mp hr
      refine ⟨r.2, h1 ▸ hfind, ?_⟩
      have hne : c.2.2 ≠ ActorKind.human.asStr := by simpa using hkind
      simp [ha, he, h3, hne]
    · rintro ⟨row, hfind, hsweeps⟩
      simp only [Bool.and_eq_true, decide_eq_true_eq] at hsweeps
      obtain ⟨⟨ha, he⟩, hkind⟩ := hsweeps
      have hrow : (id, row) ∈ lapsed t now order := mem_lapsed.mpr ⟨hfind, ha, he⟩
      obtain ⟨assignee, hassignee⟩ := Option.isSome_iff_exists.mp ha
      obtain ⟨kind, (hk : row.actorKind = some kind)⟩ := claimColumns_texts hclaims _ hrow
      refine List.mem_map.mpr ⟨(id, assignee, kind), List.mem_filter.mpr ⟨?_, ?_⟩, rfl⟩
      · exact (mem_claimColumns hclaims).mpr ⟨(id, row), hrow, rfl, hassignee, hk⟩
      · simpa [hk] using hkind
  refine ⟨?_, hdep, hproject, fun id => by rw [hreq, List.nil_append, hmem]⟩
  rw [hissue]
  refine Table.mapRows_congr fun id row hrow => ?_
  have : id ∈ requeuedIds claims ↔ sweeps now row = true := by
    rw [hmem]
    constructor
    · rintro ⟨row', hrow', hs⟩
      rw [hrow] at hrow'
      exact (Option.some.inj hrow') ▸ hs
    · exact fun hs => ⟨row, hrow, hs⟩
  simp only [this]

/-! ### Every scope -/

theorem Effect.refl {cfg : Config} (t : Tables) (s : Scope) : Effect cfg t s t := .idle rfl rfl rfl

/-- A transaction has the effect of its body, if it returns, and else none. -/
theorem effect_tx {cfg : Config} {s : Scope} {α : Type} {f : Tx α} {l : Locked Tables}
    (h : ∀ a t', f l.state = .ok (a, t') → Effect cfg l.state s t') :
    Effect cfg l.state s (Locked.tx f l).2.state :=
  Locked.tx_preserves (.refl _ _) h

theorem effect_query {cfg : Config} {s : Scope} {α : Type} (f : Tables → Result α)
    (l : Locked Tables) : Effect cfg l.state s (Locked.query f l).2.state := by
  rw [Locked.query_state]
  exact .refl _ _

theorem exec_effect (cfg : Config) (s : Scope) (l : Locked Tables) :
    Effect cfg l.state s (s.exec cfg l).2.state := by
  -- the scopes the last line leaves only read
  cases s with
  | ensureProject slug root idPrefix ts =>
      refine effect_tx fun _ t' h => ?_
      obtain rfl := ensureProjectTx_ok h
      exact .ensureProject rfl rfl rfl
  | dropProject slug =>
      refine effect_tx fun _ t' h => ?_
      obtain ⟨mine, rfl, rfl⟩ := dropProjectTx_ok h
      exact .dropProject rfl rfl rfl
  | ensureFolder slug name parent now =>
      refine effect_tx fun _ t' h => ?_
      obtain ⟨_, _, h⟩ := Outcome.bind_eq_ok.mp h
      cases h
      exact .idle rfl rfl rfl
  | setProjectFolder project folder now =>
      refine effect_tx fun _ t' h => ?_
      obtain ⟨assigned, rfl⟩ := setProjectFolderTx_ok h
      exact .idle rfl rfl rfl
  | markEventDelivered seq now =>
      refine effect_tx fun _ t' h => ?_
      cases h
      exact .idle rfl rfl rfl
  | markEventFailed seq nextAttemptAt error =>
      refine effect_tx fun _ t' h => ?_
      cases h
      exact .idle rfl rfl rfl
  | create spec project available draws now =>
      refine effect_tx fun id t' h => ?_
      obtain ⟨metadata, hproject, hparent, hfresh, hid, -, rfl⟩ := createTx_ok h
      exact .create hproject hparent hfresh hid rfl rfl rfl
  | update id patch actor now =>
      refine effect_tx fun _ t' h => ?_
      obtain ⟨row, next, status, hrow, hnext, hstatus, hi, hd, hp⟩ := updateTx_ok h
      exact .update hrow hnext hstatus hi hd hp
  | setLabels id labels actor now =>
      refine effect_tx fun _ t' h => ?_
      obtain ⟨_, _, h⟩ := Outcome.bind_eq_ok.mp h
      cases h
      exact .setLabels rfl rfl rfl
  | addDep child parent actor now =>
      refine effect_tx fun _ t' h => ?_
      obtain ⟨hchild, hparent, hreach, rfl⟩ := addDepTx_ok h
      exact .addDep hchild hparent hreach rfl rfl rfl
  | removeDep child parent actor now =>
      refine effect_tx fun _ t' h => ?_
      cases h
      exact .removeDep rfl rfl rfl
  | addRemoteDep child dependency actor now =>
      refine effect_tx fun _ t' h => ?_
      obtain ⟨_, _, h⟩ := Outcome.bind_eq_ok.mp h
      cases h
      exact .addRemoteDep rfl rfl rfl
  | removeRemoteDep child canonicalRef actor now =>
      refine effect_tx fun _ t' h => ?_
      cases h
      exact .idle rfl rfl rfl
  | claim req ttl now =>
      refine effect_tx fun _ t' h => ?_
      obtain ⟨row, hrow, hfree, -, rfl⟩ := claimTx_ok h
      exact .claim hrow hfree rfl rfl rfl
  | touch id assignee now =>
      refine effect_tx fun _ t' h => ?_
      obtain ⟨row, ttl, hrow, hholder, -, -, rfl⟩ := touchTx_ok h
      exact .touch hrow hholder rfl rfl rfl
  | release id actor now =>
      refine effect_tx fun _ t' h => ?_
      cases h
      exact .release rfl rfl rfl
  | sweep now order =>
      refine effect_tx fun _ t' h => ?_
      obtain ⟨hissue, hdep, hproject, -⟩ := sweepTx_ok h
      exact .sweep hissue hdep hproject
  | closeUnchecked id reason evidence actor now =>
      refine effect_tx fun _ t' h => ?_
      obtain ⟨row, hrow, rfl⟩ := closeUncheckedTx_ok h
      exact .closeUnchecked hrow rfl rfl rfl
  | _ => exact effect_query _ l

end Marbles.Db
