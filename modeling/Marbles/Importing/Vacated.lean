import Marbles.Db.Acts
import Marbles.Db.Metrics
import Marbles.Db.Requeue
import Marbles.Db.Rows
import Marbles.Importing.Runs

/-!
# Closed issues and their holders

Closing an issue clears its claim. An update to the status closed does not, and a claim does not
look at the status, so a closed issue can be held; it is then swept, and counted as a live claim,
like any other. In a run in which neither happens no closed issue is ever held.

A scope can make a closed issue held in two ways only, and the condition forbids both. The second
importer closes with receipts through `close`, which clears the claim; the first sets statuses by
updates, and there it matters that it created the issue itself and nobody has claimed it.
-/

namespace Marbles.Importing

open Db
open Import (ClockRead Report)
open Sorting (groupOn)

/-- Nobody holds the issue, if it is closed. -/
def VacatedRow (row : IssueRow) : Prop := row.status = .closed → row.assignee = none

/-- Nobody holds a closed issue. -/
def Vacated (t : Tables) : Prop := ∀ id row, t.issue.find id = some row → VacatedRow row

/-- Nobody holds the issue. -/
def Unheld (t : Tables) (id : String) : Prop :=
  ∀ row, t.issue.find id = some row → row.assignee = none

/-- A claim is made of an issue that is not closed, and an update to closed of one that nobody
holds. -/
def Orderly (t : Tables) : Action → Prop
  | .op (.claim req _) => ∀ row, t.issue.find req.id = some row → row.status ≠ .closed
  | .op (.update id patch _ _) => patch.status = some "closed" → Unheld t id
  | _ => True

/-- The same of a single scope. -/
def OrderlyScope (t : Tables) : Scope → Prop
  | .claim req _ _ => ∀ row, t.issue.find req.id = some row → row.status ≠ .closed
  | .update id patch _ _ => patch.status = some "closed" → Unheld t id
  | _ => True

/-! ### What one scope does -/

theorem vacated_step {cfg : Config} {t : Tables} {c : Scope} {id : String} {row' : IssueRow}
    (h : RowStep cfg t id c row') (hv : Vacated t) (hc : OrderlyScope t c) : VacatedRow row' := by
  cases h with
  | kept hrow | setLabels hrow | addDep hrow | addRemoteDep hrow | touch hrow =>
      have hold := hv id _ hrow
      exact fun hclosed => hold hclosed
  | create => exact fun hclosed => by cases hclosed
  | release | sweep | closeUnchecked => exact fun _ => rfl
  | claim hid hrow =>
      subst hid
      have hopen := hc _ hrow
      exact fun hclosed => absurd hclosed hopen
  | @update patch _ _ row next status hrow hnext hstatus =>
      intro hclosed
      obtain rfl : status = .closed := hclosed
      rcases updated_status hnext hstatus with ⟨-, hsame⟩ | hpatch
      · exact hv id row hrow hsame.symm
      · exact hc hpatch row hrow

theorem Vacated.scope {cfg : Config} {s : Locked Tables} (hv : Vacated s.state) {c : Scope}
    (hc : OrderlyScope s.state c) : Vacated (c.exec cfg s).2.state :=
  fun _ _ hrow' => vacated_step ((exec_effect cfg c s).row hrow') hv hc

/-! ### What one action does -/

/-- The scopes of an orderly call are orderly. -/
theorem Orderly.enters_op {cfg : Config} {t : Tables} {o : Op} {c : Scope}
    (ha : Orderly t (.op o)) (hc : (Action.op o).Enters cfg c) : OrderlyScope t c := by
  -- Scope by scope; only a claim and an update have something to be orderly about.
  cases o with
  | claim req now =>
      obtain ⟨ttl, -, rfl⟩ := hc
      exact ha
  | update id patch actor now =>
      rcases hc with rfl | rfl
      · exact ha
      · trivial
  | create spec draws now =>
      obtain ⟨project, available, rfl⟩ := hc
      trivial
  | ready project now =>
      rcases hc with rfl | ⟨id, rfl⟩
      · trivial
      · trivial
  | addLabel id label actor now | removeLabel id label actor now =>
      rcases hc with rfl | ⟨labels, rfl⟩
      · trivial
      · trivial
  | close id reason evidence actor now =>
      rcases hc with rfl | ⟨-, rfl⟩ | rfl
      · trivial
      · trivial
      · trivial
  | supersede id replacement actor now =>
      rcases hc with ⟨i, rfl⟩ | rfl | ⟨labels, rfl⟩
      · trivial
      · trivial
      · trivial
  | _ =>
      obtain rfl := hc
      trivial

theorem Orderly.enters {cfg : Config} {t : Tables} {a : Action} {c : Scope} (ha : Orderly t a)
    (hlist : ∀ project clock rows, a ≠ .importList project clock rows) (hc : a.Enters cfg c) :
    OrderlyScope t c := by
  cases a with
  | op o => exact ha.enters_op hc
  | importList project clock rows => exact absurd rfl (hlist project clock rows)
  | importJsonl env project rename rows dryRun =>
      rcases hc with ⟨_, _, _, _, _, _, rfl⟩ | ⟨_, _, _, rfl⟩ | ⟨id, status, now, hne, rfl⟩ |
        ⟨_, rfl⟩ | ⟨_, _, _, _, rfl⟩ | ⟨_, rfl⟩
      · trivial
      · trivial
      · exact fun heq => absurd (Option.some.inj heq) hne
      · trivial
      · trivial
      · trivial
  | _ =>
      obtain rfl := hc
      trivial

/-- An action stays orderly while it runs. -/
theorem Orderly.scope {cfg : Config} {a : Action} {s : Locked Tables} (ha : Orderly s.state a)
    {c : Scope} (hc : a.Enters cfg c) : Orderly (c.exec cfg s).2.state a := by
  cases a with
  | op o =>
      cases o with
      | claim req now =>
          obtain ⟨ttl, -, rfl⟩ := hc
          intro row' hrow'
          cases (exec_effect cfg _ s).row hrow' with
          | kept hrow => exact ha row' hrow
          | claim hid hrow =>
              have hopen := ha _ hrow
              exact hopen
      | update id patch actor now =>
          intro hclosed row' hrow'
          have hunheld := ha hclosed
          rcases hc with rfl | rfl
          · cases (exec_effect cfg _ s).row hrow' with
            | kept hrow => exact hunheld row' hrow
            | update hrow =>
                have hnone := hunheld _ hrow
                exact hnone
          · cases (exec_effect cfg _ s).row hrow' with
            | kept hrow => exact hunheld row' hrow
      | _ => trivial
  | _ => trivial

/-! ### The list importer

It sets the status of the row it has just created, so that nobody holds the issue. -/

theorem Vacated.modify {t t' : Tables} {id : String} {f : IssueRow → IssueRow} (hv : Vacated t)
    (hissue : t'.issue = t.issue.modify id f)
    (hf : ∀ row, t.issue.find id = some row → VacatedRow (f row)) : Vacated t' := by
  intro k row' hrow'
  rw [hissue, Table.find_modify] at hrow'
  split at hrow'
  · rename_i hid
    subst hid
    obtain ⟨row, hrow, rfl⟩ := Option.map_eq_some_iff.mp hrow'
    exact hf row hrow
  · exact hv k row' hrow'

theorem Unheld.modify {t t' : Tables} {id k : String} {f : IssueRow → IssueRow} (hu : Unheld t id)
    (hissue : t'.issue = t.issue.modify k f) (hf : ∀ row, (f row).assignee = row.assignee) :
    Unheld t' id := by
  intro row' hrow'
  rw [hissue, Table.find_modify] at hrow'
  split at hrow'
  · obtain ⟨row, hrow, rfl⟩ := Option.map_eq_some_iff.mp hrow'
    exact (hf row).trans (hu row hrow)
  · exact hu row' hrow'

/-- The row that is being imported is there, and nobody holds it. -/
structure Landed (id : String) (t : Tables) : Prop where
  stored : id ∈ t.issue.keys
  unheld : Unheld t id

theorem runs_importDep {cfg : Config} {t : Tables} {id : String} {createdAt : Int}
    {report : Report} {dep : Dependency} (hv : Vacated t) (hl : Landed id t) :
    Runs (Scope.exec cfg) Vacated (fun _ => Landed id) (fun _ _ => True)
      (Import.importDep id createdAt report dep) t := by
  unfold Import.importDep
  cases dep.dependsOnId with
  | none => exact .pure hv hl
  | some target =>
      refine runs_attempt (runs_addDep hv hl.stored (fun _ _ _ u hi _ _ => ?_) (fun _ _ => ?_)
        fun _ => ?_)
      · have hvu : Vacated u := hv.modify hi fun row hrow => hv id row hrow
        have hstored : id ∈ u.issue.keys := by
          rw [hi, Table.keys_modify]
          exact hl.stored
        exact ⟨hvu, .pure hvu ⟨hstored, hl.unheld.modify hi fun _ => rfl⟩⟩
      · exact .pure hv hl
      · exact .fail hv trivial

theorem runs_importRow {cfg : Config} {t : Tables} (project : String) (clock : ClockRead → Int)
    (report : Report) (row : Issue) (index : Nat) (hv : Vacated t) :
    Runs (Scope.exec cfg) Vacated (fun _ _ => True) (fun _ _ => True)
      (Import.importRow cfg project clock report (row, index)) t := by
  unfold Import.importRow
  -- the row is created,
  refine Runs.bind (q := fun _ => Landed row.id) (runs_orElseFail (runs_create rfl rfl rfl hv
    (fun hc available u hi _ _ => ⟨?_, ?_, ?_⟩) fun _ _ => trivial)) fun _ u hvu hlu => ?_
  · intro id row' hrow'
    rw [hi] at hrow'
    by_cases hid : id = row.id
    · subst hid
      rw [Table.find_insert_new hc.fresh] at hrow'
      obtain rfl := Option.some.inj hrow'
      exact fun _ => rfl
    · rw [Table.find_insert_ne hid] at hrow'
      exact hv id row' hrow'
  · rw [hi]
    exact Table.mem_keys_insert.mpr (Or.inl rfl)
  · intro row' hrow'
    rw [hi, Table.find_insert_new hc.fresh] at hrow'
    exact Option.some.inj hrow' ▸ rfl
  refine Runs.bind (q := fun _ => Landed row.id)
    (.ite (fun _ => .fail hvu trivial) fun _ => .pure hvu hlu) fun _ u hvu hlu => ?_
  -- then its edges,
  refine Runs.bind (q := fun _ => Landed row.id)
    (Runs.foldlM (q := fun _ _ => Landed row.id) hvu hlu fun _ _ _ _ u _ hvu hlu =>
      runs_importDep hvu hlu) fun _ u hvu hlu => ?_
  -- and its status
  refine Runs.bind (q := fun _ _ => True) (.ite (fun _ => .pure hvu trivial) fun _ => ?_)
    fun _ u hvu _ => .pure hvu trivial
  refine Runs.bind (runs_orElseFail (runs_restate hvu (fun st closedAt available _ _ v hi _ _ =>
    ⟨?_, fun _ => trivial⟩) fun _ _ => trivial)) fun _ v hvv _ => .pure hvv trivial
  exact hvu.modify hi fun row' hrow' _ => hlu.unheld row' hrow'

theorem runs_importList {cfg : Config} {t : Tables} (project : String) (clock : ClockRead → Int)
    (rows : List Issue) (hv : Vacated t) :
    Runs (Scope.exec cfg) Vacated (fun _ _ => True) (fun _ _ => True)
      (Import.import cfg project clock rows) t :=
  Runs.foldlM (q := fun _ _ _ => True) hv trivial fun _ entry _ report _ _ hv _ =>
    runs_importRow project clock report entry.1 entry.2 hv

/-! ### Runs -/

theorem Vacated.importList {cfg : Config} {s : Locked Tables} (hv : Vacated s.state)
    (project : String) (clock : ClockRead → Int) (rows : List Issue) :
    Vacated ((Action.importList project clock rows).step cfg s).state := by
  cases hp : s.poisoned with
  | true =>
      refine congrArg (fun s : Locked Tables => Vacated s.state)
        (@Action.step_invariant cfg _ (fun s' => s' = s) (fun c s' _ hs' => ?_) s rfl) ▸ hv
      subst hs'
      rw [exec_poisoned hp]
  | false =>
      obtain ⟨r, t', hrun, hv', -⟩ := (@runs_importList cfg _ project clock rows hv).result
      rw [← Locked.eq_new hp] at hrun
      have hstep : (Action.importList project clock rows).step cfg s = .new t' := by
        change ((returns (Import.import cfg project clock rows)).run (Scope.exec cfg) s).2 = _
        rw [returns, Prog.run_bind, Prog.run_ret]
        exact congrArg Prod.snd hrun
      rw [hstep]
      exact hv'

/-- An orderly action leaves no closed issue held. -/
theorem Vacated.step {cfg : Config} {s : Locked Tables} {a : Action} (hv : Vacated s.state)
    (ha : Orderly s.state a) : Vacated (a.step cfg s).state := by
  by_cases hlist : ∃ project clock rows, a = .importList project clock rows
  · obtain ⟨project, clock, rows, rfl⟩ := hlist
    exact hv.importList project clock rows
  · have hother : ∀ project clock rows, a ≠ .importList project clock rows :=
      fun project clock rows heq => hlist ⟨project, clock, rows, heq⟩
    refine (@Action.step_invariant cfg a (fun s => Vacated s.state ∧ Orderly s.state a)
      (fun c s hc hs => ?_) s ⟨hv, ha⟩).1
    exact ⟨hs.1.scope (hs.2.enters hother hc), hs.2.scope hc⟩

/-- In a run of orderly actions no closed issue is ever held. -/
theorem Vacated.run {cfg : Config} {storeId : String} {actions : List Action}
    (h : Machine.Meets (Action.step cfg) (fun s a => Orderly s.state a) actions (opened storeId)) :
    Vacated (Action.run cfg actions (opened storeId)).state := by
  refine Machine.invariant_of_meets (fun s : Locked Tables => Vacated s.state)
    (fun _ _ hv ha => hv.step ha) actions (fun id row hrow => ?_) h
  simp [opened, Tables.empty] at hrow

/-! ### Sweeping and counting -/

/-- Nothing in the report of a sweep is about a closed issue. -/
structure Spares (t : Tables) (report : SweepReport) : Prop where
  requeued : ∀ id ∈ report.requeued, ∃ row, t.issue.find id = some row ∧ row.status ≠ .closed
  escalated : ∀ e ∈ report.escalated, ∃ id row holder, t.issue.find id = some row ∧
    row.status ≠ .closed ∧ row.assignee = some holder ∧ e = s!"{id} ({holder})"

/-- Every hold that is escalated is one of the claims that were selected. -/
theorem foldl_sweepRow_escalated {now : Int} {claims : List (String × String × String)}
    {acc : SweepReport × Tables} {e : String}
    (h : e ∈ (claims.foldl (sweepRow now) acc).1.escalated) :
    e ∈ acc.1.escalated ∨ ∃ c ∈ claims, e = s!"{c.1} ({c.2.1})" := by
  induction claims generalizing acc with
  | nil => exact Or.inl h
  | cons c claims ih =>
      rcases ih h with hacc | ⟨c', hc', he⟩
      · obtain ⟨id, holder, kind⟩ := c
        simp only [sweepRow] at hacc
        split at hacc
        · rcases List.mem_append.mp hacc with hold | hnew
          · exact Or.inl hold
          · exact Or.inr ⟨_, List.mem_cons_self .., List.mem_singleton.mp hnew⟩
        · exact Or.inl hacc
      · exact Or.inr ⟨c', List.mem_cons_of_mem _ hc', he⟩

theorem Vacated.spares {t t' : Tables} {now : Int} {order : List String} {report : SweepReport}
    (hv : Vacated t) (h : sweepTx now order t = .ok (report, t')) : Spares t report := by
  have hopen : ∀ {id : String} {row : IssueRow}, t.issue.find id = some row →
      row.assignee.isSome = true → row.status ≠ .closed := by
    intro id row hrow hheld hclosed
    rw [hv id row hrow hclosed] at hheld
    exact absurd hheld (by simp)
  refine ⟨fun id hid => ?_, fun e he => ?_⟩
  · obtain ⟨row, hrow, hsweeps⟩ := ((sweepTx_ok h).2.2.2 id).mp hid
    simp only [sweeps, Bool.and_eq_true] at hsweeps
    exact ⟨row, hrow, hopen hrow hsweeps.1.1⟩
  · obtain ⟨claims, hclaims, hfold⟩ := Outcome.bind_eq_ok.mp h
    have hreport := congrArg Prod.fst (Except.ok.inj hfold)
    subst hreport
    rcases foldl_sweepRow_escalated he with hnone | ⟨c, hc, rfl⟩
    · cases hnone
    · obtain ⟨r, hr, hid, hholder, -⟩ := (mem_claimColumns hclaims).mp hc
      obtain ⟨hrow, hheld, -⟩ := mem_lapsed.mp hr
      exact ⟨r.1, r.2, c.2.1, hrow, hopen hrow hheld, hholder, by rw [hid]⟩

/-- The rows that are measured. -/
def measured (t : Tables) : MetricRows :=
  ⟨t.issue.rows, t.dep.keys, t.ledger.history.rows.map Prod.snd⟩

/-- The metrics are rendered from these rows alone. -/
theorem prometheusMetricsQuery_measured (now : Int) (t : Tables) :
    prometheusMetricsQuery now t = (measured t).render now := rfl

/-- The same rows without the closed issues. -/
def unclosed (m : MetricRows) : MetricRows :=
  { m with issues := m.issues.filter fun r => r.2.status ≠ .closed }

theorem Vacated.claimsActive {t : Tables} (hv : Vacated t) (now : Int) :
    (measured t).claimsActive now = (unclosed (measured t)).claimsActive now := by
  have hlive : (unclosed (measured t)).issues.filter
        (fun r => r.2.assignee.isSome && r.2.expiresAt.any (· > now)) =
      (measured t).issues.filter (fun r => r.2.assignee.isSome && r.2.expiresAt.any (· > now)) := by
    rw [unclosed, List.filter_filter]
    refine List.filter_congr fun r hr => ?_
    by_cases hclosed : r.2.status = .closed
    · simp [hv r.1 r.2 (Table.mem_rows.mp hr) hclosed]
    · simp [hclosed]
  rw [MetricRows.claimsActive, MetricRows.claimsActive, hlive]

/-- In a run of orderly actions a closed issue has no assignee, is in no report of a sweep, and is
not counted as a live claim. The two ways to a closed issue that is held are an update to closed and
a claim of what is closed, and the condition is about these. -/
theorem closed_unheld {cfg : Config} {storeId : String} {actions : List Action}
    (h : Machine.Meets (Action.step cfg) (fun s a => Orderly s.state a) actions (opened storeId)) :
    let s := Action.run cfg actions (opened storeId)
    (∀ id issue, s.state.rowToIssue id = some issue → issue.status = "closed" →
      issue.assignee = none) ∧
    (∀ now order report s', perform cfg (.sweep now order) s = (.ok (.swept report), s') →
      Spares s.state report) ∧
    ∀ now, (measured s.state).claimsActive now = (unclosed (measured s.state)).claimsActive
        now := by
  have hv := Vacated.run h
  refine ⟨fun id issue hissue hclosed => ?_, fun now order report s' hsweep => ?_,
    fun now => hv.claimsActive now⟩
  · obtain ⟨row, hrow, rfl⟩ := rowToIssue_eq_some.mp hissue
    exact hv id row hrow (Status.asStr_inj.mp hclosed)
  · obtain ⟨t', -, htx⟩ := sweepTx_of_perform hsweep
    exact hv.spares htx

/-- An issue that is claimed, and closed while it is held. -/
def heldIssue : List Action := [.op (.ensureProject "p" "/p" "p" 0),
  .op (.create { id := some "x", project := some "p" } [] 0),
  .op (.claim ⟨"x", "a", .agent, some 60⟩ 1),
  .op (.close "x" none [Evidence.ack "done"] "a" 5)]

theorem closed_unheld_close :
    ∃ issue, (Action.run {} heldIssue (opened "s")).state.rowToIssue "x" = some issue ∧
      issue.status = "closed" ∧ issue.assignee = none := by
  have horderly : Machine.Meets (Action.step {}) (fun s a => Orderly s.state a) heldIssue
      (opened "s") := by
    refine ⟨trivial, trivial, fun row hrow => ?_, trivial, trivial⟩
    obtain rfl := Option.some.inj hrow
    decide
  exact ⟨_, rfl, rfl, (closed_unheld horderly).1 "x" _ rfl rfl⟩

/-- Whoever claims the issue once more holds it although it is closed: a sweep reports it, and it
counts as a live claim until then. An update to closed does the same in one step. -/
theorem closed_held :
    let s := Action.run {} (heldIssue ++ [.op (.claim ⟨"x", "b", .agent, some 60⟩ 6)]) (opened "s")
    let s' := Action.run {} (heldIssue.take 3 ++
      [.op (.update "x" { status := some "closed" } "a" 6)]) (opened "s")
    (s.state.rowToIssue "x").map (fun issue => (issue.status, issue.assignee)) =
        some ("closed", some "b") ∧
      (measured s.state).claimsActive 7 = .ok [(("p", "agent"), 1)] ∧
      (perform {} (.sweep 100 []) s).1 = .ok (.swept ⟨["x"], []⟩) ∧
    (s'.state.rowToIssue "x").map (fun issue => (issue.status, issue.assignee)) =
        some ("closed", some "a") ∧
      (perform {} (.sweep 100 []) s').1 = .ok (.swept ⟨["x"], []⟩) := by
  refine ⟨rfl, by decide, by decide, rfl, by decide⟩

end Marbles.Importing
