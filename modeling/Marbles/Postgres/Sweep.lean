import Marbles.Postgres.Tenants

/-!
# What a sweep of the hosted store leaves

A sweep only takes claims away: a row that is held after it was there, unchanged, before it.
A lapsed claim of an agent is among the rows it visits, and is cleared when it is visited.

The body visits rows that it selected before, and every turn is a statement on the row by its key,
so what a turn finds may differ from what was selected only by the turns before it. A row is
visited once, as the selection is by key.
-/

namespace Marbles.Postgres

open Tenancy

variable {company : String} {now : Int}

/-- A claim of an agent that has lapsed. -/
def IssueRow.agentLapsed (now : Int) (row : IssueRow) : Prop :=
  row.assignee.isSome = true ∧ row.actorKind = some ActorKind.agent.asStr ∧
    ∃ expiry, row.expiresAt = some expiry ∧ expiry ≤ now

theorem keeps_logEvent (id : String) (ts : Int) (actor event detail : String) :
    Keeps Database.issue (logEvent company id ts actor event detail) := by
  refine .bind (.query _) fun seq => .bind (.query _) fun _ =>
    .bind (.execute fun _ => rfl) fun _ => .bind (.query _) fun row => ?_
  cases row with
  | none => exact .pure ()
  | some row => exact .bind (.query _) fun _ => .execute fun _ => rfl

/-- Every row that is held in `db'` is a row of `db`. -/
def Lets (db db' : Database) : Prop :=
  ∀ k row, db'.issue.find k = some row → row.assignee.isSome = true → db.issue.find k = some row

theorem Lets.trans {db db' db'' : Database} (h : Lets db db') (h' : Lets db' db'') : Lets db db'' :=
  fun k row hrow hheld => h k row (h' k row hrow hheld) hheld

theorem Lets.of_eq {db db' : Database} (h : db'.issue = db.issue) : Lets db db' :=
  fun _ _ hrow _ => h ▸ hrow

theorem lets_unclaim (db : Database) (id : String) :
    Lets db (db.setIssue company id IssueRow.unclaim) := by
  intro k row hrow hheld
  simp only [Database.setIssue, Table.find_modify] at hrow
  split at hrow
  · obtain ⟨old, -, rfl⟩ := Option.map_eq_some_iff.mp hrow
    cases hheld
  · exact hrow

/-- One turn takes claims away only, and clears the claim it visits unless a human holds it. -/
theorem sweepRow_ok {report report' : SweepReport} {r : (String × String) × IssueRow}
    {db db' : Database} (h : sweepRow company now report r db = .ok (report', db')) :
    Lets db db' ∧ (r.2.actorKind ≠ some "human" → ∀ row,
      db'.issue.find (company, r.1.2) = some row → row.assignee = none) := by
  obtain ⟨⟨_, id⟩, old⟩ := r
  cases hassignee : old.assignee with
  | none => simp only [sweepRow, hassignee] at h; cases h
  | some assignee =>
      cases hkind : old.actorKind with
      | none => simp only [sweepRow, hassignee, hkind] at h; cases h
      | some kind =>
          simp only [sweepRow, hassignee, hkind] at h
          split at h
          · rename_i hhuman
            obtain ⟨_, d, hlog, hpure⟩ := bind_eq_ok.mp h
            obtain ⟨-, rfl⟩ := pure_eq_ok hpure
            refine ⟨.of_eq (keeps_logEvent _ _ _ _ _ _ _ _ hlog), fun hne => absurd ?_ hne⟩
            rw [hhuman]
          · obtain ⟨_, d, hset, hrest⟩ := bind_eq_ok.mp h
            obtain ⟨_, d', hlog, hpure⟩ := bind_eq_ok.mp hrest
            obtain ⟨-, rfl⟩ := pure_eq_ok hpure
            obtain rfl := execute_eq_ok hset
            have hissue := keeps_logEvent _ _ _ _ _ _ _ _ hlog
            refine ⟨(lets_unclaim db id).trans (.of_eq hissue), fun _ row hrow => ?_⟩
            rw [hissue] at hrow
            simp only [Database.setIssue, Table.find_modify_self] at hrow
            obtain ⟨_, -, rfl⟩ := Option.map_eq_some_iff.mp hrow
            rfl

/-- All turns together. -/
theorem foldlM_sweepRow_ok {rows : List ((String × String) × IssueRow)} :
    ∀ {report report' : SweepReport} {db db' : Database},
      rows.foldlM (sweepRow company now) report db = .ok (report', db') →
      Lets db db' ∧ ∀ r ∈ rows, r.2.actorKind ≠ some "human" → ∀ row,
        db'.issue.find (company, r.1.2) = some row → row.assignee = none := by
  induction rows with
  | nil =>
      intro report report' db db' h
      obtain ⟨-, rfl⟩ := pure_eq_ok h
      exact ⟨.of_eq rfl, fun r hr => absurd hr List.not_mem_nil⟩
  | cons r rows ih =>
      intro report report' db db' h
      rw [List.foldlM_cons] at h
      obtain ⟨_, d, hturn, hrest⟩ := bind_eq_ok.mp h
      obtain ⟨hlets, hcleared⟩ := sweepRow_ok hturn
      obtain ⟨hlets', hcleared'⟩ := ih hrest
      refine ⟨hlets.trans hlets', fun r' hr' hkind row hrow => ?_⟩
      rcases List.mem_cons.mp hr' with rfl | hmem
      · -- a claim cleared in this turn is not taken again later
        cases hheld : row.assignee with
        | none => rfl
        | some assignee =>
            have hback := hlets' _ _ hrow (by rw [hheld]; rfl)
            rw [hcleared hkind row hback] at hheld
            cases hheld
      · exact hcleared' r' hmem hkind row hrow

/-- After a sweep that succeeded no claim of an agent of the company has lapsed. -/
theorem sweepTx_clears {order : List String} {report : SweepReport} {db db' : Database}
    (h : sweepTx company now order db = .ok (report, db')) {id : String} {row : IssueRow}
    (hrow : db'.issueRow company id = some row) : ¬ row.agentLapsed now := by
  rintro ⟨hheld, hagent, expiry, hexpiry, hle⟩
  obtain ⟨rows, d, hrows, hfold⟩ := bind_eq_ok.mp h
  obtain ⟨hquery, rfl⟩ := query_eq_ok hrows
  cases hquery
  obtain ⟨hlets, hcleared⟩ := foldlM_sweepRow_ok hfold
  have hold : d.issue.find (company, id) = some row := hlets _ _ hrow hheld
  have hmem : ((company, id), row) ∈ lapsedQuery company now order d := by
    unfold lapsedQuery
    rw [Sorting.mem_sortOn, Table.select, List.mem_filter]
    exact ⟨Table.mem_scan.mpr hold, by simp [hheld, hexpiry, hle]⟩
  have hnone := hcleared _ hmem (by rw [hagent]; decide) row hrow
  rw [hnone] at hheld
  cases hheld

end Marbles.Postgres
