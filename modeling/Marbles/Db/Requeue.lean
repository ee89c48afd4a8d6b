import Marbles.Db.Alone

/-!
# What the sweep requeues

A lapsed agent claim is cleared and its issue reported as requeued. The sweep leaves the
status alone, and `ready` selects open issues only: a requeued issue that nothing else
holds back is offered again exactly when it was still open while it was held.

The condition is about the status before the sweep, since nothing in the sweep looks at it. All
other conditions of `ready` are shown to be met by an issue that has just been cleared.
-/

namespace Marbles.Db

/-- A call that returned a value found the lock healthy. -/
theorem runM_call_ok {cfg : Config} {c : Scope} {α : Type} {g : c.Ret → α} {s s' : Locked Tables}
    {a : α} (hexec : s.poisoned = true → c.exec cfg s = (.error .abort, s))
    (h : runM cfg (g <$> call c) s = (.ok a, s')) : s.poisoned = false := by
  cases hp : s.poisoned with
  | false => rfl
  | true =>
      have hcall : runM cfg (call c) s = (.error .abort, s) := hexec hp
      rw [map_eq_pure_bind, runM, Prog.runE_bind_error hcall] at h
      cases h

theorem sweepTx_of_perform {cfg : Config} {now : Int} {order : List String} {report : SweepReport}
    {s s' : Locked Tables} (h : perform cfg (.sweep now order) s = (.ok (.swept report), s')) :
    ∃ t', s' = .new t' ∧ sweepTx now order s.state = .ok (report, t') := by
  have hs : s.poisoned = false :=
    runM_call_ok (c := .sweep now order) (fun hp => Locked.withLock_poisoned _ hp) h
  rw [Locked.eq_new hs, @perform_eq cfg (.sweep now order) trivial] at h
  cases hsweep : sweepTx now order s.state with
  | ok p =>
      obtain ⟨r, t'⟩ := p
      rw [alone, Tx.map, hsweep] at h
      cases h
      exact ⟨t', rfl, rfl⟩
  | error e =>
      rw [alone, Tx.map, hsweep] at h
      cases e <;> cases h

/-- A ready issue is an eligible row. -/
theorem mem_readyIssues {t : Tables} {project : Option String} {now : Int} {id : String} :
    id ∈ (readyIssues project now t).map (·.id) ↔
      ∃ row, t.issue.find id = some row ∧ eligible t project now id row = true := by
  rw [readyIssues, List.map_map, List.mem_map]
  constructor
  · rintro ⟨r, hr, rfl⟩
    obtain ⟨hrow, heligible⟩ := mem_select.mp hr
    exact ⟨r.2, hrow, heligible⟩
  · rintro ⟨row, hrow, heligible⟩
    exact ⟨(id, row), mem_select.mpr ⟨hrow, heligible⟩, rfl⟩

/-- An unassigned row without blockers and past its grace is eligible when it is open. -/
theorem eligible_unclaim {t : Tables} {now : Int} {id : String} {row : IssueRow}
    (hdeps : ∀ p, t.DependsOn id p → ∃ row, t.issue.find p = some row ∧ row.status = .closed)
    (havailable : row.availableAt.all (· ≤ now) = true) :
    eligible t none now id row.unclaim = true ↔ row.status = .«open» := by
  have hblockers : t.openBlockers id = [] := by
    refine Tables.openBlockers_eq_nil.mpr fun p hp => ?_
    obtain ⟨prow, hprow, hclosed⟩ := hdeps p hp
    simp [Tables.isOpen, hprow, hclosed]
  have hgrace : row.unclaim.availableAt.all (· ≤ now) = true := havailable
  have hfree : row.unclaim.assignee.isNone = true := rfl
  have hstatus : row.unclaim.status = row.status := rfl
  simp only [eligible, hblockers, hgrace, hfree, hstatus, matchesScope, Option.all_none,
    List.isEmpty_nil, Bool.true_or, Bool.and_true, decide_eq_true_eq]

/-- A requeued issue whose dependencies are closed and whose grace is over is ready right after the
sweep exactly when its status was open before it. The status is what the sweep leaves alone, so work
that was started stays as it was, and out of the queue. -/
theorem requeued_ready_iff {cfg : Config} {now : Int} {order : List String}
    {report : SweepReport} {s s' : Locked Tables} {id : String} {row : IssueRow}
    (hsweep : perform cfg (.sweep now order) s = (.ok (.swept report), s'))
    (hid : id ∈ report.requeued) (hrow : s.state.issue.find id = some row)
    (hdeps : ∀ p, s'.state.DependsOn id p →
      ∃ row, s'.state.issue.find p = some row ∧ row.status = .closed)
    (havailable : row.availableAt.all (· ≤ now) = true) :
    (∃ issues, perform cfg (.ready none now) s' = (.ok (.issues issues), s') ∧
      id ∈ issues.map (·.id)) ↔ row.status = .«open» := by
  obtain ⟨t', rfl, htx⟩ := sweepTx_of_perform hsweep
  obtain ⟨hissue, -, -, hrequeued⟩ := sweepTx_ok htx
  have hswept : t'.issue.find id = some row.unclaim := by
    obtain ⟨row', hrow', hsweeps⟩ := (hrequeued id).mp hid
    obtain rfl := Option.some.inj (hrow.symm.trans hrow')
    rw [hissue, Table.find_mapRows, hrow, Option.map_some, hsweeps, if_pos rfl]
  have hready : perform cfg (.ready none now) (.new t') =
      (.ok (.issues (readyIssues none now t')), .new t') :=
    @perform_eq cfg (.ready none now) trivial t'
  rw [hready, ← eligible_unclaim hdeps havailable]
  constructor
  · rintro ⟨issues, hissues, hmem⟩
    cases hissues
    obtain ⟨row', hrow', heligible⟩ := mem_readyIssues.mp hmem
    obtain rfl := Option.some.inj (hswept.symm.trans hrow')
    exact heligible
  · intro heligible
    exact ⟨_, rfl, mem_readyIssues.mpr ⟨row.unclaim, hswept, heligible⟩⟩

/-! ### Stranded work -/

/-- An agent claims an issue for a minute and starts to work on it. -/
def startedIssue : List Op :=
  [.ensureProject "p" "/p" "p" 0,
    .create { id := some "x", project := some "p", availableAt := some 0 } [] 0,
    .claim ⟨"x", "a", .agent, some 60⟩ 0,
    .update "x" { status := some "in_progress", availableAt := some 0 } "a" 1]

/-- When the agent dies its issue is requeued, and ready to nobody. -/
theorem started_issue_stranded :
    let s := run {} startedIssue (opened "s")
    (perform {} (.sweep 100 []) s).1 = .ok (.swept ⟨["x"], []⟩) ∧
      (step {} (.sweep 100 []) s).state.dependsOn "x" = [] ∧
      ((step {} (.sweep 100 []) s).state.issue.find "x").map (·.availableAt) = some (some 0) ∧
      (perform {} (.ready none 100) (step {} (.sweep 100 []) s)).1 = .ok (.issues []) := by
  decide

/-- The same agent dying before it started leaves the issue to the others. -/
theorem unstarted_issue_ready :
    ∃ issues, perform {} (.ready none 100)
        (step {} (.sweep 100 []) (run {} (startedIssue.take 3) (opened "s"))) =
      (.ok (.issues issues), step {} (.sweep 100 []) (run {} (startedIssue.take 3) (opened "s"))) ∧
      "x" ∈ issues.map (·.id) := by
  have hswept : perform {} (.sweep 100 []) (run {} (startedIssue.take 3) (opened "s")) =
      (.ok (.swept ⟨["x"], []⟩),
        step {} (.sweep 100 []) (run {} (startedIssue.take 3) (opened "s"))) := rfl
  have hedges : (step {} (.sweep 100 []) (run {} (startedIssue.take 3) (opened "s"))).state.dep =
      .empty := rfl
  refine (requeued_ready_iff hswept (by decide) rfl (fun p hp => ?_) rfl).mpr rfl
  rw [Tables.DependsOn, hedges] at hp
  exact absurd hp (by simp)

end Marbles.Db
