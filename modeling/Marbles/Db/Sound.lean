import Marbles.Db.Dag
import Marbles.Db.Enters
import Marbles.Db.Rows

/-!
# States the store can be in

The invariants that a second implementation of the contract leans on: the dependency
graph is well formed, and the three columns of a claim are set and cleared together, so
that there is no holder without a kind or without an expiry.

Both invariants were proved before, from `Effect` and from `RowStep`. Here they are stated in the
form in which the comparison with the records adapter uses them.
-/

namespace Marbles.Db

/-- Holder, kind and expiry of a claim are all there, or none of them is. -/
structure IssueRow.Whole (row : IssueRow) : Prop where
  kind : row.actorKind.isSome = row.assignee.isSome
  expiry : row.expiresAt.isSome = row.assignee.isSome

/-- A well-formed graph over rows whose claims are whole. -/
structure Sound (t : Tables) : Prop where
  graph : WellFormed t
  whole : ∀ {id row}, t.issue.find id = some row → row.Whole

theorem IssueRow.whole_claim (row : IssueRow) (assignee kind : String) (now expiry : Int) :
    (row.claim assignee kind now expiry).Whole := ⟨rfl, rfl⟩

theorem RowStep.whole {cfg : Config} {t : Tables} {s : Scope} {id : String} {row' : IssueRow}
    (h : RowStep cfg t id s row') (hw : ∀ {row}, t.issue.find id = some row → row.Whole) :
    row'.Whole := by
  cases h with
  | kept hrow => exact hw hrow
  | create | release | sweep | closeUnchecked => exact ⟨rfl, rfl⟩
  | update hrow | setLabels hrow | addDep hrow | addRemoteDep hrow =>
      exact ⟨(hw hrow).kind, (hw hrow).expiry⟩
  | claim => exact IssueRow.whole_claim ..
  | touch hrow hholder =>
      -- only a claim that is there is renewed
      exact ⟨(hw hrow).kind, by simp [hholder]⟩

/-- Every lock scope keeps the claims whole. -/
theorem whole_effect {cfg : Config} {t t' : Tables} {s : Scope}
    (h : ∀ {id row}, t.issue.find id = some row → row.Whole) (he : Effect cfg t s t')
    {id : String} {row : IssueRow} (hrow : t'.issue.find id = some row) : row.Whole :=
  (he.row hrow).whole h

theorem Sound.effect {cfg : Config} {t t' : Tables} {s : Scope} (h : Sound t)
    (he : Effect cfg t s t') : Sound t' := ⟨h.graph.effect he, whole_effect h.whole he⟩

theorem sound_empty (storeId : String) : Sound (.empty storeId) :=
  ⟨wellFormed_empty storeId, fun hrow => by simp [Tables.empty] at hrow⟩

/-- Every call leaves a sound state. -/
theorem Sound.step {cfg : Config} {op : Op} {s : Locked Tables} (h : Sound s.state) :
    Sound (step cfg op s).state :=
  @step_invariant cfg op (fun s => Sound s.state)
    (fun c s _ hs => hs.effect (exec_effect cfg c s)) s h

theorem Sound.run {cfg : Config} (ops : List Op) {s : Locked Tables} (h : Sound s.state) :
    Sound (run cfg ops s).state :=
  Machine.invariant (fun s : Locked Tables => Sound s.state) (fun _ _ hs => hs.step) ops h

end Marbles.Db
