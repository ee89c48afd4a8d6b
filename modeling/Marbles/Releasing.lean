import Marbles.Holds
import Marbles.Db.Closing
import Marbles.Db.Rows

/-!
# Releasing while others claim

`claims_release` reads the holder in one call of the store and clears the claim in a
second one, whoever holds it by then. `releases_own` says when this steals nothing: while
the request is between its two calls, nobody else is granted a claim on the issue. The
other callers run any programs whatsoever.

The other callers are arbitrary programs, so nothing is known about their calls but what they do
to the holder of this issue, and that is `Unforeign.effect`. The invariant speaks about the two
calls of the release only: from the read on, whoever holds the issue is somebody the request may
release. The condition asks for no more than that nobody else is granted a claim in between.
-/

namespace Marbles.Api

open Db (Tables IssueRow Scope DbI LiveClaim Effect exec_effect)

/-- A holder who is neither the caller nor the one it named. -/
def Foreign (principal : Principal) (assignee : Option String) (current : String) : Prop :=
  current ≠ principal.name ∧ assignee ≠ some current

/-- Nobody foreign holds the issue, live or not. -/
def Unforeign (t : Tables) (id : String) (principal : Principal) (assignee : Option String) :
    Prop :=
  ∀ row current, t.issue.find id = some row → row.assignee = some current →
    ¬ Foreign principal assignee current

theorem not_foreign_of_owns {principal : Principal} {assignee : Option String} {current : String}
    (h : owns principal assignee current = true) : ¬ Foreign principal assignee current := by
  rintro ⟨hname, hassignee⟩
  unfold owns at h
  cases hkind : principal.kind with
  | human =>
      rw [hkind] at h
      exact hname (of_decide_eq_true h)
  | agent =>
      rw [hkind] at h
      simp [hname, hassignee] at h

/-! ### What another scope does to the holder -/

/-- The scope is granted a claim on `id` in a foreign name. -/
def GrantsForeign (t : Tables) (id : String) (principal : Principal) (assignee : Option String) :
    Scope → Prop
  | .claim req _ now => req.id = id ∧ Foreign principal assignee req.assignee ∧
      ∃ row, t.issue.find id = some row ∧
        (heldAt row.assignee row.expiresAt now = true → row.assignee = some req.assignee)
  | _ => False

/-- Only a granted claim makes somebody a holder. -/
theorem Unforeign.effect {cfg : Db.Config} {t t' : Tables} {s : Scope} {id : String}
    {principal : Principal} {assignee : Option String} (h : Unforeign t id principal assignee)
    (he : Effect cfg t s t') (hs : ¬ GrantsForeign t id principal assignee s) :
    Unforeign t' id principal assignee := by
  intro row' current hrow' hcurrent
  cases he.row hrow' with
  | kept hrow | update hrow | setLabels hrow | addDep hrow | addRemoteDep hrow | touch hrow =>
      exact h _ current hrow hcurrent
  | create | release | sweep | closeUnchecked =>
      -- nobody holds the issue now
      cases hcurrent
  | claim hid hrow hfree =>
      obtain rfl := Option.some.inj hcurrent
      exact fun hforeign => hs ⟨hid, hforeign, _, hrow, hfree⟩

/-! ### The two calls of the request -/

/-- The check of the holder passes on this issue. -/
def Passes (principal : Principal) (assignee : Option String) (issue : Issue) : Prop :=
  ∀ current, issue.assignee = some current → owns principal assignee current = true

/-- The last call was a read of the issue, and the check passed on what it returned. -/
def Checked (principal : Principal) (id : String) (assignee : Option String)
    (tr : List (Event DbI)) : Prop :=
  ∃ issue, tr.getLast? = some ⟨.get id, .ok issue⟩ ∧ Passes principal assignee issue

/-- The request releases its own issue, right after a check that passed. -/
def ReleasesChecked (principal : Principal) (now : Int) (id : String) (assignee : Option String)
    (s : Scope) (tr : List (Event DbI)) : Prop :=
  ∀ i actor at_, s = .release i actor at_ →
    i = id ∧ actor = principal.name ∧ at_ = now ∧ Checked principal id assignee tr

theorem claimsRelease_spec (principal : Principal) (now : Int) (id : String)
    (assignee : Option String) :
    Prog.Spec (I := DbI) (ReleasesChecked principal now id assignee) (fun _ _ => True)
      (claimsRelease principal now id assignee).run [] := by
  refine ⟨fun _ _ _ h => (nomatch h), fun r => ?_⟩
  cases r with
  | error e => exact trivial
  | ok issue =>
      change Prog.Spec (I := DbI) _ _ (checkHolder principal id assignee issue.assignee >>=
        fun _ => (do store (Db.call (.release id principal.name now)); pure Response.ok)).run
          [⟨.get id, .ok issue⟩]
      rcases checkHolder_cases principal id assignee issue.assignee with hcheck | ⟨e, hcheck⟩
      · have hpasses : Passes principal assignee issue := by
          intro current hcurrent
          rw [hcurrent, checkHolder] at hcheck
          by_contra howns
          rw [if_neg howns] at hcheck
          cases hcheck
        rw [hcheck]
        refine ⟨fun i actor at_ h => ?_, fun r => by cases r <;> exact trivial⟩
        cases h
        exact ⟨rfl, rfl, rfl, issue, rfl, hpasses⟩
      · rw [hcheck]
        exact trivial

section Callers

variable {ι : Type} [DecidableEq ι]

/-- Callers of the API and others, each in the middle of its program. -/
abbrev Callers (ι : Type) := System ι DbI (Locked Tables) (Outcome ApiError Response)

/-- While caller `c` is between its two calls, the step of another caller is not granted a
claim on the issue in a foreign name. -/
def NoForeignGrant (c : ι) (principal : Principal) (id : String) (assignee : Option String)
    (w : Callers ι) (i : ι) : Prop :=
  Checked principal id assignee (w.threads c).trace → i ≠ c → ∀ s k,
    (w.threads i).prog = .call s k → ¬ GrantsForeign w.shared.state id principal assignee s

/-- What a read that comes back with an issue says about its row. -/
theorem get_returned {cfg : Db.Config} {id : String} {issue : Issue} {l : Locked Tables}
    (h : ((Scope.get id).exec cfg l).1 = .ok issue) :
    ((Scope.get id).exec cfg l).2 = l ∧
      ∃ row, l.state.issue.find id = some row ∧ l.state.view id row = issue := by
  refine ⟨Locked.query_same Outcome.ofOption_ne_abort, ?_⟩
  have hget : Db.getQuery id l.state = .ok issue := Locked.query_answered h
  exact Db.getQuery_eq_ok.mp hget

/-- Between the two calls nobody foreign holds the issue. -/
theorem checked_step {cfg : Db.Config} {c i : ι} {principal : Principal} {id : String}
    {assignee : Option String} {w : Callers ι}
    (h : Checked principal id assignee (w.threads c).trace →
      Unforeign w.shared.state id principal assignee)
    (hi : NoForeignGrant c principal id assignee w i) :
    Checked principal id assignee ((System.step (Scope.exec cfg) i w).threads c).trace →
      Unforeign (System.step (Scope.exec cfg) i w).shared.state id principal assignee := by
  cases hprog : (w.threads i).prog with
  | ret b => rwa [System.step_ret hprog]
  | call s k =>
      have heffect : Effect cfg w.shared.state s (s.exec cfg w.shared).2.state :=
        exec_effect cfg s w.shared
      rw [System.step_call hprog]
      intro hchecked
      by_cases hic : c = i
      · -- its own step was the read
        subst hic
        obtain ⟨issue, hlast, hpasses⟩ := hchecked
        simp only [Function.update_self, List.getLast?_concat] at hlast
        obtain ⟨rfl, hresp⟩ := Event.mk.inj (Option.some.inj hlast)
        obtain ⟨hsame, row, hrow, rfl⟩ := get_returned (eq_of_heq hresp)
        intro row' current hrow' hcurrent
        change ((Scope.get id).exec cfg w.shared).2.state.issue.find id = some row' at hrow'
        rw [hsame] at hrow'
        obtain rfl := Option.some.inj (hrow.symm.trans hrow')
        exact not_foreign_of_owns (hpasses current hcurrent)
      · simp only [Function.update_of_ne hic] at hchecked
        exact (h hchecked).effect heffect (hi hchecked (Ne.symm hic) s k hprog)

/-- In every interleaving of a release with any other callers: if nobody else is granted a claim on
the issue between the two calls of the request, the claim that the second call clears is not a live
one of somebody else. The second call does not look at the holder again, so the condition is about
the stretch between the two. -/
theorem releases_own {cfg : Db.Config} {c : ι} {principal : Principal} {now : Int} {id : String}
    {assignee : Option String} {p : ι → Prog DbI (Outcome ApiError Response)}
    {s₀ : Locked Tables} {schedule : List ι}
    (hp : p c = (handle cfg ⟨principal, now, .claimsRelease id assignee⟩).run)
    (hschedule : Machine.Meets (System.step (Scope.exec cfg))
      (NoForeignGrant c principal id assignee) schedule (System.init s₀ p))
    {i actor : String} {at_ : Int} {k : Result Unit → Prog DbI (Outcome ApiError Response)}
    (hrelease : ((System.run (Scope.exec cfg) schedule (System.init s₀ p)).threads c).prog =
      .call (.release i actor at_) k) (current : String)
    (hlive : LiveClaim (System.run (Scope.exec cfg) schedule (System.init s₀ p)).shared.state i
      current at_) :
    current = principal.name ∨ assignee = some current := by
  have hinv : Checked principal id assignee
        ((System.run (Scope.exec cfg) schedule (System.init s₀ p)).threads c).trace →
      Unforeign (System.run (Scope.exec cfg) schedule (System.init s₀ p)).shared.state id
        principal assignee :=
    Machine.invariant_of_meets
      (fun w : Callers ι => Checked principal id assignee (w.threads c).trace →
        Unforeign w.shared.state id principal assignee)
      (fun _ _ h hi => checked_step h hi) schedule (fun ⟨_, hlast, _⟩ => nomatch hlast) hschedule
  have hspec := @System.spec_run _ _ _ _ _ (Scope.exec cfg) _ _ p c
    (hp ▸ claimsRelease_spec principal now id assignee) schedule s₀
  rw [hrelease] at hspec
  obtain ⟨rfl, -, -, hchecked⟩ := hspec.1 i actor at_ rfl
  obtain ⟨row, -, hrow, hholder, -, -⟩ := hlive
  by_contra hneither
  rw [not_or] at hneither
  exact hinv hchecked row current hrow hholder hneither

end Callers

/-! ### A claim that slips in -/

/-- One caller releases an issue that nobody holds, the other claims it. -/
def releaseAndClaim : Bool → Prog DbI (Outcome ApiError Response)
  | true => (handle {} ⟨⟨.human, "me"⟩, 10, .claimsRelease "x" none⟩).run
  | false => (handle {} ⟨⟨.human, "you"⟩, 9, .claimsClaim "x" none none⟩).run

/-- An issue without a claim. -/
def unheld : Locked Tables :=
  Db.run {} [.ensureProject "p" "/p" "p" 0, .create { id := some "x", project := some "p" } [] 0]
    (Db.opened "s")

/-- The claim is granted between the two calls, and the second call takes it away. -/
theorem release_steals :
    let w := System.run (Scope.exec {}) [true, false] (System.init unheld releaseAndClaim)
    (w.shared.state.issue.find "x").map hold = some (some "you", some "human", some 604809) ∧
      Foreign ⟨.human, "me"⟩ none "you" ∧
      ((System.step (Scope.exec {}) true w).shared.state.issue.find "x").map hold =
        some (none, none, none) := by
  refine ⟨by decide +kernel, ⟨by decide, by decide⟩, by decide +kernel⟩

/-- An issue that the caller of the release holds. -/
def ownHold : Locked Tables := Db.step {} (.claim ⟨"x", "me", .human, none⟩ 9) unheld

/-- Alone, the request comes to its second call with its own claim. -/
theorem release_of_own_claim : "me" = "me" ∨ (none : Option String) = some "me" := by
  have hlive : LiveClaim ownHold.state "x" "me" 10 :=
    ⟨_, 604809, rfl, rfl, by decide +kernel, by decide⟩
  have hmeets : Machine.Meets (System.step (Scope.exec {}))
      (NoForeignGrant true ⟨.human, "me"⟩ "x" none) [true]
      (System.init ownHold releaseAndClaim) := ⟨fun _ hne => absurd rfl hne, trivial⟩
  exact @releases_own Bool _ {} true ⟨.human, "me"⟩ 10 "x" none releaseAndClaim ownHold [true] rfl
    hmeets "x" "me" 10 _ rfl "me" hlive

end Marbles.Api
