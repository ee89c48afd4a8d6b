import Marbles.Db.Enters
import Marbles.Db.Returns
import Marbles.Db.Rows

/-!
# Claims exclude each other

A claim is live while its lease has not lapsed. Nobody else can take a live claim, no
call made while it is live takes it from its holder except the ones that end claims, and
the sweep leaves it and every human hold alone.

All of this rests on one fact about each lock scope (`Effect.assigned`). What the code
does not keep is the promise to *answer* a foreign claim: the lease is computed first,
and a human lease that ends past the calendar panics before anyone looks at the holder.

The result has three parts, and they need different assumptions. That a claim which went through
excludes others, and that nothing but the listed calls takes a live claim away, hold in every
reachable state, also after panics. That a foreign claim is refused with an error needs a healthy
lock and a lease that can be computed, and exactly then it is.
-/

namespace Marbles.Db

/-- The issue is assigned to `holder`. -/
def Assigned (t : Tables) (id holder : String) : Prop :=
  ∃ row, t.issue.find id = some row ∧ row.assignee = some holder

/-- The issue is assigned to `holder` by a claim that has not lapsed at `now`. -/
def LiveClaim (t : Tables) (id holder : String) (now : Int) : Prop :=
  ∃ row expiry, t.issue.find id = some row ∧ row.assignee = some holder ∧
    row.expiresAt = some expiry ∧ now < expiry

theorem LiveClaim.assigned {t : Tables} {id holder : String} {now : Int}
    (h : LiveClaim t id holder now) : Assigned t id holder := by
  obtain ⟨row, expiry, hrow, hholder, -, -⟩ := h
  exact ⟨row, hrow, hholder⟩

/-- The time a call is made at, for the calls that are told. Reads that are not told a time cannot
depend on one. -/
def callTime : Op → Option Int
  | .ensureProject _ _ _ ts => some ts
  | .ensureFolder _ now | .setProjectFolder _ _ now | .pendingEvents now _
  | .markEventDelivered _ now | .create _ _ now | .ready _ now | .update _ _ _ now
  | .addLabel _ _ _ now | .removeLabel _ _ _ now | .addDep _ _ _ now | .removeDep _ _ _ now
  | .claim _ now | .touch _ _ now | .release _ _ now | .sweep now _ | .close _ _ _ _ now
  | .supersede _ _ _ now | .prometheusMetrics now => some now
  | .dropProject _ | .projects | .folderView | .markEventFailed .. | .get _ | .list .. | .history _
  | .stats => none

/-- The calls that are meant to end a claim. -/
def endsClaims : Op → Bool
  | .release .. | .close .. | .supersede .. | .dropProject _ => true
  | _ => false

/-! ### What a scope does to a claim -/

/-- The scopes that never change an assignee. -/
def keepsAssignee : Scope → Bool
  | .claim .. | .sweep .. | .release .. | .closeUnchecked .. | .dropProject _ => false
  | _ => true

theorem Effect.assigned {cfg : Config} {t t' : Tables} {s : Scope} {id holder : String}
    (he : Effect cfg t s t') (hs : keepsAssignee s = true) (h : Assigned t id holder) :
    Assigned t' id holder := by
  obtain ⟨row, hrow, hholder⟩ := h
  have hdrop : s ≠ .dropProject row.project := by
    rintro rfl
    cases hs
  obtain ⟨row', hrow'⟩ := he.stays hrow hdrop
  refine ⟨row', hrow', ?_⟩
  cases he.row hrow' with
  | create hnone =>
      rw [hrow] at hnone
      cases hnone
  | kept hold | update hold | setLabels hold | addDep hold | addRemoteDep hold | touch hold =>
      obtain rfl := Option.some.inj (hrow.symm.trans hold)
      exact hholder
  | claim | release | sweep | closeUnchecked => exact absurd hs Bool.false_ne_true

/-- A claim made while the issue is held leaves it with the holder. -/
theorem Effect.assigned_claim {cfg : Config} {t t' : Tables} {req : ClaimRequest}
    {ttl now : Int} {id holder : String} (he : Effect cfg t (.claim req ttl now) t')
    (h : LiveClaim t id holder now) : Assigned t' id holder := by
  obtain ⟨row, expiry, hrow, hholder, hexpiry, hlive⟩ := h
  obtain ⟨row', hrow'⟩ := he.stays hrow fun heq => by cases heq
  refine ⟨row', hrow', ?_⟩
  cases he.row hrow' with
  | kept hold =>
      obtain rfl := Option.some.inj (hrow.symm.trans hold)
      exact hholder
  | claim _ hold hfree =>
      obtain rfl := Option.some.inj (hrow.symm.trans hold)
      rw [IssueRow.claim, ← hfree, hholder]
      simp [heldAt, hholder, hexpiry, hlive]

/-- The sweep leaves live claims and human holds as they are. -/
theorem Effect.kept_sweep {cfg : Config} {t t' : Tables} {now : Int} {order : List String}
    {id : String} {row : IssueRow} (he : Effect cfg t (.sweep now order) t')
    (hrow : t.issue.find id = some row)
    (hkept : (∃ expiry, row.expiresAt = some expiry ∧ now < expiry) ∨
      row.actorKind = some ActorKind.human.asStr) : t'.issue.find id = some row := by
  refine he.unchanged hrow (fun heq => by cases heq) fun row' hstep => ?_
  cases hstep with
  | kept hold => exact Option.some.inj (hold.symm.trans hrow)
  | sweep hold hlapsed =>
      obtain rfl := Option.some.inj (hrow.symm.trans hold)
      have hsweeps : sweeps now row = false := by
        rcases hkept with ⟨expiry, hexpiry, hlive⟩ | hkind
        · simp [sweeps, hexpiry, hlive]
        · simp [sweeps, hkind]
      rw [hsweeps] at hlapsed
      cases hlapsed

/-! ### What a call does to a claim -/

theorem step_sweep (cfg : Config) (now : Int) (order : List String) (s : Locked Tables) :
    Effect cfg s.state (.sweep now order) (step cfg (.sweep now order) s).state := by
  have h : step cfg (.sweep now order) s = ((Scope.sweep now order).exec cfg s).2 :=
    runM_map_state cfg _ _ s
  rw [h]
  exact exec_effect cfg _ s

theorem step_claim (cfg : Config) (req : ClaimRequest) (now : Int) (s : Locked Tables) :
    ∃ ttl, Effect cfg s.state (.claim req ttl now) (step cfg (.claim req now) s).state := by
  cases hlease : req.ttl cfg.week cfg.policy now with
  | none =>
      rw [step, perform_claim_abort hlease]
      exact ⟨0, .refl _ _⟩
  | some ttl =>
      refine ⟨ttl, ?_⟩
      have h : step cfg (.claim req now) s = ((Scope.claim req ttl now).exec cfg s).2 := by
        have hclaim : claim cfg req now = call (.claim req ttl now) := by rw [claim, hlease]
        refine (runM_map_state cfg _ _ s).trans ?_
        rw [hclaim]
        rfl
      rw [h]
      exact exec_effect cfg _ s

/-- A call made while a claim is live leaves the issue with its holder, unless the call is
one of those that end claims. -/
theorem step_assigned {cfg : Config} {op : Op} {s : Locked Tables} {id holder : String}
    {now : Int} (htime : (callTime op).all (· = now) = true) (hends : endsClaims op = false)
    (h : LiveClaim s.state id holder now) : Assigned (step cfg op s).state id holder := by
  have hkeeps : (∀ c, Enters op c → keepsAssignee c = true) →
      Assigned (step cfg op s).state id holder := by
    intro hop
    refine @step_invariant cfg op (fun s => Assigned s.state id holder) (fun c s hc hs => ?_) s
      h.assigned
    exact (exec_effect cfg c s).assigned (hop c hc) hs
  -- A claim and a sweep look at the lease; every other call keeps the column, scope by scope.
  cases op with
  | claim req at_ =>
      obtain rfl : at_ = now := by simpa [callTime] using htime
      obtain ⟨ttl, he⟩ := step_claim cfg req at_ s
      exact he.assigned_claim h
  | sweep at_ order =>
      obtain rfl : at_ = now := by simpa [callTime] using htime
      obtain ⟨row, expiry, hrow, hholder, hexpiry, hlive⟩ := h
      exact ⟨row, (step_sweep cfg at_ order s).kept_sweep hrow (Or.inl ⟨expiry, hexpiry, hlive⟩),
        hholder⟩
  | release | close | supersede | dropProject => exact absurd hends.symm Bool.false_ne_true
  | create =>
      refine hkeeps fun c hc => ?_
      obtain ⟨project, available, rfl⟩ := hc
      rfl
  | update | ready =>
      refine hkeeps fun c hc => ?_
      rcases hc with rfl | hc
      · rfl
      · first
        | exact hc ▸ rfl
        | obtain ⟨_, rfl⟩ := hc
          rfl
  | addLabel | removeLabel =>
      refine hkeeps fun c hc => ?_
      rcases hc with rfl | ⟨labels, rfl⟩
      · rfl
      · rfl
  | _ =>
      refine hkeeps fun c hc => ?_
      cases hc
      rfl

/-! ### Refusing a foreign claim -/

theorem claimTx_refused {t : Tables} {req : ClaimRequest} {ttl now : Int} {holder : String}
    (h : LiveClaim t req.id holder now) (hne : holder ≠ req.assignee) :
    claimTx req ttl now t = .error (.fail (.alreadyClaimed req.id holder)) := by
  obtain ⟨row, expiry, hrow, hholder, hexpiry, hlive⟩ := h
  have hheld : heldAt row.assignee row.expiresAt now = true := by
    simp [heldAt, hholder, hexpiry, hlive]
  have hother : row.assignee ≠ some req.assignee := fun he =>
    hne (Option.some.inj (hholder.symm.trans he))
  rw [claimTx, hrow]
  change (if heldAt row.assignee row.expiresAt now && decide (row.assignee ≠ some req.assignee)
    then _ else _) = _
  rw [hheld, hholder, if_pos (by simpa [hholder] using hother)]
  rfl

/-- On a healthy lock a foreign claim is refused, and nothing written, exactly when its own
lease can be computed. -/
theorem perform_claim_refused {cfg : Config} {t : Tables} {req : ClaimRequest} {now : Int}
    {holder : String} (h : LiveClaim t req.id holder now) (hne : holder ≠ req.assignee) :
    perform cfg (.claim req now) (.new t) =
        (.error (.fail (.alreadyClaimed req.id holder)), .new t) ↔
      (req.ttl cfg.week cfg.policy now).isSome = true := by
  constructor
  · intro hrefused
    cases hlease : req.ttl cfg.week cfg.policy now with
    | some ttl => rfl
    | none =>
        rw [perform_claim_abort hlease] at hrefused
        cases hrefused
  · intro hlease
    obtain ⟨ttl, httl⟩ := Option.isSome_iff_exists.mp hlease
    have hclaim : claimAlone cfg req now t =
        .error (.fail (.alreadyClaimed req.id holder)) := by
      rw [claimAlone, httl]
      exact claimTx_refused h hne
    have hdefined : LeaseDefined cfg (.claim req now) := hlease
    rw [perform_eq hdefined, alone, Tx.map, hclaim]
    rfl

/-- On a poisoned lock no claim is answered at all. -/
theorem perform_claim_poisoned {cfg : Config} {req : ClaimRequest} {now : Int} {s : Locked Tables}
    (hs : s.poisoned = true) : perform cfg (.claim req now) s = (.error .abort, s) := by
  cases hlease : req.ttl cfg.week cfg.policy now with
  | none => rw [perform_claim_abort hlease]
  | some ttl =>
      simp only [perform, method, claim, hlease, map_eq_pure_bind]
      exact Prog.runE_bind_error (@exec_poisoned cfg s hs (.claim req ttl now))

/-- In every state that any calls reach. A foreign claim of a live one is refused without a trace
exactly when the lock is healthy and the lease it asks for can be computed: the lease comes first,
and on a poisoned lock nothing is answered. No other call takes a live claim from its holder, and
the sweep clears neither live claims nor human holds; both hold whatever has panicked before. Both
ways not to answer are panics: one of the call itself, before it has the lock, and one of an earlier
call, while it had it. -/
theorem claims_exclude (cfg : Config) (storeId : String) (ops : List Op) :
    let s := run cfg ops (opened storeId)
    (∀ req now holder, LiveClaim s.state req.id holder now → holder ≠ req.assignee →
      (perform cfg (.claim req now) s = (.error (.fail (.alreadyClaimed req.id holder)), s) ↔
        s.poisoned = false ∧ (req.ttl cfg.week cfg.policy now).isSome = true)) ∧
    (∀ op id holder now, (callTime op).all (· = now) = true → endsClaims op = false →
      LiveClaim s.state id holder now → Assigned (step cfg op s).state id holder) ∧
    (∀ now order id row, s.state.issue.find id = some row →
      (∃ expiry, row.expiresAt = some expiry ∧ now < expiry) ∨
        row.actorKind = some ActorKind.human.asStr →
      (step cfg (.sweep now order) s).state.issue.find id = some row) := by
  intro s
  refine ⟨fun req now holder h hne => ?_, fun op id holder now htime hends h => ?_,
    fun now order id row hrow hkept => ?_⟩
  · cases hpoisoned : s.poisoned with
    | true =>
        rw [perform_claim_poisoned hpoisoned]
        exact ⟨nofun, nofun⟩
    | false =>
        rw [Locked.eq_new hpoisoned, perform_claim_refused h hne]
        exact ⟨fun hlease => ⟨rfl, hlease⟩, And.right⟩
  · exact step_assigned htime hends h
  · exact (step_sweep cfg now order s).kept_sweep hrow hkept

/-! ### The lease that panics -/

/-- An issue that an agent claims at time 5, for the default half hour. -/
def heldIssue : List Op :=
  [.ensureProject "p" "/p" "p" 0, .create { id := some "x", project := some "p" } [] 0,
    .claim ⟨"x", "a", .agent, none⟩ 5]

theorem heldIssue_live : LiveClaim (run {} heldIssue (opened "s")).state "x" "a" 10 := by
  refine ⟨_, 5 + 30 * 60, rfl, rfl, rfl, by decide⟩

/-- The longest lease a human can ask for. -/
def longestClaim : ClaimRequest := ⟨"x", "b", .human, some (2 ^ 63 - 1)⟩

theorem longestClaim_ttl {cfg : Config} (hw : cfg.week.startHour ≤ cfg.week.endHour) :
    longestClaim.ttl cfg.week cfg.policy 10 = none := by
  have hdeadline : cfg.week.deadline 10 (max ((2 ^ 63 - 1) / 60) 1) = none :=
    WorkWeek.deadline_eq_none hw (by decide) (by decide)
  rw [ClaimRequest.ttl, longestClaim]
  simp only [hdeadline]
  rfl

/-- A foreign human claim of a live claim that is not answered. -/
theorem foreign_claim_panics :
    LiveClaim (run {} heldIssue (opened "s")).state longestClaim.id "a" 10 ∧
      "a" ≠ longestClaim.assignee ∧
      (perform {} (.claim longestClaim 10) (run {} heldIssue (opened "s"))).1 = .error .abort := by
  refine ⟨heldIssue_live, by decide, ?_⟩
  have habort := @perform_claim_abort {} longestClaim 10 (longestClaim_ttl (by decide))
  rw [habort]

/-- An agent's claim of the same issue is refused. -/
theorem foreign_claim_refused :
    perform {} (.claim ⟨"x", "b", .agent, none⟩ 10) (run {} heldIssue (opened "s")) =
      (.error (.fail (.alreadyClaimed "x" "a")), run {} heldIssue (opened "s")) :=
  ((claims_exclude {} "s" heldIssue).1 ⟨"x", "b", .agent, none⟩ 10 "a" heldIssue_live
    (by decide)).mpr ⟨rfl, rfl⟩

end Marbles.Db
