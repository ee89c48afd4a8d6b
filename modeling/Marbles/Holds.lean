import Marbles.Api
import Marbles.Db.Claims

/-!
# Requests against a hold

What `claims.claim`, `claims.touch` and `claims.release` do to an issue somebody holds.
Each of the three compares the holder of the row with a name: for a human with the name
of its credential, for an agent with the name in the body. So a human reaches its own
holds only, and an agent reaches the hold of anyone whose name it sends.

Whether a request acts for a name (`actsFor`) is decided by the request and its principal, before
the store is looked at. The store comes in for the other direction: when a request does act for
the holder, something happens to the row, and what that is depends on the kind of the lease and on
whether the calendar has a deadline. A panic counts as leaving the row, since the transaction is
rolled back.
-/

namespace Marbles.Api

open Db (Tables IssueRow LiveClaim Effect exec_effect)

/-! ### The name a request acts under -/

/-- The requests about a claim. -/
def Request.isClaims : Request → Bool
  | .claimsClaim .. | .claimsTouch .. | .claimsRelease .. => true
  | _ => false

/-- The request is about the claim on `id` and is made in the name of `current`. -/
def Authenticated.actsFor (r : Authenticated) (id current : String) : Prop :=
  match r.request with
  | .claimsClaim i assignee _ | .claimsTouch i assignee =>
      i = id ∧ holder r.principal assignee = current
  | .claimsRelease i assignee => i = id ∧ owns r.principal assignee current = true
  | _ => False

/-- A heartbeat of a human hold that ends at `expiry` and still ends there afterwards: the
new lease ends at the same time, or its calendar walk panics. -/
def Authenticated.leavesExpiry (cfg : Db.Config) (r : Authenticated) (expiry : Int) : Prop :=
  match r.request with
  | .claimsTouch .. =>
      ∀ ttl, humanTtl cfg.week cfg.policy r.now = some ttl → wrapI64 (r.now + ttl) = expiry
  | _ => False

/-- A human acts in its own name only. -/
theorem actsFor_human {r : Authenticated} {id current : String} (hkind : r.principal.kind = .human)
    (h : r.actsFor id current) : r.principal.name = current := by
  obtain ⟨⟨kind, name⟩, now, request⟩ := r
  obtain rfl : kind = .human := hkind
  cases request with
  | claimsClaim | claimsTouch => exact h.2
  | claimsRelease i assignee =>
      have howns : (current = name : Bool) = true := h.2
      exact (of_decide_eq_true howns).symm
  | _ => exact h.elim

/-! ### The store after each of the three -/

section Step

variable {cfg : Db.Config}

theorem step_claimsClaim (principal : Principal) (now : Int) (id : String)
    (assignee : Option String) (ttlSeconds : Option Int) (s : Locked Tables) :
    step cfg ⟨principal, now, .claimsClaim id assignee ttlSeconds⟩ s =
      Db.step cfg (.claim ⟨id, holder principal assignee, principal.kind, ttlSeconds⟩ now) s :=
  (map_state _ _ s).trans ((store_state _ s).trans (Db.runM_map_state cfg _ _ s).symm)

theorem step_claimsTouch (principal : Principal) (now : Int) (id : String)
    (assignee : Option String) (s : Locked Tables) :
    step cfg ⟨principal, now, .claimsTouch id assignee⟩ s =
      Db.step cfg (.touch id (holder principal assignee) now) s :=
  (map_state _ _ s).trans ((store_state _ s).trans (Db.runM_map_state cfg _ _ s).symm)

/-- On a healthy lock a release passes the check of the holder, or changes nothing. -/
theorem step_claimsRelease {principal : Principal} {now : Int} {id : String}
    {assignee : Option String} {t : Tables} {row : IssueRow} {current : String}
    (hrow : t.issue.find id = some row) (hholder : row.assignee = some current) :
    step cfg ⟨principal, now, .claimsRelease id assignee⟩ (.new t) =
      if owns principal assignee current then Db.step cfg (.release id principal.name now) (.new t)
      else .new t := by
  have hget : Db.runM cfg (Db.get id) (Locked.new t) = (.ok (t.view id row), .new t) := by
    rw [(Db.isTx_get cfg id).eq t, Db.Tx.read, Db.getQuery_find hrow]
    rfl
  have hstore : Prog.runE (Db.Scope.exec cfg) (store (Db.get id)) (Locked.new t) =
      (.ok (t.view id row), .new t) := by
    change Prog.run _ (Except.mapError (Fault.map ApiError.db) <$> (Db.get id).run)
      (Locked.new t) = _
    rw [map_eq_pure_bind, Prog.run_bind]
    change (Except.mapError (Fault.map ApiError.db) (Db.runM cfg (Db.get id) (Locked.new t)).1,
      (Db.runM cfg (Db.get id) (Locked.new t)).2) = _
    rw [hget]
    rfl
  change (Prog.runE (Db.Scope.exec cfg) (store (Db.get id) >>= _) (Locked.new t)).2 = _
  rw [Prog.runE_bind, hstore]
  change (Prog.runE (Db.Scope.exec cfg) (checkHolder principal id assignee row.assignee >>= _)
    (Locked.new t)).2 = _
  rw [hholder, checkHolder]
  by_cases howns : owns principal assignee current = true
  · rw [if_pos howns, if_pos howns]
    exact (unit_state _ _ _).trans ((store_state _ _).trans (Db.runM_unit_state cfg _ _ _).symm)
  · rw [if_neg howns, if_neg howns]
    rfl

/-! ### What is left alone -/

/-- A claim of another issue, or a foreign claim of a live one, leaves the row. -/
theorem kept_claim {t t' : Tables} {req : ClaimRequest} {ttl now : Int} {id current : String}
    {row : IssueRow} (he : Effect cfg t (.claim req ttl now) t') (hrow : t.issue.find id = some row)
    (hheld : heldAt row.assignee row.expiresAt now = true) (hholder : row.assignee = some current)
    (hne : ¬ (req.id = id ∧ req.assignee = current)) : t'.issue.find id = some row := by
  refine he.unchanged hrow (fun heq => by cases heq) fun row' hstep => ?_
  cases hstep with
  | kept hold => exact Option.some.inj (hold.symm.trans hrow)
  | claim hid hold hfree =>
      obtain rfl := Option.some.inj (hrow.symm.trans hold)
      exact absurd ⟨hid, (Option.some.inj (hholder.symm.trans (hfree hheld))).symm⟩ hne

theorem kept_touch {t t' : Tables} {i assignee : String} {now : Int} {id current : String}
    {row : IssueRow} (he : Effect cfg t (.touch i assignee now) t')
    (hrow : t.issue.find id = some row) (hholder : row.assignee = some current)
    (hne : ¬ (i = id ∧ assignee = current)) : t'.issue.find id = some row := by
  refine he.unchanged hrow (fun heq => by cases heq) fun row' hstep => ?_
  cases hstep with
  | kept hold => exact Option.some.inj (hold.symm.trans hrow)
  | touch hold hassignee =>
      obtain rfl := Option.some.inj (hrow.symm.trans hold)
      exact absurd ⟨rfl, (Option.some.inj (hholder.symm.trans hassignee)).symm⟩ hne

theorem kept_release {t t' : Tables} {i actor : String} {now : Int} {id : String} {row : IssueRow}
    (he : Effect cfg t (.release i actor now) t') (hrow : t.issue.find id = some row)
    (hne : i ≠ id) : t'.issue.find id = some row := by
  refine he.unchanged hrow (fun heq => by cases heq) fun row' hstep => ?_
  cases hstep with
  | kept hold => exact Option.some.inj (hold.symm.trans hrow)
  | release => exact absurd rfl hne

theorem step_effect_touch (id assignee : String) (now : Int) (s : Locked Tables) :
    Effect cfg s.state (.touch id assignee now) (Db.step cfg (.touch id assignee now) s).state := by
  rw [show Db.step cfg (.touch id assignee now) s = ((Db.Scope.touch id assignee now).exec cfg s).2
    from Db.runM_map_state cfg _ _ s]
  exact exec_effect cfg _ s

theorem step_effect_release (id actor : String) (now : Int) (s : Locked Tables) :
    Effect cfg s.state (.release id actor now) (Db.step cfg (.release id actor now) s).state := by
  rw [show Db.step cfg (.release id actor now) s = ((Db.Scope.release id actor now).exec cfg s).2
    from Db.runM_unit_state cfg _ _ s]
  exact exec_effect cfg _ s

/-! ### Who changes a human hold -/

/-- A request about claims that does not act for the holder of a live claim leaves the
whole row. -/
theorem row_kept {s : Locked Tables} {r : Authenticated} {id current : String} {row : IssueRow}
    (hreq : r.request.isClaims = true) (hrow : s.state.issue.find id = some row)
    (hheld : heldAt row.assignee row.expiresAt r.now = true) (hholder : row.assignee = some current)
    (hacts : ¬ r.actsFor id current) : (step cfg r s).state.issue.find id = some row := by
  obtain ⟨principal, now, request⟩ := r
  cases request with
  | claimsClaim i assignee ttlSeconds =>
      rw [step_claimsClaim]
      obtain ⟨ttl, he⟩ := Db.step_claim cfg
        ⟨i, holder principal assignee, principal.kind, ttlSeconds⟩ now s
      exact kept_claim he hrow hheld hholder hacts
  | claimsTouch i assignee =>
      rw [step_claimsTouch]
      exact kept_touch (step_effect_touch ..) hrow hholder hacts
  | claimsRelease i assignee =>
      by_cases hid : i = id
      · subst hid
        cases hp : s.poisoned with
        | true =>
            rcases step_state  ⟨principal, now, .claimsRelease i assignee⟩ s with h | h
            · rw [h, Db.step_poisoned hp, hrow]
            · rw [h, hrow]
        | false =>
            -- the check of the holder fails
            have howns : ¬ owns principal assignee current = true := fun h => hacts ⟨rfl, h⟩
            rw [Locked.eq_new hp, step_claimsRelease hrow hholder, if_neg howns]
            exact hrow
      · rcases step_state  ⟨principal, now, .claimsRelease i assignee⟩ s with h | h
        · rw [h]
          exact kept_release (step_effect_release ..) hrow hid
        · rw [h, hrow]
  | _ => exact absurd hreq Bool.false_ne_true

/-- What a claim asserts about an issue: its holder, the kind of the holder and the lease. -/
def hold (row : IssueRow) : Option String × Option String × Option Int :=
  (row.assignee, row.actorKind, row.expiresAt)

theorem step_committed {op : Op} (hlease : Db.LeaseDefined cfg op) {t t' : Tables} {reply : Reply}
    (h : Db.alone cfg op t = .ok (reply, t')) : Db.step cfg op (.new t) = .new t' := by
  rw [Db.step, Db.perform_eq hlease, h]
  rfl

/-- The holder's name is enough to be granted a claim. -/
theorem find_claimed {t : Tables} {req : ClaimRequest} {now : Int} {row : IssueRow}
    (hlease : Db.LeaseDefined cfg (.claim req now)) (hrow : t.issue.find req.id = some row)
    (hholder : row.assignee = some req.assignee) :
    ∃ expiry, (Db.step cfg (.claim req now) (.new t)).state.issue.find req.id =
      some (row.claim req.assignee req.actorKind.asStr now expiry) := by
  obtain ⟨ttl, httl⟩ := Option.isSome_iff_exists.mp hlease
  have hclaim : Db.claimTx req ttl now t =
      .ok (⟨req.id, req.assignee, req.actorKind, wrapI64 (now + ttl)⟩,
        (t.setIssue req.id fun row => row.claim req.assignee req.actorKind.asStr now
          (wrapI64 (now + ttl))).logEvent req.id now req.assignee "claimed"
            req.actorKind.asStr) := by
    unfold Db.claimTx
    rw [hrow]
    exact if_neg (by simp [hholder])
  have halone : Db.claimAlone cfg req now t = Db.claimTx req ttl now t := by
    rw [Db.claimAlone, httl]
  rw [step_committed hlease (Db.Tx.map_eq_ok.mpr ⟨_, halone.trans hclaim, rfl⟩)]
  refine ⟨wrapI64 (now + ttl), ?_⟩
  change (t.issue.modify req.id _).find req.id = _
  rw [Table.find_modify, if_pos rfl, hrow]
  rfl

theorem find_released {t : Tables} {id actor : String} {now : Int} {row : IssueRow}
    (hrow : t.issue.find id = some row) :
    (Db.step cfg (.release id actor now) (.new t)).state.issue.find id =
      some { row.unclaim with updatedAt := now } := by
  have hlease : Db.LeaseDefined cfg (.release id actor now) := trivial
  have hop : Db.alone cfg (.release id actor now) t = .ok (.unit, _) := rfl
  rw [step_committed hlease hop]
  change (t.issue.modify id _).find id = _
  rw [Table.find_modify, if_pos rfl, hrow]
  rfl

theorem touchTtl_of_human {row : IssueRow} (hkind : row.actorKind = some ActorKind.human.asStr)
    (now : Int) : touchTtl (ActorKind.parse (row.actorKind.getD "agent")) cfg.week cfg.policy now =
      humanTtl cfg.week cfg.policy now := by
  rw [hkind, Option.getD_some, ActorKind.parse_asStr]
  rfl

/-- A heartbeat in the name of the holder of a human hold. -/
theorem find_touched {t : Tables} {id assignee : String} {now ttl : Int} {row : IssueRow}
    (hrow : t.issue.find id = some row) (hholder : row.assignee = some assignee)
    (hkind : row.actorKind = some ActorKind.human.asStr)
    (httl : humanTtl cfg.week cfg.policy now = some ttl) :
    (Db.step cfg (.touch id assignee now) (.new t)).state.issue.find id =
      some { row with expiresAt := some (wrapI64 (now + ttl)), updatedAt := now } := by
  have htouch : Db.touchTx cfg id assignee now t =
      .ok (wrapI64 (now + ttl), (t.setIssue id fun row =>
        { row with expiresAt := some (wrapI64 (now + ttl)), updatedAt := now }).logEvent id now
          assignee "heartbeat" "") := by
    unfold Db.touchTx
    simp only [hrow, Outcome.ofOption, bind, Except.bind]
    rw [if_neg (not_not.mpr hholder), touchTtl_of_human hkind, httl]
    rfl
  have hlease : Db.LeaseDefined cfg (.touch id assignee now) := trivial
  rw [step_committed hlease (Db.Tx.map_eq_ok.mpr ⟨_, htouch, rfl⟩)]
  change (t.issue.modify id _).find id = _
  rw [Table.find_modify, if_pos rfl, hrow]
  rfl

/-- The same where the calendar has no deadline: the heartbeat panics and writes nothing. -/
theorem find_touched_panic {t : Tables} {id assignee : String} {now : Int} {row : IssueRow}
    (hrow : t.issue.find id = some row) (hholder : row.assignee = some assignee)
    (hkind : row.actorKind = some ActorKind.human.asStr)
    (httl : humanTtl cfg.week cfg.policy now = none) :
    (Db.step cfg (.touch id assignee now) (.new t)).state.issue.find id = some row := by
  have htouch : Db.touchTx cfg id assignee now t = Outcome.abort := by
    unfold Db.touchTx
    simp only [hrow, Outcome.ofOption, bind, Except.bind]
    rw [if_neg (not_not.mpr hholder), touchTtl_of_human hkind, httl]
  have halone : Db.alone cfg (.touch id assignee now) t = Outcome.abort := by
    change Db.Tx.map _ _ t = _
    rw [Db.Tx.map, htouch]
    rfl
  have hlease : Db.LeaseDefined cfg (.touch id assignee now) := trivial
  rw [Db.step, Db.perform_eq hlease, halone]
  exact hrow

/-- Bodies assert what credentials should: in any state of the store, a request of an agent leaves
the live hold of a human as it is exactly when it does not name that human (or the lock is poisoned,
or the heartbeat it makes in the human's name renews nothing). A request of an agent acts in the
name that its body gives. -/
theorem human_hold_kept_iff {s : Locked Tables} {r : Authenticated} {id : String} {row : IssueRow}
    {current : String} {expiry : Int} (hagent : r.principal.kind = .agent)
    (hreq : r.request.isClaims = true) (hrow : s.state.issue.find id = some row)
    (hholder : row.assignee = some current) (hkind : row.actorKind = some ActorKind.human.asStr)
    (hexpiry : row.expiresAt = some expiry) (hlive : r.now < expiry) :
    ((step cfg r s).state.issue.find id).map hold = some (hold row) ↔
      s.poisoned = true ∨ ¬ r.actsFor id current ∨ r.leavesExpiry cfg expiry := by
  have hheld : heldAt row.assignee row.expiresAt r.now = true := by
    simp [heldAt, hholder, hexpiry, hlive]
  by_cases hacts : r.actsFor id current
  swap
  · exact iff_of_true (by rw [row_kept hreq hrow hheld hholder hacts]; rfl) (Or.inr (Or.inl hacts))
  cases hp : s.poisoned with
  | true =>
      refine iff_of_true ?_ (Or.inl rfl)
      rcases @step_state cfg r s with h | h
      · rw [h, Db.step_poisoned hp, hrow]
        rfl
      · rw [h, hrow]
        rfl
  | false =>
      obtain ⟨t, rfl⟩ : ∃ t, s = .new t := ⟨_, Locked.eq_new hp⟩
      change t.issue.find id = some row at hrow
      rw [or_iff_right Bool.false_ne_true, or_iff_right (not_not.mpr hacts)]
      obtain ⟨principal, now, request⟩ := r
      cases request with
      | claimsClaim i assignee ttlSeconds =>
          -- the kind of the holder becomes agent
          obtain ⟨rfl, rfl⟩ := hacts
          rw [step_claimsClaim]
          have hlease : Db.LeaseDefined cfg (.claim
              ⟨i, holder principal assignee, principal.kind, ttlSeconds⟩ now) := by
            rw [show principal.kind = .agent from hagent]
            rfl
          obtain ⟨e, hfind⟩ := find_claimed hlease hrow hholder
          refine iff_of_false ?_ not_false
          rw [hfind]
          simp [hold, IssueRow.claim, hkind, ActorKind.asStr, show principal.kind = .agent from
            hagent]
      | claimsTouch i assignee =>
          obtain ⟨rfl, rfl⟩ := hacts
          rw [step_claimsTouch]
          change _ ↔ ∀ ttl, humanTtl cfg.week cfg.policy now = some ttl → wrapI64 (now + ttl) =
              expiry
          cases httl : humanTtl cfg.week cfg.policy now with
          | none => simp [find_touched_panic hrow hholder hkind httl]
          | some ttl => simp [find_touched hrow hholder hkind httl, hold, hexpiry]
      | claimsRelease i assignee =>
          obtain ⟨rfl, howns⟩ := hacts
          rw [step_claimsRelease hrow hholder, if_pos howns, find_released hrow]
          refine iff_of_false ?_ not_false
          simp [hold, IssueRow.unclaim, hholder]
      | _ => exact hacts.elim

end Step

/-! ### An agent that sends a human's name -/

/-- Avery claims an issue at 5. -/
def averyHolds : List Authenticated :=
  [⟨⟨.human, "avery"⟩, 0, .projectsEnsure "p" "/p" "p"⟩,
    ⟨⟨.human, "avery"⟩, 0, .issuesCreate { id := some "x", project := some "p" } []⟩,
    ⟨⟨.human, "avery"⟩, 5, .claimsClaim "x" none none⟩]

/-- An agent asks for the release of "x", on behalf of some name. -/
def releaseFor (name : String) : Authenticated :=
  ⟨⟨.agent, "daemon"⟩, 10, .claimsRelease "x" (some name)⟩

/-- It names Avery, and the hold is gone. -/
theorem hold_released_by_agent :
    let s := run {} averyHolds (Db.opened "s")
    (s.state.issue.find "x").map hold = some (some "avery", some "human", some 604805) ∧
      (releaseFor "avery").principal.kind = .agent ∧ (releaseFor "avery").now < 604805 ∧
      ((step {} (releaseFor "avery") s).state.issue.find "x").map hold = some (none, none,
          none) := by
  decide +kernel

/-- It names somebody else, and the hold stays. -/
theorem hold_kept_from_agent :
    let s := run {} averyHolds (Db.opened "s")
    ((step {} (releaseFor "lee") s).state.issue.find "x").map hold =
      some (some "avery", some "human", some 604805) := by
  obtain ⟨row, hrow, hhold⟩ := Option.map_eq_some_iff.mp
    (show ((run {} averyHolds (Db.opened "s")).state.issue.find "x").map hold =
      some (some "avery", some "human", some 604805) by decide +kernel)
  obtain ⟨hholder, hkind, hexpiry⟩ : row.assignee = some "avery" ∧ row.actorKind = some "human" ∧
      row.expiresAt = some 604805 := by simpa [hold] using hhold
  rw [← hhold]
  exact (human_hold_kept_iff rfl rfl hrow hholder hkind hexpiry (by decide)).mpr
    (Or.inr (Or.inl fun h => absurd h.2 (by decide)))

end Marbles.Api
