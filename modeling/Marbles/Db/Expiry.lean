import Marbles.Db.Claims
import Marbles.Hours

/-!
# How long a claim lasts

What a claim stores as the end of its lease, and what a heartbeat stores. An agent's override is
clamped from above only, so a claim can be over before it starts. A human's default is clamped to
seven days, which forty-eight business hours never fit into.

The lease is computed outside the lock from a request and the policy. The exact condition is read
off that computation by cases, agent or human and with or without an override; only the human case
needs what is known of working time.
-/

namespace Marbles.Db

open WorkWeek (humanExpiry_late deadline_ge deadline_onCalendar)

/-! ### The lease of a claim -/

/-- The working minutes a human claim is for. -/
def minutesOf (req : ClaimRequest) (policy : Policy) : Int :=
  match req.ttlSeconds with
  | some secs => max (secs / 60) 1
  | none => wrapI64 (policy.humanTtlBusinessHours * 60)

/-- The seconds an agent claim is for. -/
def secondsOf (req : ClaimRequest) (policy : Policy) : Int :=
  min (req.ttlSeconds.getD policy.agentTtlSeconds) policy.maxTtlSeconds

theorem ttl_agent {req : ClaimRequest} {week : WorkWeek} {policy : Policy} {now : Int}
    (hkind : req.actorKind = .agent) :
    req.ttl week policy now = some (secondsOf req policy) := by
  rw [ClaimRequest.ttl, hkind, secondsOf]

theorem wrapI64_deadline {week : WorkWeek} {now minutes d : Int} (hnow : now ≤ d)
    (h : week.deadline now minutes = some d) : wrapI64 (d - now) = d - now := by
  obtain ⟨hlow, -, hhigh⟩ := deadline_onCalendar h
  have hmin : minSecond = -8334601228800 := rfl
  have hmax : maxSecond = 8210266876799 := rfl
  exact wrapI64_of_range (by omega) (by omega)

/-- The lease of a human claim: both its own deadline and the default one are walked to. -/
theorem ttl_human {req : ClaimRequest} {week : WorkWeek} {policy : Policy} {now ttl : Int}
    (hkind : req.actorKind = .human) :
    req.ttl week policy now = some ttl ↔
      ∃ d h, week.deadline now (minutesOf req policy) = some d ∧
        week.humanExpiry now policy = some h ∧
        ttl = min (wrapI64 (d - now)) policy.maxTtlSeconds := by
  rw [ClaimRequest.ttl, hkind, minutesOf, humanTtl]
  cases hsecs : req.ttlSeconds with
  | none =>
      change _ ↔ ∃ d h, week.humanExpiry now policy = some d ∧ _
      cases hexpiry : week.humanExpiry now policy with
      | none => simp
      | some h => simp [eq_comm]
  | some secs =>
      cases hdeadline : week.deadline now (max (secs / 60) 1) with
      | none => simp [hdeadline]
      | some d =>
          cases hexpiry : week.humanExpiry now policy with
          | none => simp
          | some h => simp [hdeadline, eq_comm]

theorem secondsOf_ge {req : ClaimRequest} (hreq : ∀ secs, req.ttlSeconds = some secs → IsI64 secs) :
    -2 ^ 63 ≤ secondsOf req {} := by
  unfold secondsOf
  refine le_min ?_ (by decide)
  cases hsecs : req.ttlSeconds with
  | none => decide
  | some secs => exact (hreq secs hsecs).1

/-- What an agent claim of the default policy stores lies ahead, and not too far. -/
theorem expiry_agent {req : ClaimRequest} {now : Int} (hnow : IsI64 now)
    (hreq : ∀ secs, req.ttlSeconds = some secs → IsI64 secs) :
    now < wrapI64 (now + secondsOf req {}) ∧ wrapI64 (now + secondsOf req {}) ≤ now + 604800 ↔
      1 ≤ secondsOf req {} ∧ now + secondsOf req {} < 2 ^ 63 := by
  have hlow := secondsOf_ge hreq
  have hhigh : secondsOf req {} ≤ 604800 := min_le_right ..
  generalize secondsOf req {} = ttl at hlow hhigh
  unfold IsI64 at hnow
  unfold wrapI64
  rw [Int.bmod_def]
  split
  · omega
  · omega

/-- The lease of a human claim of the default policy: up to its deadline, or seven days if they are
over earlier. -/
theorem lease_human {req : ClaimRequest} {week : WorkWeek} {now ttl : Int}
    (hw : week.startHour ≤ week.endHour) (hkind : req.actorKind = .human)
    (hreq : ∀ secs, req.ttlSeconds = some secs → IsI64 secs) (h : req.ttl week {} now = some ttl) :
    ∃ d, week.deadline now (minutesOf req {}) = some d ∧ now + 60 ≤ d ∧
      ttl = min (d - now) 604800 := by
  obtain ⟨d, -, hdeadline, -, rfl⟩ := (ttl_human hkind).mp h
  have hminutes : 1 ≤ minutesOf req {} ∧ minutesOf req {} < 2 ^ 63 := by
    unfold minutesOf
    cases hsecs : req.ttlSeconds with
    | none => exact ⟨by decide, by decide⟩
    | some secs =>
        have hfits := hreq secs hsecs
        unfold IsI64 at hfits
        constructor
        · exact le_max_right _ _
        · dsimp only
          omega
  have hlate := deadline_ge hw hminutes.2 hdeadline
  exact ⟨d, hdeadline, by omega, by rw [wrapI64_deadline (by omega) hdeadline]; rfl⟩

/-- What it stores. -/
theorem expiry_human {req : ClaimRequest} {now ttl : Int} (hkind : req.actorKind = .human)
    (hreq : ∀ secs, req.ttlSeconds = some secs → IsI64 secs) (h : req.ttl {} {} now = some ttl) :
    ∃ d, ({} : WorkWeek).deadline now (minutesOf req {}) = some d ∧ now + 60 ≤ d ∧
      wrapI64 (now + ttl) = min d (now + 604800) := by
  obtain ⟨d, hdeadline, hlate, rfl⟩ := lease_human (by decide) hkind hreq h
  obtain ⟨hlow, hhigh, -⟩ := deadline_onCalendar hdeadline
  have hmin : minSecond = -8334601228800 := rfl
  have hmax : maxSecond = 8210266876799 := rfl
  refine ⟨d, hdeadline, hlate, ?_⟩
  rw [wrapI64_of_range (by omega) (by omega)]
  omega

/-! ### Claims that went through -/

/-- What a claim that went through has stored. -/
theorem claim_ok {cfg : Config} {req : ClaimRequest} {now : Int} {s s' : Locked Tables}
    {reply : Reply} (h : perform cfg (.claim req now) s = (.ok reply, s')) :
    ∃ ttl row, req.ttl cfg.week cfg.policy now = some ttl ∧
      s.state.issue.find req.id = some row ∧ s'.poisoned = false ∧
      reply = .receipt ⟨req.id, req.assignee, req.actorKind, wrapI64 (now + ttl)⟩ ∧
      s'.state.issue = s.state.issue.modify req.id fun row =>
        row.claim req.assignee req.actorKind.asStr now (wrapI64 (now + ttl)) := by
  cases hlease : req.ttl cfg.week cfg.policy now with
  | none =>
      rw [perform_claim_abort hlease] at h
      cases h
  | some ttl =>
      have hdefined : LeaseDefined cfg (.claim req now) := by
        rw [LeaseDefined, hlease]
        rfl
      obtain ⟨halone, hhealthy⟩ := alone_of_perform hdefined h
      change Tx.map Reply.receipt (claimAlone cfg req now) s.state = .ok (reply, s'.state) at halone
      obtain ⟨r, hclaim, rfl⟩ := Tx.map_eq_ok.mp halone
      rw [claimAlone, hlease] at hclaim
      obtain ⟨row, hrow, -, rfl, hstate⟩ := claimTx_ok hclaim
      exact ⟨ttl, row, rfl, hrow, hhealthy, rfl, by rw [hstate]; rfl⟩

/-- The row is claimed until the end of the receipt. -/
theorem claim_stored {cfg : Config} {req : ClaimRequest} {now : Int} {s s' : Locked Tables}
    {r : ClaimReceipt} (h : perform cfg (.claim req now) s = (.ok (.receipt r), s')) :
    ∃ row, s'.state.issue.find req.id = some row ∧ row.assignee = some req.assignee ∧
      row.actorKind = some req.actorKind.asStr ∧ row.expiresAt = some r.expiresAt := by
  obtain ⟨ttl, row, -, hrow, -, hreply, hissue⟩ := claim_ok h
  cases hreply
  refine ⟨row.claim req.assignee req.actorKind.asStr now (wrapI64 (now + ttl)), ?_, rfl, rfl, rfl⟩
  rw [hissue, Table.find_modify, if_pos rfl, hrow]
  rfl

/-- A lease that was granted is live and no longer than seven days exactly when an agent's override
is positive and its end can be counted. A human's lease is never empty, and an agent's override is
cut from above only. -/
theorem lease_bounded_iff {req : ClaimRequest} {now : Int} {s s' : Locked Tables}
    {r : ClaimReceipt} (hnow : IsI64 now)
    (hreq : ∀ secs, req.ttlSeconds = some secs → IsI64 secs)
    (h : perform {} (.claim req now) s = (.ok (.receipt r), s')) :
    (∃ row, s'.state.issue.find req.id = some row ∧ row.expiresAt = some r.expiresAt) ∧
      (now < r.expiresAt ∧ r.expiresAt ≤ now + ({} : Policy).maxTtlSeconds ↔
        (req.actorKind = .agent → (∀ secs, req.ttlSeconds = some secs → 1 ≤ secs) ∧
          now + secondsOf req {} < 2 ^ 63)) := by
  obtain ⟨row, hrow, -, -, hstored⟩ := claim_stored h
  refine ⟨⟨row, hrow, hstored⟩, ?_⟩
  obtain ⟨ttl, -, hlease, -, -, hreply, -⟩ := claim_ok h
  cases hreply
  change now < wrapI64 (now + ttl) ∧ wrapI64 (now + ttl) ≤ now + 604800 ↔ _
  -- A human's lease is bounded whatever is asked; an agent's is the seconds asked, cut at seven
  -- days, which may be none or go past the last second.
  cases hkind : req.actorKind with
  | human =>
      obtain ⟨d, -, hlate, hexpiry⟩ := expiry_human hkind hreq hlease
      rw [hexpiry]
      exact ⟨nofun, fun _ => ⟨by omega, by omega⟩⟩
  | agent =>
      obtain rfl := Option.some.inj ((ttl_agent hkind).symm.trans hlease)
      rw [expiry_agent hnow hreq, forall_prop_of_true rfl]
      refine and_congr_left fun _ => ?_
      unfold secondsOf
      cases hsecs : req.ttlSeconds with
      | none => exact ⟨fun _ => nofun, fun _ => by decide⟩
      | some secs =>
          constructor
          · intro hpos _ heq
            obtain rfl := Option.some.inj heq
            exact hpos.trans (min_le_left ..)
          · intro hpos
            exact le_min (hpos secs rfl) (by decide)

/-- An issue that nobody holds. -/
def freshIssue : List Op :=
  [.ensureProject "p" "/p" "p" 0, .create { id := some "x", project := some "p" } [] 0]

/-- Half an hour, the default of an agent. -/
theorem lease_bounded_agent : ∃ s', perform {} (.claim ⟨"x", "a", .agent, none⟩ 5)
      (run {} freshIssue (opened "s")) = (.ok (.receipt ⟨"x", "a", .agent, 1805⟩), s') ∧
    (∃ row, s'.state.issue.find "x" = some row ∧ row.expiresAt = some 1805) ∧
    ((5 : Int) < 1805 ∧ (1805 : Int) ≤ 5 + ({} : Policy).maxTtlSeconds ↔
      (ActorKind.agent = .agent → (∀ secs, (none : Option Int) = some secs → 1 ≤ secs) ∧
        5 + secondsOf ⟨"x", "a", .agent, none⟩ {} < 2 ^ 63)) := by
  have hclaim : perform {} (.claim ⟨"x", "a", .agent, none⟩ 5) (run {} freshIssue (opened "s")) =
      (.ok (.receipt ⟨"x", "a", .agent, 1805⟩), _) := rfl
  exact ⟨_, hclaim, lease_bounded_iff (by decide) (fun _ hsecs => by cases hsecs) hclaim⟩

/-- An agent that asks for no time at all is granted a lease that is over. -/
theorem empty_lease : ∃ r s', perform {} (.claim ⟨"x", "a", .agent, some 0⟩ 5)
      (run {} freshIssue (opened "s")) = (.ok (.receipt r), s') ∧ ¬ (5 : Int) < r.expiresAt :=
  ⟨⟨"x", "a", .agent, 5⟩, _, rfl, by decide⟩

/-! ### The default of a human -/

/-- A heartbeat of the holder on a healthy lock. -/
theorem touch_holder {cfg : Config} {id assignee : String} {now : Int} {s : Locked Tables}
    {row : IssueRow} {ttl : Int} (hs : s.poisoned = false) (hrow : s.state.issue.find id = some row)
    (hholder : row.assignee = some assignee)
    (hlease : touchTtl (ActorKind.parse (row.actorKind.getD "agent")) cfg.week cfg.policy now =
      some ttl) :
    ∃ s', perform cfg (.touch id assignee now) s = (.ok (.expiry (wrapI64 (now + ttl))), s') ∧
      s'.state.issue.find id =
        some { row with expiresAt := some (wrapI64 (now + ttl)), updatedAt := now } := by
  obtain ⟨t', htouch, hstored⟩ : ∃ t', touchTx cfg id assignee now s.state =
      .ok (wrapI64 (now + ttl), t') ∧ t'.issue.find id =
        some { row with expiresAt := some (wrapI64 (now + ttl)), updatedAt := now } := by
    rw [touchTx, hrow]
    change ∃ t', (if row.assignee ≠ some assignee then _ else _) = _ ∧ _
    rw [if_neg (not_not.mpr hholder), hlease]
    refine ⟨_, rfl, ?_⟩
    rw [Tables.logEvent_issue, Tables.setIssue_issue, Table.find_modify, if_pos rfl, hrow]
    rfl
  have halone : alone cfg (.touch id assignee now) s.state = _ := Tx.map_eq_ok.mpr ⟨_, htouch, rfl⟩
  refine ⟨.new t', ?_, hstored⟩
  rw [Locked.eq_new hs, @perform_eq cfg (.touch id assignee now) trivial, halone]
  rfl

/-- A human claim without an override is over after seven days of the clock, which is before the
forty-eight business hours are that a heartbeat in the same second stores. The cut at seven days is
made for claims, overridden or not, and not for heartbeats. -/
theorem default_claim_short {id assignee : String} {now : Int} {s s' : Locked Tables}
    {r : ClaimReceipt}
    (h : perform {} (.claim ⟨id, assignee, .human, none⟩ now) s = (.ok (.receipt r), s')) :
    ∃ expiry s'', ({} : WorkWeek).humanExpiry now {} = some expiry ∧
      perform {} (.touch id assignee now) s' = (.ok (.expiry expiry), s'') ∧
      (∃ row, s''.state.issue.find id = some row ∧ row.expiresAt = some expiry) ∧
      (∃ row, s'.state.issue.find id = some row ∧ row.expiresAt ≠ some expiry ∧
        row.expiresAt = some (now + ({} : Policy).maxTtlSeconds)) := by
  obtain ⟨row, hrow, hholder, hkind, hstored⟩ := claim_stored h
  obtain ⟨ttl, -, hlease, -, hhealthy, hreply, -⟩ := claim_ok h
  obtain ⟨d, hdeadline, -, hexpiry⟩ := expiry_human rfl (fun _ hsecs => by cases hsecs) hlease
  have hdefault : ({} : WorkWeek).humanExpiry now {} = some d := hdeadline
  have hlate := humanExpiry_late hdefault
  -- The default deadline is more than seven days away, so the claim is cut there and the touch,
  -- which is not, goes beyond it.
  have hseven : row.expiresAt = some (now + 604800) := by
    cases hreply
    rw [hstored, hexpiry, min_eq_right hlate.le]
  obtain ⟨hlow, hhigh, hend⟩ := deadline_onCalendar hdeadline
  have hmin : minSecond = -8334601228800 := rfl
  have hmax : maxSecond = 8210266876799 := rfl
  have htouch : touchTtl (ActorKind.parse (row.actorKind.getD "agent")) {} {} now =
      some (d - now) := by
    rw [hkind]
    change humanTtl {} {} now = _
    rw [humanTtl, hdefault]
    exact congrArg some (wrapI64_deadline (by omega) hdeadline)
  obtain ⟨s'', hperform, hrow''⟩ := @touch_holder {} _ _ _ _ _ _ hhealthy hrow hholder htouch
  have hwrap : wrapI64 (now + (d - now)) = d := by
    rw [add_sub_cancel, wrapI64_of_range (by omega) (by omega)]
  rw [hwrap] at hperform hrow''
  refine ⟨d, s'', hdefault, hperform, ⟨_, hrow'', rfl⟩, row, hrow, fun heq => ?_, hseven⟩
  have hsame : now + 604800 = d := Option.some.inj (hseven.symm.trans heq)
  omega

/-- A human who claims the issue at ten on a Tuesday. -/
def tuesdayClaim : Result Reply × Locked Tables :=
  perform {} (.claim ⟨"x", "a", .human, none⟩ 468000) (run {} freshIssue (opened "s"))

theorem tuesday_claim_short : ∃ expiry s'', ({} : WorkWeek).humanExpiry 468000 {} = some expiry ∧
    perform {} (.touch "x" "a" 468000) tuesdayClaim.2 = (.ok (.expiry expiry), s'') ∧
    (∃ row, s''.state.issue.find "x" = some row ∧ row.expiresAt = some expiry) ∧
    (∃ row, tuesdayClaim.2.state.issue.find "x" = some row ∧ row.expiresAt ≠ some expiry ∧
      row.expiresAt = some (468000 + ({} : Policy).maxTtlSeconds)) := by
  have hclaim : tuesdayClaim.1 = .ok (.receipt ⟨"x", "a", .human, 1072800⟩) := by decide +kernel
  exact default_claim_short (Prod.ext hclaim rfl)

/-- Forty-eight business hours from then end on the Wednesday of the week after, and the claim ends
on the Tuesday before. -/
theorem tuesday_claim_ends : tuesdayClaim.1 = .ok (.receipt ⟨"x", "a", .human, 1072800⟩) ∧
    (tuesdayClaim.2.state.issue.find "x").bind (·.expiresAt) = some 1072800 ∧
    ({} : WorkWeek).humanExpiry 468000 {} = some 1159200 ∧
    (tuesdayClaim.2.state.issue.find "x").bind (·.expiresAt) ≠
      ({} : WorkWeek).humanExpiry 468000 {} := by
  decide +kernel

end Marbles.Db
