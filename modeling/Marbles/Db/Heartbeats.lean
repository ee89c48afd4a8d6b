import Marbles.Db.Acts
import Marbles.Db.Expiry
import Marbles.Db.Rows

/-!
# Heartbeats and the lease they renew

A heartbeat computes the new lease from the kind of the holder alone. It shortens the lease of an
agent that was granted more than the default, and of a human who was, where the ceiling allows it.
Nothing else that an action does shortens a lease by a heartbeat, as long as the clock of the
issue's claims does not go back.

A lease is followed from where it was granted: `RowStep.expiry` says that there are two sources,
claims and heartbeats. For either the new lease is compared with the old one under the same
policy, and the comparison of two deadlines is the monotonicity that is proved about working time.
-/

namespace Marbles.Db

open WorkWeek (deadline_ge deadline_onCalendar)

/-! ### Where a lease comes from -/

/-- The scopes that give a claim a lease. -/
def grantsLease : Scope → Bool
  | .claim .. | .touch .. => true
  | _ => false

/-- A lease that no claim and no heartbeat has granted was there before. -/
theorem RowStep.expiry {cfg : Config} {t : Tables} {s : Scope} {id : String} {row' : IssueRow}
    {e : Int} (h : RowStep cfg t id s row') (hs : grantsLease s = false)
    (hexpiry : row'.expiresAt = some e) :
    ∃ row, t.issue.find id = some row ∧ row.expiresAt = some e ∧
    row.actorKind = row'.actorKind := by
  cases h with
  | kept hrow | update hrow | setLabels hrow | addDep hrow | addRemoteDep hrow =>
      exact ⟨_, hrow, hexpiry, rfl⟩
  | create | release | sweep | closeUnchecked => cases hexpiry
  | claim | touch => cases hs

/-! ### The actions that grant leases -/

theorem Action.enters_claim {cfg : Config} {a : Action} {req : ClaimRequest} {ttl now : Int}
    (h : a.Enters cfg (.claim req ttl now)) :
    a = .op (.claim req now) ∧ req.ttl cfg.week cfg.policy now = some ttl := by
  cases a with
  | op o => cases o <;> simp_all [Action.Enters, Db.Enters]
  | _ => simp_all [Action.Enters, ListEnters, ExportEnters]

theorem Action.enters_touch {cfg : Config} {a : Action} {id assignee : String} {now : Int}
    (h : a.Enters cfg (.touch id assignee now)) : a = .op (.touch id assignee now) := by
  cases a with
  | op o => cases o <;> simp_all [Action.Enters, Db.Enters]
  | _ => simp_all [Action.Enters, ListEnters, ExportEnters]

/-! ### Leases that a heartbeat renews -/

/-- The numbers of a policy fit their type, and it has a lease for humans. -/
structure PolicyFits (policy : Policy) : Prop where
  agent : IsI64 policy.agentTtlSeconds
  ceiling : IsI64 policy.maxTtlSeconds
  human : 1 ≤ policy.humanTtlBusinessHours
  minutes : policy.humanTtlBusinessHours * 60 < 2 ^ 63

/-- A claim asks for no more than the default lease of its kind, or the ceiling does not let it
have more. -/
def NoLonger (cfg : Config) (req : ClaimRequest) : Prop :=
  match req.actorKind with
  | .agent => (∀ secs, req.ttlSeconds = some secs → secs ≤ cfg.policy.agentTtlSeconds) ∨
      cfg.policy.maxTtlSeconds ≤ cfg.policy.agentTtlSeconds
  | .human => (∀ secs, req.ttlSeconds = some secs →
        max (secs / 60) 1 ≤ cfg.policy.humanTtlBusinessHours * 60) ∨
      ∀ t, cfg.week.workedLocal t (t + cfg.policy.maxTtlSeconds) <
        cfg.policy.humanTtlBusinessHours * 60 * 60

/-- Calls that lease the issue do so before `now`, and not for longer than by default. -/
def Modest (cfg : Config) (id : String) (now : Int) : Action → Prop
  | .op (.claim req since) => req.id = id → 0 ≤ since ∧ since ≤ now ∧ NoLonger cfg req ∧
      ∀ secs, req.ttlSeconds = some secs → IsI64 secs
  | .op (.touch i _ since) => i = id → 0 ≤ since ∧ since ≤ now
  | _ => True

/-- The lease ends no later than the default one of its kind, granted no later than `now`. -/
def Granted (cfg : Config) (now : Int) (kind : Option String) (e : Int) : Prop :=
  ∃ since, 0 ≤ since ∧ since ≤ now ∧ match ActorKind.parse (kind.getD "agent") with
    | some .human => ∃ h, cfg.week.humanExpiry since cfg.policy = some h ∧ e ≤ h
    | _ => e ≤ since + cfg.policy.agentTtlSeconds

theorem wrapI64_le {n : Int} (h : -2 ^ 63 ≤ n) : wrapI64 n ≤ n := by
  unfold wrapI64
  rw [Int.bmod_def]
  split
  · omega
  · omega

section Renewal

variable {cfg : Config} {id : String} {now : Int}

theorem humanExpiry_eq (hp : PolicyFits cfg.policy) (since : Int) :
    cfg.week.humanExpiry since cfg.policy =
      cfg.week.deadline since (cfg.policy.humanTtlBusinessHours * 60) := by
  have hhuman := hp.human
  have hminutes := hp.minutes
  rw [WorkWeek.humanExpiry, wrapI64_of_range (by omega) hminutes]

/-- An agent's lease that is no longer than the default. -/
theorem secondsOf_le {req : ClaimRequest} {policy : Policy} (hp : PolicyFits policy)
    (hreq : ∀ secs, req.ttlSeconds = some secs → IsI64 secs)
    (hmodest : (∀ secs, req.ttlSeconds = some secs → secs ≤ policy.agentTtlSeconds) ∨
      policy.maxTtlSeconds ≤ policy.agentTtlSeconds) :
    -2 ^ 63 ≤ secondsOf req policy ∧ secondsOf req policy ≤ policy.agentTtlSeconds := by
  have hagent := hp.agent
  have hceiling := hp.ceiling
  unfold IsI64 at hagent hceiling
  unfold secondsOf
  cases hsecs : req.ttlSeconds with
  | none =>
      dsimp only [Option.getD_none]
      omega
  | some secs =>
      have hfits := hreq secs hsecs
      unfold IsI64 at hfits
      dsimp only [Option.getD_some]
      rcases hmodest with hmodest | hmodest
      · have hle := hmodest secs hsecs
        omega
      · omega

/-- A heartbeat of any other lease renews it to the agents' default. -/
theorem renewal_agent {kind : Option ActorKind} {since ttl : Int}
    (hkind : kind = some .human → False)
    (hlease : touchTtl kind cfg.week cfg.policy since = some ttl) :
    cfg.policy.agentTtlSeconds = ttl := by
  match kind, hkind with
  | none, _ => exact Option.some.inj hlease
  | some .agent, _ => exact Option.some.inj hlease
  | some .human, hkind => exact (hkind rfl).elim

variable (hp : PolicyFits cfg.policy) (hv : cfg.week.Valid)

include hp hv

/-- A heartbeat of a human's lease renews it to the default one. -/
theorem renewal_human {since ttl : Int} (h0 : 0 ≤ since)
    (hlease : touchTtl (some .human) cfg.week cfg.policy since = some ttl) :
    cfg.week.humanExpiry since cfg.policy = some (wrapI64 (since + ttl)) := by
  obtain ⟨h, hdefault, hwrap⟩ := Option.bind_eq_some_iff.mp hlease
  have hdeadline := humanExpiry_eq hp since ▸ hdefault
  have hhuman := hp.human
  have hlate := deadline_ge hv.hours.le hp.minutes hdeadline
  obtain rfl := (wrapI64_deadline (by omega) hdeadline).symm.trans (Option.some.inj hwrap)
  obtain ⟨hlow, -, hhigh⟩ := deadline_onCalendar hdeadline
  have hmin : minSecond = -8334601228800 := rfl
  have hmax : maxSecond = 8210266876799 := rfl
  rw [add_sub_cancel, wrapI64_of_range (by omega) (by omega), hdefault]

theorem granted_touch {kind : Option String} {since ttl : Int} (h0 : 0 ≤ since) (hle : since ≤ now)
    (hlease : touchTtl (ActorKind.parse (kind.getD "agent")) cfg.week cfg.policy since = some ttl) :
    Granted cfg now kind (wrapI64 (since + ttl)) := by
  refine ⟨since, h0, hle, ?_⟩
  split
  · rename_i hkind
    exact ⟨_, renewal_human hp hv h0 (hkind ▸ hlease), le_rfl⟩
  · rename_i hkind
    obtain rfl := renewal_agent hkind hlease
    have hfits := hp.agent
    unfold IsI64 at hfits
    exact wrapI64_le (by omega)

variable (hs : cfg.week.Seamless)

include hs

/-- A later default lease of a human ends no earlier. -/
theorem humanExpiry_mono {since since' h h' : Int} (hle : since ≤ since')
    (hh : cfg.week.humanExpiry since cfg.policy = some h)
    (hh' : cfg.week.humanExpiry since' cfg.policy = some h') : h ≤ h' := by
  have hhuman := hp.human
  rw [humanExpiry_eq hp] at hh hh'
  exact hs.deadline_mono hv.hours hv.clock (by omega) le_rfl hp.minutes hle hh hh'

/-- A human's lease that is no longer than the default, or cut off before it. -/
theorem deadline_cut {req : ClaimRequest} {since d h : Int}
    (hreq : ∀ secs, req.ttlSeconds = some secs → IsI64 secs)
    (hmodest : (∀ secs, req.ttlSeconds = some secs →
        max (secs / 60) 1 ≤ cfg.policy.humanTtlBusinessHours * 60) ∨
      ∀ t, cfg.week.workedLocal t (t + cfg.policy.maxTtlSeconds) <
        cfg.policy.humanTtlBusinessHours * 60 * 60)
    (hd : cfg.week.deadline since (minutesOf req cfg.policy) = some d)
    (hh : cfg.week.humanExpiry since cfg.policy = some h) :
    since + 60 ≤ d ∧ (d ≤ h ∨ since + cfg.policy.maxTtlSeconds ≤ h) := by
  have hhuman := hp.human
  have hminutes := hp.minutes
  have hdefault := humanExpiry_eq hp since ▸ hh
  have hbounds : 1 ≤ minutesOf req cfg.policy ∧ minutesOf req cfg.policy < 2 ^ 63 ∧
      ((∀ secs, req.ttlSeconds = some secs →
        max (secs / 60) 1 ≤ cfg.policy.humanTtlBusinessHours * 60) →
      minutesOf req cfg.policy ≤ cfg.policy.humanTtlBusinessHours * 60) := by
    unfold minutesOf
    cases hsecs : req.ttlSeconds with
    | none =>
        dsimp only
        rw [wrapI64_of_range (by omega) hminutes]
        omega
    | some secs =>
        have hfits := hreq secs hsecs
        unfold IsI64 at hfits
        exact ⟨le_max_right _ _, by dsimp only; omega, fun h => h secs rfl⟩
  obtain ⟨hpos, h63, hshort⟩ := hbounds
  have hlate := deadline_ge hv.hours.le h63 hd
  refine ⟨by omega, ?_⟩
  -- Either the request asks for no more than the default, or no span of the longest lease holds
  -- that much business time.
  rcases hmodest with hmodest | hmodest
  · exact Or.inl (hs.deadline_mono hv.hours hv.clock hpos (hshort hmodest) hminutes le_rfl hd
      hdefault)
  · exact Or.inr (WorkWeek.deadline_outlasts hv.hours hv.clock hmodest (by omega) hminutes
      hdefault).le

theorem granted_claim {req : ClaimRequest} {since ttl : Int} (h0 : 0 ≤ since) (hle : since ≤ now)
    (hmodest : NoLonger cfg req) (hreq : ∀ secs, req.ttlSeconds = some secs → IsI64 secs)
    (hlease : req.ttl cfg.week cfg.policy since = some ttl) :
    Granted cfg now (some req.actorKind.asStr) (wrapI64 (since + ttl)) := by
  refine ⟨since, h0, hle, ?_⟩
  unfold NoLonger at hmodest
  cases hkind : req.actorKind with
  | agent =>
      obtain rfl := Option.some.inj ((ttl_agent hkind).symm.trans hlease)
      rw [hkind] at hmodest
      obtain ⟨hlow, hhigh⟩ := secondsOf_le hp hreq hmodest
      change wrapI64 (since + secondsOf req cfg.policy) ≤ since + cfg.policy.agentTtlSeconds
      have hwrap := @wrapI64_le (since + secondsOf req cfg.policy) (by omega)
      omega
  | human =>
      obtain ⟨d, h, hdeadline, hdefault, rfl⟩ := (ttl_human hkind).mp hlease
      rw [hkind] at hmodest
      obtain ⟨hlate, hcut⟩ := deadline_cut hp hv hs hreq hmodest hdeadline hdefault
      have hceiling := hp.ceiling
      unfold IsI64 at hceiling
      have hwrap := @wrapI64_le (since + min (wrapI64 (d - since)) cfg.policy.maxTtlSeconds)
      rw [wrapI64_deadline (by omega) hdeadline] at hwrap ⊢
      exact ⟨h, hdefault, by omega⟩

/-- A lease granted no later than a heartbeat ends no later than the one it renews. -/
theorem Granted.le_renewal {kind : Option String} {e ttl : Int} (h0 : 0 ≤ now)
    (hnow : now + cfg.policy.agentTtlSeconds < 2 ^ 63) (h : Granted cfg now kind e)
    (hlease : touchTtl (ActorKind.parse (kind.getD "agent")) cfg.week cfg.policy now = some ttl) :
    e ≤ wrapI64 (now + ttl) := by
  obtain ⟨since, -, hle, hgranted⟩ := h
  split at hgranted
  · rename_i hkind
    obtain ⟨h, hdefault, hend⟩ := hgranted
    exact hend.trans
      (humanExpiry_mono hp hv hs hle hdefault (renewal_human hp hv h0 (hkind ▸ hlease)))
  · rename_i hkind
    obtain rfl := renewal_agent hkind hlease
    have hfits := hp.agent
    unfold IsI64 at hfits
    rw [wrapI64_of_range (by omega) hnow]
    omega

end Renewal

/-! ### Runs -/

/-- Every lease of the issue is a granted one. -/
def Leased (cfg : Config) (id : String) (now : Int) (t : Tables) : Prop :=
  ∀ row e, t.issue.find id = some row → row.expiresAt = some e → Granted cfg now row.actorKind e

section Run

variable {cfg : Config} {id : String} {now : Int} (hp : PolicyFits cfg.policy)
  (hv : cfg.week.Valid) (hs : cfg.week.Seamless)

include hp hv hs

/-- What one scope of a modest action does. -/
theorem Leased.scope {a : Action} (hmodest : Modest cfg id now a) {c : Scope} {s : Locked Tables}
    (hc : a.Enters cfg c) (h : Leased cfg id now s.state) :
    Leased cfg id now (c.exec cfg s).2.state := by
  -- A scope that grants no lease leaves the columns or clears them; a claim and a touch grant one
  -- that is bounded.
  cases hlease : grantsLease c with
  | false =>
      intro row' e hrow' he
      obtain ⟨row, hrow, hexpiry, hkind⟩ := ((exec_effect cfg c s).row hrow').expiry hlease he
      exact hkind ▸ h row e hrow hexpiry
  | true =>
      cases c with
      | claim req ttl since =>
          obtain ⟨rfl, httl⟩ := Action.enters_claim hc
          refine Locked.tx_preserves h fun r t' hclaim row' e hrow' he => ?_
          obtain ⟨row, hrow, -, -, rfl⟩ := claimTx_ok hclaim
          rw [Tables.logEvent_issue, Tables.setIssue_issue, Table.find_modify] at hrow'
          split at hrow'
          · rename_i hid
            obtain ⟨row, -, rfl⟩ := Option.map_eq_some_iff.mp hrow'
            obtain rfl := Option.some.inj he
            obtain ⟨h0, hle, hno, hreq⟩ := hmodest hid.symm
            exact granted_claim hp hv hs h0 hle hno hreq httl
          · exact h row' e hrow' he
      | touch i assignee since =>
          obtain rfl := Action.enters_touch hc
          refine Locked.tx_preserves h fun r t' htouch row' e hrow' he => ?_
          obtain ⟨row, ttl, hrow, -, httl, -, rfl⟩ := touchTx_ok htouch
          rw [Tables.logEvent_issue, Tables.setIssue_issue, Table.find_modify] at hrow'
          split at hrow'
          · rename_i hid
            obtain ⟨row'', hrow'', rfl⟩ := Option.map_eq_some_iff.mp hrow'
            obtain rfl := Option.some.inj he
            obtain ⟨h0, hle⟩ := hmodest hid.symm
            rw [hid, hrow] at hrow''
            obtain rfl := Option.some.inj hrow''
            exact granted_touch hp hv h0 hle httl
          · exact h row' e hrow' he
      | _ => cases hlease

/-- A heartbeat never shortens a lease of a run in which nobody has leased the issue for longer than
by default, or after the heartbeat. A heartbeat does not look at the lease it renews. -/
theorem heartbeat_extends {storeId : String} {actions : List Action}
    (hsteps : ∀ a ∈ actions, Modest cfg id now a) (h0 : 0 ≤ now)
    (hnow : now + cfg.policy.agentTtlSeconds < 2 ^ 63) {row : IssueRow} {assignee : String}
    {e : Int} {reply : Reply} {s' : Locked Tables}
    (hrow : (Action.run cfg actions (opened storeId)).state.issue.find id = some row)
    (he : row.expiresAt = some e)
    (htouch : perform cfg (.touch id assignee now) (Action.run cfg actions (opened storeId)) =
      (.ok reply, s')) :
    ∃ row' e', s'.state.issue.find id = some row' ∧ row'.expiresAt = some e' ∧ e ≤ e' := by
  have hleased : Leased cfg id now (Action.run cfg actions (opened storeId)).state := by
    refine Machine.invariant_of_meets (fun s : Locked Tables => Leased cfg id now s.state)
      (fun s a hinv hmodest => @Action.step_invariant cfg a (fun s => Leased cfg id now s.state)
        (fun c s hc h => Leased.scope hp hv hs hmodest hc h) s hinv) actions ?_
      (Machine.meets_of_forall (fun a ha _ => hsteps a ha) _)
    intro row e hrow
    simp [opened, Tables.empty] at hrow
  have halone := (@alone_of_perform cfg (.touch id assignee now) _ _ _ trivial htouch).1
  obtain ⟨expiry, htx, -⟩ := Tx.map_eq_ok.mp halone
  obtain ⟨row', ttl, hrow', -, hlease, -, hstate⟩ := touchTx_ok htx
  obtain rfl := Option.some.inj (hrow.symm.trans hrow')
  refine ⟨{ row with expiresAt := some (wrapI64 (now + ttl)), updatedAt := now },
    wrapI64 (now + ttl), ?_, rfl,
    (hleased row e hrow he).le_renewal hp hv hs h0 hnow hlease⟩
  rw [hstate, Tables.logEvent_issue, Tables.setIssue_issue, Table.find_modify, if_pos rfl, hrow]
  rfl

end Run

/-- The numbers of the default policy. -/
theorem policyFits_default : PolicyFits {} :=
  ⟨by decide, by decide, by decide, by decide⟩

/-- An issue that an agent claims at the second `5`, for as long as it asks for. -/
def leasedIssue (secs : Option Int) : List Action :=
  freshIssue.map .op ++ [.op (.claim ⟨"x", "a", .agent, secs⟩ 5)]

theorem heartbeat_extends_default : ∃ (row row' : IssueRow) (e' : Int),
    (Action.run {} (leasedIssue none) (opened "s")).state.issue.find "x" = some row ∧
    row.expiresAt = some 1805 ∧
    (perform {} (.touch "x" "a" 10)
      (Action.run {} (leasedIssue none) (opened "s"))).2.state.issue.find "x" = some row' ∧
    row'.expiresAt = some e' ∧ 1805 ≤ e' := by
  obtain ⟨row, hrow, he⟩ : ∃ row, (Action.run {} (leasedIssue none)
      (opened "s")).state.issue.find "x" = some row ∧ row.expiresAt = some 1805 := ⟨_, rfl, rfl⟩
  have hmodest : ∀ a ∈ leasedIssue none, Modest {} "x" 10 a := by
    intro a ha
    simp only [leasedIssue, freshIssue, List.map_cons, List.map_nil, List.cons_append,
      List.nil_append, List.mem_cons, List.not_mem_nil, or_false] at ha
    rcases ha with rfl | rfl | rfl
    · trivial
    · trivial
    · exact fun _ => ⟨by decide, by decide, Or.inl fun _ hsecs => (by cases hsecs),
        fun _ hsecs => (by cases hsecs)⟩
  have htouch : perform {} (.touch "x" "a" 10) (Action.run {} (leasedIssue none) (opened "s")) =
      (.ok (.expiry 1810), _) := rfl
  obtain ⟨row', e', hrow', he', hle⟩ := heartbeat_extends policyFits_default WorkWeek.valid_default
    WorkWeek.seamless_default hmodest (by decide) (by decide) hrow he htouch
  exact ⟨row, row', e', hrow, he, hrow', he', hle⟩

/-- An agent that was granted a day keeps half an hour of it. -/
theorem heartbeat_shortens : ∃ (row row' : IssueRow) (s' : Locked Tables),
    (Action.run {} (leasedIssue (some 86400)) (opened "s")).state.issue.find "x" = some row ∧
    row.assignee = some "a" ∧ row.expiresAt = some 86405 ∧ (10 : Int) < 86405 ∧
    perform {} (.touch "x" "a" 10) (Action.run {} (leasedIssue (some 86400)) (opened "s")) =
      (.ok (.expiry 1810), s') ∧
    s'.state.issue.find "x" = some row' ∧ row'.expiresAt = some 1810 ∧ ¬ (86405 : Int) ≤ 1810 :=
  ⟨_, _, _, rfl, rfl, rfl, by decide, rfl, rfl, rfl, by decide⟩

end Marbles.Db
