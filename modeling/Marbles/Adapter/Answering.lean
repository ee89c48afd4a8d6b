import Marbles.Adapter.Parity
import Marbles.Db.Expiry

/-!
# Claims that come back

A claim comes back on both stores unless its lease cannot be computed, and with the default policy
that is when a human asks for more working time than the calendar has left: the walk to the
deadline runs before the lease is clamped. The local store panics before it takes its lock, the
adapter after, so it takes no further calls.

The default policy enters by its numbers: an agent's lease is minutes, a human's is counted in
business hours. In this century there is room for the default lease of either on the calendar.
What is left is the lease a human asks for, and the condition says how much working time the
calendar must still have.
-/

namespace Marbles.Adapter

open Db (Tables minutesOf secondsOf)
open Records (Engine)

variable {cfg : Config} {req : ClaimRequest} {now : Int}

/-! ### A lease that can be computed -/

/-- The adapter answers a claim whose lease it has computed. -/
theorem claim_ne_abort {ttl : Int} (hlease : req.ttl cfg.week cfg.policy now = some ttl)
    (s : Inner) : (runA (claim cfg req now) s).1 ≠ .error .abort := by
  unfold claim
  rw [hlease]
  dsimp only
  cases hdoc : s.doc issueKind [req.id] with
  | none =>
      rw [runA_bind_error (runA_projectOf_missing hdoc)]
      exact Outcome.fail_ne_abort
  | some data =>
      obtain ⟨v, hv⟩ := Engine.version_of_current hdoc
      have hissue : s.rowToIssue req.id = some (s.view req.id data) := by
        rw [Inner.rowToIssue, hdoc]
        rfl
      rw [runA_bind_reads (reads_projectOf hdoc), runA_bind_reads (reads_get hissue),
        runA_bind_reads (reads_issueVersion hv)]
      split
      · exact Outcome.fail_ne_abort
      · rw [runA_bind_ok (runA_saveIssueCas hv), if_pos rfl, runA_bind_ok (runA_logEvent ..)]
        exact Outcome.ok_ne_abort

/-- On a healthy lock the adapter answers a claim exactly when its lease can be computed. -/
theorem perform_claim_ne_abort (s : Inner) : (perform cfg (.claim req now) (.new s)).1 ≠
    .error .abort ↔
    (req.ttl cfg.week cfg.policy now).isSome = true := by
  constructor
  · intro hanswered
    cases hlease : req.ttl cfg.week cfg.policy now with
    | some ttl => rfl
    | none =>
        have hhealthy : (step cfg (.claim req now) (.new s)).poisoned = false :=
          Locked.withLock_returned rfl hanswered
        exact absurd (hhealthy.symm.trans (claim_poisons hlease s)) Bool.false_ne_true
  · intro hlease
    obtain ⟨ttl, httl⟩ := Option.isSome_iff_exists.mp hlease
    rw [perform, Locked.withLock_new_fst]
    change (runA (Reply.receipt <$> claim cfg req now) s).1 ≠ _
    rw [runA_map]
    exact Outcome.map_ne_abort (claim_ne_abort httl s)

/-- So does the local store. -/
theorem dbPerform_claim_ne_abort (t : Tables) :
    (Db.perform cfg.toConfig (.claim req now) (.new t)).1 ≠ .error .abort ↔
      (req.ttl cfg.week cfg.policy now).isSome = true := by
  constructor
  · intro hanswered
    cases hlease : req.ttl cfg.week cfg.policy now with
    | some ttl => rfl
    | none =>
        rw [@Db.perform_claim_abort cfg.toConfig req now hlease] at hanswered
        exact absurd rfl hanswered
  · intro hlease
    have hdefined : Db.LeaseDefined cfg.toConfig (.claim req now) := hlease
    have hreturns : Db.Returns cfg.toConfig t (.claim req now) := hlease
    rw [Db.perform_eq hdefined, Locked.finish_fst]
    exact Outcome.map_ne_abort (Db.alone_ne_abort hreturns)

/-! ### When it can be computed -/

/-- With the default policy a lease is computed in this century unless it is a human's who asks
for more working time than is left on the calendar. -/
theorem ttl_isSome_iff {week : WorkWeek} (hweek : week.Valid) (h70 : 0 ≤ now)
    (h2100 : now < 4102444800) (hreq : ∀ secs, req.ttlSeconds = some secs → IsI64 secs) :
    (req.ttl week {} now).isSome = true ↔
      (req.actorKind = .human → ∀ secs, req.ttlSeconds = some secs →
        week.Room now (max (secs / 60) 1)) := by
  have hdefault : (week.deadline now 2880).isSome = true :=
    (WorkWeek.deadline_isSome_iff hweek.hours hweek.clock (by decide) (by decide)).mpr
      ⟨hweek.zone, hweek.room_default h70 h2100⟩
  -- An agent's lease is a constant; a human's is a walk through the calendar, and the default one
  -- always fits.
  cases hkind : req.actorKind with
  | agent =>
      rw [Db.ttl_agent hkind]
      exact ⟨fun _ hhuman => (by cases hhuman), fun _ => rfl⟩
  | human =>
      rw [forall_prop_of_true rfl]
      obtain ⟨h, hexpiry⟩ := Option.isSome_iff_exists.mp hdefault
      have hboth : (req.ttl week {} now).isSome = true ↔
          (week.deadline now (minutesOf req {})).isSome = true := by
        rw [Option.isSome_iff_exists, Option.isSome_iff_exists]
        constructor
        · rintro ⟨ttl, httl⟩
          obtain ⟨d, -, hdeadline, -, -⟩ := (Db.ttl_human hkind).mp httl
          exact ⟨d, hdeadline⟩
        · rintro ⟨d, hdeadline⟩
          exact ⟨_, (Db.ttl_human hkind).mpr ⟨d, h, hdeadline, hexpiry, rfl⟩⟩
      rw [hboth, minutesOf]
      cases hsecs : req.ttlSeconds with
      | none => exact ⟨fun _ secs heq => (by cases heq), fun _ => hdefault⟩
      | some secs =>
          have hfits := hreq secs hsecs
          unfold IsI64 at hfits
          rw [WorkWeek.deadline_isSome_iff hweek.hours hweek.clock (le_max_right _ _) (by omega)]
          constructor
          · rintro ⟨-, hroom⟩ _ heq
            obtain rfl := Option.some.inj heq
            exact hroom
          · intro hroom
            exact ⟨hweek.zone, hroom secs rfl⟩

/-- A claim comes back from both stores, without an overflow and leaving the adapter's lock as it
was, exactly when it is an agent's, or asks for no lease of its own, or for one that ends while
there are working days on the calendar. The lease is walked to before it is cut, so an override may
leave the calendar although its lease would not. -/
theorem claim_answered_iff (hpolicy : cfg.policy = {}) (hweek : cfg.week.Valid) (h70 : 0 ≤ now)
    (h2100 : now < 4102444800) (hreq : ∀ secs, req.ttlSeconds = some secs → IsI64 secs)
    (t : Tables) (s : Inner) :
    ((Db.perform cfg.toConfig (.claim req now) (.new t)).1 ≠ .error .abort ∧
      (perform cfg (.claim req now) (.new s)).1 ≠ .error .abort ∧
      (step cfg (.claim req now) (.new s)).poisoned = false ∧
      ∀ ttl, req.ttl cfg.week cfg.policy now = some ttl → IsI64 (now + ttl)) ↔
    (req.actorKind = .human → ∀ secs, req.ttlSeconds = some secs →
      cfg.week.Room now (max (secs / 60) 1)) := by
  rw [← ttl_isSome_iff hweek h70 h2100 hreq, ← hpolicy]
  constructor
  · intro h
    exact (perform_claim_ne_abort s).mp h.2.1
  · intro hlease
    have hanswered := (perform_claim_ne_abort s).mpr hlease
    refine ⟨(dbPerform_claim_ne_abort t).mpr hlease, hanswered,
      Locked.withLock_returned rfl hanswered, fun ttl httl => ?_⟩
    rw [hpolicy] at httl
    unfold IsI64
    cases hkind : req.actorKind with
    | agent =>
        obtain rfl := Option.some.inj ((Db.ttl_agent hkind).symm.trans httl)
        have hlow := Db.secondsOf_ge hreq
        have hhigh : secondsOf req {} ≤ 604800 := min_le_right ..
        omega
    | human =>
        obtain ⟨d, -, hlate, rfl⟩ := Db.lease_human hweek.hours.le hkind hreq httl
        omega

/-- Both stores answer a human who asks for an hour. -/
theorem claim_answered_hour :
    ((Db.perform {} (.claim ⟨"x", "a", .human, some 3600⟩ 10) (.new (.empty "s"))).1 ≠
    .error .abort ∧
      (perform {} (.claim ⟨"x", "a", .human, some 3600⟩ 10) (opened {})).1 ≠ .error .abort ∧
      (step {} (.claim ⟨"x", "a", .human, some 3600⟩ 10) (opened {})).poisoned = false ∧
      ∀ ttl, ClaimRequest.ttl ⟨"x", "a", .human, some 3600⟩ {} {} 10 = some ttl →
        IsI64 (10 + ttl)) ↔
    (ActorKind.human = .human → ∀ secs, some (3600 : Int) = some secs →
      ({} : WorkWeek).Room 10 (max (secs / 60) 1)) := by
  refine @claim_answered_iff {} ⟨"x", "a", .human, some 3600⟩ 10 rfl WorkWeek.valid_default
    (by decide) (by decide) (fun secs hsecs => ?_) (.empty "s") (opened {}).state
  cases hsecs
  decide

/-- The longest lease that can be asked for aborts the call on the local store and poisons the
adapter. -/
theorem longest_claim_aborts :
    (Db.perform {} (.claim Db.longestClaim 10) (Db.opened "s")).1 = .error .abort ∧
      (perform {} (.claim Db.longestClaim 10) (opened {})).1 = .error .abort ∧
      (step {} (.claim Db.longestClaim 10) (opened {})).poisoned = true := by
  have hlease : Db.longestClaim.ttl ({} : Config).week ({} : Config).policy 10 = none :=
    Db.longestClaim_ttl (by decide)
  refine ⟨?_, ?_, claim_poisons hlease _⟩
  · rw [@Db.perform_claim_abort {} _ _ hlease]
  · by_contra hanswered
    have hsome := (@perform_claim_ne_abort {} _ _ _).mp hanswered
    rw [hlease] at hsome
    cases hsome

end Marbles.Adapter
