import Marbles.Auth
import Marbles.Lib.Machine

/-!
# Fetching the keys of the issuer

`Auth::jwks`, with every call of `Auth::oidc` at some statement of it. The keys are cached; whoever
finds them too old takes the lock `jwks_refresh`, looks again, and fetches unless the last attempt
is still cooling down. The time of the attempt is written when the fetch has come back, so a call
that is dropped in its fetch leaves none, and the next may fetch at once. `no_storms` says that this
is all: while no call is dropped in the first five seconds of its fetch, the fetches keep apart.

The lock is a field of the state and every phase says whether it holds it, so that mutual
exclusion is one equivalence of the invariant. The distance between two fetches is harder: it
rests on a time that is written after the fetch, and `Covered` says what stands in for it until
then. A dropped call takes that away, which is why the condition is about drops alone.
-/

namespace Marbles.Auth

/-! ### The calls and what they share -/

/-- The clock counts nanoseconds. -/
def oneSecond : Nat := 1000000000

/-- Keys of this age are not served any more. -/
def jwksTtl : Nat := 900 * oneSecond

/-- A forced refresh does not ask the issuer again within this time. -/
def jwksCooldown : Nat := 5 * oneSecond

/-- The next statement of a call. The fetch is given the time it was started at. Between two of them
any other call may run, and the network may answer. -/
inductive Phase where
  | unasked
  /-- The first look at the cache. -/
  | looking
  /-- At `jwks_refresh.lock().await`. -/
  | waiting
  /-- The second look at the cache. -/
  | locked
  /-- The look at the last attempt. -/
  | refreshing
  /-- Within the cooldown: what is cached is returned. -/
  | cooling
  /-- Before `fetch_jwks`. -/
  | fetching
  /-- In `fetch_jwks`, at the request for the discovery document. -/
  | discovering (started : Nat)
  /-- In `fetch_jwks`, at the request for the keys. -/
  | requesting (started : Nat) (uri : String)
  /-- After `fetch_jwks`. -/
  | fetched (started : Nat) (result : Option (List Jwk))
  /-- `oidc` has the keys, if there are any. -/
  | done (keys : Option (List Jwk))

namespace Phase

/-- The call holds `jwks_refresh`. -/
def holds : Phase → Bool
  | .locked | .refreshing | .cooling | .fetching | .discovering _ | .requesting .. | .fetched .. =>
      true
  | _ => false

/-- When the fetch was started that the call is in. -/
def fetchingSince : Phase → Option Nat
  | .discovering started | .requesting started _ => some started
  | _ => none

/-- When the fetch was started whose attempt is not written yet. -/
def started : Phase → Option Nat
  | .discovering started | .requesting started _ | .fetched started _ => some started
  | _ => none

theorem holds_of_fetchingSince {phase : Phase} (h : phase.fetchingSince.isSome = true) :
    phase.holds = true := by
  cases phase <;> first | rfl | cases h

theorem started_of_holds {phase : Phase} (h : phase.holds = false) : phase.started = none := by
  cases phase <;> first | rfl | cases h

theorem ne_fetching {phase : Phase} (h : phase.holds = false) : phase ≠ .fetching := by
  rintro rfl
  cases h

end Phase

/-- One call of `jwks` on behalf of a token. -/
structure Call where
  kid : String
  /-- Whether the keys are asked for again, because of an unknown key id. -/
  force : Bool
  phase : Phase

/-- What the calls share, and where each of them is. The fetches and the reads are kept for the sake
of what is proved about them. -/
structure Keyring where
  now : Nat
  jwks : Option (Nat × List Jwk)
  /-- The time in `jwks_refresh`. -/
  attempt : Option Nat
  /-- The call that holds `jwks_refresh`. -/
  holder : Option Nat
  calls : Nat → Call
  /-- When the fetches were started, the last first. -/
  fetches : List Nat
  /-- For each time that keys were read when they had been fetched, and when they were read. -/
  reads : List (Nat × Nat)

namespace Keyring

/-- Nothing is cached, and nobody has asked. -/
def new : Keyring := ⟨0, none, none, none, fun _ => ⟨"", false, .unasked⟩, [], []⟩

/-- The cached keys and their time, if they are younger than that. -/
def cachedJwks (s : Keyring) (ttl : Nat) : Option (Nat × List Jwk) :=
  s.jwks.filter fun cached => s.now - cached.1 < ttl

/-- How old cached keys may be. A forced call takes those of the last few seconds, which another
call may just have fetched. -/
def freshness (force : Bool) : Nat := if force then jwksCooldown else jwksTtl

/-- The call goes on; what the calls share stays as it is. -/
def moves (s : Keyring) (i : Nat) (phase : Phase) : Keyring :=
  { s with calls := Function.update s.calls i { s.calls i with phase } }

@[simp] theorem moves_self (s : Keyring) (i : Nat) (phase : Phase) :
    ((s.moves i phase).calls i).phase = phase := by
  simp [moves]

@[simp] theorem moves_of_ne (s : Keyring) {i j : Nat} (hji : j ≠ i) (phase : Phase) :
    (s.moves i phase).calls j = s.calls j :=
  Function.update_of_ne hji ..

/-- The guard of `jwks_refresh` is dropped. -/
def unlock (s : Keyring) : Keyring := { s with holder := none }

/-- Keys that were fetched at a time are read now. -/
def reading (s : Keyring) (since : Nat) : Keyring := { s with reads := (since, s.now) :: s.reads }

/-- `jwks` returns to `oidc`, which asks again if its key is not among the keys. It asks again once
only, since `force` is set by then. -/
def returns (s : Keyring) (i : Nat) (result : Option (List Jwk)) : Keyring :=
  let call := s.calls i
  match result with
  | none => s.moves i (.done none)
  | some keys =>
      if call.force = false ∧ keys.all (·.kid ≠ some call.kid) then
        { s with calls := Function.update s.calls i { call with force := true, phase := .looking } }
      else s.moves i (.done (some keys))

/-- The first statement of `fetch_jwks`. -/
def fetchJwks (config : AuthConfig) (now : Nat) : Phase :=
  match config.jwksUri, config.oidcIssuer with
  | some uri, _ => .requesting now uri
  | none, some _ => .discovering now
  | none, none => .fetched now none

/-- A call executes its next statement, if that does not wait for the network. A call that waits for
the lock does nothing until the lock is free. -/
def advance (config : AuthConfig) (s : Keyring) (i : Nat) : Keyring :=
  let call := s.calls i
  match call.phase with
  | .looking =>
      match s.cachedJwks (freshness call.force) with
      | some (since, keys) => (s.reading since).returns i (some keys)
      | none => s.moves i .waiting
  | .waiting =>
      if s.holder = none then { s with holder := some i }.moves i .locked else s
  | .locked =>
      match s.cachedJwks (freshness call.force) with
      | some (since, keys) => (s.reading since).unlock.returns i (some keys)
      | none => s.moves i .refreshing
  | .refreshing =>
      if s.attempt.any (s.now - · < jwksCooldown) then s.moves i .cooling else s.moves i .fetching
  | .cooling =>
      match s.cachedJwks jwksTtl with
      | some (since, keys) => (s.reading since).unlock.returns i (some keys)
      | none => s.unlock.returns i none
  | .fetching => { s with fetches := s.now :: s.fetches }.moves i (fetchJwks config s.now)
  | .fetched _ result => { s with attempt := some s.now }.unlock.returns i result
  | _ => s

/-- What can happen. -/
inductive Event where
  | tick (nanoseconds : Nat)
  /-- A new call of `oidc` with the key id in its token. -/
  | ask (i : Nat) (kid : String)
  | advance (i : Nat)
  /-- The address in the discovery document, if that could be had. -/
  | discovered (i : Nat) (uri : Option String)
  /-- The keys, if they could be had. -/
  | answered (i : Nat) (keys : Option (List Jwk))
  /-- A call is dropped, which takes effect where it awaits something. -/
  | drop (i : Nat)

/-- One event. A call that awaits nothing cannot be dropped, so `drop` has no effect there. -/
def step (config : AuthConfig) : Event → Keyring → Keyring
  | .tick nanoseconds, s => { s with now := s.now + nanoseconds }
  | .ask i kid, s =>
      match (s.calls i).phase, config.oidcIssuer with
      | .unasked, some _ =>
          { s with calls := Function.update s.calls i ⟨kid, false, .looking⟩ }
      | .unasked, none => s.moves i (.done none)
      | _, _ => s
  | .advance i, s => s.advance config i
  | .discovered i uri, s =>
      match (s.calls i).phase, uri with
      | .discovering started, some uri => s.moves i (.requesting started uri)
      | .discovering started, none => s.moves i (.fetched started none)
      | _, _ => s
  | .answered i keys, s =>
      match (s.calls i).phase, keys with
      | .requesting started _, some keys =>
          ({ s with jwks := some (s.now, keys) }.reading s.now).moves i
            (.fetched started (some keys))
      | .requesting started _, none => s.moves i (.fetched started none)
      | _, _ => s
  | .drop i, s =>
      match (s.calls i).phase with
      | .waiting => s.moves i (.done none)
      | .discovering _ | .requesting .. => s.unlock.moves i (.done none)
      | _ => s

/-! ### What is to hold -/

/-- No two calls fetch, fetches start five seconds apart at least, and nothing is read that was
fetched fifteen minutes ago. -/
structure Calm (s : Keyring) : Prop where
  alone : ∀ i j, (s.calls i).phase.fetchingSince.isSome = true →
    (s.calls j).phase.fetchingSince.isSome = true → i = j
  spaced : s.fetches.Pairwise fun later earlier => earlier + jwksCooldown ≤ later
  fresh : ∀ read ∈ s.reads, read.2 < read.1 + jwksTtl

/-- No call is dropped in the first five seconds of its fetch. -/
def Patient (s : Keyring) : Event → Prop
  | .drop i => ∀ started ∈ (s.calls i).phase.fetchingSince, started + jwksCooldown ≤ s.now
  | _ => True

instance (s : Keyring) : DecidablePred (Patient s)
  | .drop i => inferInstanceAs
      (Decidable (∀ started ∈ (s.calls i).phase.fetchingSince, started + jwksCooldown ≤ s.now))
  | .tick _ | .ask .. | .advance _ | .discovered .. | .answered .. => .isTrue trivial

/-! ### The invariant -/

/-- The fetch that was started last: its cooldown is over, or its attempt is written, or it is
still to be. -/
def Covered (s : Keyring) (t : Nat) : Prop :=
  t + jwksCooldown ≤ s.now ∨ (∃ since ∈ s.attempt, t ≤ since) ∨
    ∃ i, (s.calls i).phase.started = some t

/-- The lock says who may fetch, and the last fetch is covered, so that whoever gets the lock next
sees its attempt or waits for it. -/
structure Inv (s : Keyring) : Prop where
  owner : ∀ i, (s.calls i).phase.holds = true ↔ s.holder = some i
  spaced : s.fetches.Pairwise fun later earlier => earlier + jwksCooldown ≤ later
  fresh : ∀ read ∈ s.reads, read.2 < read.1 + jwksTtl
  last : ∀ t ∈ s.fetches.head?, t ≤ s.now ∧ s.Covered t
  cleared : ∀ i, (s.calls i).phase = .fetching → ∀ t ∈ s.fetches.head?, t + jwksCooldown ≤ s.now

theorem Inv.calm {s : Keyring} (h : Inv s) : Calm s where
  alone i j hi hj := by
    have howner := (h.owner i).mp (Phase.holds_of_fetchingSince hi)
    rw [(h.owner j).mp (Phase.holds_of_fetchingSince hj)] at howner
    exact (Option.some.inj howner).symm
  spaced := h.spaced
  fresh := h.fresh

theorem Inv.new : Inv .new where
  owner _ := ⟨nofun, nofun⟩
  spaced := .nil
  fresh := nofun
  last := nofun
  cleared := nofun

/-- A call that moves on, without the clock and without starting a fetch. -/
theorem Inv.moved {s s' : Keyring} (h : Inv s) {i : Nat} {call : Call}
    (hcalls : s'.calls = Function.update s.calls i call) (hnow : s'.now = s.now)
    (hfetches : s'.fetches = s.fetches)
    (howner : ∀ j, s'.holder = some j ↔
      if j = i then call.phase.holds = true else s.holder = some j)
    (hfresh : ∀ read ∈ s'.reads, read.2 < read.1 + jwksTtl)
    (hattempt : s'.attempt = some s.now ∨ s'.attempt = s.attempt ∧
      ∀ t ∈ (s.calls i).phase.started, t + jwksCooldown ≤ s.now ∨ call.phase.started = some t)
    (hcleared : call.phase = .fetching → ∀ t ∈ s.fetches.head?, t + jwksCooldown ≤ s.now) :
    Inv s' where
  -- Only the call i moves; the others are as they were, and so is what they are owed.
  owner j := by
    rw [howner, hcalls]
    by_cases hj : j = i
    · rw [if_pos hj, hj, Function.update_self]
    · rw [if_neg hj, Function.update_of_ne hj]
      exact h.owner j
  spaced := hfetches ▸ h.spaced
  fresh := hfresh
  last t ht := by
    rw [hfetches] at ht
    obtain ⟨hle, hcovered⟩ := h.last t ht
    refine ⟨hnow ▸ hle, ?_⟩
    unfold Covered
    rw [hnow, hcalls]
    rcases hattempt with hwritten | ⟨hsame, hstarted⟩
    · exact Or.inr (Or.inl ⟨s.now, hwritten, hle⟩)
    · rw [hsame]
      rcases hcovered with hpast | hwritten | ⟨j, hj⟩
      · exact Or.inl hpast
      · exact Or.inr (Or.inl hwritten)
      · by_cases hji : j = i
        · subst hji
          rcases hstarted t hj with hpast | hmoved
          · exact Or.inl hpast
          · exact Or.inr (Or.inr ⟨j, by rw [Function.update_self]; exact hmoved⟩)
        · exact Or.inr (Or.inr ⟨j, by rw [Function.update_of_ne hji]; exact hj⟩)
  cleared j hj t ht := by
    rw [hfetches] at ht
    rw [hnow]
    rw [hcalls] at hj
    by_cases hji : j = i
    · rw [hji, Function.update_self] at hj
      exact hcleared hj t ht
    · rw [Function.update_of_ne hji] at hj
      exact h.cleared j hj t ht

section Steps

variable {s s' : Keyring} {i : Nat} {call : Call}

/-- A call that does not hold the lock moves on without it. -/
theorem Inv.outside (h : Inv s) (hcalls : s'.calls = Function.update s.calls i call)
    (hnow : s'.now = s.now) (hfetches : s'.fetches = s.fetches) (hholder : s'.holder = s.holder)
    (hattempt : s'.attempt = s.attempt) (hbefore : (s.calls i).phase.holds = false)
    (hafter : call.phase.holds = false) (hfresh : ∀ read ∈ s'.reads, read.2 < read.1 + jwksTtl) :
    Inv s' := by
  refine h.moved hcalls hnow hfetches (fun j => ?_) hfresh (Or.inr ⟨hattempt, ?_⟩)
    fun hphase => absurd hphase (Phase.ne_fetching hafter)
  · by_cases hj : j = i
    · subst hj
      rw [if_pos rfl, hholder, ← h.owner, hbefore, hafter]
    · rw [if_neg hj, hholder]
  · rw [Phase.started_of_holds hbefore]
    exact nofun

/-- The call that holds the lock moves on with it. -/
theorem Inv.inside (h : Inv s) (hcalls : s'.calls = Function.update s.calls i call)
    (hnow : s'.now = s.now) (hfetches : s'.fetches = s.fetches) (hholder : s'.holder = s.holder)
    (hattempt : s'.attempt = s.attempt) (hbefore : (s.calls i).phase.holds = true)
    (hafter : call.phase.holds = true) (hstarted : call.phase.started = (s.calls i).phase.started)
    (hfresh : ∀ read ∈ s'.reads, read.2 < read.1 + jwksTtl)
    (hcleared : call.phase = .fetching → ∀ t ∈ s.fetches.head?, t + jwksCooldown ≤ s.now) :
    Inv s' := by
  refine h.moved hcalls hnow hfetches (fun j => ?_) hfresh (Or.inr ⟨hattempt, ?_⟩) hcleared
  · by_cases hj : j = i
    · subst hj
      rw [if_pos rfl, hholder, ← h.owner, hbefore, hafter]
    · rw [if_neg hj, hholder]
  · exact fun t ht => Or.inr (hstarted ▸ ht)

/-- The call that holds the lock releases it. -/
theorem Inv.released (h : Inv s) (hcalls : s'.calls = Function.update s.calls i call)
    (hnow : s'.now = s.now) (hfetches : s'.fetches = s.fetches) (hholder : s'.holder = none)
    (hbefore : (s.calls i).phase.holds = true) (hafter : call.phase.holds = false)
    (hattempt : s'.attempt = some s.now ∨ s'.attempt = s.attempt ∧
      ∀ t ∈ (s.calls i).phase.started, t + jwksCooldown ≤ s.now)
    (hfresh : ∀ read ∈ s'.reads, read.2 < read.1 + jwksTtl) : Inv s' := by
  refine h.moved hcalls hnow hfetches (fun j => ?_) hfresh ?_
    fun hphase => absurd hphase (Phase.ne_fetching hafter)
  · by_cases hj : j = i
    · rw [if_pos hj, hholder, hafter]
      exact ⟨nofun, nofun⟩
    · rw [if_neg hj, hholder, (h.owner i).mp hbefore]
      exact ⟨nofun, fun hsame => absurd (Option.some.inj hsame).symm hj⟩
  · exact hattempt.imp_right fun ⟨hsame, hpast⟩ => ⟨hsame, fun t ht => Or.inl (hpast t ht)⟩

/-- Where a call goes on when `jwks` returns, which is not under the lock. -/
theorem returns_eq (s : Keyring) (i : Nat) (result : Option (List Jwk)) :
    ∃ call, call.phase.holds = false ∧
      s.returns i result = { s with calls := Function.update s.calls i call } := by
  unfold returns
  cases result with
  | none => exact ⟨_, rfl, rfl⟩
  | some keys =>
      dsimp only
      split
      · exact ⟨_, rfl, rfl⟩
      · exact ⟨_, rfl, rfl⟩

/-- What the cache serves is younger than the limit. -/
theorem cachedJwks_fresh {ttl since : Nat} {keys : List Jwk} (httl : ttl ≤ jwksTtl)
    (h : s.cachedJwks ttl = some (since, keys)) : s.now < since + jwksTtl := by
  have hyoung := (Option.filter_eq_some_iff.mp h).2
  simp only [decide_eq_true_eq] at hyoung
  omega

theorem freshness_le (force : Bool) : freshness force ≤ jwksTtl := by
  cases force <;> decide

theorem Inv.reading (h : Inv s) {since : Nat} (hsince : s.now < since + jwksTtl) :
    ∀ read ∈ (s.reading since).reads, read.2 < read.1 + jwksTtl := by
  intro read hread
  rcases List.mem_cons.mp hread with rfl | hold
  · exact hsince
  · exact h.fresh read hold

/-- The lock is taken when it is free. -/
theorem Inv.taken (h : Inv s) (hbefore : (s.calls i).phase.holds = false)
    (hfree : s.holder = none) :
    Inv ({ s with holder := some i }.moves i .locked) := by
  refine h.moved (i := i) rfl rfl rfl (fun j => ?_) h.fresh (Or.inr ⟨rfl, ?_⟩) nofun
  · change some i = some j ↔ _
    by_cases hj : j = i
    · rw [if_pos hj, hj]
      exact iff_of_true rfl rfl
    · rw [if_neg hj, hfree]
      exact iff_of_false (fun hsame => hj (Option.some.inj hsame).symm) nofun
  · rw [Phase.started_of_holds hbefore]
    exact nofun

/-- Cached keys are returned, and the lock is released. -/
theorem Inv.served (h : Inv s) (hbefore : (s.calls i).phase.holds = true)
    (hstarted : (s.calls i).phase.started = none) {ttl since : Nat} {keys : List Jwk}
    (httl : ttl ≤ jwksTtl) (hcached : s.cachedJwks ttl = some (since, keys)) :
    Inv ((s.reading since).unlock.returns i (some keys)) := by
  obtain ⟨call, hcall, heq⟩ := (s.reading since).unlock.returns_eq i (some keys)
  have hfresh := h.reading (cachedJwks_fresh httl hcached)
  rw [heq]
  exact h.released rfl rfl rfl rfl hbefore hcall (Or.inr ⟨rfl, by rw [hstarted]; exact nofun⟩)
    hfresh

/-- A call that is past its look at the last attempt may start a fetch. -/
theorem Inv.clear (h : Inv s) (hphase : (s.calls i).phase = .refreshing)
    (hattempt : ¬ s.attempt.any (s.now - · < jwksCooldown) = true) :
    ∀ t ∈ s.fetches.head?, t + jwksCooldown ≤ s.now := by
  intro t ht
  have hholder : s.holder = some i := (h.owner i).mp (by rw [hphase]; rfl)
  rcases (h.last t ht).2 with hpast | ⟨since, hsince, hle⟩ | ⟨j, hj⟩
  · exact hpast
  · rw [hsince] at hattempt
    simp only [Option.any_some, decide_eq_true_eq, not_lt] at hattempt
    have hcooldown : 0 < jwksCooldown := by decide
    omega
  · -- the fetch would be that of another call, which holds the lock as well
    have hholds : (s.calls j).phase.holds = true := by
      cases hother : (s.calls j).phase.holds with
      | true => rfl
      | false =>
          rw [Phase.started_of_holds hother] at hj
          cases hj
    have hsame := (h.owner j).mp hholds
    rw [hholder] at hsame
    obtain rfl := Option.some.inj hsame
    rw [hphase] at hj
    cases hj

/-- The start of a fetch, five seconds after the last one. -/
theorem Inv.starts (h : Inv s) (hphase : (s.calls i).phase = .fetching) {phase : Phase}
    (hholds : phase.holds = true) (hstarted : phase.started = some s.now) :
    Inv ({ s with fetches := s.now :: s.fetches }.moves i phase) where
  owner j := by
    by_cases hj : j = i
    · subst hj
      rw [moves_self]
      exact iff_of_true hholds ((h.owner j).mp (by rw [hphase]; rfl))
    · rw [moves_of_ne _ hj]
      exact h.owner j
  spaced := by
    refine List.pairwise_cons.mpr ⟨fun t ht => ?_, h.spaced⟩
    obtain ⟨first, rest, hfetches⟩ := List.exists_cons_of_ne_nil (List.ne_nil_of_mem ht)
    have hfirst : first + jwksCooldown ≤ s.now := h.cleared i hphase first (by rw [hfetches]; rfl)
    rw [hfetches] at ht
    rcases List.mem_cons.mp ht with rfl | hrest
    · exact hfirst
    · have hspaced := (List.pairwise_cons.mp (hfetches ▸ h.spaced)).1 t hrest
      omega
  fresh := h.fresh
  last t ht := by
    obtain rfl := Option.some.inj ht
    exact ⟨Nat.le_refl _, Or.inr (Or.inr ⟨i, by rw [moves_self]; exact hstarted⟩)⟩
  cleared j hj := by
    by_cases hji : j = i
    · rw [hji, moves_self] at hj
      obtain rfl : phase = .fetching := hj
      cases hstarted
    · rw [moves_of_ne _ hji] at hj
      -- then two calls would hold the lock
      have hi := (h.owner i).mp (by rw [hphase]; rfl)
      rw [(h.owner j).mp (by rw [hj]; rfl)] at hi
      exact absurd (Option.some.inj hi) hji

theorem fetchJwks_started (config : AuthConfig) (now : Nat) :
    (fetchJwks config now).holds = true ∧ (fetchJwks config now).started = some now := by
  unfold fetchJwks
  split <;> exact ⟨rfl, rfl⟩

/-- One statement of a call. -/
theorem Inv.advance (h : Inv s) (config : AuthConfig) (i : Nat) : Inv (s.advance config i) := by
  unfold Keyring.advance
  dsimp only
  -- A call that does not hold the lock leaves the owner alone (outside), one that holds it acts for
  -- the owner (inside) and gives the lock back with its result (released, served).
  cases hphase : (s.calls i).phase with
  | looking =>
      have hbefore : (s.calls i).phase.holds = false := by rw [hphase]; rfl
      dsimp only
      cases hcached : s.cachedJwks (freshness (s.calls i).force) with
      | none => exact h.outside rfl rfl rfl rfl rfl hbefore rfl h.fresh
      | some cached =>
          obtain ⟨since, keys⟩ := cached
          obtain ⟨call, hcall, heq⟩ := (s.reading since).returns_eq i (some keys)
          have hfresh := h.reading (cachedJwks_fresh (freshness_le _) hcached)
          dsimp only
          rw [heq]
          exact h.outside rfl rfl rfl rfl rfl hbefore hcall hfresh
  | waiting =>
      dsimp only
      split
      · rename_i hfree
        exact h.taken (by rw [hphase]; rfl) hfree
      · exact h
  | locked =>
      have hbefore : (s.calls i).phase.holds = true := by rw [hphase]; rfl
      have hstarted : (s.calls i).phase.started = none := by rw [hphase]; rfl
      dsimp only
      cases hcached : s.cachedJwks (freshness (s.calls i).force) with
      | none => exact h.inside rfl rfl rfl rfl rfl hbefore rfl hstarted.symm h.fresh nofun
      | some cached => exact h.served hbefore hstarted (freshness_le _) hcached
  | refreshing =>
      have hbefore : (s.calls i).phase.holds = true := by rw [hphase]; rfl
      have hstarted : (s.calls i).phase.started = none := by rw [hphase]; rfl
      dsimp only
      split
      · exact h.inside rfl rfl rfl rfl rfl hbefore rfl hstarted.symm h.fresh nofun
      · rename_i hattempt
        exact h.inside rfl rfl rfl rfl rfl hbefore rfl hstarted.symm h.fresh
          fun _ => h.clear hphase hattempt
  | cooling =>
      have hbefore : (s.calls i).phase.holds = true := by rw [hphase]; rfl
      have hstarted : (s.calls i).phase.started = none := by rw [hphase]; rfl
      dsimp only
      cases hcached : s.cachedJwks jwksTtl with
      | none =>
          have hpast : ∀ t ∈ (s.calls i).phase.started, t + jwksCooldown ≤ s.now := by
            rw [hstarted]
            exact nofun
          exact h.released rfl rfl rfl rfl hbefore rfl (Or.inr ⟨rfl, hpast⟩) h.fresh
      | some cached => exact h.served hbefore hstarted (Nat.le_refl _) hcached
  | fetching => exact h.starts hphase (fetchJwks_started ..).1 (fetchJwks_started ..).2
  | fetched started result =>
      have hbefore : (s.calls i).phase.holds = true := by rw [hphase]; rfl
      obtain ⟨call, hcall, heq⟩ := { s with attempt := some s.now }.unlock.returns_eq i result
      dsimp only
      rw [heq]
      exact h.released rfl rfl rfl rfl hbefore hcall (Or.inl rfl) h.fresh
  | unasked | discovering | requesting | done => exact h

/-- One event preserves the invariant, unless it drops a call early in its fetch. -/
theorem Inv.step (h : Inv s) (config : AuthConfig) (event : Event) (hpatient : Patient s event) :
    Inv (step config event s) := by
  -- Asking and answering change one call and, where it holds the lock, what is cached; a drop gives
  -- the lock back, which the patience of the environment has delayed past the cooldown.
  cases event with
  | tick nanoseconds =>
      refine ⟨h.owner, h.spaced, h.fresh, fun t ht => ?_, fun i hi t ht => ?_⟩
      · obtain ⟨hle, hcovered⟩ := h.last t ht
        exact ⟨Nat.le_add_right_of_le hle, hcovered.imp_left Nat.le_add_right_of_le⟩
      · exact Nat.le_add_right_of_le (h.cleared i hi t ht)
  | ask i kid =>
      dsimp only [Keyring.step]
      split
      · rename_i hphase _
        exact h.outside rfl rfl rfl rfl rfl (by rw [hphase]; rfl) rfl h.fresh
      · rename_i hphase _
        exact h.outside rfl rfl rfl rfl rfl (by rw [hphase]; rfl) rfl h.fresh
      · exact h
  | advance i => exact h.advance config i
  | discovered i uri =>
      dsimp only [Keyring.step]
      split
      · rename_i started uri hphase
        exact h.inside rfl rfl rfl rfl rfl (by rw [hphase]; rfl) rfl (by rw [hphase]; rfl) h.fresh
          nofun
      · rename_i started hphase
        exact h.inside rfl rfl rfl rfl rfl (by rw [hphase]; rfl) rfl (by rw [hphase]; rfl) h.fresh
          nofun
      · exact h
  | answered i keys =>
      dsimp only [Keyring.step]
      split
      · rename_i started uri keys hphase
        have hsince : s.now < s.now + jwksTtl := Nat.lt_add_of_pos_right (by decide)
        have hfresh := h.reading hsince
        exact h.inside rfl rfl rfl rfl rfl (by rw [hphase]; rfl) rfl (by rw [hphase]; rfl) hfresh
          nofun
      · rename_i started uri hphase
        exact h.inside rfl rfl rfl rfl rfl (by rw [hphase]; rfl) rfl (by rw [hphase]; rfl) h.fresh
          nofun
      · exact h
  | drop i =>
      dsimp only [Keyring.step]
      split
      · rename_i hphase
        exact h.outside rfl rfl rfl rfl rfl (by rw [hphase]; rfl) rfl h.fresh
      · rename_i started hphase
        refine h.released rfl rfl rfl rfl (by rw [hphase]; rfl) rfl (Or.inr ⟨rfl, ?_⟩) h.fresh
        exact fun t ht => hpatient t (by rw [hphase] at ht ⊢; exact ht)
      · rename_i started uri hphase
        refine h.released rfl rfl rfl rfl (by rw [hphase]; rfl) rfl (Or.inr ⟨rfl, ?_⟩) h.fresh
        exact fun t ht => hpatient t (by rw [hphase] at ht ⊢; exact ht)
      · exact h

end Steps

/-- In a run in which no call is dropped in the first five seconds of its fetch, fetches do not
overlap and keep five seconds apart, and no old keys are read. A call that is dropped leaves no time
of its attempt, and so nothing for the next one to wait for. -/
theorem no_storms (config : AuthConfig) (events : List Event)
    (h : Machine.Meets (step config) Patient events new) :
    Calm (Machine.run (step config) events new) :=
  (Machine.invariant_of_meets Inv (fun _ event hinv hpatient => hinv.step config event hpatient)
    events .new h).calm

/-- The keys are at a known address, so that a fetch asks for no discovery document. -/
def issuerKeys : AuthConfig where
  oidcIssuer := some "https://issuer"
  jwksUri := some "https://issuer/keys"

/-- A new call that gets to its fetch. -/
def fetching (i : Nat) : List Event :=
  .ask i "k" :: List.replicate 5 (.advance i)

/-- A call is dropped at once in its fetch, and the next one fetches in the same moment. -/
def dropped : List Event := fetching 0 ++ [.drop 0] ++ fetching 1

theorem dropped_storms :
    (Machine.run (step issuerKeys) dropped new).fetches = [0, 0] ∧
      ¬ Calm (Machine.run (step issuerKeys) dropped new) := by
  have hfetches : (Machine.run (step issuerKeys) dropped new).fetches = [0, 0] := by decide +kernel
  refine ⟨hfetches, fun h => ?_⟩
  have hspaced := h.spaced
  rw [hfetches] at hspaced
  exact absurd hspaced (by decide)

/-- The same with six seconds in between. -/
def droppedLate : List Event := fetching 0 ++ [.tick (6 * oneSecond), .drop 0] ++ fetching 1

theorem droppedLate_calm :
    (Machine.run (step issuerKeys) droppedLate new).fetches = [6 * oneSecond, 0] ∧
      Calm (Machine.run (step issuerKeys) droppedLate new) :=
  ⟨by decide +kernel, no_storms issuerKeys droppedLate (by decide +kernel)⟩

end Keyring

end Marbles.Auth
