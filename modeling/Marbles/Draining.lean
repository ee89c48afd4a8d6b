import Marbles.Db.Doctor
import Marbles.Db.Heartbeats
import Marbles.Webhook

/-!
# At least once

What the publisher owes its receiver. An event is taken off the outbox only after it has
been delivered, and an attempt that fails puts the next one off by no more than 256
seconds. So once the receiver answers and nobody writes, every event that is left has been
delivered after as many rounds as its number asks for, 64 events a round.

The safety half needs no assumption about times or answers: `Receipted` holds between any two
ticks. The other half is a count. A round that finds `n` events due delivers the first 64 of them
and leaves the others as they were, so after as many rounds as it takes to go through the outbox
none is left. What makes all of them due is the bound on the backoff, which is why the clock of
the past may not have been ahead of `T`.
-/

namespace Marbles.Webhook

open Db (Tables Scope Tx OutboundRow undelivered)

/-! ### What other callers do to the outbox -/

/-- The scopes of a publisher. -/
def marks : Scope → Bool
  | .markEventDelivered .. | .markEventFailed .. => true
  | _ => false

/-- Events that were there are as they were, and a new one is due when it occurred. -/
def Adds (t t' : Tables) : Prop :=
  t'.storeId = t.storeId ∧ ∀ seq o', t'.ledger.outbound.find seq = some o' →
    t.ledger.outbound.find seq = some o' ∨
      o'.storeId = t.storeId ∧ o'.deliveredAt = none ∧ o'.nextAttemptAt = o'.occurredAt

namespace Adds

variable {t t₁ t' : Tables}

theorem same (hledger : t'.ledger = t.ledger) (hstore : t'.storeId = t.storeId) : Adds t t' :=
  ⟨hstore, fun _ _ ho' => Or.inl (hledger ▸ ho')⟩

theorem refl (t : Tables) : Adds t t := same rfl rfl

theorem log (h : Adds t t₁) (id : String) (ts : Int) (actor event detail : String) :
    Adds t (t₁.logEvent id ts actor event detail) := by
  refine ⟨h.1, fun seq o' ho' => ?_⟩
  rw [Db.find_logEvent] at ho'
  split at ho'
  · obtain ⟨row, -, rfl⟩ := Option.map_eq_some_iff.mp ho'
    exact Or.inr ⟨h.1, rfl, rfl⟩
  · exact h.2 seq o' ho'

theorem setIssue (h : Adds t t₁) (id : String) (f : Db.IssueRow → Db.IssueRow) :
    Adds t (t₁.setIssue id f) := h

theorem sweep (now : Int) (claims : List (String × String × String))
    (acc : SweepReport × Tables) (h : Adds t acc.2) :
    Adds t (claims.foldl (Db.sweepRow now) acc).2 := by
  induction claims generalizing acc with
  | nil => exact h
  | cons claim claims ih =>
      rw [List.foldl_cons]
      refine ih _ ?_
      unfold Db.sweepRow
      dsimp only
      split
      · exact h.log ..
      · exact (h.setIssue _ _).log ..

end Adds

theorem exec_adds (cfg : Db.Config) {s : Scope} (l : Locked Tables) (hs : marks s = false) :
    Adds l.state (s.exec cfg l).2.state := by
  have htx : ∀ {α : Type} {f : Tx α}, (∀ a t', f l.state = .ok (a, t') → Adds l.state t') →
      Adds l.state (Locked.tx f l).2.state := fun hf => Locked.tx_preserves (.refl _) hf
  -- Short of the two marks, a scope reaches the outbox only through the event it logs, or through
  -- the drop of a project.
  cases s with
  | markEventDelivered | markEventFailed => cases hs
  | ensureProject slug root idPrefix ts =>
      refine htx fun _ t' h => ?_
      obtain rfl := Db.ensureProjectTx_ok h
      exact .same rfl rfl
  | dropProject slug =>
      refine htx fun _ t' h => ?_
      obtain ⟨mine, -, rfl⟩ := Db.dropProjectTx_ok h
      refine ⟨rfl, fun seq o' ho' => ?_⟩
      change (l.state.ledger.outbound.filter _).find seq = _ at ho'
      rw [Table.find_filter, Option.filter_eq_some_iff] at ho'
      exact Or.inl ho'.1
  | ensureFolder slug name parent now =>
      refine htx fun _ t' h => ?_
      obtain ⟨_, _, h⟩ := Outcome.bind_eq_ok.mp h
      cases h
      exact .same rfl rfl
  | setProjectFolder project folder now =>
      refine htx fun _ t' h => ?_
      obtain ⟨assigned, rfl⟩ := Db.setProjectFolderTx_ok h
      exact .same rfl rfl
  | create spec project available draws now =>
      refine htx fun id t' h => ?_
      obtain ⟨metadata, -, -, -, -, -, rfl⟩ := Db.createTx_ok h
      exact Adds.log (.same rfl rfl) ..
  | update id patch actor now =>
      refine htx fun _ t' h => ?_
      unfold Db.updateTx at h
      obtain ⟨current, -, h⟩ := Outcome.bind_eq_ok.mp h
      obtain ⟨next, -, h⟩ := Outcome.bind_eq_ok.mp h
      obtain ⟨status, -, h⟩ := Outcome.bind_eq_ok.mp h
      cases h
      refine Adds.log ?_ ..
      split
      · exact Adds.log (.same rfl rfl) ..
      · exact .same rfl rfl
  | setLabels id labels actor now =>
      refine htx fun _ t' h => ?_
      obtain ⟨_, _, h⟩ := Outcome.bind_eq_ok.mp h
      cases h
      exact Adds.log (.same rfl rfl) ..
  | addDep child parent actor now =>
      refine htx fun _ t' h => ?_
      obtain ⟨-, -, -, rfl⟩ := Db.addDepTx_ok h
      exact Adds.log (.same rfl rfl) ..
  | addRemoteDep child dependency actor now =>
      refine htx fun _ t' h => ?_
      obtain ⟨_, _, h⟩ := Outcome.bind_eq_ok.mp h
      cases h
      exact Adds.log (.same rfl rfl) ..
  | removeDep child parent actor now | removeRemoteDep child canonicalRef actor now
  | release id actor now =>
      refine htx fun _ t' h => ?_
      cases h
      exact Adds.log (.same rfl rfl) ..
  | claim req ttl now =>
      refine htx fun _ t' h => ?_
      obtain ⟨row, -, -, -, rfl⟩ := Db.claimTx_ok h
      exact Adds.log (.same rfl rfl) ..
  | touch id assignee now =>
      refine htx fun _ t' h => ?_
      obtain ⟨row, ttl, -, -, -, -, rfl⟩ := Db.touchTx_ok h
      exact Adds.log (.same rfl rfl) ..
  | sweep now order =>
      refine htx fun _ t' h => ?_
      unfold Db.sweepTx at h
      obtain ⟨claims, -, h⟩ := Outcome.bind_eq_ok.mp h
      have hswept := Adds.sweep now claims (⟨[], []⟩, l.state) (.refl l.state)
      rwa [Except.ok.inj h] at hswept
  | closeUnchecked id reason evidence actor now =>
      refine htx fun _ t' h => ?_
      obtain ⟨row, -, rfl⟩ := Db.closeUncheckedTx_ok h
      exact Adds.log (.same rfl rfl) ..
  | _ =>
      change Adds l.state (Locked.query _ l).2.state
      rw [Locked.query_state]
      exact .refl _

/-! ### What is owed -/

/-- What the outcome of an attempt writes into its row. A row marked by somebody else in the
meantime is left as it is. -/
def attempted (now : Int) (event : OutboundEvent) (error : Option String) (seq : Nat)
    (row : OutboundRow) : OutboundRow :=
  if (seq : Int) = event.seq ∧ row.deliveredAt = none then
    match error with
    | none =>
        { row with
          deliveredAt := some now
          attempts := wrapI64 (row.attempts + 1)
          lastError := none }
    | some error =>
        { row with
          attempts := wrapI64 (row.attempts + 1)
          nextAttemptAt := nextAttempt now event
          lastError := some error }
  else row

/-- An outcome is recorded by one scope, which does not fail on a healthy lock. -/
theorem recordScope_exec (cfg : Db.Config) (now : Int) (event : OutboundEvent)
    (error : Option String) (t : Tables) :
    ((World.recordScope now event error).exec cfg (.new t)).1.toOption.isSome = true ∧
      ((World.recordScope now event error).exec cfg (.new t)).2 =
        .new { t with ledger := t.ledger.mark (attempted now event error) } := by
  cases error with
  | none =>
      have hexec : (Scope.markEventDelivered event.seq now).exec cfg (.new t) = (.ok (), .new _) :=
        Locked.tx_ok rfl
      exact ⟨congrArg (·.1.toOption.isSome) hexec, congrArg Prod.snd hexec⟩
  | some error =>
      have hexec :
          (Scope.markEventFailed event.seq (nextAttempt now event) error).exec cfg (.new t) =
            (.ok (), .new _) := Locked.tx_ok rfl
      exact ⟨congrArg (·.1.toOption.isSome) hexec, congrArg Prod.snd hexec⟩

theorem nextAttempt_le {now : Int} (hnow : IsI64 now) (event : OutboundEvent) :
    nextAttempt now event ≤ now + 256 := by
  have hexp : (2 : Int) ^ (max 0 (min event.attempts 8)).toNat ≤ 2 ^ 8 :=
    pow_le_pow_right₀ (by decide) (by omega)
  have hpos : (0 : Int) < 2 ^ (max 0 (min event.attempts 8)).toNat :=
    pow_pos (by decide) _
  have hwrap : nextAttempt now event ≤ now + 2 ^ (max 0 (min event.attempts 8)).toNat := by
    refine Db.wrapI64_le ?_
    have := hnow.1
    omega
  omega

theorem find_attempted {t : Tables} {now : Int} {event : OutboundEvent} {error : Option String}
    {seq : Nat} {o : OutboundRow}
    (h : (t.ledger.mark (attempted now event error)).outbound.find seq = some o) :
    ∃ o₀, t.ledger.outbound.find seq = some o₀ ∧ attempted now event error seq o₀ = o := by
  change (t.ledger.outbound.mapRows _).find seq = _ at h
  rw [Table.find_mapRows] at h
  exact Option.map_eq_some_iff.mp h

/-- Nobody but the publisher marks events. -/
def Unmarked (_ : World) : Tick → Prop
  | .scope s => marks s = false
  | _ => True

instance (w : World) (tick : Tick) : Decidable (Unmarked w tick) := by
  cases tick <;> unfold Unmarked <;> infer_instance

/-- What holds as long as nobody else marks events: what has been delivered was received. -/
structure Receipted (w : World) : Prop where
  stored : ∀ seq o, w.store.state.ledger.outbound.find seq = some o →
    o.storeId = w.store.state.storeId
  queued : ∀ e ∈ w.queue, e.storeId = w.store.state.storeId
  sent : ∀ e, w.sent = some (e, none) → (w.store.state.storeId, e.seq) ∈ w.received
  received : ∀ (seq : Nat) o, w.store.state.ledger.outbound.find seq = some o →
    o.deliveredAt.isSome = true → (w.store.state.storeId, (seq : Int)) ∈ w.received

theorem receipted_opened (storeId : String) : Receipted (.opened storeId) :=
  ⟨nofun, nofun, nofun, nofun⟩

namespace Receipted

variable {cfg : Db.Config} {w : World}

theorem scope (h : Receipted w) {s : Scope} (hs : marks s = false) :
    Receipted { w with store := (s.exec cfg w.store).2 } := by
  obtain ⟨hstore, hadds⟩ := exec_adds cfg w.store hs
  refine ⟨fun seq o ho => ?_, fun e he => ?_, fun e he => ?_, fun seq o ho hdone => ?_⟩
  · rcases hadds seq o ho with ho | ⟨ho, -, -⟩
    · exact (h.stored seq o ho).trans hstore.symm
    · exact ho.trans hstore.symm
  · exact (h.queued e he).trans hstore.symm
  · rw [hstore]
    exact h.sent e he
  · rcases hadds seq o ho with ho | ⟨-, hnone, -⟩
    · rw [hstore]
      exact h.received seq o ho hdone
    · rw [hnone] at hdone
      cases hdone

/-- A new round: what it reads belongs to the store. -/
theorem fetch (h : Receipted w) (now : Int) : Receipted (w.fetch cfg now) := by
  have hscope := @scope cfg w h (.pendingEvents now 64) rfl
  unfold World.fetch
  split
  · cases hexec : (Scope.pendingEvents now 64).exec cfg w.store with
    | mk r store =>
        rw [hexec] at hscope
        cases r with
        | error e => exact hscope
        | ok events =>
            have hevents : events = Db.pendingEventsQuery now 64 w.store.state :=
              Db.pendingEvents_ok (congrArg Prod.fst hexec)
            have hstate : store.state = w.store.state :=
              (congrArg (·.2.state) hexec).symm.trans (Locked.query_state ..)
            refine ⟨hscope.stored, fun e he => ?_, hscope.sent, hscope.received⟩
            obtain ⟨seq, o, -, ho, -, hid⟩ := Db.of_mem_pendingEvents (hevents ▸ he)
            change e.storeId = store.state.storeId
            rw [hid, h.stored seq o ho, hstate]
  · exact h

theorem deliver (h : Receipted w) (error : Option String) : Receipted (w.deliver error) := by
  unfold World.deliver
  split
  · rename_i event rest hsent hqueue
    have hqueued : ∀ e ∈ rest, e.storeId = w.store.state.storeId := fun e he =>
      h.queued e (hqueue ▸ List.mem_cons_of_mem _ he)
    cases error with
    | some error => exact ⟨h.stored, hqueued, nofun, h.received⟩
    | none =>
        have hid : event.storeId = w.store.state.storeId :=
          h.queued event (hqueue ▸ List.mem_cons_self ..)
        refine ⟨h.stored, hqueued, fun e he => ?_, fun seq o ho hdone => ?_⟩
        · obtain rfl : event = e := congrArg Prod.fst (Option.some.inj he)
          exact List.mem_append_right _ (List.mem_singleton.mpr (by rw [hid]))
        · exact List.mem_append_left _ (h.received seq o ho hdone)
  · exact h

/-- A row is marked delivered after its event was received. -/
theorem mark (h : Receipted w) {event : OutboundEvent} {error : Option String}
    (hsent : w.sent = some (event, error)) (now : Int) :
    Receipted { w with
      store := .new { w.store.state with
        ledger := w.store.state.ledger.mark (attempted now event error) }
      sent := none } := by
  refine ⟨fun seq o ho => ?_, h.queued, nofun, fun seq o ho hdone => ?_⟩
  · obtain ⟨o₀, ho₀, rfl⟩ := find_attempted ho
    refine Eq.trans ?_ (h.stored seq o₀ ho₀)
    unfold attempted
    split
    · cases error <;> rfl
    · rfl
  · obtain ⟨o₀, ho₀, rfl⟩ := find_attempted ho
    unfold attempted at hdone
    by_cases hrow : (seq : Int) = event.seq ∧ o₀.deliveredAt = none
    · cases error with
      | none =>
          rw [hrow.1]
          exact h.sent event hsent
      | some error =>
          rw [if_pos hrow] at hdone
          exact h.received seq o₀ ho₀ hdone
    · rw [if_neg hrow] at hdone
      exact h.received seq o₀ ho₀ hdone

theorem record (h : Receipted w) (now : Int) : Receipted (w.record cfg now) := by
  unfold World.record
  split
  · rename_i event error hsent
    dsimp only
    cases hp : w.store.poisoned with
    | true =>
        rw [Db.exec_poisoned hp]
        exact ⟨h.stored, nofun, nofun, h.received⟩
    | false =>
        obtain ⟨hok, hstore⟩ := recordScope_exec cfg now event error w.store.state
        rw [Locked.eq_new hp, hok, hstore]
        exact h.mark hsent now
  · exact h

theorem step (h : Receipted w) {tick : Tick} (hunmarked : Unmarked w tick) :
    Receipted (w.step cfg tick) := by
  cases tick with
  | scope s => exact h.scope hunmarked
  | fetch now => exact h.fetch now
  | deliver error => exact h.deliver error
  | record now => exact h.record now
  | stop => exact ⟨h.stored, nofun, nofun, h.received⟩

theorem run (h : Receipted w) {ticks : List Tick}
    (hunmarked : Machine.Meets (World.step cfg) Unmarked ticks w) :
    Receipted (World.run cfg ticks w) :=
  Machine.invariant_of_meets Receipted (fun _ _ h hunmarked => h.step hunmarked) ticks h hunmarked

end Receipted

/-- However rounds are cut short and other callers interleave, an event is marked delivered
only after the receiver has accepted it: until then it stays in the outbox. -/
theorem delivered_received {cfg : Db.Config} {storeId : String} {ticks : List Tick}
    (hunmarked : Machine.Meets (World.step cfg) Unmarked ticks (.opened storeId)) {seq : Nat}
    {o : OutboundRow}
    (ho : (World.run cfg ticks (.opened storeId)).store.state.ledger.outbound.find seq = some o)
    (hdone : o.deliveredAt.isSome = true) :
    (o.storeId, (seq : Int)) ∈ (World.run cfg ticks (.opened storeId)).received := by
  have h := (receipted_opened storeId).run hunmarked
  rw [h.stored seq o ho]
  exact h.received seq o ho hdone

/-- The first of two events is delivered, the second one fails. -/
def oneReceived : List Tick :=
  twoEvents ++ [.fetch 0, .deliver none, .record 0, .deliver (some "receiver returned 503"),
    .record 0]

theorem oneReceived_first :
    ("s", (1 : Int)) ∈ (World.run {} oneReceived (.opened "s")).received :=
  @delivered_received {} "s" oneReceived (by decide +kernel) 1
    ⟨"s", "x", "p", 0, "created", some 0, 1, 0, none⟩ (by decide +kernel) rfl

/-! ### When it is due -/

/-- Nobody but the publisher marks events, and its clock has not passed `T`. -/
def Calm (T : Int) (w : World) : Tick → Prop
  | .record now => IsI64 now ∧ now ≤ T
  | tick => Unmarked w tick

instance (T : Int) (w : World) (tick : Tick) : Decidable (Calm T w tick) :=
  match tick with
  | .scope s => inferInstanceAs (Decidable (marks s = false))
  | .record now => inferInstanceAs (Decidable (IsI64 now ∧ now ≤ T))
  | .fetch _ | .deliver _ | .stop => inferInstanceAs (Decidable True)

theorem Calm.unmarked {T : Int} {w : World} {tick : Tick} (h : Calm T w tick) :
    Unmarked w tick := by
  cases tick with
  | scope s => exact h
  | _ => trivial

/-- Each event is due 256 seconds after `T` at the latest, unless it occurred later. -/
def Soon (T : Int) (t : Tables) : Prop :=
  ∀ seq o, t.ledger.outbound.find seq = some o → o.nextAttemptAt ≤ max o.occurredAt (T + 256)

namespace Soon

variable {cfg : Db.Config} {T : Int} {w : World}

theorem mark {t : Tables} (h : Soon T t) {now : Int} (hnow : IsI64 now ∧ now ≤ T)
    (event : OutboundEvent) (error : Option String) :
    Soon T { t with ledger := t.ledger.mark (attempted now event error) } := by
  intro seq o ho
  obtain ⟨o₀, ho₀, rfl⟩ := find_attempted ho
  have hsoon := h seq o₀ ho₀
  unfold attempted
  split
  · cases error with
    | none => exact hsoon
    | some error =>
        refine le_trans ((nextAttempt_le hnow.1 event).trans ?_) (le_max_right _ (T + 256))
        omega
  · exact hsoon

theorem step (h : Soon T w.store.state) {tick : Tick} (hcalm : Calm T w tick) :
    Soon T (w.step cfg tick).store.state := by
  -- Only a scope or a recorded delivery changes the rows; a fetch is a query and the rest touches
  -- the publisher alone.
  cases tick with
  | scope s =>
      intro seq o ho
      rcases (exec_adds cfg w.store hcalm).2 seq o ho with ho | ⟨-, -, hnew⟩
      · exact h seq o ho
      · rw [hnew]
        exact le_max_left ..
  | fetch now =>
      change Soon T (w.fetch cfg now).store.state
      have hstate : (w.fetch cfg now).store.state = w.store.state := by
        have hquery : ((Scope.pendingEvents now 64).exec cfg w.store).2.state = w.store.state :=
          Locked.query_state ..
        unfold World.fetch
        split
        · cases hexec : (Scope.pendingEvents now 64).exec cfg w.store with
          | mk r store =>
              rw [hexec] at hquery
              cases r <;> exact hquery
        · rfl
      rw [hstate]
      exact h
  | deliver error =>
      change Soon T (w.deliver error).store.state
      unfold World.deliver
      split <;> exact h
  | record now =>
      change Soon T (w.record cfg now).store.state
      unfold World.record
      split
      · rename_i event error _
        dsimp only
        cases hp : w.store.poisoned with
        | true =>
            rw [Db.exec_poisoned hp]
            exact h
        | false =>
            rw [Locked.eq_new hp, (recordScope_exec cfg now event error w.store.state).2]
            exact h.mark hcalm event error
      · exact h
  | stop => exact h

end Soon

/-! ### Draining -/

/-- A round in which the receiver answers: 64 events at most. -/
def round (now : Int) : List Tick :=
  .fetch now :: (List.replicate 64 [.deliver none, .record now]).flatten

/-- Round after round, after whatever was going on has been stopped. -/
def rounds (times : List Int) : List Tick := .stop :: times.flatMap round

/-- The keys of these events are settled, nothing else is touched. -/
def settled (now : Int) (events : List OutboundEvent) (seq : Nat) (row : OutboundRow) :
    OutboundRow :=
  if (seq : Int) ∈ events.map (·.seq) ∧ row.deliveredAt = none then
    { row with
      deliveredAt := some now
      attempts := wrapI64 (row.attempts + 1)
      lastError := none }
  else row

@[simp]
theorem settled_cons (now : Int) (event : OutboundEvent) (events : List OutboundEvent) (seq : Nat)
    (row : OutboundRow) : settled now (event :: events) seq row =
      settled now events seq (attempted now event none seq row) := by
  unfold settled attempted
  by_cases hnone : row.deliveredAt = none
  · by_cases hseq : (seq : Int) = event.seq
    · simp [hnone, hseq]
    · simp [hnone, hseq]
  · simp [hnone]

/-- One event: it is received, and its row is settled. -/
theorem step_delivery (cfg : Db.Config) (now : Int) (event : OutboundEvent)
    (queue : List OutboundEvent) (t : Tables) (received : List (String × Int)) :
    World.step cfg (.record now)
        (World.step cfg (.deliver none) ⟨.new t, event :: queue, none, received⟩) =
      ⟨.new { t with ledger := t.ledger.mark (attempted now event none) }, queue, none,
        received ++ [(event.storeId, event.seq)]⟩ := by
  obtain ⟨hok, hstore⟩ := recordScope_exec cfg now event none t
  have hdeliver : World.step cfg (.deliver none) ⟨.new t, event :: queue, none, received⟩ =
      ⟨.new t, queue, some (event, none), received ++ [(event.storeId, event.seq)]⟩ := rfl
  rw [hdeliver]
  change World.mk _ (if ((World.recordScope now event none).exec cfg (.new t)).1.toOption.isSome =
      true
    then queue else []) none _ = _
  rw [if_pos hok, hstore]

/-- The deliveries of a round on a healthy store: each event of the queue is received, in
their order, and its row is settled. -/
theorem run_deliveries (cfg : Db.Config) (now : Int) (n : Nat) (queue : List OutboundEvent)
    (hn : queue.length ≤ n) (t : Tables) (received : List (String × Int)) :
    World.run cfg (List.replicate n [.deliver none, .record now]).flatten
        ⟨.new t, queue, none, received⟩ =
      ⟨.new { t with ledger := t.ledger.mark (settled now queue) }, [], none,
        received ++ queue.map fun e => (e.storeId, e.seq)⟩ := by
  have hsame : ∀ ledger : Db.Ledger, ledger.mark (settled now []) = ledger := fun ledger =>
    Db.Ledger.ext rfl (Table.mapRows_eq_self fun _ _ _ => if_neg fun h => by simp at h)
  induction n generalizing queue t received with
  | zero =>
      obtain rfl := List.length_eq_zero_iff.mp (Nat.le_zero.mp hn)
      rw [hsame, List.map_nil, List.append_nil]
      rfl
  | succ n ih =>
      rw [List.replicate_succ, List.flatten_cons]
      unfold World.run at ih ⊢
      rw [Machine.run_append, Machine.run_cons, Machine.run_cons, Machine.run_nil]
      cases queue with
      | nil => exact ih [] (Nat.zero_le n) t received
      | cons event queue =>
          rw [step_delivery, ih queue (Nat.le_of_succ_le_succ hn), List.append_assoc]
          have hmark : (t.ledger.mark (attempted now event none)).mark (settled now queue) =
              t.ledger.mark (settled now (event :: queue)) :=
            Db.Ledger.ext rfl ((Table.mapRows_mapRows ..).trans
              (Table.mapRows_congr fun seq row _ => (settled_cons now event queue seq row).symm))
          rw [hmark]
          rfl

/-- The world between two rounds, on a healthy store. -/
def Idle (w : World) : Prop := w.store.poisoned = false ∧ w.queue = [] ∧ w.sent = none

/-- What a round does when the receiver answers. -/
theorem run_round (cfg : Db.Config) (now : Int) {w : World} (hw : Idle w) :
    let events := Db.pendingEventsQuery now 64 w.store.state
    World.run cfg (round now) w =
      ⟨.new { w.store.state with ledger := w.store.state.ledger.mark (settled now events) }, [],
        none, w.received ++ events.map fun e => (e.storeId, e.seq)⟩ := by
  intro events
  obtain ⟨⟨t, poisoned⟩, queue, sent, received⟩ := w
  obtain ⟨rfl, rfl, rfl⟩ := hw
  have hlimit : events.length ≤ 64 := by
    change (List.map _ (List.take _ _)).length ≤ 64
    rw [List.length_map]
    exact List.length_take_le ..
  have hexec : (Scope.pendingEvents now 64).exec cfg (.new t) = (.ok events, .new t) :=
    Locked.query_new (fun t => .ok (Db.pendingEventsQuery now 64 t)) t
  have hfetch : World.step cfg (.fetch now) ⟨.new t, [], none, received⟩ =
      ⟨.new t, events, none, received⟩ := by
    change World.fetch cfg now _ = _
    unfold World.fetch
    dsimp only
    rw [hexec]
    rfl
  unfold World.run round
  rw [Machine.run_cons]
  exact (congrArg _ hfetch).trans (run_deliveries cfg now 64 events hlimit t received)

theorem filter_notMem_take {α β : Type} [DecidableEq β] (f : α → β) (n : Nat) {l : List α}
    (h : (l.map f).Nodup) : (l.filter fun a => f a ∉ (l.take n).map f) = l.drop n := by
  have hdisjoint : ((l.take n).map f).Disjoint ((l.drop n).map f) := by
    rw [← List.take_append_drop n l, List.map_append] at h
    exact List.disjoint_of_nodup_append h
  conv_lhs => rw [← List.take_append_drop n l, List.filter_append]
  rw [List.take_append_drop, List.filter_eq_nil_iff.mpr, List.filter_eq_self.mpr, List.nil_append]
  · exact fun a ha => decide_eq_true fun hmem => hdisjoint hmem (List.mem_map_of_mem ha)
  · exact fun a ha => by simpa using List.mem_map_of_mem (f := f) ha

/-- What is left undelivered is what has not been settled. -/
theorem filter_settled (now : Int) (events : List OutboundEvent) (rows : List (Nat × OutboundRow)) :
    ((rows.map fun r => (r.1, settled now events r.1 r.2)).filter fun r => r.2.deliveredAt = none) =
      (rows.filter fun r => r.2.deliveredAt = none).filter fun r =>
        (r.1 : Int) ∉ events.map (·.seq) := by
  induction rows with
  | nil => rfl
  | cons r rows ih =>
      rw [List.map_cons, List.filter_cons, List.filter_cons, ih]
      unfold settled
      by_cases hnone : r.2.deliveredAt = none
      · by_cases hmem : (r.1 : Int) ∈ events.map (·.seq)
        · simp only [hmem, hnone, and_self, if_true, reduceCtorEq, decide_false, decide_true,
            Bool.false_eq_true, if_false, List.filter_cons, not_true_eq_false]
        · simp only [hmem, hnone, false_and, if_false, decide_true, if_true, List.filter_cons,
            not_false_eq_true]
      · simp only [hnone, and_false, if_false, decide_false, Bool.false_eq_true]

/-- What a round leaves: when everything is due, all but 64 events. -/
theorem undelivered_settled {t : Tables} {now : Int}
    (hdue : ∀ r ∈ undelivered t, r.2.nextAttemptAt ≤ now) :
    let t' := { t with ledger := t.ledger.mark (settled now (Db.pendingEventsQuery now 64 t)) }
    (undelivered t').length = (undelivered t).length - 64 ∧ undelivered t' ⊆ undelivered t := by
  intro t'
  have hoffered : (t.ledger.outbound.rows.filter fun r =>
      r.2.deliveredAt = none && r.2.nextAttemptAt ≤ now) = undelivered t := by
    refine List.filter_congr fun r hr => ?_
    by_cases hnone : r.2.deliveredAt = none
    · have hmem : r ∈ undelivered t := List.mem_filter.mpr ⟨hr, decide_eq_true hnone⟩
      simp [hnone, hdue r hmem]
    · simp [hnone]
  have hseqs : (Db.pendingEventsQuery now 64 t).map (·.seq) =
      (((Sorting.sortOn (fun r => r.1) (undelivered t)).take 64).map Prod.fst).map Int.ofNat := by
    unfold Db.pendingEventsQuery
    rw [hoffered, List.map_map, List.map_map]
    rfl
  have hrows : undelivered t' = (undelivered t).filter fun r =>
      r.1 ∉ ((Sorting.sortOn (fun r => r.1) (undelivered t)).take 64).map Prod.fst := by
    refine (filter_settled now _ t.ledger.outbound.rows).trans (List.filter_congr fun r _ => ?_)
    rw [hseqs]
    exact decide_eq_decide.mpr (not_congr (List.mem_map_of_injective Int.ofNat_injective))
  have hnodup : ((Sorting.sortOn (fun r => r.1) (undelivered t)).map Prod.fst).Nodup :=
    ((Sorting.perm_sortOn _ _).map Prod.fst).nodup_iff.mpr
      (t.ledger.outbound.nodup.sublist (List.filter_sublist.map _))
  refine ⟨?_, hrows ▸ List.filter_subset_self ..⟩
  rw [hrows, ← ((Sorting.perm_sortOn (fun r => r.1) (undelivered t)).filter _).length_eq,
    filter_notMem_take Prod.fst 64 hnodup, List.length_drop, (Sorting.perm_sortOn _ _).length_eq]

/-- Rounds deliver what is due, 64 events each, and neither lose nor make up an event. -/
theorem run_rounds (cfg : Db.Config) {times : List Int} {w : World} (hw : Idle w)
    (hdue : ∀ now ∈ times, ∀ r ∈ undelivered w.store.state, r.2.nextAttemptAt ≤ now) :
    let w' := World.run cfg (times.flatMap round) w
    Idle w' ∧ w'.store.state.ledger.outbound.keys = w.store.state.ledger.outbound.keys ∧
      (undelivered w'.store.state).length =
        (undelivered w.store.state).length - 64 * times.length := by
  induction times generalizing w with
  | nil => exact ⟨hw, rfl, rfl⟩
  | cons now times ih =>
      intro w'
      obtain ⟨hlength, hsubset⟩ := undelivered_settled (hdue now (List.mem_cons_self ..))
      have hround := run_round cfg now hw
      have hw' : w' = World.run cfg (times.flatMap round) (World.run cfg (round now) w) :=
        Machine.run_append ..
      rw [hround] at hw'
      obtain ⟨hidle, hkeys, hrest⟩ := @ih ⟨.new _, [], none, _⟩ ⟨rfl, rfl, rfl⟩
        fun now' hnow' r hr => hdue now' (List.mem_cons_of_mem _ hnow') r (hsubset hr)
      rw [hw']
      refine ⟨hidle, hkeys.trans (Table.keys_mapRows ..), hrest.trans ?_⟩
      rw [List.length_cons, Locked.new_state, hlength]
      omega

/-- Whatever has happened as long as only the publisher marked events and its clock had not passed
`T`: once the receiver answers, every event of the outbox has been received and marked after as many
rounds as there are 64 events left, at any times that are 256 seconds later. The bound is the
longest that an event is put off after a failure, and 64 is what one round reads. -/
theorem outbox_drains {cfg : Db.Config} {storeId : String} {ticks : List Tick} {T : Int}
    (hcalm : Machine.Meets (World.step cfg) (Calm T) ticks (.opened storeId)) :
    let w := World.run cfg ticks (.opened storeId)
    w.store.poisoned = false → ∀ times : List Int,
      (∀ now ∈ times, T + 256 ≤ now ∧
        ∀ r ∈ undelivered w.store.state, r.2.occurredAt ≤ now) →
      (undelivered w.store.state).length ≤ 64 * times.length →
      let w' := World.run cfg (rounds times) w
      w'.store.state.ledger.outbound.keys = w.store.state.ledger.outbound.keys ∧
        ∀ seq o, w'.store.state.ledger.outbound.find seq = some o →
          o.deliveredAt.isSome = true ∧ (o.storeId, (seq : Int)) ∈ w'.received := by
  intro w hhealthy times htimes hmany w'
  -- Every row is due at T + 256 s at the latest, so each round finds 64 undelivered rows as long as
  -- there are that many.
  have hsoon : Soon T w.store.state := by
    refine Machine.invariant_of_meets (fun w : World => Soon T w.store.state)
      (fun _ _ h hcalm => Soon.step h hcalm) ticks (fun _ _ ho => ?_) hcalm
    cases ho
  have hreceipted : Receipted w' := by
    have h : Receipted w := (receipted_opened storeId).run (hcalm.mono fun _ _ h => h.unmarked)
    refine h.run (Machine.meets_of_forall (fun tick htick w => ?_) w)
    rcases List.mem_cons.mp htick with rfl | htick
    · trivial
    · obtain ⟨now, -, htick⟩ := List.mem_flatMap.mp htick
      rcases List.mem_cons.mp htick with rfl | htick
      · trivial
      · obtain ⟨pair, hpair, htick⟩ := List.mem_flatten.mp htick
        rw [List.eq_of_mem_replicate hpair] at htick
        rcases List.mem_cons.mp htick with rfl | htick
        · trivial
        · rw [List.mem_singleton.mp htick]
          trivial
  have hrounds := @run_rounds cfg times (w.step cfg .stop) ⟨hhealthy, rfl, rfl⟩
    fun now hnow r hr => by
      obtain ⟨hlate, hoccurred⟩ := htimes now hnow
      have hnext := hsoon r.1 r.2 (Table.mem_rows.mp (List.mem_filter.mp hr).1)
      have := hoccurred r hr
      omega
  obtain ⟨-, hkeys, hlength⟩ := hrounds
  refine ⟨hkeys, fun seq o ho => ?_⟩
  -- After the rounds nothing is left, for each of them took 64 off or all.
  have hdone : o.deliveredAt.isSome = true := by
    by_contra hnone
    have hmem : (seq, o) ∈ undelivered w'.store.state :=
      List.mem_filter.mpr ⟨Table.mem_rows.mpr ho,
        decide_eq_true (Option.not_isSome_iff_eq_none.mp hnone)⟩
    have hpos := List.length_pos_of_mem hmem
    change 0 < (undelivered (World.run cfg (times.flatMap round)
        (w.step cfg .stop)).store.state).length at hpos
    change _ = (undelivered w.store.state).length - _ at hlength
    omega
  rw [hreceipted.stored seq o ho]
  exact ⟨hdone, hreceipted.received seq o ho hdone⟩

/-- The event that failed is received in the next round that is late enough. -/
theorem oneReceived_drained :
    let w := World.run {} oneReceived (.opened "s")
    let w' := World.run {} (rounds [256]) w
    w'.store.state.ledger.outbound.keys = w.store.state.ledger.outbound.keys ∧
      ∀ seq o, w'.store.state.ledger.outbound.find seq = some o →
        o.deliveredAt.isSome = true ∧ (o.storeId, (seq : Int)) ∈ w'.received :=
  @outbox_drains {} "s" oneReceived 0 (by decide +kernel) (by decide +kernel) [256]
    (by decide +kernel) (by decide +kernel)

end Marbles.Webhook
