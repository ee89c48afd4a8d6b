import Marbles.Db.Outbox
import Marbles.Db.Alone
import Marbles.Db.Enters

/-!
# An append-only history with an outbox

The history only grows, except that `drop_project` deletes the rows of its issues. Every
row is written together with the outbox row that publishes it, under a key that is never
used again, and the outbox keeps offering an event until it has been marked delivered.

A call of the store is a sequence of lock scopes, and so is any interleaving of calls.
The statements about what happens *later* are therefore about sequences of scopes.

The runs here are of scopes and not of calls, so that they include every interleaving. An outbox
row stays until its issue is dropped, and its being offered depends on the time and on its
delivery alone; these are proved as separate facts and put together at the end.
-/

namespace Marbles.Db

/-- The store after a sequence of lock scopes. -/
def Scope.runs (cfg : Config) (scopes : List Scope) (l : Locked Tables) : Locked Tables :=
  Machine.run (fun s l => (s.exec cfg l).2) scopes l

theorem runs_carries (cfg : Config) (scopes : List Scope) (l : Locked Tables) :
    Carries l.state (Scope.runs cfg scopes l).state := by
  refine Machine.invariant (fun l' : Locked Tables => Carries l.state l'.state)
    (fun l' s h => ?_) scopes (.refl _)
  exact h.trans (exec_carries cfg s l')

/-! ### Reading the outbox -/

theorem mem_due {t : Tables} {now : Int} {r : Nat × OutboundRow} :
    r ∈ t.ledger.outbound.rows.filter (fun r => r.2.deliveredAt = none && r.2.nextAttemptAt ≤ now) ↔
      t.ledger.outbound.find r.1 = some r.2 ∧ r.2.deliveredAt = none ∧ r.2.nextAttemptAt ≤ now := by
  rw [List.mem_filter, ← Table.mem_rows, Bool.and_eq_true, decide_eq_true_eq, decide_eq_true_eq]

/-- What is offered is due and not delivered. -/
theorem of_mem_pendingEvents {t : Tables} {now : Int} {limit : Nat} {e : OutboundEvent}
    (h : e ∈ pendingEventsQuery now limit t) :
    ∃ seq o, e.seq = (seq : Nat) ∧ t.ledger.outbound.find seq = some o ∧ o.deliveredAt = none ∧
      e.storeId = o.storeId := by
  obtain ⟨r, hr, rfl⟩ := List.mem_map.mp h
  have hdue := mem_due.mp (Sorting.mem_sortOn.mp (List.mem_of_mem_take hr))
  exact ⟨r.1, r.2, rfl, hdue.1, hdue.2.1, rfl⟩

/-- Without a limit, what is due and not delivered is offered. -/
theorem mem_pendingEvents {t : Tables} {now : Int} {limit seq : Nat} {o : OutboundRow}
    (hrow : t.ledger.outbound.find seq = some o) (hdelivered : o.deliveredAt = none)
    (hdue : o.nextAttemptAt ≤ now) (hlimit : t.ledger.outbound.rows.length ≤ limit) :
    ⟨seq, o.storeId, o.issueId, o.project, o.occurredAt, o.event, o.attempts⟩ ∈
      pendingEventsQuery now limit t := by
  have hmem := (@mem_due t now (seq, o)).mpr ⟨hrow, hdelivered, hdue⟩
  refine List.mem_map.mpr ⟨(seq, o), ?_, rfl⟩
  rw [List.take_of_length_le]
  · exact Sorting.mem_sortOn.mpr hmem
  · rw [(Sorting.perm_sortOn _ _).length_eq]
    exact Nat.le_trans (List.length_filter_le ..) hlimit

/-- A call of `pending_events` that comes back has read the outbox as it was. -/
theorem pendingEvents_ok {cfg : Config} {now : Int} {limit : Nat} {l : Locked Tables}
    {events : List OutboundEvent}
    (h : ((Scope.pendingEvents now limit).exec cfg l).1 = .ok events) :
    events = pendingEventsQuery now limit l.state := by
  cases hp : l.poisoned with
  | true =>
      rw [exec_poisoned hp] at h
      cases h
  | false =>
      rw [Locked.eq_new hp] at h
      have hexec : (Scope.pendingEvents now limit).exec cfg (.new l.state) =
          (.ok (pendingEventsQuery now limit l.state), .new l.state) := Locked.query_new ..
      rw [hexec] at h
      exact (Except.ok.inj h).symm

theorem pendingEvents_new (cfg : Config) (now : Int) (limit : Nat) {l : Locked Tables}
    (hl : l.poisoned = false) : ((Scope.pendingEvents now limit).exec cfg l).1 =
      .ok (pendingEventsQuery now limit l.state) := by
  rw [Locked.eq_new hl]
  exact congrArg Prod.fst (Locked.query_new (fun t => .ok (pendingEventsQuery now limit t)) l.state)

/-! ### What a scope and a call append -/

/-- A scope that reports an error or panics has written nothing. -/
theorem exec_failed {cfg : Config} {s : Scope} {l : Locked Tables} {e : Fault Error}
    (h : (s.exec cfg l).1 = .error e) : (s.exec cfg l).2.state = l.state := by
  have htx : ∀ {α : Type} (f : Tx α) (e : Fault Error), (Locked.tx f l).1 = .error e →
      (Locked.tx f l).2.state = l.state := by
    intro α f e he
    cases hp : l.poisoned with
    | true => rw [Locked.tx_poisoned f hp]
    | false =>
        rw [Locked.eq_new hp, Locked.tx_new] at he ⊢
        cases hf : f l.state with
        | ok p =>
            rw [hf] at he
            cases he
        | error e => cases e <;> rfl
  cases s with
  | projects | folderView | pendingEvents | get | list | readyIds | remoteDependencies
  | checkBlockers | history | stats | prometheusMetrics => exact Locked.query_state _ l
  | _ => exact htx _ e h

/-- A call that reports an error or panics has written nothing. -/
theorem perform_failed {cfg : Config} {op : Op} {l : Locked Tables} {e : Fault Error}
    (h : (perform cfg op l).1 = .error e) : (step cfg op l).state = l.state := by
  cases hp : l.poisoned with
  | true => rw [step_poisoned hp]
  | false =>
      by_cases hlease : LeaseDefined cfg op
      · rw [Locked.eq_new hp, perform_eq hlease] at h
        rw [Locked.eq_new hp, step, perform_eq hlease]
        cases hop : alone cfg op l.state with
        | ok p =>
            rw [hop] at h
            cases h
        | error e => cases e <;> rfl
      · cases op with
        | claim req now =>
            have hnone : req.ttl cfg.week cfg.policy now = none :=
              Option.not_isSome_iff_eq_none.mp hlease
            rw [step, perform_claim_abort hnone]
        | _ => exact absurd trivial hlease

/-- Only `drop_project` enters the scope that deletes. -/
theorem enters_dropProject {op : Op} {slug : String} (h : Enters op (.dropProject slug)) :
    op = .dropProject slug := by
  cases op with
  | dropProject slug' => exact congrArg Op.dropProject (Scope.dropProject.inj h).symm
  | _ => simp [Enters] at h

/-- A call that deletes nothing leaves the history as the beginning of the new one. -/
theorem step_history (cfg : Config) {op : Op} (l : Locked Tables)
    (hop : ∀ slug, op ≠ .dropProject slug) :
    l.state.ledger.history.rows <+: (step cfg op l).state.ledger.history.rows := by
  refine @step_invariant cfg op (fun l' => l.state.ledger.history.rows <+:
    l'.state.ledger.history.rows)
    (fun c l' hc hl' => ?_) l (List.prefix_refl _)
  have hdrop : ∀ slug, c ≠ .dropProject slug := by
    rintro slug rfl
    exact hop slug (enters_dropProject hc)
  obtain ⟨new, hrows, -⟩ := (exec_grown cfg l' hdrop).appended
  exact hl'.trans ⟨new, hrows.symm⟩

/-- A row that was not there is under a key that no earlier row was ever under. -/
theorem appended_fresh {cfg : Config} {s : Scope} {l : Locked Tables} (later : List Scope)
    {r : Nat × HistoryRow}
    (hr : r ∈ (s.exec cfg (Scope.runs cfg later l)).2.state.ledger.history.rows)
    (hnew : r ∉ (Scope.runs cfg later l).state.ledger.history.rows) {r₀ : Nat × HistoryRow}
    (hr₀ : r₀ ∈ l.state.ledger.history.rows) : r₀.1 ≠ r.1 := by
  have hlt := ((exec_carries cfg s (Scope.runs cfg later l)).history r hr).resolve_left hnew
  have hle := l.state.ledger.history.bounded r₀ hr₀
  have hlast := (runs_carries cfg later l).last
  omega

/-! ### What happens to an event -/

/-- An event that has been delivered is never offered again. -/
theorem delivered_not_offered {cfg : Config} {l : Locked Tables} {seq : Nat} {o : OutboundRow}
    (hrow : l.state.ledger.outbound.find seq = some o) (hdelivered : o.deliveredAt.isSome = true)
    (later : List Scope) {now : Int} {limit : Nat} {events : List OutboundEvent}
    (hevents : ((Scope.pendingEvents now limit).exec cfg (Scope.runs cfg later l)).1 = .ok events) :
    ∀ e ∈ events, e.seq ≠ seq := by
  rintro e he hseq
  rw [pendingEvents_ok hevents] at he
  obtain ⟨seq', o', hseq', ho', hnone, -⟩ := of_mem_pendingEvents he
  obtain rfl : seq' = seq := by omega
  rcases (runs_carries cfg later l).outbound seq' o' ho' with ⟨o₁, ho₁, htried⟩ | ⟨hlast, -⟩
  · obtain rfl := Option.some.inj (hrow.symm.trans ho₁)
    have := htried.delivered hdelivered
    rw [hnone] at this
    cases this
  · -- keys that have been assigned are not assigned again
    exact absurd (l.state.ledger.assigned seq' (Table.mem_keys_of_find hrow)) (Nat.not_le.mpr hlast)

/-- Marking an event that is in the outbox delivers it. -/
theorem marked_delivered {cfg : Config} {l : Locked Tables} {seq : Nat} {now : Int}
    (hmem : seq ∈ l.state.ledger.outbound.keys)
    (hok : ((Scope.markEventDelivered seq now).exec cfg l).1 = .ok ()) :
    ∃ o, ((Scope.markEventDelivered seq now).exec cfg l).2.state.ledger.outbound.find seq = some o ∧
      o.deliveredAt.isSome = true := by
  cases hp : l.poisoned with
  | true =>
      rw [exec_poisoned hp] at hok
      cases hok
  | false =>
      rw [Locked.eq_new hp]
      have hexec : (Scope.markEventDelivered seq now).exec cfg (.new l.state) = (.ok (), .new _) :=
        Locked.tx_ok rfl
      rw [hexec]
      change ∃ o, (l.state.ledger.outbound.mapRows _).find seq = some o ∧ _
      rw [Table.find_mapRows]
      obtain ⟨o, ho⟩ := Table.mem_keys.mp hmem
      rw [ho]
      refine ⟨_, rfl, ?_⟩
      dsimp only
      by_cases hnone : o.deliveredAt = none
      · rw [if_pos ⟨rfl, hnone⟩]
        rfl
      · rw [if_neg fun h => hnone h.2]
        exact Option.isSome_iff_ne_none.mpr hnone

/-- The scope drops the project that the issue `id` belongs to. -/
def Drops (id : String) (l : Locked Tables) (s : Scope) : Prop :=
  ∃ slug row, s = .dropProject slug ∧ l.state.issue.find id = some row ∧ row.project = slug

/-- The outbox keeps an event until its issue is dropped. -/
theorem kept_exec {cfg : Config} {s : Scope} {l : Locked Tables} {seq : Nat} {o : OutboundRow}
    (hrow : l.state.ledger.outbound.find seq = some o) (hs : ¬ Drops o.issueId l s) :
    ∃ o', (s.exec cfg l).2.state.ledger.outbound.find seq = some o' ∧ o.Tried o' := by
  by_cases hdrop : ∀ slug, s ≠ .dropProject slug
  · exact (exec_grown cfg l hdrop).kept seq o hrow
  · obtain ⟨slug, rfl⟩ := not_forall_not.mp hdrop
    refine ⟨o, ?_, .refl o⟩
    refine @Locked.tx_preserves _ _ _ (dropProjectTx slug)
      (fun t => t.ledger.outbound.find seq = some o) l hrow fun r t' h => ?_
    obtain ⟨mine, rfl, rfl⟩ := dropProjectTx_ok h
    change (l.state.ledger.outbound.filter _).find seq = _
    rw [Table.find_filter, hrow, Option.filter_some, if_pos]
    cases hissue : l.state.issue.find o.issueId with
    | none => simp [hissue]
    | some row =>
        have hne : row.project ≠ slug := fun heq => hs ⟨slug, row, rfl, hissue, heq⟩
        simp [hissue, hne]

theorem kept_runs {cfg : Config} {l : Locked Tables} {seq : Nat} {o : OutboundRow}
    (hrow : l.state.ledger.outbound.find seq = some o) {later : List Scope}
    (hlater : Machine.Meets (fun s l => (s.exec cfg l).2) (fun l s => ¬ Drops o.issueId l s) later
    l) :
    ∃ o', (Scope.runs cfg later l).state.ledger.outbound.find seq = some o' ∧ o.Tried o' := by
  refine Machine.invariant_of_meets (fun l' : Locked Tables =>
    ∃ o', l'.state.ledger.outbound.find seq = some o' ∧ o.Tried o') (fun l' s h hs => ?_) later
    ⟨o, hrow, .refl o⟩ hlater
  obtain ⟨o', ho', htried⟩ := h
  have hid : o'.issueId = o.issueId := congrArg (fun e => e.2.1) htried.event
  obtain ⟨o'', ho'', htried'⟩ := kept_exec ho' (hid ▸ hs)
  exact ⟨o'', ho'', htried.trans htried'⟩

/-- The history is append-only and its outbox transactional, from any state of the store: calls
other than `drop_project` only append, and write nothing when they fail; every transaction publishes
what it appends; no key is used twice; a delivered event is never offered again, and an event that
is due and not delivered is offered unless its issue was dropped. The parts are about single scopes
and about runs of them, so they hold in any interleaving. -/
theorem history_append_only (cfg : Config) (l : Locked Tables) :
    (∀ op, (∀ slug, op ≠ .dropProject slug) →
      l.state.ledger.history.rows <+: (step cfg op l).state.ledger.history.rows ∧
        ∀ e, (perform cfg op l).1 = .error e → (step cfg op l).state = l.state) ∧
    (∀ s : Scope, (∀ slug, s ≠ .dropProject slug) →
      (∃ new, (s.exec cfg l).2.state.ledger.history.rows = l.state.ledger.history.rows ++ new ∧
        ∀ r ∈ new, Published (s.exec cfg l).2.state r) ∧
      ∀ e, (s.exec cfg l).1 = .error e → (s.exec cfg l).2.state = l.state) ∧
    (∀ (later : List Scope) (s : Scope),
      ∀ r ∈ (s.exec cfg (Scope.runs cfg later l)).2.state.ledger.history.rows,
        r ∉ (Scope.runs cfg later l).state.ledger.history.rows →
          ∀ r₀ ∈ l.state.ledger.history.rows, r₀.1 ≠ r.1) ∧
    (∀ (seq : Nat) marked, seq ∈ l.state.ledger.outbound.keys →
      ((Scope.markEventDelivered seq marked).exec cfg l).1 = .ok () → ∀ later now limit events,
        ((Scope.pendingEvents now limit).exec cfg (Scope.runs cfg later
          ((Scope.markEventDelivered seq marked).exec cfg l).2)).1 = .ok events →
        ∀ e ∈ events, e.seq ≠ seq) ∧
    (∀ seq o, l.state.ledger.outbound.find seq = some o → ∀ later,
      Machine.Meets (fun s l => (Scope.exec cfg s l).2) (fun l s => ¬ Drops o.issueId l s) later l →
      ∃ o', (Scope.runs cfg later l).state.ledger.outbound.find seq = some o' ∧ o.Tried o' ∧
        ∀ now limit, o'.deliveredAt = none → o'.nextAttemptAt ≤ now →
          (Scope.runs cfg later l).state.ledger.outbound.rows.length ≤ limit →
          (Scope.runs cfg later l).poisoned = false →
          ∃ events, ((Scope.pendingEvents now limit).exec cfg (Scope.runs cfg later l)).1 =
            .ok events ∧ ∃ e ∈ events, e.seq = seq) := by
  -- The five parts: what one call and one scope append, that sequence numbers are not used again,
  -- that a delivered event is not offered again, and that an undelivered one is.
  refine ⟨fun op hop => ⟨step_history cfg l hop, fun e => perform_failed⟩,
    fun s hs => ⟨?_, fun e => exec_failed⟩, fun later s r hr hnew r₀ =>
      appended_fresh later hr hnew,
    fun seq marked hmem hok later now limit events hevents => ?_,
    fun seq o hrow later hlater => ?_⟩
  · obtain ⟨new, hrows, hnew⟩ := (exec_grown cfg l hs).appended
    exact ⟨new, hrows, fun r hr => (hnew r hr).2⟩
  · obtain ⟨o, ho, hdelivered⟩ := marked_delivered hmem hok
    exact delivered_not_offered ho hdelivered later hevents
  · obtain ⟨o', ho', htried⟩ := kept_runs hrow hlater
    refine ⟨o', ho', htried, fun now limit hnone hdue hlimit hhealthy => ?_⟩
    exact ⟨_, pendingEvents_new cfg now limit hhealthy, _,
      mem_pendingEvents ho' hnone hdue hlimit, rfl⟩

end Marbles.Db
