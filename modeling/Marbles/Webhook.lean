import Marbles.Db.History

/-!
# Delivering the outbox

The publisher of `webhook.rs` over one store, and the replay guard of a receiver. A round
reads the events that are due and delivers them one by one, in the order of their keys. An
event that fails is put off, while the ones after it go on, so a later event can arrive
first; the guard only accepts forward, and then takes the late one for a replay.

`replays_only_redelivered` says when that does not happen. The other callers of the store
are in the model too: they add events, mark them, and drop projects at any moment.

The publisher and its receiver are one world. What the receiver has got is recorded there, and no
step of the publisher reads it. The guard remembers the last number of each store, so in-order
delivery is just what keeps it from rejecting anything new, and a retry that comes after a later
success is what breaks it. `InOrder` is a condition on a step and the state it meets, so that a
run can be followed step by step.
-/

namespace Marbles.Webhook

open Db (Scope Tables exec_carries)

/-! ### The receiver -/

/-- Why a sequence is not accepted. -/
inductive ReplayError where
  | invalidSequence (storeId : String) (seq : Int)
  | replayed (storeId : String) (seq lastSeq : Int)
  deriving DecidableEq

/-- The last sequence accepted from each store. -/
structure ReplayGuard where
  last : Table String Int
  deriving DecidableEq

namespace ReplayGuard

/-- Nothing has been accepted yet. -/
def new : ReplayGuard := ⟨.empty⟩

/-- A sequence is accepted only forward. -/
def accept (guard : ReplayGuard) (storeId : String) (seq : Int) : Except ReplayError ReplayGuard :=
  if seq ≤ 0 then .error (.invalidSequence storeId seq)
  else match guard.last.find storeId with
    | some lastSeq =>
        if seq ≤ lastSeq then .error (.replayed storeId seq lastSeq)
        else .ok ⟨guard.last.upsert storeId seq fun _ => seq⟩
    | none => .ok ⟨guard.last.upsert storeId seq fun _ => seq⟩

/-- The guard after the events received so far; a rejected one leaves it as it was. -/
def feed (received : List (String × Int)) : ReplayGuard :=
  received.foldl (fun guard d => (guard.accept d.1 d.2).toOption.getD guard) new

/-- What an accepted event leaves behind. -/
theorem find_accept {guard guard' : ReplayGuard} {storeId s : String} {seq last : Int}
    (h : guard.accept storeId seq = .ok guard') (hlast : guard'.last.find s = some last) :
    guard.last.find s = some last ∨ (s = storeId ∧ last = seq) := by
  have hguard : guard' = ⟨guard.last.upsert storeId seq fun _ => seq⟩ := by
    unfold accept at h
    split at h
    · cases h
    · split at h
      · split at h
        · cases h
        · exact (Except.ok.inj h).symm
      · exact (Except.ok.inj h).symm
  rw [hguard, Table.find_upsert] at hlast
  split at hlast
  · rename_i hs
    refine Or.inr ⟨hs, ?_⟩
    cases hfind : guard.last.find storeId with
    | none =>
        rw [hfind] at hlast
        exact (Option.some.inj hlast).symm
    | some old =>
        rw [hfind] at hlast
        exact (Option.some.inj hlast).symm
  · exact Or.inl hlast

/-- The guard only remembers what it was fed. -/
theorem mem_of_find_feed {received : List (String × Int)} {s : String} {last : Int}
    (h : (feed received).last.find s = some last) : (s, last) ∈ received := by
  have hgen : ∀ (received : List (String × Int)) (guard : ReplayGuard),
      (received.foldl (fun guard d =>
        (guard.accept d.1 d.2).toOption.getD guard) guard).last.find s = some last →
      guard.last.find s = some last ∨ (s, last) ∈ received := by
    intro received
    induction received with
    | nil => exact fun _ h => Or.inl h
    | cons d rest ih =>
        intro guard h
        rw [List.foldl_cons] at h
        rcases ih _ h with h | h
        · cases haccept : guard.accept d.1 d.2 with
          | error e =>
              rw [haccept] at h
              exact Or.inl h
          | ok guard' =>
              rw [haccept] at h
              rcases find_accept haccept h with h | ⟨rfl, rfl⟩
              · exact Or.inl h
              · exact Or.inr (List.mem_cons_self ..)
        · exact Or.inr (List.mem_cons_of_mem _ h)
  exact (hgen received new h).resolve_left nofun

/-- An event that is taken for a replay is not ahead of all that was received. -/
theorem replayed_le {received : List (String × Int)} {storeId : String} {seq last : Int}
    (h : (feed received).accept storeId seq = .error (.replayed storeId seq last)) :
    ∃ d ∈ received, seq ≤ d.2 := by
  unfold accept at h
  split at h
  · cases h
  · split at h
    · rename_i lastSeq hfind
      split at h
      · rename_i hle
        exact ⟨_, mem_of_find_feed hfind, hle⟩
      · cases h
    · cases h

end ReplayGuard

/-! ### The publisher -/

/-- The store, the events of this round still to be delivered, the one that has been sent but not
recorded (with its error, if it failed), and what the receiver has got so far. The receiver's side
is a record of the past and no state of the publisher. -/
structure World where
  store : Locked Tables
  queue : List OutboundEvent
  sent : Option (OutboundEvent × Option String)
  received : List (String × Int)

/-- What can happen next. Any other caller of the store may come between two of the publisher's
steps. -/
inductive Tick where
  /-- Another caller enters a lock scope of the store. -/
  | scope (s : Scope)
  /-- A round begins. -/
  | fetch (now : Int)
  /-- The next event is sent; `error` is what came of it. -/
  | deliver (error : Option String)
  /-- The outcome is recorded in the store. -/
  | record (now : Int)
  /-- The round ends early: a worker failed, or the publisher was restarted. -/
  | stop

/-- When an event that failed is tried again. -/
def nextAttempt (now : Int) (event : OutboundEvent) : Int :=
  wrapI64 (now + 2 ^ (max 0 (min event.attempts 8)).toNat)

namespace World

variable (cfg : Db.Config)

/-- Read the events that are due, at the beginning of a round. -/
def fetch (now : Int) (w : World) : World :=
  if w.queue.isEmpty && w.sent.isNone then
    match (Scope.pendingEvents now 64).exec cfg w.store with
    | (.ok events, store) => { w with store := store, queue := events }
    | (.error _, store) => { w with store := store }
  else w

/-- Send the next event. -/
def deliver (error : Option String) (w : World) : World :=
  match w.sent, w.queue with
  | none, event :: rest =>
      { w with
        queue := rest
        sent := some (event, error)
        received := if error.isNone then w.received ++ [(event.storeId, event.seq)] else w.received
          }
  | _, _ => w

/-- The scope that records an outcome. -/
def recordScope (now : Int) (event : OutboundEvent) : Option String → Scope
  | none => .markEventDelivered event.seq now
  | some error => .markEventFailed event.seq (nextAttempt now event) error

/-- Record the outcome; a store that does not answer ends the round. -/
def record (now : Int) (w : World) : World :=
  match w.sent with
  | some (event, error) =>
      let result := (recordScope now event error).exec cfg w.store
      { w with
        store := result.2
        queue := if result.1.toOption.isSome then w.queue else []
        sent := none }
  | none => w

/-- One step of the dispatcher, or a call of the store from elsewhere. -/
def step (tick : Tick) (w : World) : World :=
  match tick with
  | .scope s => { w with store := (s.exec cfg w.store).2 }
  | .fetch now => w.fetch cfg now
  | .deliver error => w.deliver error
  | .record now => w.record cfg now
  | .stop => { w with queue := [], sent := none }

/-- A new store, nothing delivered. -/
def opened (storeId : String) : World := ⟨Db.opened storeId, [], none, []⟩

/-- A run of the dispatcher. -/
def run (ticks : List Tick) (w : World) : World := Machine.run (step cfg) ticks w

end World

/-- An event is delivered successfully only when the outbox holds no earlier event that is
still to be delivered and that the receiver has not got. -/
def InOrder (w : World) (tick : Tick) : Prop :=
  match tick, w.sent, w.queue with
  | .deliver none, none, event :: _ =>
      ∀ r ∈ w.store.state.ledger.outbound.rows, r.2.deliveredAt = none → (r.1 : Int) < event.seq →
        (r.2.storeId, (r.1 : Int)) ∈ w.received
  | _, _, _ => True

instance (w : World) (tick : Tick) : Decidable (InOrder w tick) := by
  unfold InOrder
  split <;> infer_instance

/-! ### The invariant -/

/-- This event has been received, or nothing that has been received is as late. -/
def Ahead (received : List (String × Int)) (storeId : String) (seq : Int) : Prop :=
  (storeId, seq) ∈ received ∨ ∀ d ∈ received, d.2 < seq

theorem Ahead.append {received : List (String × Int)} {storeId : String} {seq : Int}
    (h : Ahead received storeId seq) {d : String × Int}
    (hd : d.2 < seq ∨ (storeId, seq) ∈ received ++ [d]) : Ahead (received ++ [d]) storeId seq := by
  rcases h with h | h
  · exact Or.inl (List.mem_append_left _ h)
  · rcases hd with hd | hd
    · refine Or.inr fun d' hd' => ?_
      rcases List.mem_append.mp hd' with hd' | hd'
      · exact h d' hd'
      · exact List.mem_singleton.mp hd' ▸ hd
    · exact Or.inl hd

/-- What holds as long as events are delivered in order. -/
structure Orderly (w : World) : Prop where
  /-- Outbox rows carry the id of their store. -/
  stored : ∀ seq o, w.store.state.ledger.outbound.find seq = some o →
    o.storeId = w.store.state.storeId
  /-- What has been received comes from this store. -/
  known : ∀ d ∈ w.received, d.1 = w.store.state.storeId ∧
    d.2 ≤ (w.store.state.ledger.history.last : Int)
  /-- What is still to be delivered is ahead of what has been received. -/
  ahead : ∀ (seq : Nat) o, w.store.state.ledger.outbound.find seq = some o → o.deliveredAt = none →
    Ahead w.received w.store.state.storeId seq
  queued : ∀ e ∈ w.queue, e.storeId = w.store.state.storeId ∧
    e.seq ≤ (w.store.state.ledger.history.last : Int) ∧
    Ahead w.received w.store.state.storeId e.seq
  ascending : (w.queue.map (·.seq)).Pairwise (· < ·)
  /-- When it was received, each event had been received before or was the latest. -/
  inOrder : ∀ pre d post, w.received = pre ++ d :: post → Ahead pre d.1 d.2

theorem orderly_opened (storeId : String) : Orderly (.opened storeId) where
  stored := nofun
  known := nofun
  ahead := nofun
  queued := nofun
  ascending := List.Pairwise.nil
  inOrder := fun pre d post h => absurd h (by simp [World.opened])

namespace Orderly

variable {cfg : Db.Config} {w : World}

/-- Whatever a lock scope does to the store, the events to come stay ahead. -/
theorem scope (h : Orderly w) (s : Scope) :
    Orderly { w with store := (s.exec cfg w.store).2 } := by
  have hcarries := exec_carries cfg s w.store
  refine ⟨fun seq o ho => ?_, fun d hd => ?_, fun seq o ho hnone => ?_, fun e he => ?_,
    h.ascending, h.inOrder⟩
  · rcases hcarries.outbound seq o ho with ⟨o₀, ho₀, htried⟩ | ⟨-, hstore⟩
    · have hid : o.storeId = o₀.storeId := congrArg Prod.fst htried.event
      exact (hid.trans (h.stored seq o₀ ho₀)).trans hcarries.store.symm
    · exact hstore.trans hcarries.store.symm
  · obtain ⟨hstore, hlast⟩ := h.known d hd
    refine ⟨hstore.trans hcarries.store.symm, ?_⟩
    have hle := hcarries.last
    change d.2 ≤ ((s.exec cfg w.store).2.state.ledger.history.last : Int)
    omega
  · change Ahead w.received (s.exec cfg w.store).2.state.storeId seq
    rw [hcarries.store]
    rcases hcarries.outbound seq o ho with ⟨o₀, ho₀, htried⟩ | ⟨hfresh, -⟩
    · have hnone₀ : o₀.deliveredAt = none := by
        by_contra hsome
        have := htried.delivered (Option.isSome_iff_ne_none.mpr hsome)
        rw [hnone] at this
        cases this
      exact h.ahead seq o₀ ho₀ hnone₀
    · -- a new event has a key that was never assigned before
      refine Or.inr fun d hd => ?_
      have hle := (h.known d hd).2
      omega
  · obtain ⟨hstore, hlast, hahead⟩ := h.queued e he
    refine ⟨hstore.trans hcarries.store.symm, ?_, ?_⟩
    · have hle := hcarries.last
      change e.seq ≤ ((s.exec cfg w.store).2.state.ledger.history.last : Int)
      omega
    · change Ahead w.received (s.exec cfg w.store).2.state.storeId e.seq
      rw [hcarries.store]
      exact hahead

/-- The queue may be cut. -/
theorem requeue (h : Orderly w) {queue : List OutboundEvent} (hqueue : queue.Sublist w.queue)
    (sent : Option (OutboundEvent × Option String)) :
    Orderly { w with queue := queue, sent := sent } :=
  ⟨h.stored, h.known, h.ahead, fun e he => h.queued e (hqueue.subset he),
    h.ascending.sublist (hqueue.map _), h.inOrder⟩

/-- The events of a round are those of the outbox, in the order of their keys. -/
theorem pendingEvents_ascending (now : Int) (limit : Nat) (t : Tables) :
    ((Db.pendingEventsQuery now limit t).map (·.seq)).Pairwise (· < ·) := by
  have hnodup : ((t.ledger.outbound.rows.filter fun r =>
      r.2.deliveredAt = none && r.2.nextAttemptAt ≤ now).map fun r => r.1).Nodup :=
    t.ledger.outbound.nodup.sublist (List.filter_sublist.map _)
  have hsorted := (Sorting.pairwise_sortOn_lt hnodup).sublist ((List.take_sublist limit _).map _)
  unfold Db.pendingEventsQuery
  rw [List.map_map]
  have hcast := hsorted.map (fun n : Nat => (n : Int)) fun _ _ h => Int.ofNat_lt.mpr h
  rw [List.map_map] at hcast
  exact hcast

theorem fetch (h : Orderly w) (now : Int) : Orderly (w.fetch cfg now) := by
  have hscope := @scope cfg w h (.pendingEvents now 64)
  have hstate : ((Scope.pendingEvents now 64).exec cfg w.store).2.state = w.store.state :=
    Locked.query_state ..
  unfold World.fetch
  split
  · cases hexec : (Scope.pendingEvents now 64).exec cfg w.store with
    | mk r store =>
        rw [hexec] at hscope hstate
        cases r with
        | error e => exact hscope
        | ok events =>
            have hevents : events = Db.pendingEventsQuery now 64 w.store.state :=
              Db.pendingEvents_ok (congrArg Prod.fst hexec)
            refine ⟨hscope.stored, hscope.known, hscope.ahead, fun e he => ?_, ?_, hscope.inOrder⟩
            · rw [show (World.mk store events w.sent w.received).store = store from rfl, hstate]
              obtain ⟨seq, o, hseq, ho, hnone, hstore⟩ := Db.of_mem_pendingEvents (hevents ▸ he)
              have hle := w.store.state.ledger.assigned seq (Table.mem_keys_of_find ho)
              rw [hseq]
              exact ⟨hstore.trans (h.stored seq o ho), by omega, h.ahead seq o ho hnone⟩
            · show (events.map (·.seq)).Pairwise (· < ·)
              rw [hevents]
              exact pendingEvents_ascending ..
  · exact h

/-- Sending an event in order keeps the ones after it ahead. -/
theorem deliver (h : Orderly w) {error : Option String} (horder : InOrder w (.deliver error)) :
    Orderly (w.deliver error) := by
  obtain ⟨store, queue, sent, received⟩ := w
  cases sent with
  | some s => exact h
  | none =>
      cases queue with
      | nil => exact h
      | cons event rest =>
          cases error with
          | some e => exact h.requeue (List.sublist_cons_self event rest) _
          | none =>
              obtain ⟨hid, hlast, hahead⟩ := h.queued event (List.mem_cons_self ..)
              have hnew : (event.storeId, event.seq) ∈ received ++ [(event.storeId, event.seq)] :=
                List.mem_append_right _ (List.mem_singleton_self _)
              refine ⟨h.stored, fun d hd => ?_, fun seq o ho hnone => ?_, fun e he => ?_,
                (List.pairwise_cons.mp h.ascending).2, fun pre d post hsplit => ?_⟩
              · rcases List.mem_append.mp hd with hd | hd
                · exact h.known d hd
                · obtain rfl := List.mem_singleton.mp hd
                  exact ⟨hid, hlast⟩
              · -- no earlier event is left, by the order of delivery
                refine (h.ahead seq o ho hnone).append ?_
                have hstore := h.stored seq o ho
                change o.storeId = store.state.storeId at hstore
                change event.storeId = store.state.storeId at hid
                rcases lt_trichotomy event.seq (seq : Int) with hlt | heq | hgt
                · exact Or.inl hlt
                · rw [← heq]
                  exact Or.inr (hid ▸ hnew)
                · have hgot := horder (seq, o) (Table.mem_rows.mpr ho) hnone hgt
                  rw [hstore] at hgot
                  exact Or.inr (List.mem_append_left _ hgot)
              · obtain ⟨heid, helast, heahead⟩ := h.queued e (List.mem_cons_of_mem _ he)
                refine ⟨heid, helast, heahead.append (Or.inl ?_)⟩
                exact (List.pairwise_cons.mp h.ascending).1 e.seq (List.mem_map_of_mem he)
              · change received ++ [(event.storeId, event.seq)] = _ at hsplit
                rcases List.eq_nil_or_concat post with rfl | ⟨post', last, rfl⟩
                · obtain ⟨rfl, hd⟩ := List.append_inj' hsplit rfl
                  obtain rfl := (List.cons.inj hd).1
                  change Ahead received event.storeId event.seq
                  rw [hid]
                  exact hahead
                · rw [List.concat_eq_append, ← List.cons_append, ← List.append_assoc] at hsplit
                  exact h.inOrder pre d post' (List.append_inj' hsplit rfl).1

theorem record (h : Orderly w) (now : Int) : Orderly (w.record cfg now) := by
  unfold World.record
  split
  · rename_i event error _
    refine (h.scope (World.recordScope now event error)).requeue ?_ none
    split
    · exact List.Sublist.refl _
    · exact List.nil_sublist _
  · exact h

theorem step (h : Orderly w) {tick : Tick} (horder : InOrder w tick) :
    Orderly (w.step cfg tick) := by
  cases tick with
  | scope s => exact h.scope s
  | fetch now => exact h.fetch now
  | deliver error => exact h.deliver horder
  | record now => exact h.record now
  | stop => exact h.requeue (List.nil_sublist _) none

end Orderly

/-- In every run in which events are delivered in order, whatever fails and whenever it is tried
again, the guard takes an event for a replay only when it has been received before. The guard has
one number for each store and forgets which of the smaller ones it has seen; in order, it has seen
all of them. -/
theorem replays_only_redelivered {cfg : Db.Config} {storeId : String} {ticks : List Tick}
    (hticks : Machine.Meets (World.step cfg) InOrder ticks (.opened storeId))
    {pre post : List (String × Int)} {d : String × Int} {last : Int}
    (hreceived : (World.run cfg ticks (.opened storeId)).received = pre ++ d :: post)
    (hreplayed : (ReplayGuard.feed pre).accept d.1 d.2 = .error (.replayed d.1 d.2 last)) :
    d ∈ pre := by
  have horderly : Orderly (World.run cfg ticks (.opened storeId)) :=
    Machine.invariant_of_meets Orderly (fun _ _ h horder => h.step horder) ticks
      (orderly_opened storeId) hticks
  rcases horderly.inOrder pre d post hreceived with hmem | hahead
  · exact hmem
  · obtain ⟨d', hd', hle⟩ := ReplayGuard.replayed_le hreplayed
    have hlt := hahead d' hd'
    omega

/-! ### A retry that comes too late -/

/-- Creating an issue and labelling it, two events. -/
def twoEvents : List Tick :=
  [.scope (.ensureProject "p" "/p" "p" 0),
    .scope (.create { id := some "x", project := some "p" } "p" 0 [] 0),
    .scope (.setLabels "x" ["l"] "me" 0)]

/-- The first event fails, the second one is delivered, and then the first one. -/
def lateRetry : List Tick :=
  twoEvents ++ [.fetch 0, .deliver (some "receiver returned 503"), .record 0, .deliver none,
    .record 0, .fetch 1, .deliver none]

/-- The guard rejects the first event, which was never received before. -/
theorem late_retry_replayed :
    (World.run {} lateRetry (.opened "s")).received = [("s", 2)] ++ ("s", 1) :: [] ∧
      (ReplayGuard.feed [("s", 2)]).accept "s" 1 = .error (.replayed "s" 1 2) ∧
      ("s", (1 : Int)) ∉ [("s", (2 : Int))] := by
  decide +kernel

/-- The first event is delivered but not recorded, and delivered again. -/
def redelivery : List Tick :=
  twoEvents ++ [.fetch 0, .deliver none, .stop, .fetch 1, .deliver none]

theorem redelivery_replayed : ("s", (1 : Int)) ∈ [("s", (1 : Int))] := by
  have hticks : Machine.Meets (World.step {}) InOrder redelivery (.opened "s") := by
    refine ⟨trivial, trivial, trivial, trivial, ?_, trivial, trivial, ?_, trivial⟩
    all_goals decide +kernel
  have hreceived : (World.run {} redelivery (.opened "s")).received =
      [("s", 1)] ++ ("s", 1) :: [] := by
    decide +kernel
  exact replays_only_redelivered hticks hreceived
    (show (ReplayGuard.feed [("s", 1)]).accept "s" 1 = .error (.replayed "s" 1 1) by decide +kernel)

end Marbles.Webhook
