import Mathlib.Logic.Function.Basic
import Marbles.Lib.Machine

/-!
# The shared connection

`with_reconnect` of `postgres_store.rs` among any number of concurrent calls. A call owns
what it took out of the slot; while it dials, the slot is unlocked and marked
`reconnecting`. Each event is the stretch of one call from one lock operation, dial or
operation to the next; what the operation and the dial return is part of the event. An
event that is not enabled does nothing.

Clients are numbered in the order they were dialed, so each dial yields a new one. The
trace of a call and the last result on each client are only there to be spoken about.

The lock is held while an operation runs and is free while a call dials, which is what lets others
in. A call that finds the slot marked does not wait: it returns at once with an error of its own.
The invariant follows the clients. At any time a client is in the slot, with the one call that
runs on it, or with the call that has just dialed it, and none comes back once its connection was
lost.
-/

namespace Marbles.Postgres

variable {ι T E : Type}

/-- What the mutex of the shared client guards. The mark is what keeps a second call from dialing
while the first is at it. -/
structure SlotState where
  client : Option Nat
  reconnecting : Bool

/-- What a call has done: dialed, or run its operation on a client. -/
inductive CallEvent (T E : Type) where
  | dialed (r : Except E Nat)
  | ran (client : Nat) (r : Except E T)

/-- Where a call is; `second` tells its first attempt from its retry. Between two phases the lock
may be given to another call. -/
inductive Phase (T E : Type) where
  /-- The call has not locked the slot yet. -/
  | idle
  /-- The call holds the lock and runs its operation. -/
  | running (client : Nat) (second : Bool)
  /-- The lock is released, `reconnect` runs. -/
  | dialing (second : Bool)
  /-- `reconnect` is over; the call is about to lock the slot again. -/
  | dialed (r : Except E Nat) (second : Bool)
  | returned (r : Except E T)

/-- One call of `with_reconnect`. -/
structure Call (T E : Type) where
  phase : Phase T E := .idle
  trace : List (CallEvent T E) := []

/-- The slot and its lock, the calls, and the clients dialed so far. The last result on each client
is kept for the sake of what is proved about it. -/
structure Conn (ι T E : Type) where
  slot : SlotState
  lock : Option ι
  calls : ι → Call T E
  /-- The number of the next client. -/
  next : Nat
  /-- The result of the last operation on a client. -/
  last : Nat → Option (Except E T)

/-- What a call can do next. Any call may go on at any time, so the order of the events is
arbitrary. -/
inductive ConnEvent (ι T E : Type) where
  /-- Lock the slot for the first time. -/
  | enter (i : ι)
  /-- The operation returns `r`. -/
  | finish (i : ι) (r : Except E T)
  /-- The dial fails with an error, or succeeds. -/
  | dial (i : ι) (failure : Option E)
  /-- Lock the slot again after the dial. -/
  | relock (i : ι)

section Protocol

variable [DecidableEq ι] (retryable : E → Bool) (reconnecting : E)

/-- Does the slot keep the client after an operation returned `r` on it? Only a failure that can be
retried makes the client suspect. -/
def keeps : Except E T → Bool
  | .ok _ => true
  | .error e => !retryable e

namespace Conn

/-- The call `i` moves on. -/
def move (s : Conn ι T E) (i : ι) (phase : Phase T E) (events : List (CallEvent T E)) :
    ι → Call T E := Function.update s.calls i ⟨phase, (s.calls i).trace ++ events⟩

@[simp] theorem move_self (s : Conn ι T E) (i : ι) (phase : Phase T E)
    (events : List (CallEvent T E)) :
    s.move i phase events i = ⟨phase, (s.calls i).trace ++ events⟩ := Function.update_self ..

theorem move_ne (s : Conn ι T E) {i j : ι} (h : j ≠ i) (phase : Phase T E)
    (events : List (CallEvent T E)) : s.move i phase events j = s.calls j :=
  Function.update_of_ne h ..

theorem phase_move (s : Conn ι T E) (i : ι) (phase : Phase T E) (events : List (CallEvent T E)) :
    (s.move i phase events i).phase = phase := by rw [move_self]

/-- Lock the slot, leave at once if it is marked, and take the client or go and dial. A call that
finds somebody dialing does not wait for the result. -/
def enter (i : ι) (s : Conn ι T E) : Conn ι T E :=
  match s.lock, (s.calls i).phase with
  | none, .idle =>
      if s.slot.reconnecting then
        { s with calls := s.move i (.returned (.error reconnecting)) [] }
      else match s.slot.client with
        | some c => { s with
            slot := ⟨none, false⟩
            lock := some i
            calls := s.move i (.running c false) [] }
        | none => { s with
            slot := ⟨none, true⟩
            calls := s.move i (.dialing false) [] }
  | _, _ => s

/-- The operation is over: put the client back, or drop it and dial again, once. Only an error that
says that the connection is gone is worth a second try. -/
def finish (i : ι) (r : Except E T) (s : Conn ι T E) : Conn ι T E :=
  match (s.calls i).phase with
  | .running c second =>
      let last := Function.update s.last c (some r)
      if keeps retryable r then { s with
        slot := { s.slot with client := some c }
        lock := none
        calls := s.move i (.returned r) [.ran c r]
        last := last }
      else if second then { s with
        lock := none
        calls := s.move i (.returned r) [.ran c r]
        last := last }
      else { s with
        slot := { s.slot with reconnecting := true }
        lock := none
        calls := s.move i (.dialing true) [.ran c r]
        last := last }
  | _ => s

/-- The dial is over. -/
def dial (i : ι) (failure : Option E) (s : Conn ι T E) : Conn ι T E :=
  match (s.calls i).phase with
  | .dialing second =>
      match failure with
      | some e => { s with calls := s.move i (.dialed (.error e) second) [.dialed (.error e)] }
      | none => { s with
          calls := s.move i (.dialed (.ok s.next) second) [.dialed (.ok s.next)]
          next := s.next + 1 }
  | _ => s

/-- Lock the slot again, unmark it, and go on with the new client if there is one. The mark is taken
away in either case, so a failed dial does not lock out the next call. -/
def relock (i : ι) (s : Conn ι T E) : Conn ι T E :=
  match s.lock, (s.calls i).phase with
  | none, .dialed (.error e) _ => { s with
      slot := { s.slot with reconnecting := false }
      calls := s.move i (.returned (.error e)) [] }
  | none, .dialed (.ok c) second => { s with
      slot := { s.slot with reconnecting := false }
      lock := some i
      calls := s.move i (.running c second) [] }
  | _, _ => s

/-- One event. -/
def step : ConnEvent ι T E → Conn ι T E → Conn ι T E
  | .enter i => enter reconnecting i
  | .finish i r => finish retryable i r
  | .dial i failure => dial i failure
  | .relock i => relock i

/-- Before the first call: connected, or not connected yet. -/
def opened (connected : Bool) : Conn ι T E where
  slot := ⟨if connected then some 0 else none, false⟩
  lock := none
  calls _ := {}
  next := 1
  last _ := none

/-- The connection after a sequence of events. -/
def run (events : List (ConnEvent ι T E)) (s : Conn ι T E) : Conn ι T E :=
  Machine.run (step retryable reconnecting) events s

end Conn

/-! ### What a call has done so far -/

/-- The operation has run. -/
def CallEvent.isRan : CallEvent T E → Bool
  | .ran _ _ => true
  | .dialed _ => false

/-- Nothing of this is a run of the operation. -/
def NoRun (trace : List (CallEvent T E)) : Prop := ∀ e ∈ trace, e.isRan = false

/-- The traces of a call, finished or not. They are listed as the source can produce them, so that
what a call has done can be read off its trace. -/
inductive Shape : List (CallEvent T E) → Prop where
  | none {first : List (CallEvent T E)} (h : NoRun first) : Shape first
  | once {first : List (CallEvent T E)} {c : Nat} {r : Except E T} (h : NoRun first) :
      Shape (first ++ [.ran c r])
  | lost {first : List (CallEvent T E)} {c : Nat} {e : E} {r : Except E Nat} (h : NoRun first)
      (he : retryable e = true) : Shape (first ++ [.ran c (.error e), .dialed r])
  | twice {first : List (CallEvent T E)} {c c' : Nat} {e : E} {r : Except E T} (h : NoRun first)
      (he : retryable e = true) :
      Shape (first ++ [.ran c (.error e), .dialed (.ok c'), .ran c' r])

/-- A call runs its operation at most twice, and the second time only on the client it
has dialed right after a first failure that can be retried. -/
def RunsProperly (trace : List (CallEvent T E)) : Prop :=
  trace.countP CallEvent.isRan ≤ 2 ∧
    ∀ before c r after, trace = before ++ .ran c r :: after → before.any CallEvent.isRan = true →
      ∃ before' c₁ e, before = before' ++ [.ran c₁ (.error e), .dialed (.ok c)] ∧
        retryable e = true

omit [DecidableEq ι] in
theorem NoRun.countP {first : List (CallEvent T E)} (h : NoRun first) :
    first.countP CallEvent.isRan = 0 := by
  rw [List.countP_eq_zero]
  intro e he
  simp [h e he]

variable {retryable}

/-- A run of the operation that stands in a trace stands after what is no run. -/
theorem NoRun.split {first rest before after : List (CallEvent T E)} {c : Nat} {r : Except E T}
    (h : NoRun first) (heq : first ++ rest = before ++ .ran c r :: after) :
    ∃ mid, before = first ++ mid ∧ rest = mid ++ .ran c r :: after := by
  rcases List.append_eq_append_iff.mp heq with ⟨mid, hbefore, hrest⟩ | ⟨mid, hfirst, hafter⟩
  · exact ⟨mid, hbefore, hrest⟩
  · cases mid with
    | nil =>
        rw [List.append_nil] at hfirst
        exact ⟨[], by simp [hfirst], by simpa using hafter.symm⟩
    | cons e mid =>
        have he := (List.cons.inj hafter).1
        have hran := h e (by simp [hfirst])
        rw [← he] at hran
        exact absurd hran (by simp [CallEvent.isRan])

theorem NoRun.any {first : List (CallEvent T E)} (h : NoRun first) :
    first.any CallEvent.isRan = false := by
  rw [List.any_eq_false]
  intro e he
  simp [h e he]

/-- Traces of these shapes are proper. -/
theorem Shape.runsProperly {trace : List (CallEvent T E)} (h : Shape retryable trace) :
    RunsProperly retryable trace := by
  -- By the shape of the trace: at most two runs, and a second one only after a retryable error of
  -- the first.
  cases h with
  | none h =>
      refine ⟨by rw [h.countP]; omega, fun before c r after heq _ => ?_⟩
      have hran := h (.ran c r) (by simp [heq])
      exact absurd hran (by simp [CallEvent.isRan])
  | @once first c' r' h =>
      refine ⟨by simp [List.countP_append, h.countP, List.countP_cons, CallEvent.isRan],
        fun before c r after heq hany => ?_⟩
      obtain ⟨mid, rfl, hmid⟩ := h.split heq
      cases mid with
      | nil => simp [h.any] at hany
      | cons e mid => simp at hmid
  | @lost first c' e' r' h he =>
      refine ⟨by simp [List.countP_append, h.countP, List.countP_cons, CallEvent.isRan],
        fun before c r after heq hany => ?_⟩
      obtain ⟨mid, rfl, hmid⟩ := h.split heq
      rcases mid with _ | ⟨e, _ | ⟨e₁, mid⟩⟩
      · simp [h.any] at hany
      · simp at hmid
      · simp at hmid
  | @twice first c₁ c₂ e r' h he =>
      refine ⟨by simp [List.countP_append, h.countP, List.countP_cons, CallEvent.isRan],
        fun before c r after heq hany => ?_⟩
      obtain ⟨mid, rfl, hmid⟩ := h.split heq
      rcases mid with _ | ⟨e₁, _ | ⟨e₂, _ | ⟨e₃, mid⟩⟩⟩
      · simp [h.any] at hany
      · simp at hmid
      · obtain ⟨rfl, rfl, hran, -⟩ : .ran c₁ (.error e) = e₁ ∧ .dialed (.ok c₂) = e₂ ∧
            CallEvent.ran c₂ r' = .ran c r ∧ [] = after := by simpa using hmid
        cases hran
        exact ⟨first, c₁, e, rfl, he⟩
      · simp at hmid

/-! ### The invariant -/

/-- The call holds nothing: it has not started, or it is over. -/
def Phase.Quiet : Phase T E → Prop
  | .idle | .returned _ => True
  | _ => False

/-- The call has released the lock to dial. -/
def Phase.Away : Phase T E → Prop
  | .dialing _ | .dialed _ _ => True
  | _ => False

/-- At most one call is at work: it holds the lock and a client, or it has left the slot
marked. Otherwise the slot is free. -/
inductive Mode (s : Conn ι T E) : Prop where
  | rest (hlock : s.lock = none) (hslot : s.slot.reconnecting = false)
      (hquiet : ∀ j, (s.calls j).phase.Quiet)
  | busy {i : ι} {c : Nat} {second : Bool} (hlock : s.lock = some i)
    (hslot : s.slot = ⟨none, false⟩)
      (hi : (s.calls i).phase = .running c second)
      (hquiet : ∀ j, j ≠ i → (s.calls j).phase.Quiet)
  | away {i : ι} (hlock : s.lock = none) (hslot : s.slot = ⟨none, true⟩)
      (hi : (s.calls i).phase.Away) (hquiet : ∀ j, j ≠ i → (s.calls j).phase.Quiet)

variable (retryable) in
/-- The trace of a call fits the phase it is in. The trace is carried along so that what a call has
done can be read off where it is. -/
def Traced (call : Call T E) : Prop :=
  match call.phase with
  | .idle => call.trace = []
  | .running _ false | .dialing false | .dialed _ false => NoRun call.trace
  | .running c true => ∃ first c₁ e, NoRun first ∧ retryable e = true ∧
      call.trace = first ++ [.ran c₁ (.error e), .dialed (.ok c)]
  | .dialing true => ∃ first c₁ e, NoRun first ∧ retryable e = true ∧
      call.trace = first ++ [.ran c₁ (.error e)]
  | .dialed r true => ∃ first c₁ e, NoRun first ∧ retryable e = true ∧
      call.trace = first ++ [.ran c₁ (.error e), .dialed r]
  | .returned r => Shape retryable call.trace ∧
      ∀ v, r = .ok v → ∃ before c, call.trace = before ++ [.ran c (.ok v)]

theorem Traced.shape {call : Call T E} (h : Traced retryable call) :
    Shape retryable call.trace := by
  unfold Traced at h
  split at h
  · rw [h]
    exact .none (by simp [NoRun])
  · exact .none h
  · exact .none h
  · exact .none h
  · obtain ⟨first, c₁, e, hfirst, he, htrace⟩ := h
    rw [htrace]
    exact .lost hfirst he
  · obtain ⟨first, c₁, e, hfirst, he, htrace⟩ := h
    rw [htrace]
    exact .once hfirst
  · obtain ⟨first, c₁, e, hfirst, he, htrace⟩ := h
    rw [htrace]
    exact .lost hfirst he
  · exact h.1

variable (retryable) in
/-- What holds in every reachable state of the connection. It is kept by every event, so it needs no
assumption on the order of events. -/
structure Healthy (s : Conn ι T E) : Prop where
  mode : Mode s
  traced : ∀ i, Traced retryable (s.calls i)
  /-- The client in the slot did not fail in a way that can be retried. -/
  kept : ∀ c r, s.slot.client = some c → s.last c = some r → keeps retryable r = true

namespace Healthy

variable {s : Conn ι T E} {reconnecting : E}

/-- The traces of the other calls are not touched. -/
theorem traced_move (h : Healthy retryable s) {i : ι} {phase : Phase T E}
    {events : List (CallEvent T E)}
    (hi : Traced retryable ⟨phase, (s.calls i).trace ++ events⟩) (j : ι) :
    Traced retryable (s.move i phase events j) := by
  by_cases hj : j = i
  · subst hj
    rwa [Conn.move_self]
  · rw [Conn.move_ne s hj]
    exact h.traced j

omit retryable in
theorem away_move {i : ι} {phase : Phase T E} {events : List (CallEvent T E)}
    (h : phase.Away) : (s.move i phase events i).phase.Away := by
  rwa [Conn.phase_move]

omit retryable in
theorem quiet_move {i : ι} {phase : Phase T E} {events : List (CallEvent T E)}
    (h : ∀ j, j ≠ i → (s.calls j).phase.Quiet) (hphase : phase.Quiet) (j : ι) :
    (s.move i phase events j).phase.Quiet := by
  by_cases hj : j = i
  · subst hj
    rwa [Conn.move_self]
  · rw [Conn.move_ne s hj]
    exact h j hj

omit retryable in
theorem quiet_move_ne {i k : ι} {phase : Phase T E} {events : List (CallEvent T E)}
    (h : ∀ j, j ≠ k → (s.calls j).phase.Quiet) (hi : i = k ∨ phase.Quiet) (j : ι) (hj : j ≠ k) :
    (s.move i phase events j).phase.Quiet := by
  by_cases hji : j = i
  · subst hji
    rw [Conn.move_self]
    exact hi.resolve_left hj
  · rw [Conn.move_ne s hji]
    exact h j hj

theorem enter (h : Healthy retryable s) (i : ι) : Healthy retryable (s.enter reconnecting i) := by
  unfold Conn.enter
  split
  · rename_i hlock hidle
    have htrace : (s.calls i).trace = [] := by
      have ht := h.traced i
      unfold Traced at ht
      rwa [hidle] at ht
    have hnone : NoRun ((s.calls i).trace ++ []) := by simp [htrace, NoRun]
    rcases h.mode with ⟨-, hrec, hquiet⟩ | ⟨hlock', -, -, -⟩ | @⟨k, -, hslot, hk, hquiet⟩
    · -- the slot is free
      rw [if_neg (by simp [hrec])]
      split
      · refine ⟨@Mode.busy _ _ _ _ i _ false rfl rfl (s.phase_move ..) fun j hj => ?_,
          h.traced_move hnone, nofun⟩
        exact quiet_move_ne (fun j _ => hquiet j) (Or.inl rfl) j hj
      · refine ⟨@Mode.away _ _ _ _ i hlock rfl (away_move trivial) fun j hj => ?_,
          h.traced_move hnone, nofun⟩
        exact quiet_move_ne (fun j _ => hquiet j) (Or.inl rfl) j hj
    · rw [hlock] at hlock'
      cases hlock'
    · -- another call is away: this one returns at once
      have hki : k ≠ i := by
        rintro rfl
        rw [hidle] at hk
        exact hk
      rw [if_pos (by rw [hslot])]
      have hk' : (s.move i (.returned (.error reconnecting)) [] k).phase.Away := by
        rwa [Conn.move_ne s hki]
      refine ⟨@Mode.away _ _ _ _ k hlock hslot hk' fun j hj => ?_,
        h.traced_move ⟨.none hnone, nofun⟩, h.kept⟩
      exact quiet_move_ne hquiet (Or.inr (show (Phase.returned _).Quiet from trivial)) j hj
  · exact h

/-- What runs holds the lock. -/
theorem running (h : Healthy retryable s) {i : ι} {c : Nat} {second : Bool}
    (hi : (s.calls i).phase = .running c second) :
    s.lock = some i ∧ s.slot = ⟨none, false⟩ ∧ ∀ j, j ≠ i → (s.calls j).phase.Quiet := by
  rcases h.mode with ⟨-, -, hquiet⟩ | @⟨k, c', second', hlock, hslot, hk, hquiet⟩ |
    @⟨k, hlock, hslot, hk, hquiet⟩
  · have := hquiet i
    rw [hi] at this
    exact this.elim
  · have hik : i = k := by
      by_contra hne
      have := hquiet i hne
      rw [hi] at this
      exact this
    subst hik
    exact ⟨hlock, hslot, hquiet⟩
  · by_cases hik : i = k
    · subst hik
      rw [hi] at hk
      exact hk.elim
    · have := hquiet i hik
      rw [hi] at this
      exact this.elim

/-- What is away has left the slot marked. -/
theorem isAway (h : Healthy retryable s) {i : ι} (hi : (s.calls i).phase.Away) :
    s.lock = none ∧ s.slot = ⟨none, true⟩ ∧ ∀ j, j ≠ i → (s.calls j).phase.Quiet := by
  have hnot : ¬ (s.calls i).phase.Quiet := by
    cases hp : (s.calls i).phase <;> simp_all [Phase.Away, Phase.Quiet]
  rcases h.mode with ⟨-, -, hquiet⟩ | @⟨k, c', second', hlock, hslot, hk, hquiet⟩ |
    @⟨k, hlock, hslot, hk, hquiet⟩
  · exact absurd (hquiet i) hnot
  · by_cases hik : i = k
    · subst hik
      rw [hk] at hi
      exact hi.elim
    · exact absurd (hquiet i hik) hnot
  · have hik : i = k := by
      by_contra hne
      exact hnot (hquiet i hne)
    subst hik
    exact ⟨hlock, hslot, hquiet⟩

theorem finish (h : Healthy retryable s) (i : ι) (r : Except E T) :
    Healthy retryable (s.finish retryable i r) := by
  unfold Conn.finish
  split
  · rename_i c second hi
    obtain ⟨hlock, hslot, hquiet⟩ := h.running hi
    have ht := h.traced i
    have hended : Traced retryable ⟨.returned r, (s.calls i).trace ++ [.ran c r]⟩ := by
      refine ⟨?_, fun v hv => ⟨_, c, by rw [hv]⟩⟩
      unfold Traced at ht
      rw [hi] at ht
      cases second with
      | false => exact .once ht
      | true =>
          obtain ⟨first, c₁, e, hfirst, he, htrace⟩ := ht
          rw [htrace, List.append_assoc]
          exact .twice hfirst he
    -- A result that keeps the client puts it back; a lost client is dialed anew after a first
    -- try, and after a second one the slot stays empty.
    dsimp only
    split
    · rename_i hkeeps
      refine ⟨.rest rfl (by rw [hslot]) (quiet_move hquiet trivial), h.traced_move hended, ?_⟩
      intro c' r' hc hr
      cases hc
      change Function.update s.last c (some r) c = some r' at hr
      rw [Function.update_self] at hr
      cases hr
      exact hkeeps
    · rename_i hlost
      have hlast : ∀ c' r', s.slot.client = some c' →
          Function.update s.last c (some r) c' = some r' → keeps retryable r' = true := by
        intro c' r' hc
        rw [hslot] at hc
        cases hc
      split
      · exact ⟨.rest rfl (by rw [hslot]) (quiet_move hquiet trivial), h.traced_move hended, hlast⟩
      · rename_i hfirst
        obtain ⟨e, rfl, he⟩ : ∃ e, r = .error e ∧ retryable e = true := by
          cases r with
          | ok v => exact absurd rfl hlost
          | error e => exact ⟨e, rfl, by simpa [keeps] using hlost⟩
        refine ⟨@Mode.away _ _ _ _ i rfl (by rw [hslot]) (away_move trivial)
          (quiet_move_ne hquiet (Or.inl rfl)), h.traced_move ?_, hlast⟩
        unfold Traced at ht
        rw [hi] at ht
        cases second with
        | false => exact ⟨_, c, e, ht, he, rfl⟩
        | true => exact absurd rfl hfirst
  · exact h

theorem dial (h : Healthy retryable s) (i : ι) (failure : Option E) :
    Healthy retryable (s.dial i failure) := by
  unfold Conn.dial
  split
  · rename_i second hi
    obtain ⟨hlock, hslot, hquiet⟩ := h.isAway (i := i) (by rw [hi]; trivial)
    have ht := h.traced i
    have hdialed : ∀ r, Traced retryable ⟨.dialed r second, (s.calls i).trace ++ [.dialed r]⟩ := by
      intro r
      unfold Traced at ht
      rw [hi] at ht
      cases second with
      | false =>
          intro e he
          rcases List.mem_append.mp he with he | he
          · exact ht e he
          · rw [List.mem_singleton.mp he]
            rfl
      | true =>
          obtain ⟨first, c₁, e, hfirst, he, htrace⟩ := ht
          exact ⟨first, c₁, e, hfirst, he, by simp [htrace]⟩
    cases failure with
    | some e =>
        exact ⟨@Mode.away _ _ _ _ i hlock hslot (away_move trivial)
          (quiet_move_ne hquiet (Or.inl rfl)), h.traced_move (hdialed _), h.kept⟩
    | none =>
        exact ⟨@Mode.away _ _ _ _ i hlock hslot (away_move trivial)
          (quiet_move_ne hquiet (Or.inl rfl)), h.traced_move (hdialed _), h.kept⟩
  · exact h

theorem relock (h : Healthy retryable s) (i : ι) : Healthy retryable (s.relock i) := by
  unfold Conn.relock
  split
  · rename_i e second hlock hi
    obtain ⟨-, hslot, hquiet⟩ := h.isAway (i := i) (by rw [hi]; trivial)
    refine ⟨.rest hlock rfl (quiet_move hquiet trivial), h.traced_move ⟨?_, nofun⟩, h.kept⟩
    rw [List.append_nil]
    exact (h.traced i).shape
  · rename_i c second hlock hi
    obtain ⟨-, hslot, hquiet⟩ := h.isAway (i := i) (by rw [hi]; trivial)
    refine ⟨@Mode.busy _ _ _ _ i c second rfl (by rw [hslot]) (s.phase_move ..)
      (quiet_move_ne hquiet (Or.inl rfl)), h.traced_move ?_, h.kept⟩
    have ht := h.traced i
    unfold Traced at ht ⊢
    rw [hi] at ht
    rw [List.append_nil]
    cases second with
    | false => exact ht
    | true => exact ht
  · exact h

theorem step (h : Healthy retryable s) (event : ConnEvent ι T E) :
    Healthy retryable (Conn.step retryable reconnecting event s) := by
  cases event with
  | enter i => exact h.enter i
  | finish i r => exact h.finish i r
  | dial i failure => exact h.dial i failure
  | relock i => exact h.relock i

end Healthy

/-! ### Which events run an operation -/

/-- Every call has gone on without running its operation. -/
def Conn.Extends (s s' : Conn ι T E) : Prop :=
  ∀ i, ∃ extra, NoRun extra ∧ (s'.calls i).trace = (s.calls i).trace ++ extra

omit [DecidableEq ι] in
theorem Conn.Extends.refl (s : Conn ι T E) : s.Extends s :=
  fun _ => ⟨[], by simp [NoRun], (List.append_nil _).symm⟩

@[simp] theorem Conn.trace_move (s : Conn ι T E) (i j : ι) (phase : Phase T E)
    (events : List (CallEvent T E)) : (s.move i phase events j).trace =
      if j = i then (s.calls j).trace ++ events else (s.calls j).trace := by
  by_cases h : j = i
  · subst h
    rw [move_self, if_pos rfl]
  · rw [move_ne s h, if_neg h]

theorem Conn.extends_move (s : Conn ι T E) (i : ι) (phase : Phase T E)
    {events : List (CallEvent T E)} (h : NoRun events) (j : ι) :
    ∃ extra, NoRun extra ∧ (s.move i phase events j).trace = (s.calls j).trace ++ extra := by
  rw [trace_move]
  split
  · exact ⟨events, h, rfl⟩
  · exact ⟨[], by simp [NoRun], (List.append_nil _).symm⟩

theorem Conn.extends_enter (s : Conn ι T E) (reconnecting : E) (i : ι) :
    s.Extends (s.enter reconnecting i) := by
  unfold enter
  split
  · split
    · exact s.extends_move i _ (by simp [NoRun])
    · split
      · exact s.extends_move i _ (by simp [NoRun])
      · exact s.extends_move i _ (by simp [NoRun])
  · exact .refl s

theorem Conn.extends_dial (s : Conn ι T E) (i : ι) (failure : Option E) :
    s.Extends (s.dial i failure) := by
  unfold dial
  split
  · cases failure with
    | some e => exact s.extends_move i _ (by simp [NoRun, CallEvent.isRan])
    | none => exact s.extends_move i _ (by simp [NoRun, CallEvent.isRan])
  · exact .refl s

theorem Conn.extends_relock (s : Conn ι T E) (i : ι) : s.Extends (s.relock i) := by
  unfold relock
  split
  · exact s.extends_move i _ (by simp [NoRun])
  · exact s.extends_move i _ (by simp [NoRun])
  · exact .refl s

theorem Conn.finish_trace (s : Conn ι T E) (retryable : E → Bool) {i : ι} {c : Nat} {second : Bool}
    (hi : (s.calls i).phase = .running c second) (r : Except E T) (j : ι) :
    ((s.finish retryable i r).calls j).trace =
      if j = i then (s.calls j).trace ++ [.ran c r] else (s.calls j).trace := by
  unfold finish
  rw [hi]
  dsimp only
  split
  · exact s.trace_move ..
  · split
    · exact s.trace_move ..
    · exact s.trace_move ..

omit [DecidableEq ι] in
theorem healthy_opened (connected : Bool) : Healthy retryable
    (Conn.opened connected : Conn ι T E) :=
  ⟨.rest rfl rfl fun _ => trivial, fun _ => rfl, fun _ _ _ hr => by cases hr⟩

/-- Every reachable state is healthy. -/
theorem healthy_run (reconnecting : E) (connected : Bool) (events : List (ConnEvent ι T E)) :
    Healthy retryable (Conn.run retryable reconnecting events (.opened connected)) :=
  Machine.invariant (Healthy retryable) (fun _ _ h => h.step _) events (healthy_opened connected)

/-- The protocol of the shared connection, in every state that any number of calls reach with any
results: at most one call dials, and a call that comes meanwhile returns the reconnecting error and
does nothing else; every call runs its operation properly; the slot keeps no client whose last
operation failed in a way that can be retried; no client is used twice at once, nor kept in the slot
while it is used; and when no call is under way the slot is not marked. All of this is one invariant
on where each client is, kept by every event. -/
theorem shared_connection (retryable : E → Bool) (reconnecting : E) (connected : Bool)
    (events : List (ConnEvent ι T E)) :
    let s := Conn.run retryable reconnecting events (.opened connected)
    (∀ i j x y, (s.calls i).phase = .dialing x → (s.calls j).phase = .dialing y → i = j) ∧
    (∀ i j x, (s.calls i).phase = .dialing x → (s.calls j).phase = .idle →
      Conn.step retryable reconnecting (.enter j) s =
        { s with calls := Function.update s.calls j ⟨.returned (.error reconnecting), []⟩ }) ∧
    (∀ i, RunsProperly retryable (s.calls i).trace) ∧
    (∀ c e, s.slot.client = some c → s.last c = some (.error e) → retryable e = false) ∧
    (∀ i j c x y, (s.calls i).phase = .running c x → (s.calls j).phase = .running c y → i = j) ∧
    (∀ i c x, (s.calls i).phase = .running c x → s.slot.client ≠ some c) ∧
    ((∀ i, (s.calls i).phase.Quiet) → s.slot.reconnecting = false) := by
  intro s
  have h : Healthy retryable s := healthy_run reconnecting connected events
  -- All seven parts are read off the one invariant: the lock, the slot and the phases of the calls
  -- are in one of its three modes.
  refine ⟨?_, ?_, fun i => (h.traced i).shape.runsProperly, ?_, ?_, ?_, ?_⟩
  · intro i j x y hi hj
    obtain ⟨-, -, hquiet⟩ := h.isAway (i := i) (by rw [hi]; trivial)
    by_contra hne
    have := hquiet j (Ne.symm hne)
    rw [hj] at this
    exact this
  · intro i j x hi hj
    obtain ⟨hlock, hslot, -⟩ := h.isAway (i := i) (by rw [hi]; trivial)
    have htrace : (s.calls j).trace = [] := by
      have ht := h.traced j
      unfold Traced at ht
      rwa [hj] at ht
    show s.enter reconnecting j = _
    unfold Conn.enter
    rw [hlock, hj]
    simp only [hslot, if_true, Conn.move, htrace, List.append_nil]
  · intro c e hc he
    have := h.kept c _ hc he
    simpa [keeps] using this
  · intro i j c x y hi hj
    obtain ⟨-, -, hquiet⟩ := h.running hi
    by_contra hne
    have := hquiet j (Ne.symm hne)
    rw [hj] at this
    exact this
  · intro i c x hi
    obtain ⟨-, hslot, -⟩ := h.running hi
    simp [hslot]
  · intro hquiet
    rcases h.mode with ⟨-, hrec, -⟩ | @⟨k, c, x, -, hslot, -, -⟩ | @⟨k, -, -, hk, -⟩
    · exact hrec
    · rw [hslot]
    · have := hquiet k
      cases hp : (s.calls k).phase <;> simp_all [Phase.Away, Phase.Quiet]

end Protocol

end Marbles.Postgres
