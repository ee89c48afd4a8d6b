import Marbles.Postgres.Connection

/-!
# Transactions over a connection that can be lost

`PostgresStore::transaction` is a call of `with_reconnect` whose operation begins a
transaction, takes the tenant's lock, runs a body and commits. The connection may be lost
anywhere on that way. Before COMMIT is sent the server rolls back; a COMMIT that loses the
connection may have been applied or not. The flag `commit_attempted`, read by the retry
predicate right after the operation, is part of the failure here.

The events of the connection are refined by where in a transaction they fall. The invariant
relates the trace of a call with the database: what was committed is in the trace, at most once
for each call. A lost answer to COMMIT is reported as an error, because an attempt that may have
been applied must not be tried again.
-/

namespace Marbles.Postgres

variable {ι T Err σ : Type}

/-- Where an attempt loses its connection, with the error this raises. The place decides whether the
server may have committed. -/
inductive Loss (Err : Type) where
  | beginning (e : Err)
  | locking (e : Err)
  | inBody (e : Err)
  | beforeCommit (e : Err)
  | duringCommit (e : Err) (applied : Bool)

/-- A failed attempt: its error, `commit_attempted` when it failed, and whether the server has
committed nonetheless. The flag travels with the error, since the predicate that reads it sees
nothing else of the attempt. -/
structure Failure (Err : Type) where
  error : Err
  commitAttempted : Bool
  applied : Bool

/-- What a transaction does to the database, and its result. -/
abbrev Body (σ T Err : Type) := σ → Except Err (T × σ)

/-- One run of the operation: what it returns, and the database after it. A commit whose answer is
lost has been made or not, and the caller cannot tell. -/
def attempt (f : Body σ T Err) (loss : Option (Loss Err)) (db : σ) : Except (Failure Err) T × σ :=
  match loss with
  | some (.beginning e) | some (.locking e) | some (.inBody e) => (.error ⟨e, false, false⟩, db)
  | _ =>
      match f db with
      | .error e => (.error ⟨e, false, false⟩, db)
      | .ok (v, db') =>
          match loss with
          | some (.beforeCommit e) => (.error ⟨e, true, false⟩, db)
          | some (.duringCommit e applied) =>
              (.error ⟨e, true, applied⟩, if applied then db' else db)
          | _ => (.ok v, db')

/-- Has the attempt been committed? -/
def committed : Except (Failure Err) T → Bool
  | .ok _ => true
  | .error f => f.applied

/-- The database after a body that commits. -/
def effect (f : Body σ T Err) (db : σ) : σ :=
  match f db with
  | .ok (_, db') => db'
  | .error _ => db

/-- An attempt has the effect of its body when it is committed, and none otherwise. -/
theorem attempt_state (f : Body σ T Err) (loss : Option (Loss Err)) (db : σ) :
    (attempt f loss db).2 = if committed (attempt f loss db).1 then effect f db else db := by
  unfold attempt effect
  rcases loss with _ | ⟨e⟩ | ⟨e⟩ | ⟨e⟩ | ⟨e⟩ | ⟨e, applied⟩
  all_goals
    cases f db with
    | error e => rfl
    | ok p => rfl

/-- Nothing is committed before COMMIT is attempted. -/
theorem attempt_flag {f : Body σ T Err} {loss : Option (Loss Err)} {db : σ} {e : Failure Err}
    (h : (attempt f loss db).1 = .error e) (hflag : e.commitAttempted = false) :
    e.applied = false := by
  unfold attempt at h
  rcases loss with _ | ⟨e⟩ | ⟨e⟩ | ⟨e⟩ | ⟨e⟩ | ⟨e, applied⟩
  all_goals
    cases hf : f db with
    | error e =>
        simp only [hf] at h
        cases h
        rfl
    | ok p =>
        simp only [hf] at h
        cases h <;> first | rfl | cases hflag

section World

variable [DecidableEq ι] (isDisconnect : Err → Bool) (reconnecting : Err)
  (body : ι → Bool → Body σ T Err)

/-- The predicate `transaction` hands to `with_retry`. It is asked after the attempt has failed and
before anything is dialed. -/
def mayRetry (e : Failure Err) : Bool := !e.commitAttempted && isDisconnect e.error

/-- Transactions over one connection, the database, and the attempts committed so far. -/
structure World (ι T Err σ : Type) where
  conn : Conn ι T (Failure Err)
  db : σ
  log : List (ι × Bool)

/-- What a transaction can do next. The body may differ from the first attempt to the second. A
second attempt may meet another database. -/
inductive TxEvent (ι Err : Type) where
  | enter (i : ι)
  | attempt (i : ι) (loss : Option (Loss Err))
  | dial (i : ι) (failure : Option Err)
  | relock (i : ι)

namespace World

/-- The connection decides when a body runs; the database changes only in `attempt`, and the log
records the attempts that were committed. -/
def step : TxEvent ι Err → World ι T Err σ → World ι T Err σ
  | .enter i, w => { w with conn := w.conn.enter ⟨reconnecting, false, false⟩ i }
  | .attempt i loss, w =>
      match (w.conn.calls i).phase with
      | .running _ second =>
          let (r, db) := Postgres.attempt (body i second) loss w.db
          ⟨w.conn.finish (mayRetry isDisconnect) i r, db,
            if committed r then w.log ++ [(i, second)] else w.log⟩
      | _ => w
  | .dial i failure, w => { w with conn := w.conn.dial i (failure.map fun e => ⟨e, false, false⟩) }
  | .relock i, w => { w with conn := w.conn.relock i }

/-- Before the first transaction. -/
def opened (connected : Bool) (db : σ) : World ι T Err σ := ⟨.opened connected, db, []⟩

/-- Any order of the events of any callers. -/
def run (events : List (TxEvent ι Err)) (w : World ι T Err σ) : World ι T Err σ :=
  Machine.run (step isDisconnect reconnecting body) events w

end World

/-- The database after the bodies of these attempts, one after the other. -/
def replay (log : List (ι × Bool)) (db : σ) : σ :=
  log.foldl (fun db entry => effect (body entry.1 entry.2) db) db

/-! ### What is committed is in the trace -/

/-- A run that was committed. -/
def CallEvent.isCommit : CallEvent T (Failure Err) → Bool
  | .ran _ r => committed r
  | .dialed _ => false

/-- The retry predicate refuses whatever may have been committed. This is the only thing the result
asks of the predicate. -/
def Honest (trace : List (CallEvent T (Failure Err))) : Prop :=
  ∀ c e, .ran c (.error e) ∈ trace → e.commitAttempted = false → e.applied = false

theorem NoRun.countP_isCommit {first : List (CallEvent T (Failure Err))} (h : NoRun first) :
    first.countP CallEvent.isCommit = 0 := by
  rw [List.countP_eq_zero]
  intro e he
  have := h e he
  cases e with
  | dialed r => simp [CallEvent.isCommit]
  | ran c r => simp [CallEvent.isRan] at this

variable {isDisconnect}

/-- A call commits at most once. -/
theorem Shape.countP_isCommit {trace : List (CallEvent T (Failure Err))}
    (h : Shape (mayRetry isDisconnect) trace) (hh : Honest trace) :
    trace.countP CallEvent.isCommit ≤ 1 := by
  have hretry : ∀ c e, .ran c (.error e) ∈ trace → mayRetry isDisconnect e = true →
      e.applied = false := by
    intro c e hmem he
    refine hh c e hmem ?_
    simp only [mayRetry, Bool.and_eq_true, Bool.not_eq_true'] at he
    exact he.1
  cases h with
  | none h => rw [h.countP_isCommit]; omega
  | @once first c r h =>
      rw [List.countP_append, h.countP_isCommit, List.countP_cons, List.countP_nil]
      split <;> omega
  | @lost first c e r h he =>
      have happlied := hretry c e (by simp) he
      simp [List.countP_append, h.countP_isCommit, CallEvent.isCommit, committed, happlied]
  | @twice first c c' e r h he =>
      have happlied := hretry c e (by simp) he
      have hfirst : CallEvent.isCommit (.ran c (.error e) : CallEvent T (Failure Err)) = false :=
        happlied
      have hdial : CallEvent.isCommit (.dialed (.ok c') : CallEvent T (Failure Err)) = false := rfl
      rw [List.countP_append, h.countP_isCommit, List.countP_cons, List.countP_cons,
        List.countP_cons, List.countP_nil, hfirst, hdial]
      split <;> simp

/-- A call that has returned a value has committed. -/
theorem one_le_countP_isCommit {call : Call T (Failure Err)} {v : T}
    (h : Traced (mayRetry isDisconnect) call) (hv : call.phase = .returned (.ok v)) :
    1 ≤ call.trace.countP CallEvent.isCommit := by
  unfold Traced at h
  rw [hv] at h
  obtain ⟨before, c, htrace⟩ := h.2 v rfl
  rw [htrace, List.countP_append]
  simp [CallEvent.isCommit, committed]

/-! ### The invariant -/

variable (isDisconnect) in
/-- What holds in every reachable state: the log of committed attempts is what the traces
tell, and the database is what these attempts make of the first one. -/
structure Sane (db₀ : σ) (w : World ι T Err σ) : Prop where
  healthy : Healthy (mayRetry isDisconnect) w.conn
  honest : ∀ i, Honest (w.conn.calls i).trace
  counted : ∀ i, w.log.countP (fun e => e.1 = i) = (w.conn.calls i).trace.countP CallEvent.isCommit
  replayed : w.db = replay body w.log db₀

namespace Sane

variable {body} {db₀ : σ} {w : World ι T Err σ}

/-- An event in which no operation runs. -/
theorem quiet (h : Sane isDisconnect body db₀ w) {conn : Conn ι T (Failure Err)}
    (hhealthy : Healthy (mayRetry isDisconnect) conn) (hconn : w.conn.Extends conn) :
    Sane isDisconnect body db₀ { w with conn := conn } := by
  refine ⟨hhealthy, fun i c e hmem => ?_, fun i => ?_, h.replayed⟩
  · obtain ⟨extra, hextra, htrace⟩ := hconn i
    rw [show ((World.conn { w with conn := conn }).calls i).trace = _ from htrace] at hmem
    rcases List.mem_append.mp hmem with hmem | hmem
    · exact h.honest i c e hmem
    · exact absurd (hextra _ hmem) (by simp [CallEvent.isRan])
  · obtain ⟨extra, hextra, htrace⟩ := hconn i
    show _ = (conn.calls i).trace.countP _
    rw [htrace, List.countP_append, hextra.countP_isCommit]
    exact h.counted i

theorem attempt (h : Sane isDisconnect body db₀ w) (i : ι) (loss : Option (Loss Err)) :
    Sane isDisconnect body db₀ (w.step isDisconnect reconnecting body (.attempt i loss)) := by
  unfold World.step
  dsimp only
  split
  · rename_i c second hi
    have hstate := attempt_state (body i second) loss w.db
    have hflag : ∀ e, (Postgres.attempt (body i second) loss w.db).1 = .error e →
        e.commitAttempted = false → e.applied = false := fun e => attempt_flag
    cases hrun : Postgres.attempt (body i second) loss w.db with
    | mk r db =>
        rw [hrun] at hstate hflag
        have htrace := w.conn.finish_trace (mayRetry isDisconnect) hi r
        -- The attempt commits or leaves the database as it was, whatever is lost, and the trace
        -- says which of the two.
        refine ⟨h.healthy.finish i r, fun j c' e hmem => ?_, fun j => ?_, ?_⟩
        · rw [htrace] at hmem
          split at hmem
          · rcases List.mem_append.mp hmem with hmem | hmem
            · exact h.honest _ c' e hmem
            · obtain ⟨-, hr⟩ := CallEvent.ran.inj (List.mem_singleton.mp hmem)
              exact hflag e hr.symm
          · exact h.honest j c' e hmem
        · rw [htrace]
          by_cases hj : j = i
          · subst hj
            rw [if_pos rfl, List.countP_append, ← h.counted j]
            cases hr : committed r <;> simp [hr, CallEvent.isCommit]
          · rw [if_neg hj, ← h.counted j]
            cases hr : committed r
            · rfl
            · simp [Ne.symm hj]
        · show db = _
          rw [show db = _ from hstate]
          cases hr : committed r
          · exact h.replayed
          · simp [replay, h.replayed]
  · exact h

theorem step (h : Sane isDisconnect body db₀ w) (event : TxEvent ι Err) :
    Sane isDisconnect body db₀ (w.step isDisconnect reconnecting body event) := by
  cases event with
  | enter i => exact h.quiet (h.healthy.enter i) (w.conn.extends_enter _ i)
  | attempt i loss => exact h.attempt reconnecting i loss
  | dial i failure => exact h.quiet (h.healthy.dial i _) (w.conn.extends_dial i _)
  | relock i => exact h.quiet (h.healthy.relock i) (w.conn.extends_relock i)

end Sane

theorem sane_opened (connected : Bool) (db : σ) :
    Sane isDisconnect body db (World.opened connected db : World ι T Err σ) :=
  ⟨healthy_opened connected, fun _ _ _ hmem => (List.not_mem_nil hmem).elim, fun _ => rfl, rfl⟩

/-- However the connection is lost, during the attempts of any number of calls: the database is what
the committed attempts make of it, in order; a call commits at most one attempt, and exactly one if
it returns a value. A call that returns an error may have committed too: the answer to its COMMIT
was lost. -/
theorem transaction_commits_once (isDisconnect : Err → Bool) (reconnecting : Err)
    (body : ι → Bool → Body σ T Err) (connected : Bool) (db : σ) (events : List (TxEvent ι Err)) :
    let w := World.run isDisconnect reconnecting body events (.opened connected db)
    w.db = replay body w.log db ∧
      ∀ i, w.log.countP (fun e => e.1 = i) ≤ 1 ∧
        ∀ v, (w.conn.calls i).phase = .returned (.ok v) → w.log.countP (fun e => e.1 = i) = 1 := by
  intro w
  have h : Sane isDisconnect body db w :=
    Machine.invariant (Sane isDisconnect body db) (fun _ _ h => h.step reconnecting _) events
      (sane_opened body connected db)
  refine ⟨h.replayed, fun i => ?_⟩
  have hle := (h.healthy.traced i).shape.countP_isCommit (h.honest i)
  rw [h.counted i]
  refine ⟨hle, fun v hv => ?_⟩
  have hge := one_le_countP_isCommit (h.healthy.traced i) hv
  omega

end World

end Marbles.Postgres
