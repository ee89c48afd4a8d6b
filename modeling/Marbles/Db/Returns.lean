import Marbles.Db.Alone
import Marbles.Db.Enters

/-!
# Calls that come back

Three calls can fail to return: a claim and a heartbeat whose lease walks off the
calendar, and a creation that never draws a free id. `Returns` is the condition under
which a call comes back; after calls that meet it the lock is healthy, and every call is
its transaction.

A run of calls that all came back has never poisoned the lock, and on a healthy lock a call is its
transaction. So the second implementation can be compared with transactions, and poisoning has to
be thought of nowhere else.
-/

namespace Marbles.Db

/-- The draws of the id generator contain a suffix that gives a free id. -/
def DrawsFree (t : Tables) (idPrefix : String) (draws : List String) : Prop :=
  ∃ suffix ∈ draws, s!"{idPrefix}-{suffix}" ∉ t.issue.keys

/-- What a call needs to come back. The two ways to panic are an exhausted generator of ids and a
lease off the calendar. -/
def Returns (cfg : Config) (t : Tables) : Op → Prop
  | .create spec draws _ => spec.id = none → ∀ project row, spec.project = some project →
      t.project.find project = some row → DrawsFree t row.idPrefix draws
  | .claim req now => (req.ttl cfg.week cfg.policy now).isSome = true
  | .touch id assignee now => ∀ row, t.issue.find id = some row → row.assignee = some assignee →
      (touchTtl (ActorKind.parse (row.actorKind.getD "agent")) cfg.week cfg.policy now).isSome
        = true
  | _ => True

theorem Returns.leaseDefined {cfg : Config} {t : Tables} {op : Op} (h : Returns cfg t op) :
    LeaseDefined cfg op := by
  cases op with
  | claim req now => exact h
  | _ => trivial

/-! ### The bodies that always return -/

theorem Tx.map_ne_abort {α β : Type} {g : α → β} {f : Tx α} {t : Tables}
    (h : f t ≠ .error .abort) : Tx.map g f t ≠ .error .abort := Outcome.map_ne_abort h

theorem Tx.read_ne_abort {α : Type} {q : Tables → Result α} {t : Tables}
    (h : q t ≠ .error .abort) : Tx.read q t ≠ .error .abort := Outcome.map_ne_abort h

theorem getQuery_ne_abort {t : Tables} {id : String} : getQuery id t ≠ .error .abort :=
  Outcome.ofOption_ne_abort

theorem checkFolderParent_ne_abort {t : Tables} {slug : String} {parent : Option String} :
    checkFolderParent t slug parent ≠ .error .abort := by
  cases parent with
  | none => exact Outcome.ok_ne_abort
  | some parent =>
      exact Outcome.ite_ne_abort Outcome.fail_ne_abort (Outcome.ite_ne_abort Outcome.fail_ne_abort
        (Outcome.ite_ne_abort Outcome.fail_ne_abort Outcome.ok_ne_abort))

theorem checkParent_ne_abort {t : Tables} {project : String} {parent : Option String} :
    checkParent t project parent ≠ .error .abort := by
  cases parent with
  | none => exact Outcome.ok_ne_abort
  | some parent =>
      simp only [checkParent]
      split
      · exact Outcome.fail_ne_abort
      · exact Outcome.ite_ne_abort Outcome.ok_ne_abort Outcome.fail_ne_abort

theorem storedMetadata_ne_abort {spec : NewIssue} : spec.storedMetadata ≠ .error .abort := by
  unfold NewIssue.storedMetadata
  split
  · split
    · exact Outcome.ok_ne_abort
    · exact Outcome.ok_ne_abort
  · exact Outcome.fail_ne_abort

theorem patch_apply_ne_abort {patch : IssuePatch} {policy : Policy} {now : Int} {issue : Issue} :
    patch.apply policy now issue ≠ .error .abort := by
  refine Outcome.bind_ne_abort ?_ fun _ _ => Outcome.ok_ne_abort
  unfold IssuePatch.merge
  cases patch.metadata with
  | none => exact Outcome.ok_ne_abort
  | some metadata =>
      cases metadata with
      | obj incoming => exact Outcome.ok_ne_abort
      | _ => exact Outcome.fail_ne_abort

theorem checkStatus_ne_abort {patch : IssuePatch} : patch.checkStatus ≠ .error .abort := by
  unfold IssuePatch.checkStatus
  split
  · exact Outcome.ite_ne_abort Outcome.ok_ne_abort Outcome.fail_ne_abort
  · exact Outcome.ok_ne_abort

theorem setLabelsTx_ne_abort {id : String} {labels : List String} {actor : String} {now : Int}
    {t : Tables} : setLabelsTx id labels actor now t ≠ .error .abort :=
  Outcome.bind_ne_abort Outcome.ofOption_ne_abort fun _ _ => Outcome.ok_ne_abort

theorem addLabelAlone_ne_abort {id label actor : String} {now : Int} {t : Tables} :
    addLabelAlone id label actor now t ≠ .error .abort := by
  refine Outcome.bind_ne_abort getQuery_ne_abort fun issue _ => ?_
  cases addedLabel issue.labels label with
  | none => exact Outcome.ok_ne_abort
  | some labels => exact setLabelsTx_ne_abort

theorem closeUncheckedAlone_ne_abort {id : String} {reason : Option String}
    {evidence : List Evidence} {actor : String} {now : Int} {t : Tables} :
    closeUncheckedAlone id reason evidence actor now t ≠ .error .abort := by
  refine Outcome.bind_ne_abort ?_ fun p _ => Tx.read_ne_abort getQuery_ne_abort
  exact Outcome.bind_ne_abort Outcome.ofOption_ne_abort fun _ _ => Outcome.ok_ne_abort

theorem checkBlockersQuery_ne_abort {id : String} {t : Tables} :
    checkBlockersQuery id t ≠ .error .abort := by
  unfold checkBlockersQuery
  split
  · exact Outcome.fail_ne_abort
  · exact Outcome.ok_ne_abort

theorem drawId_ne_abort {t : Tables} {idPrefix : String} {draws : List String}
    (h : DrawsFree t idPrefix draws) : drawId t idPrefix draws ≠ .error .abort := by
  obtain ⟨x, hx, hfree⟩ := h
  induction draws with
  | nil => cases hx
  | cons suffix draws ih =>
      rw [drawId]
      split
      · rename_i htaken
        refine ih ?_
        rcases List.mem_cons.mp hx with rfl | hx
        · exact absurd htaken hfree
        · exact hx
      · exact Outcome.ok_ne_abort

theorem column_ne_abort {n : Int} : column n ≠ .error .abort :=
  Outcome.ite_ne_abort Outcome.ok_ne_abort Outcome.fail_ne_abort

theorem durations_ne_abort {spans : List (String × Int × Int)} :
    MetricRows.durations spans ≠ .error .abort := by
  refine Outcome.mapM_ne_abort (fun g => ?_) _
  refine Outcome.bind_ne_abort (Outcome.mapM_ne_abort (fun _ => column_ne_abort) _) fun _ _ => ?_
  exact Outcome.bind_ne_abort column_ne_abort fun _ _ => Outcome.ok_ne_abort

theorem render_ne_abort {m : MetricRows} {now : Int} : m.render now ≠ .error .abort := by
  have hages : m.queueAges now ≠ .error .abort :=
    Outcome.mapM_ne_abort (fun g => Outcome.bind_ne_abort column_ne_abort fun _ _ =>
      Outcome.ok_ne_abort) _
  have hclaims : m.claimsActive now ≠ .error .abort := by
    refine Outcome.bind_ne_abort (Outcome.mapM_ne_abort (fun r => ?_) _) fun _ _ =>
      Outcome.ok_ne_abort
    split
    · exact Outcome.ok_ne_abort
    · exact Outcome.fail_ne_abort
  exact Outcome.bind_ne_abort hages fun _ _ => Outcome.bind_ne_abort hclaims fun _ _ =>
    Outcome.bind_ne_abort durations_ne_abort fun _ _ =>
    Outcome.bind_ne_abort durations_ne_abort fun _ _ =>
    Outcome.bind_ne_abort durations_ne_abort fun _ _ => Outcome.ok_ne_abort

/-! ### Every call -/

/-- A call that meets the condition comes back. -/
theorem alone_ne_abort {cfg : Config} {t : Tables} {op : Op} (h : Returns cfg t op) :
    alone cfg op t ≠ .error .abort := by
  unfold alone
  -- Only a draw of an id and the computation of a lease can abort; every other operation is a chain
  -- of checks that pass or fail.
  cases op with
  | ensureProject slug root idPrefix ts =>
      refine Tx.map_ne_abort ?_
      exact Outcome.ite_ne_abort Outcome.fail_ne_abort Outcome.ok_ne_abort
  | dropProject slug =>
      refine Tx.map_ne_abort ?_
      exact Outcome.ite_ne_abort Outcome.ok_ne_abort Outcome.fail_ne_abort
  | ensureFolder folder now =>
      refine Tx.map_ne_abort ?_
      unfold ensureFolderAlone
      split
      · exact Outcome.fail_ne_abort
      · split
        · exact Outcome.fail_ne_abort
        · exact Outcome.bind_ne_abort checkFolderParent_ne_abort fun _ _ => Outcome.ok_ne_abort
  | setProjectFolder project folder now =>
      refine Tx.map_ne_abort ?_
      unfold setProjectFolderTx
      split
      · exact Outcome.fail_ne_abort
      · split
        · exact Outcome.ite_ne_abort Outcome.fail_ne_abort Outcome.ok_ne_abort
        · exact Outcome.ok_ne_abort
  | create spec draws now =>
      refine Tx.map_ne_abort ?_
      unfold createAlone
      cases hproject : spec.project with
      | none => exact Outcome.fail_ne_abort
      | some project =>
          refine Outcome.bind_ne_abort Outcome.ofOption_ne_abort fun row hrow => ?_
          refine Outcome.bind_ne_abort checkParent_ne_abort fun _ _ => ?_
          refine Outcome.bind_ne_abort ?_ fun _ _ =>
            Outcome.bind_ne_abort storedMetadata_ne_abort fun _ _ => Outcome.ok_ne_abort
          cases hid : spec.id with
          | none => exact drawId_ne_abort (h hid _ _ hproject (Outcome.ofOption_eq_ok.mp hrow))
          | some id => exact Outcome.ite_ne_abort Outcome.fail_ne_abort Outcome.ok_ne_abort
  | update id patch actor now =>
      refine Tx.map_ne_abort (Outcome.bind_ne_abort checkStatus_ne_abort fun _ _ => ?_)
      refine Outcome.bind_ne_abort ?_ fun p _ => Tx.read_ne_abort getQuery_ne_abort
      exact Outcome.bind_ne_abort Outcome.ofOption_ne_abort fun _ _ =>
        Outcome.bind_ne_abort patch_apply_ne_abort fun _ _ =>
        Outcome.bind_ne_abort Outcome.ofOption_ne_abort fun _ _ => Outcome.ok_ne_abort
  | addLabel id label actor now => exact Tx.map_ne_abort addLabelAlone_ne_abort
  | removeLabel id label actor now =>
      exact Tx.map_ne_abort (Outcome.bind_ne_abort getQuery_ne_abort fun _ _ =>
        setLabelsTx_ne_abort)
  | addDep child parent actor now =>
      refine Tx.map_ne_abort ?_
      unfold addDepAlone
      split
      · exact Outcome.fail_ne_abort
      · exact Outcome.bind_ne_abort Outcome.ofOption_ne_abort fun _ _ =>
          Outcome.bind_ne_abort Outcome.ofOption_ne_abort fun _ _ =>
          Outcome.ite_ne_abort Outcome.fail_ne_abort Outcome.ok_ne_abort
  | claim req now =>
      refine Tx.map_ne_abort ?_
      obtain ⟨ttl, httl⟩ := Option.isSome_iff_exists.mp h
      unfold claimAlone
      rw [httl]
      exact Outcome.bind_ne_abort Outcome.ofOption_ne_abort fun _ _ =>
        Outcome.ite_ne_abort Outcome.fail_ne_abort Outcome.ok_ne_abort
  | touch id assignee now =>
      refine Tx.map_ne_abort (Outcome.bind_ne_abort Outcome.ofOption_ne_abort fun row hrow => ?_)
      split
      · exact Outcome.fail_ne_abort
      · rename_i hholder
        obtain ⟨ttl, httl⟩ := Option.isSome_iff_exists.mp
          (h row (Outcome.ofOption_eq_ok.mp hrow) (not_not.mp hholder))
        rw [httl]
        exact Outcome.ok_ne_abort
  | sweep now order =>
      refine Tx.map_ne_abort (Outcome.bind_ne_abort (Outcome.mapM_ne_abort (fun r => ?_) _)
        fun _ _ => Outcome.ok_ne_abort)
      unfold claimColumns
      split
      · exact Outcome.ok_ne_abort
      · exact Outcome.fail_ne_abort
  | close id reason evidence actor now =>
      refine Tx.map_ne_abort ?_
      unfold closeAlone
      split
      · exact Outcome.fail_ne_abort
      · exact Outcome.bind_ne_abort checkBlockersQuery_ne_abort fun _ _ =>
          closeUncheckedAlone_ne_abort
  | supersede id replacement actor now =>
      exact Tx.map_ne_abort (Outcome.bind_ne_abort getQuery_ne_abort fun _ _ =>
        Outcome.bind_ne_abort closeUncheckedAlone_ne_abort fun _ _ => addLabelAlone_ne_abort)
  | get id => exact Tx.map_ne_abort (Tx.read_ne_abort getQuery_ne_abort)
  | prometheusMetrics now => exact Tx.map_ne_abort (Tx.read_ne_abort render_ne_abort)
  | _ => exact Outcome.ok_ne_abort

/-- The tables a call leaves: what its transaction wrote, or what was there. -/
def next (cfg : Config) (op : Op) (t : Tables) : Tables :=
  match alone cfg op t with
  | .ok (_, t') => t'
  | .error _ => t

/-- A call that meets the condition finds the lock healthy and leaves it so. -/
theorem step_new {cfg : Config} {t : Tables} {op : Op} (h : Returns cfg t op) :
    step cfg op (.new t) = .new (next cfg op t) := by
  have hreturns := alone_ne_abort h
  rw [step, perform_eq h.leaseDefined, next]
  cases hop : alone cfg op t with
  | ok p => rfl
  | error e =>
      cases e with
      | fail e => rfl
      | abort => exact absurd hop hreturns

/-- Every call of the sequence comes back. -/
def Returning (cfg : Config) (ops : List Op) (s : Locked Tables) : Prop :=
  Machine.Meets (step cfg) (fun s op => Returns cfg s.state op) ops s

/-- After calls that came back the lock is healthy. -/
theorem run_healthy {cfg : Config} {ops : List Op} {s : Locked Tables}
    (hs : s.poisoned = false) (h : Returning cfg ops s) : (run cfg ops s).poisoned = false := by
  refine Machine.invariant_of_meets (fun s : Locked Tables => s.poisoned = false)
    (fun s op hs hop => ?_) ops hs h
  rw [Locked.eq_new hs, step_new hop]
  rfl

/-! ### A poisoned lock -/

/-- A method that returns no value once the lock is poisoned: it enters a scope, or fails
before it does. -/
structure Stuck {α : Type} (cfg : Config) (m : DbM α) : Prop where
  error : ∀ {s : Locked Tables}, s.poisoned = true → ∃ e, runM cfg m s = (.error e, s)

namespace Stuck

variable {cfg : Config} {α β : Type}

theorem call (c : Scope) : Stuck cfg (Db.call c) := ⟨fun h => ⟨.abort, exec_poisoned h c⟩⟩

theorem throw (e : Fault Error) : Stuck cfg (MonadExcept.throw e : DbM α) := ⟨fun _ => ⟨e, rfl⟩⟩

theorem bind {m : DbM α} (h : Stuck cfg m) (k : α → DbM β) : Stuck cfg (m >>= k) :=
  ⟨fun hs => by
    obtain ⟨e, he⟩ := h.error hs
    exact ⟨e, Prog.runE_bind_error he⟩⟩

theorem map {m : DbM α} (h : Stuck cfg m) (g : α → β) : Stuck cfg (g <$> m) := by
  rw [map_eq_pure_bind]
  exact h.bind _

/-- What comes after a check made without the lock. -/
theorem check {r : Result α} {k : α → DbM β} (hk : ∀ a, Stuck cfg (k a)) :
    Stuck cfg (liftResult r >>= k) := by
  cases r with
  | ok a => exact hk a
  | error e => exact ⟨fun _ => ⟨e, rfl⟩⟩

theorem ite {c : Prop} [Decidable c] {m m' : DbM α} (h : Stuck cfg m) (h' : Stuck cfg m') :
    Stuck cfg (if c then m else m') := by
  split
  · exact h
  · exact h'

end Stuck

theorem stuck_method (cfg : Config) (op : Op) : Stuck cfg (method cfg op) := by
  cases op with
  | ensureFolder folder now => exact .bind (.ite (.throw _) (.ite (.throw _) (.call _))) _
  | create spec draws now =>
      refine .map ?_ _
      unfold create
      cases spec.project with
      | none => exact .throw _
      | some project => exact .call _
  | get id => exact .map (.call _) _
  | ready project now => exact .map (.bind (.call _) _) _
  | update id patch actor now => exact .map (.check fun _ => .bind (.call _) _) _
  | addLabel id label actor now => exact .bind (.bind (.call _) _) _
  | removeLabel id label actor now => exact .bind (.bind (.call _) _) _
  | addDep child parent actor now => exact .bind (.ite (.throw _) (.call _)) _
  | claim req now =>
      refine .map ?_ _
      unfold claim
      split
      · exact .throw _
      · exact .call _
  | close id reason evidence actor now => exact .map (.ite (.throw _) (.bind (.call _) _)) _
  | supersede id replacement actor now => exact .bind (.bind (.call _) _) _
  | ensureProject | setProjectFolder | markEventDelivered | markEventFailed | removeDep
  | release => exact .bind (.call _) _
  | _ => exact .map (.call _) _

/-- A call on a poisoned lock returns no value and changes nothing. -/
theorem perform_poisoned {cfg : Config} {op : Op} {s : Locked Tables} (h : s.poisoned = true) :
    ∃ e, perform cfg op s = (.error e, s) := (stuck_method cfg op).error h

/-- A call that returned a value found the lock healthy and is what its transaction did. -/
theorem alone_of_perform {cfg : Config} {op : Op} {s s' : Locked Tables} {reply : Reply}
    (hlease : LeaseDefined cfg op) (h : perform cfg op s = (.ok reply, s')) :
    alone cfg op s.state = .ok (reply, s'.state) ∧ s'.poisoned = false := by
  cases hp : s.poisoned with
  | true =>
      obtain ⟨e, he⟩ := @perform_poisoned cfg op s hp
      rw [he] at h
      cases h
  | false =>
      rw [Locked.eq_new hp, perform_eq hlease] at h
      cases halone : alone cfg op s.state with
      | ok p =>
          rw [halone] at h
          cases h
          exact ⟨rfl, rfl⟩
      | error e =>
          rw [halone] at h
          cases e <;> cases h

end Marbles.Db
