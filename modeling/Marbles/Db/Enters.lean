import Marbles.Db.Ops

/-!
# The scopes a call enters

`Enters op s` lists the lock scopes the method of a call may enter, with their
arguments. What all of these preserve, the call preserves: alone or between the scopes
of other callers, and also when it fails halfway or panics.

The arguments of the scopes are listed as well, with what is known of them by then: a call that
closes an issue has some evidence, for example. Poisoning is treated at the end, where it turns
out that a poisoned lock is a state nothing leaves.
-/

namespace Marbles.Db

/-- The scopes a call may enter. It is an upper bound: a call need not enter all of these. What none
of these scopes does, the call does not do either. -/
def Enters : Op → Scope → Prop
  | .ensureProject slug root idPrefix ts, s => s = .ensureProject slug root idPrefix ts
  | .dropProject slug, s => s = .dropProject slug
  | .projects, s => s = .projects
  | .ensureFolder folder now, s =>
      s = .ensureFolder (trim folder.slug) (trim folder.name) (trimmed folder.parent) now
  | .setProjectFolder project folder now, s => s = .setProjectFolder project folder now
  | .folderView, s => s = .folderView
  | .pendingEvents now limit, s => s = .pendingEvents now limit
  | .markEventDelivered seq now, s => s = .markEventDelivered seq now
  | .markEventFailed seq nextAttemptAt error, s => s = .markEventFailed seq nextAttemptAt error
  | .create spec draws now, s => ∃ project available, s = .create spec project available draws now
  | .get id, s => s = .get id
  | .list project all onlyId, s => s = .list project all onlyId
  | .ready project now, s => s = .readyIds project now ∨ ∃ id, s = .get id
  | .update id patch actor now, s => s = .update id patch actor now ∨ s = .get id
  | .addLabel id _ actor now, s => s = .get id ∨ ∃ labels, s = .setLabels id labels actor now
  | .removeLabel id _ actor now, s => s = .get id ∨ ∃ labels, s = .setLabels id labels actor now
  | .addDep child parent actor now, s => s = .addDep child parent actor now
  | .removeDep child parent actor now, s => s = .removeDep child parent actor now
  | .claim req now, s => ∃ ttl, s = .claim req ttl now
  | .touch id assignee now, s => s = .touch id assignee now
  | .release id actor now, s => s = .release id actor now
  | .sweep now order, s => s = .sweep now order
  | .close id reason evidence actor now, s =>
      s = .checkBlockers id ∨
      (evidence ≠ [] ∧ s = .closeUnchecked id reason evidence actor now) ∨ s = .get id
  | .supersede id replacement actor now, s =>
      (∃ i, s = .get i) ∨ s = .closeUnchecked id (some s!"superseded by {replacement}")
        [Evidence.ack s!"superseded by {replacement}"] actor now ∨
      ∃ labels, s = .setLabels id labels actor now
  | .history id, s => s = .history id
  | .stats, s => s = .stats
  | .prometheusMetrics now, s => s = .prometheusMetrics now

/-- A method that only enters scopes that satisfy `p`. -/
structure Within {ε α : Type} (p : Scope → Prop) (m : ExceptT ε (Prog DbI) α) : Prop where
  only : Prog.Only (I := DbI) p m.run

namespace Within

variable {ε α β : Type} {p : Scope → Prop}

theorem call {s : Scope} (h : p s) : Within p (Db.call s) := ⟨⟨h, fun _ => trivial⟩⟩

theorem liftResult (r : Result α) : Within p (Db.liftResult r) := ⟨trivial⟩

theorem pure (a : α) : Within p (Pure.pure a : ExceptT ε (Prog DbI) α) := ⟨trivial⟩

theorem throw (e : ε) : Within p (MonadExcept.throw e : ExceptT ε (Prog DbI) α) := ⟨trivial⟩

theorem bind {m : ExceptT ε (Prog DbI) α} {f : α → ExceptT ε (Prog DbI) β} (hm : Within p m)
    (hf : ∀ a, Within p (f a)) : Within p (m >>= f) := by
  refine ⟨Prog.Only.bind hm.only fun r => ?_⟩
  cases r with
  | ok a => exact (hf a).only
  | error e => exact trivial

theorem map {m : ExceptT ε (Prog DbI) α} (f : α → β) (hm : Within p m) :
    Within p (f <$> m) := by
  rw [map_eq_pure_bind]
  exact hm.bind fun a => .pure _

theorem ite {c : Prop} [Decidable c] {m m' : ExceptT ε (Prog DbI) α} (hm : Within p m)
    (hm' : Within p m') : Within p (if c then m else m') := by
  split
  · exact hm
  · exact hm'

theorem mapM {f : α → ExceptT ε (Prog DbI) β} (hf : ∀ a, Within p (f a)) (xs : List α) :
    Within p (xs.mapM f) := by
  induction xs with
  | nil =>
      rw [List.mapM_nil]
      exact .pure _
  | cons x xs ih =>
      rw [List.mapM_cons]
      exact (hf x).bind fun y => ih.bind fun ys => .pure _

theorem unit {m : DbM Unit} (h : Within p m) :
    Within p (do m; Pure.pure Reply.unit : DbM Reply) := h.bind fun _ => .pure _

end Within

theorem within_addLabel {p : Scope → Prop} {id label actor : String} {now : Int}
    (hget : p (.get id)) (hset : ∀ labels, p (.setLabels id labels actor now)) :
    Within p (addLabel id label actor now) := by
  refine (Within.call hget).bind fun issue => ?_
  split
  · exact .call (hset _)
  · exact .pure _

theorem within_closeUnchecked {p : Scope → Prop} {id : String} {reason : Option String}
    {evidence : List Evidence} {actor : String} {now : Int}
    (hclose : p (.closeUnchecked id reason evidence actor now)) (hget : p (.get id)) :
    Within p (closeUnchecked id reason evidence actor now) :=
  (Within.call hclose).bind fun _ => .call hget

/-- A method enters only the scopes listed for its call. -/
theorem method_enters (cfg : Config) (op : Op) : Within (Enters op) (method cfg op) := by
  -- Scope by scope along the text of the method; a check before the first scope enters none.
  cases op with
  | ensureFolder folder now =>
      exact .unit (.ite (.throw _) (.ite (.throw _) (.call rfl)))
  | create spec draws now =>
      refine .map _ ?_
      unfold create
      split
      · exact .throw _
      · exact .call ⟨_, _, rfl⟩
  | ready project now =>
      exact .map _ ((Within.call (Or.inl rfl)).bind fun ids =>
        .mapM (f := get) (fun id => .call (Or.inr ⟨id, rfl⟩)) ids)
  | update id patch actor now =>
      exact .map _ ((Within.liftResult _).bind fun _ =>
        (Within.call (Or.inl rfl)).bind fun _ => .call (Or.inr rfl))
  | addLabel id label actor now =>
      exact .unit (within_addLabel (Or.inl rfl) fun labels => Or.inr ⟨labels, rfl⟩)
  | removeLabel id label actor now =>
      exact .unit ((Within.call (Or.inl rfl)).bind fun _ => .call (Or.inr ⟨_, rfl⟩))
  | addDep child parent actor now => exact .unit (.ite (.throw _) (.call rfl))
  | claim req now =>
      refine .map _ ?_
      unfold claim
      split
      · exact .throw _
      · exact .call ⟨_, rfl⟩
  | close id reason evidence actor now =>
      refine .map _ ?_
      unfold close
      split
      · exact .throw _
      · rename_i hempty
        have hevidence : evidence ≠ [] := fun h => hempty (by rw [h]; rfl)
        exact (Within.call (Or.inl rfl)).bind fun _ =>
          within_closeUnchecked (Or.inr (Or.inl ⟨hevidence, rfl⟩)) (Or.inr (Or.inr rfl))
  | supersede id replacement actor now =>
      refine .unit ((Within.call (Or.inl ⟨_, rfl⟩)).bind fun _ => ?_)
      refine Within.bind ?_ fun _ => ?_
      · exact within_closeUnchecked (Or.inr (Or.inl rfl)) (Or.inl ⟨_, rfl⟩)
      · exact within_addLabel (Or.inl ⟨_, rfl⟩) fun labels => Or.inr (Or.inr ⟨labels, rfl⟩)
  | ensureProject | setProjectFolder | markEventDelivered | markEventFailed | removeDep
  | release => exact .unit (.call rfl)
  | _ => exact .map _ (.call rfl)

/-- What the scopes of a call preserve, the call preserves. -/
theorem step_invariant {cfg : Config} {op : Op} {inv : Locked Tables → Prop}
    (h : ∀ c s, Enters op c → inv s → inv (c.exec cfg s).2) {s : Locked Tables} (hs : inv s) :
    inv (step cfg op s) :=
  Prog.Only.run_invariant (I := DbI) h (method_enters cfg op).only hs

/-! ### A poisoned lock -/

theorem exec_poisoned {cfg : Config} {l : Locked Tables} (h : l.poisoned = true) (c : Scope) :
    c.exec cfg l = (.error .abort, l) := by
  cases c with
  | projects | folderView | pendingEvents | get | list | readyIds | remoteDependencies
  | checkBlockers | history | stats | prometheusMetrics => exact Locked.query_poisoned _ h
  | _ => exact Locked.tx_poisoned _ h

/-- Once the lock is poisoned nothing changes any more. -/
theorem step_poisoned {cfg : Config} {op : Op} {s : Locked Tables} (h : s.poisoned = true) :
    step cfg op s = s := by
  refine @step_invariant cfg op (fun s' => s' = s) (fun c s' _ hs' => ?_) s rfl
  subst hs'
  rw [exec_poisoned h]

end Marbles.Db
