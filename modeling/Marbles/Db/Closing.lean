import Marbles.Db.Dag
import Marbles.Db.Enters
import Marbles.Db.Rows

/-!
# Closing among other callers

`close` checks its blockers in one lock scope and commits in another. What the check saw
still holds at the commit as long as nobody opened a blocker in between: no edge to an
open issue was added, and no dependency was reopened. Creating an issue cannot open one,
because in a well-formed graph nobody depends on an issue that is not there.

A caller is a thread running any program over lock scopes; its trace tells where it is.

The rule for a thread is that of `System`: what its trace implies is preserved by the scopes of
the others, as long as each meets the condition at the moment it runs. The condition names the
scopes that are about to open a blocker of this issue, by their arguments and the tables they
meet, whether or not they will be refused; all others are shown to keep what the check saw.
-/

namespace Marbles.Db

/-- Everything `id` depends on is closed or absent. -/
def Unblocked (t : Tables) (id : String) : Prop := ∀ p, t.DependsOn id p → t.isOpen p = false

/-- The scopes that give `id` an open dependency: an edge to an open issue, or a status
other than closed for an issue that `id` depends on. -/
def OpensBlocker (t : Tables) (id : String) : Scope → Prop
  | .addDep child parent _ _ => child = id ∧ t.isOpen parent = true
  | .update p patch _ _ => t.DependsOn id p ∧ ∃ status ∈ patch.status, status ≠ "closed"
  | _ => False

theorem unblocked_iff {t : Tables} {id : String} : Unblocked t id ↔ t.openBlockers id = [] :=
  Tables.openBlockers_eq_nil.symm

/-! ### What a scope does to the blockers -/

/-- An issue stays closed or absent when no row turns from closed to open. -/
theorem isOpen_of_find {t t' : Tables} {p : String} (h : t.isOpen p = false)
    (hfind : ∀ row', t'.issue.find p = some row' → row'.status ≠ .closed →
      ∃ row, t.issue.find p = some row ∧ row.status ≠ .closed) : t'.isOpen p = false := by
  rw [← Bool.not_eq_true, Tables.isOpen_iff]
  rintro ⟨row', hrow', hopen⟩
  rw [← Bool.not_eq_true, Tables.isOpen_iff] at h
  exact h (hfind row' hrow' hopen)

theorem dependsOn_of_dep {t t' : Tables} {a b : String} (hdep : t'.dep = t.dep)
    (h : t'.DependsOn a b) : t.DependsOn a b := by
  rwa [Tables.DependsOn, hdep] at h

/-- An edge was there before, or it is the one that is added. -/
theorem Effect.edge {cfg : Config} {t t' : Tables} {s : Scope} {a b : String}
    (he : Effect cfg t s t') (h : t'.DependsOn a b) :
    t.DependsOn a b ∨ b ∈ t.issue.keys ∧ ∃ actor now, s = .addDep a b actor now := by
  cases he with
  | idle _ hdep | ensureProject _ hdep | create _ _ _ _ _ hdep | update _ _ _ _ hdep
  | setLabels _ hdep | addRemoteDep _ hdep | claim _ _ _ hdep | touch _ _ _ hdep
  | release _ hdep | sweep _ hdep | closeUnchecked _ _ hdep =>
      exact Or.inl (dependsOn_of_dep hdep h)
  | dropProject _ hdep | removeDep _ hdep =>
      rw [Tables.DependsOn, hdep] at h
      obtain ⟨v, hv, -⟩ := Table.mem_keys_filter.mp h
      exact Or.inl (Table.mem_keys_of_find hv)
  | addDep _ hparent _ _ hdep =>
      rw [Tables.DependsOn, hdep] at h
      refine (Table.mem_keys_insert.mp h).symm.imp_right fun heq => ?_
      obtain ⟨rfl, rfl⟩ := Prod.mk.inj heq
      exact ⟨hparent, _, _, rfl⟩

/-- An issue that is closed stays so, unless an update asks for something else. -/
theorem Effect.stays_closed {cfg : Config} {t t' : Tables} {s : Scope} {p : String}
    (he : Effect cfg t s t') (hp : p ∈ t.issue.keys) (hclosed : t.isOpen p = false)
    (hs : ∀ patch actor now, s = .update p patch actor now →
      ∀ status ∈ patch.status, status = "closed") : t'.isOpen p = false := by
  refine isOpen_of_find hclosed fun row' hrow' hopen => ?_
  cases he.row hrow' with
  | kept hrow | setLabels hrow | addDep hrow | addRemoteDep hrow | claim _ hrow | touch hrow
  | release hrow | sweep hrow => exact ⟨_, hrow, hopen⟩
  | create hnone => exact absurd hp (Table.find_eq_none.mp hnone)
  | closeUnchecked => exact absurd rfl hopen
  | @update patch actor now row next status hrow hnext hstatus =>
      refine ⟨row, hrow, fun hrowclosed => hopen ?_⟩
      rcases updated_status hnext hstatus with ⟨-, hsame⟩ | hpatch
      · exact hsame.trans hrowclosed
      · exact Status.asStr_eq_closed.mp (hs patch actor now rfl _ hpatch)

theorem Unblocked.effect {cfg : Config} {t t' : Tables} {s : Scope} {id : String}
    (h : Unblocked t id) (hwf : WellFormed t) (he : Effect cfg t s t')
    (hs : ¬ OpensBlocker t id s) : Unblocked t' id := by
  intro p hp
  rcases he.edge hp with hold | ⟨hkey, actor, now, rfl⟩
  · refine he.stays_closed (hwf.endpoints hold).2 (h p hold) fun patch actor now heq st hst => ?_
    subst heq
    by_contra hne
    exact hs ⟨hold, st, hst, hne⟩
  · refine he.stays_closed hkey (Bool.not_eq_true _ ▸ fun hopen => hs ⟨rfl, hopen⟩) ?_
    intro patch actor now heq
    cases heq

/-! ### The two scopes of `close` -/

/-- The answer of a check that passed. -/
def passed (id : String) : Event DbI := ⟨.checkBlockers id, .ok ()⟩

/-- The commits of a program directly follow a check that passed. -/
def CommitsChecked (id : String) (s : Scope) (tr : List (Event DbI)) : Prop :=
  ∀ i reason evidence actor now, s = .closeUnchecked i reason evidence actor now →
    i = id ∧ tr.getLast? = some (passed id)

theorem close_spec (id : String) (reason : Option String) (evidence : List Evidence)
    (actor : String) (now : Int) :
    Prog.Spec (I := DbI) (CommitsChecked id) (fun _ _ => True)
      (returns (close id reason evidence actor now)) [] := by
  by_cases hempty : evidence.isEmpty = true
  · have hclose : close id reason evidence actor now = throw (.fail (.noEvidence id)) := by
      rw [close, if_pos hempty]
    rw [hclose]
    trivial
  · have hclose : close id reason evidence actor now = (do
        call (.checkBlockers id)
        closeUnchecked id reason evidence actor now) := by
      rw [close, if_neg hempty]
    rw [hclose]
    refine ⟨fun _ _ _ _ _ h => (nomatch h), fun r => ?_⟩
    cases r with
    | error e => exact trivial
    | ok u =>
        refine ⟨?_, fun r => ?_⟩
        · intro i reason' evidence' actor' now' h
          cases h
          exact ⟨rfl, rfl⟩
        · cases r with
          | error e => exact trivial
          | ok u => exact ⟨fun _ _ _ _ _ h => (nomatch h), fun r => by cases r <;> exact trivial⟩

theorem checkBlockersQuery_ok {t : Tables} {id : String} {u : Unit}
    (h : checkBlockersQuery id t = .ok u) : Unblocked t id := by
  rw [unblocked_iff]
  unfold checkBlockersQuery at h
  cases hb : t.openBlockers id with
  | nil => rfl
  | cons blocker rest =>
      rw [hb] at h
      cases h

/-- A check passes only when nothing blocks. -/
theorem checkBlockers_passed {cfg : Config} {id : String} {l : Locked Tables}
    (h : ((Scope.checkBlockers id).exec cfg l).1 = .ok ()) : Unblocked l.state id := by
  have hcheck : checkBlockersQuery id l.state = .ok () := Locked.query_answered h
  exact checkBlockersQuery_ok hcheck

section Callers

variable {ι : Type} [DecidableEq ι]

/-- The callers of one store, each in the middle of its program. -/
abbrev Callers (ι : Type) := System ι DbI (Locked Tables) Bool

/-- Caller `c` has passed the check of `id` and has not committed yet. -/
def BetweenScopes (w : Callers ι) (c : ι) (id : String) : Prop :=
  (w.threads c).trace.getLast? = some (passed id)

/-- While `c` is between its two scopes, the step of another caller opens no blocker. -/
def NoBlockerOpened (c : ι) (id : String) (w : Callers ι) (i : ι) : Prop :=
  BetweenScopes w c id → i ≠ c → ∀ s k, (w.threads i).prog = .call s k →
    ¬ OpensBlocker w.shared.state id s

/-- What holds at every point of a run in which no blocker is opened. -/
structure Guarded (c : ι) (id : String) (w : Callers ι) : Prop where
  wellFormed : WellFormed w.shared.state
  unblocked : BetweenScopes w c id → Unblocked w.shared.state id

theorem Guarded.step {cfg : Config} {c i : ι} {id : String} {w : Callers ι}
    (h : Guarded c id w) (hi : NoBlockerOpened c id w i) :
    Guarded c id (System.step (Scope.exec cfg) i w) := by
  cases hprog : (w.threads i).prog with
  | ret b => rwa [System.step_ret hprog]
  | call s k =>
      have heffect : Effect cfg w.shared.state s (s.exec cfg w.shared).2.state :=
        exec_effect cfg s w.shared
      rw [System.step_call hprog]
      refine ⟨h.wellFormed.effect heffect, fun hbetween => ?_⟩
      by_cases hic : c = i
      · subst hic
        simp only [BetweenScopes, Function.update_self, List.getLast?_concat] at hbetween
        obtain ⟨rfl, hresp⟩ := Event.mk.inj (Option.some.inj hbetween)
        have hstate : ((Scope.checkBlockers id).exec cfg w.shared).2.state = w.shared.state :=
          Locked.query_state ..
        have hunblocked := checkBlockers_passed (eq_of_heq hresp)
        rwa [← hstate] at hunblocked
      · simp only [BetweenScopes, Function.update_of_ne hic] at hbetween
        exact (h.unblocked hbetween).effect h.wellFormed heffect
          (hi hbetween (Ne.symm hic) s k hprog)

/-- In every interleaving of a `close` with any other callers: if nobody opens a blocker while the
call is between its two scopes, nothing that the issue depends on is open when the commit runs. The
commit does not look at the blockers again; what keeps them closed is that nobody has opened one. -/
theorem close_commits_unblocked {cfg : Config} {c : ι} {id : String} {reason : Option String}
    {evidence : List Evidence} {actor : String} {now : Int} {p : ι → Prog DbI Bool}
    {s₀ : Locked Tables} {schedule : List ι} (hs₀ : Reachable cfg s₀)
    (hp : p c = returns (close id reason evidence actor now))
    (hschedule : Machine.Meets (System.step (Scope.exec cfg)) (NoBlockerOpened c id) schedule
      (System.init s₀ p)) {i : String} {reason' : Option String} {evidence' : List Evidence}
    {actor' : String} {now' : Int} {k : Result Unit → Prog DbI Bool}
    (hcommit : ((System.run (Scope.exec cfg) schedule (System.init s₀ p)).threads c).prog =
      .call (.closeUnchecked i reason' evidence' actor' now') k) :
    i = id ∧ Unblocked (System.run (Scope.exec cfg) schedule (System.init s₀ p)).shared.state
    id := by
  have hguarded : Guarded c id (System.run (Scope.exec cfg) schedule (System.init s₀ p)) := by
    refine Machine.invariant_of_meets (Guarded c id) (fun w i hw hi => hw.step hi) schedule ?_
      hschedule
    exact ⟨hs₀.wellFormed, fun h => nomatch h⟩
  have hspec := @System.spec_run _ _ _ _ _ (Scope.exec cfg) _ _ p c
    (hp ▸ close_spec id reason evidence actor now) schedule s₀
  rw [hcommit] at hspec
  obtain ⟨rfl, hlast⟩ := hspec.1 i reason' evidence' actor' now' rfl
  exact ⟨rfl, hguarded.unblocked hlast⟩

end Callers

/-! ### An edge that slips in -/

/-- Two open issues without edges. -/
def unlinked : Locked Tables := Action.run {} (twoIssues.take 3) (opened "s")

/-- One caller closes `a`, the other makes it wait for the open issue `b`. -/
def closeAndLink : Bool → Prog DbI Bool
  | true => returns (close "a" none [.ack "done"] "me" 5)
  | false => returns (addDep "a" "b" "you" 5)

/-- The edge is added after the check and before the commit. -/
theorem close_past_new_edge :
    let w := System.run (Scope.exec {}) [true, false, true] (System.init unlinked closeAndLink)
    (w.shared.state.issue.find "a").map (·.status) = some .closed ∧
      w.shared.state.DependsOn "a" "b" ∧ w.shared.state.isOpen "b" = true := by
  decide

/-- One caller closes `a`, the other the issue it depends on. -/
def closeBoth : Bool → Prog DbI Bool
  | true => returns (close "a" none [.ack "done"] "me" 5)
  | false => returns (close "b" none [.ack "done"] "you" 4)

theorem close_after_dependency :
    "a" = "a" ∧ Unblocked (System.run (Scope.exec {}) [false, false, true]
      (System.init (Action.run {} twoIssues (opened "s")) closeBoth)).shared.state "a" := by
  have hschedule : Machine.Meets (System.step (Scope.exec {})) (NoBlockerOpened true "a")
      [false, false, true]
      (System.init (Action.run {} twoIssues (opened "s")) closeBoth) := by
    refine ⟨?_, ?_, ?_, trivial⟩
    · intro hbetween
      exact nomatch hbetween
    · intro hbetween
      exact nomatch hbetween
    · intro _ hne
      exact absurd rfl hne
  exact close_commits_unblocked (c := true) ⟨"s", twoIssues, rfl⟩ rfl hschedule rfl

end Marbles.Db
