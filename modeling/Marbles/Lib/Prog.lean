import Mathlib.Data.List.Basic
import Marbles.Lib.Machine

/-!
# Programs over an interface, and their interleavings

A `Prog` is what a caller of a shared component does: it makes calls, and how it goes
on depends on what they returned. Nothing is said about the component itself, so one
program can be run in three ways:

* `run`, alone against an executable component, where a call is one atomic step;
* as one thread of a `System`, where a schedule says who makes the next call;
* under a `Spec`, which knows nothing of the component and of the other threads: it
  only relates each call to the calls and answers the thread has seen before.

What a `Spec` proves of a program holds of the thread running it in every schedule.
-/

universe u v

/-- The calls a component answers, and the type of each answer. -/
structure Interface where
  Call : Type
  Resp : Call → Type

/-- A program over an interface. -/
inductive Prog (I : Interface) (α : Type) where
  | ret (a : α)
  | call (c : I.Call) (k : I.Resp c → Prog I α)

namespace Prog

variable {I : Interface} {α β γ : Type} {σ : Type u}

/-- Run `p`, and go on with what it returned. -/
def bind : Prog I α → (α → Prog I β) → Prog I β
  | .ret a, f => f a
  | .call c k, f => .call c fun r => (k r).bind f

instance : Monad (Prog I) where
  pure := .ret
  bind := bind

/-- The program that makes one call. -/
def ask (c : I.Call) : Prog I (I.Resp c) := .call c .ret

@[simp] theorem pure_bind (a : α) (f : α → Prog I β) : ((Prog.ret a) >>= f) = f a := rfl

@[simp] theorem call_bind (c : I.Call) (k : I.Resp c → Prog I α) (f : α → Prog I β) :
    ((Prog.call c k) >>= f) = .call c fun r => k r >>= f := rfl

@[simp] theorem ask_bind (c : I.Call) (f : I.Resp c → Prog I β) :
    (ask c >>= f) = .call c f := rfl

@[simp] theorem bind_ret (p : Prog I α) : (p >>= Prog.ret) = p := by
  induction p with
  | ret a => rfl
  | call c k ih =>
      rw [call_bind]
      congr
      funext r
      exact ih r

theorem bind_assoc (f : α → Prog I β) (g : β → Prog I γ) (p : Prog I α) :
    (p >>= f >>= g) = p >>= fun a => f a >>= g := by
  induction p with
  | ret a => rfl
  | call c k ih =>
      simp only [call_bind]
      congr
      funext r
      exact ih r

instance : LawfulMonad (Prog I) :=
  .mk' _ (fun p => bind_ret p) (fun _ _ => rfl) (fun p f g => bind_assoc f g p)

/-! ### Running alone -/

/-- Run a program against a component, every call being answered at once. -/
def run (exec : (c : I.Call) → σ → I.Resp c × σ) : Prog I α → σ → α × σ
  | .ret a, s => (a, s)
  | .call c k, s => run exec (k (exec c s).1) (exec c s).2

variable {exec : (c : I.Call) → σ → I.Resp c × σ}

@[simp] theorem run_ret (a : α) (s : σ) : run exec (.ret a) s = (a, s) := rfl

@[simp] theorem run_pure (a : α) (s : σ) : run exec (pure a) s = (a, s) := rfl

@[simp] theorem run_call (c : I.Call) (k : I.Resp c → Prog I α) (s : σ) :
    run exec (.call c k) s = run exec (k (exec c s).1) (exec c s).2 := rfl

theorem run_bind (f : α → Prog I β) (p : Prog I α) (s : σ) :
    run exec (p >>= f) s = run exec (f (run exec p s).1) (run exec p s).2 := by
  induction p generalizing s with
  | ret a => rfl
  | call c k ih => exact ih (exec c s).1 (exec c s).2

/-- What every call preserves, a program preserves. -/
theorem run_invariant {inv : σ → Prop} (h : ∀ c s, inv s → inv (exec c s).2) (p : Prog I α)
    {s : σ} (hs : inv s) : inv (run exec p s).2 := by
  induction p generalizing s with
  | ret a => exact hs
  | call c k ih => exact ih (exec c s).1 (h c s hs)

/-- The component after the first `n` calls of a program. -/
def halt (exec : (c : I.Call) → σ → I.Resp c × σ) : Nat → Prog I α → σ → σ
  | _, .ret _, s => s
  | 0, .call .., s => s
  | n + 1, .call c k, s => halt exec n (k (exec c s).1) (exec c s).2

@[simp] theorem halt_zero (p : Prog I α) (s : σ) : halt exec 0 p s = s := by
  cases p <;> rfl

@[simp] theorem halt_ret (n : Nat) (a : α) (s : σ) : halt exec n (.ret a) s = s := by
  cases n <;> rfl

@[simp] theorem halt_succ (n : Nat) (c : I.Call) (k : I.Resp c → Prog I α) (s : σ) :
    halt exec (n + 1) (.call c k) s = halt exec n (k (exec c s).1) (exec c s).2 := rfl

/-- The component has a property before every call of a program, and at its end. -/
def Throughout (exec : (c : I.Call) → σ → I.Resp c × σ) (P : σ → Prop) : Prog I α → σ → Prop
  | .ret _, s => P s
  | .call c k, s => P s ∧ Throughout exec P (k (exec c s).1) (exec c s).2

/-- It has the property wherever the program is cut off. -/
theorem Throughout.halt {P : σ → Prop} {p : Prog I α} {s : σ} (h : Throughout exec P p s)
    (n : Nat) :
    P (halt exec n p s) := by
  induction p generalizing s n with
  | ret a =>
      rw [halt_ret]
      exact h
  | call c k ih =>
      cases n with
      | zero => exact h.1
      | succ n => exact ih _ h.2 n

theorem Throughout.bind {P : σ → Prop} {f : α → Prog I β} {p : Prog I α} {s : σ}
    (hp : Throughout exec P p s) (hf : Throughout exec P (f (run exec p s).1) (run exec p s).2) :
    Throughout exec P (p >>= f) s := by
  induction p generalizing s with
  | ret a => exact hf
  | call c k ih => exact ⟨hp.1, ih _ hp.2 hf⟩

section Projection

variable {τ : Type v} {exec' : (c : I.Call) → τ → I.Resp c × τ} {f : σ → τ}

/-- A component that is another one with something added is run like it. -/
theorem run_project (h : ∀ c s, exec' c (f s) = ((exec c s).1, f (exec c s).2)) (p : Prog I α)
    (s : σ) : run exec' p (f s) = ((run exec p s).1, f (run exec p s).2) := by
  induction p generalizing s with
  | ret a => rfl
  | call c k ih => rw [run_call, run_call, h, ih]

theorem halt_project (h : ∀ c s, exec' c (f s) = ((exec c s).1, f (exec c s).2)) (p : Prog I α)
    (n : Nat) (s : σ) : halt exec' n p (f s) = f (halt exec n p s) := by
  induction p generalizing n s with
  | ret a => rw [halt_ret, halt_ret]
  | call c k ih =>
      cases n with
      | zero => rfl
      | succ n => rw [halt_succ, halt_succ, h, ih]

end Projection

/-! ### The calls a program makes -/

/-- Every call the program makes satisfies `p`, whatever the answers are. -/
def Only (p : I.Call → Prop) : Prog I α → Prop
  | .ret _ => True
  | .call c k => p c ∧ ∀ r, Only p (k r)

theorem Only.bind {p : I.Call → Prop} {f : α → Prog I β} {m : Prog I α} (hm : Only p m)
    (hf : ∀ a, Only p (f a)) : Only p (m >>= f) := by
  induction m with
  | ret a => exact hf a
  | call c k ih => exact ⟨hm.1, fun r => ih r (hm.2 r)⟩

theorem Only.bind_except {ε : Type} {p : I.Call → Prop} {m : ExceptT ε (Prog I) α}
    {f : α → ExceptT ε (Prog I) β} (hm : Only p m.run) (hf : ∀ a, Only p (f a).run) :
    Only p (m >>= f).run := by
  refine hm.bind fun r => ?_
  cases r with
  | ok a => exact hf a
  | error e => exact trivial

theorem Only.foldlM {ε : Type} {p : I.Call → Prop} {f : β → α → ExceptT ε (Prog I) β}
    (hf : ∀ b a, Only p (f b a).run) (xs : List α) (b : β) : Only p (xs.foldlM f b).run := by
  induction xs generalizing b with
  | nil => trivial
  | cons x xs ih =>
      rw [List.foldlM_cons]
      exact (hf b x).bind_except ih

theorem Only.mono {p q : I.Call → Prop} (h : ∀ c, p c → q c) {m : Prog I α} (hm : Only p m) :
    Only q m := by
  induction m with
  | ret a => trivial
  | call c k ih => exact ⟨h c hm.1, fun r => ih r (hm.2 r)⟩

/-- What its calls preserve, a program preserves. -/
theorem Only.run_invariant {p : I.Call → Prop} {q : σ → Prop}
    (h : ∀ c s, p c → q s → q (exec c s).2) {m : Prog I α} {s : σ} (hm : Only p m)
    (hs : q s) : q (run exec m s).2 := by
  induction m generalizing s with
  | ret a => exact hs
  | call c k ih =>
      rw [run_call]
      exact ih _ (hm.2 _) (h c s hm.1 hs)

/-! ### Programs that may fail -/

section Fallible

variable {ε : Type}

/-- Run a program that may fail. -/
def runE (exec : (c : I.Call) → σ → I.Resp c × σ) (p : ExceptT ε (Prog I) α) (s : σ) :
    Except ε α × σ := run exec p.run s

@[simp] theorem runE_pure (a : α) (s : σ) :
    runE exec (pure a : ExceptT ε (Prog I) α) s = (.ok a, s) := rfl

@[simp] theorem runE_throw (e : ε) (s : σ) :
    runE exec (throw e : ExceptT ε (Prog I) α) s = (.error e, s) := rfl

theorem runE_bind (p : ExceptT ε (Prog I) α) (f : α → ExceptT ε (Prog I) β) (s : σ) :
    runE exec (p >>= f) s =
      match runE exec p s with
      | (.ok a, s') => runE exec (f a) s'
      | (.error e, s') => (.error e, s') := by
  change run exec (p.run >>= ExceptT.bindCont f) s = _
  rw [run_bind, runE]
  cases hr : run exec p.run s with
  | mk r s' =>
      cases r with
      | ok a => rfl
      | error e => rfl

theorem runE_bind_ok {p : ExceptT ε (Prog I) α} {f : α → ExceptT ε (Prog I) β} {s s' : σ}
    {a : α} (h : runE exec p s = (.ok a, s')) :
    runE exec (p >>= f) s = runE exec (f a) s' := by
  rw [runE_bind, h]

theorem runE_bind_error {p : ExceptT ε (Prog I) α} {f : α → ExceptT ε (Prog I) β} {s s' : σ}
    {e : ε} (h : runE exec p s = (.error e, s')) :
    runE exec (p >>= f) s = (.error e, s') := by
  rw [runE_bind, h]

/-- What is made of the result does not matter to the state. -/
theorem runE_pure_state (g : α → β) (p : ExceptT ε (Prog I) α) (s : σ) :
    (runE exec (do let a ← p; pure (g a)) s).2 = (runE exec p s).2 := by
  rw [runE_bind]
  cases runE exec p s with
  | mk r s' => cases r <;> rfl

end Fallible

end Prog

/-! ### Traces -/

/-- One call and its answer. -/
structure Event (I : Interface) where
  call : I.Call
  resp : I.Resp call

namespace Prog

variable {I : Interface} {α β : Type}

/-- `p` goes on as `p'` after the calls and answers of the trace. -/
inductive Follows : Prog I α → List (Event I) → Prog I α → Prop where
  | nil (p : Prog I α) : Follows p [] p
  | cons {c : I.Call} {k : I.Resp c → Prog I α} {r : I.Resp c} {tr : List (Event I)}
      {p' : Prog I α} (h : Follows (k r) tr p') : Follows (.call c k) (⟨c, r⟩ :: tr) p'

theorem Follows.snoc {p : Prog I α} {tr : List (Event I)} {c : I.Call}
    {k : I.Resp c → Prog I α} (h : Follows p tr (.call c k)) (r : I.Resp c) :
    Follows p (tr ++ [⟨c, r⟩]) (k r) := by
  generalize hq : Prog.call c k = q at h
  induction h with
  | nil _ => subst hq; exact .cons (.nil _)
  | cons _ ih => exact .cons (ih hq)

/-- Every call of `p` meets `guard` on what was seen before it, and `post` holds of what
`p` returns and of all it has seen, whatever the answers are. -/
def Spec (guard : I.Call → List (Event I) → Prop) (post : α → List (Event I) → Prop) :
    Prog I α → List (Event I) → Prop
  | .ret a, tr => post a tr
  | .call c k, tr => guard c tr ∧ ∀ r, Spec guard post (k r) (tr ++ [⟨c, r⟩])

variable {guard guard' : I.Call → List (Event I) → Prop}

theorem Spec.bind {mid : α → List (Event I) → Prop} {post : β → List (Event I) → Prop}
    {f : α → Prog I β} {p : Prog I α} {tr : List (Event I)} (hp : Spec guard mid p tr)
    (hf : ∀ a tr', mid a tr' → Spec guard post (f a) tr') : Spec guard post (p >>= f) tr := by
  induction p generalizing tr with
  | ret a => exact hf a tr hp
  | call c k ih => exact ⟨hp.1, fun r => ih r (hp.2 r)⟩

theorem Spec.mono {post post' : α → List (Event I) → Prop}
    (hg : ∀ c tr, guard c tr → guard' c tr) (hq : ∀ a tr, post a tr → post' a tr) {p : Prog I α}
    {tr : List (Event I)} (hp : Spec guard post p tr) : Spec guard' post' p tr := by
  induction p generalizing tr with
  | ret a => exact hq a tr hp
  | call c k ih => exact ⟨hg c tr hp.1, fun r => ih r (hp.2 r)⟩

/-- A program that only makes some calls keeps what these calls keep. -/
theorem Spec.of_only {p : I.Call → Prop} (inv : List (Event I) → Prop)
    (h : ∀ c r tr, p c → inv tr → inv (tr ++ [⟨c, r⟩])) {m : Prog I α} {tr : List (Event I)}
    (hm : Only p m) (htr : inv tr) :
    Spec (fun c tr => p c ∧ inv tr) (fun _ tr => inv tr) m tr := by
  induction m generalizing tr with
  | ret a => exact htr
  | call c k ih => exact ⟨⟨hm.1, htr⟩, fun r => ih r (hm.2 r) (h c r tr hm.1 htr)⟩

/-- A program that may fail goes on only when it did not. -/
theorem Spec.bind_except {ε : Type} {mid : Except ε α → List (Event I) → Prop}
    {post : Except ε β → List (Event I) → Prop} {m : ExceptT ε (Prog I) α}
    {f : α → ExceptT ε (Prog I) β} {tr : List (Event I)} (hm : Spec guard mid m.run tr)
    (hok : ∀ a tr', mid (.ok a) tr' → Spec guard post (f a).run tr')
    (herror : ∀ e tr', mid (.error e) tr' → post (.error e) tr') :
    Spec guard post (m >>= f).run tr := by
  refine hm.bind fun r tr' hr => ?_
  cases r with
  | ok a => exact hok a tr' hr
  | error e => exact herror e tr' hr

/-- A specification of `p` is one of what `p` goes on as. -/
theorem Spec.follows {post : α → List (Event I) → Prop} {p p' : Prog I α}
    {tr tr' : List (Event I)} (hp : Spec guard post p tr) (h : Follows p tr' p') :
    Spec guard post p' (tr ++ tr') := by
  induction h generalizing tr with
  | nil _ => rwa [List.append_nil]
  | cons _ ih =>
      have := ih (hp.2 _)
      rwa [List.append_assoc] at this

end Prog

/-! ### Threads and schedules -/

/-- A caller in the middle of its program. -/
structure Thread (I : Interface) (α : Type) where
  prog : Prog I α
  trace : List (Event I)

/-- A component and its callers. -/
structure System (ι : Type) (I : Interface) (σ : Type u) (α : Type) where
  shared : σ
  threads : ι → Thread I α

namespace System

variable {ι : Type} [DecidableEq ι] {I : Interface} {σ : Type u} {α : Type}

/-- All callers at the start of their programs. -/
def init (s : σ) (p : ι → Prog I α) : System ι I σ α := ⟨s, fun i => ⟨p i, []⟩⟩

/-- Caller `i` makes its next call, if it has not returned. -/
def step (exec : (c : I.Call) → σ → I.Resp c × σ) (i : ι) (w : System ι I σ α) :
    System ι I σ α :=
  match (w.threads i).prog with
  | .ret _ => w
  | .call c k =>
      ⟨(exec c w.shared).2, Function.update w.threads i
        ⟨k (exec c w.shared).1, (w.threads i).trace ++ [⟨c, (exec c w.shared).1⟩]⟩⟩

/-- The callers make their calls in the order of the schedule. -/
def run (exec : (c : I.Call) → σ → I.Resp c × σ) (schedule : List ι) (w : System ι I σ α) :
    System ι I σ α := Machine.run (step exec) schedule w

/-- Caller `i` has returned `a`. -/
def Returned (w : System ι I σ α) (i : ι) (a : α) : Prop := (w.threads i).prog = .ret a

variable {exec : (c : I.Call) → σ → I.Resp c × σ}

theorem step_ret {w : System ι I σ α} {i : ι} {a : α} (h : (w.threads i).prog = .ret a) :
    step exec i w = w := by
  rw [step, h]

theorem step_call {w : System ι I σ α} {i : ι} {c : I.Call} {k : I.Resp c → Prog I α}
    (h : (w.threads i).prog = .call c k) :
    step exec i w = ⟨(exec c w.shared).2, Function.update w.threads i
      ⟨k (exec c w.shared).1, (w.threads i).trace ++ [⟨c, (exec c w.shared).1⟩]⟩⟩ := by
  rw [step, h]

theorem step_threads_ne {w : System ι I σ α} {i j : ι} (h : j ≠ i) :
    (step exec i w).threads j = w.threads j := by
  unfold step
  split
  · rfl
  · exact Function.update_of_ne h ..

/-- Every thread has followed its program. -/
def Followed (p : ι → Prog I α) (w : System ι I σ α) : Prop :=
  ∀ i, Prog.Follows (p i) (w.threads i).trace (w.threads i).prog

theorem followed_step {p : ι → Prog I α} {w : System ι I σ α} (hw : Followed p w) (i : ι) :
    Followed p (step exec i w) := by
  intro j
  by_cases hj : j = i
  · subst hj
    cases hc : (w.threads j).prog with
    | ret a => rw [step_ret hc]; exact hw j
    | call c k =>
        have h := hw j
        rw [hc] at h
        rw [step_call hc]
        simpa only [Function.update_self] using h.snoc (exec c w.shared).1
  · rw [step_threads_ne hj]
    exact hw j

theorem followed_run (p : ι → Prog I α) (schedule : List ι) (s : σ) :
    Followed p (run exec schedule (init s p)) :=
  Machine.invariant (Followed p) (fun _ i hw => followed_step hw i) schedule fun i => .nil (p i)

/-- A thread's specification holds at every point of every schedule. -/
theorem spec_run {guard : I.Call → List (Event I) → Prop} {post : α → List (Event I) → Prop}
    {p : ι → Prog I α} {i : ι} (hp : Prog.Spec guard post (p i) []) (schedule : List ι) (s : σ) :
    Prog.Spec guard post ((run exec schedule (init s p)).threads i).prog
      ((run exec schedule (init s p)).threads i).trace := by
  have h := hp.follows (@followed_run _ _ _ _ _ exec p schedule s i)
  rwa [List.nil_append] at h

/-- What the calls of all threads preserve holds of the component in every schedule. -/
theorem only_run {q : ι → I.Call → Prop} {inv : σ → Prop}
    (h : ∀ i c s, q i c → inv s → inv (exec c s).2) {p : ι → Prog I α}
    (hp : ∀ i, Prog.Only (q i) (p i)) (schedule : List ι) {s : σ} (hs : inv s) :
    inv (run exec schedule (init s p)).shared := by
  refine (Machine.invariant (fun w : System ι I σ α =>
    inv w.shared ∧ ∀ i, Prog.Only (q i) (w.threads i).prog) (fun w i hw => ?_) schedule
      (show inv (init s p).shared ∧ _ from ⟨hs, hp⟩)).1
  cases hc : (w.threads i).prog with
  | ret a => rwa [step_ret hc]
  | call c k =>
      have honly := hw.2 i
      rw [hc] at honly
      rw [step_call hc]
      refine ⟨h i c w.shared honly.1 hw.1, fun j => ?_⟩
      by_cases hj : j = i
      · subst hj
        simpa only [Function.update_self] using honly.2 _
      · simpa only [Function.update_of_ne hj] using hw.2 j

/-- Who has returned stays returned. -/
theorem returned_run {w : System ι I σ α} {i : ι} {a : α} (h : w.Returned i a)
    (schedule : List ι) : (run exec schedule w).Returned i a := by
  refine Machine.invariant (fun w : System ι I σ α => w.Returned i a) (fun w j hw => ?_) schedule h
  by_cases hj : i = j
  · subst hj
    rwa [step_ret hw]
  · rwa [Returned, step_threads_ne hj]

/-- A thread makes a call in each of its turns until it has returned. -/
theorem turns_run (schedule : List ι) (w : System ι I σ α) (i : ι) :
    (∃ a, (run exec schedule w).Returned i a) ∨
      ((run exec schedule w).threads i).trace.length =
        (w.threads i).trace.length + schedule.count i := by
  induction schedule generalizing w with
  | nil => exact Or.inr rfl
  | cons j schedule ih =>
      cases hc : (w.threads i).prog with
      | ret a => exact Or.inl ⟨a, returned_run hc (j :: schedule)⟩
      | call c k =>
          refine (ih (step exec j w)).imp_right fun hlength => ?_
          rw [run, Machine.run_cons, ← run, hlength, List.count_cons]
          by_cases hj : j = i
          · subst hj
            rw [step_call hc]
            simp only [Function.update_self, List.length_append, List.length_singleton,
              beq_self_eq_true, if_true]
            omega
          · rw [step_threads_ne (Ne.symm hj), if_neg (by simpa using hj), Nat.add_zero]

end System
