import Marbles.Lib.Outcome
import Marbles.Lib.Prog

/-!
# Programs that may be cut

`Prog.Keeps` is a triple with a crash condition: an invariant that holds between any two
calls, so whatever call the program is cut at, and a postcondition for the case that it
runs to its end. `Runs` is the same for a program that may fail and that is alone on a
healthy lock: it says what holds when it returns a value and what when it returns an
error, and that it does not panic.

A crash is modelled as the program not being continued. The invariant therefore has to hold at
every call and not only around the program, which is what the rules for binding carry along.
-/

universe u

namespace Prog

variable {I : Interface} {α β : Type} {σ : Type u}

/-- Run from a state, the program meets `inv` between its calls, and `post` holds of what
it returns and of the state it leaves. -/
def Keeps (exec : (c : I.Call) → σ → I.Resp c × σ) (inv : σ → Prop) (post : α → σ → Prop) :
    Prog I α → σ → Prop
  | .ret a, s => inv s ∧ post a s
  | .call c k, s => inv s ∧ Keeps exec inv post (k (exec c s).1) (exec c s).2

namespace Keeps

variable {exec : (c : I.Call) → σ → I.Resp c × σ} {inv inv' : σ → Prop}
  {post post' : α → σ → Prop}

theorem start {p : Prog I α} {s : σ} (h : Keeps exec inv post p s) : inv s := by
  cases p with
  | ret a => exact h.1
  | call c k => exact h.1

/-- The invariant holds wherever the program is cut. -/
theorem halt {p : Prog I α} {s : σ} (h : Keeps exec inv post p s) (n : Nat) :
    inv (Prog.halt exec n p s) := by
  induction p generalizing s n with
  | ret a =>
      rw [halt_ret]
      exact h.1
  | call c k ih =>
      cases n with
      | zero => exact h.1
      | succ n => exact ih _ h.2 n

theorem run {p : Prog I α} {s : σ} (h : Keeps exec inv post p s) :
    inv (Prog.run exec p s).2 ∧ post (Prog.run exec p s).1 (Prog.run exec p s).2 := by
  induction p generalizing s with
  | ret a => exact h
  | call c k ih => exact ih _ h.2

theorem bind {mid : α → σ → Prop} {post : β → σ → Prop} {f : α → Prog I β} {p : Prog I α} {s : σ}
    (h : Keeps exec inv mid p s)
    (hf : ∀ a s', inv s' → mid a s' → Keeps exec inv post (f a) s') :
    Keeps exec inv post (p >>= f) s := by
  induction p generalizing s with
  | ret a => exact hf a s h.1 h.2
  | call c k ih => exact ⟨h.1, ih _ h.2⟩

theorem mono (hinv : ∀ s, inv s → inv' s) (hpost : ∀ a s, inv s → post a s → post' a s)
    {p : Prog I α} {s : σ} (h : Keeps exec inv post p s) : Keeps exec inv' post' p s := by
  induction p generalizing s with
  | ret a => exact ⟨hinv s h.1, hpost a s h.1 h.2⟩
  | call c k ih => exact ⟨hinv s h.1, ih _ h.2⟩

end Keeps

end Prog

/-- What holds of an outcome: `ok` of a value, `err` of an error, and it is no panic. -/
def Outcome.Ends {ε α : Type} {τ : Type u} (ok : α → τ → Prop) (err : ε → τ → Prop) :
    Outcome ε α → τ → Prop
  | .ok a, t => ok a t
  | .error (.fail e), t => err e t
  | .error .abort, _ => False

/-- Alone on a healthy lock around a state: `m` does not panic, meets `inv` between its calls,
and leaves `ok` when it returns a value and `err` when it returns an error. -/
structure Runs {I : Interface} {ε α : Type} {τ : Type u}
    (exec : (c : I.Call) → Locked τ → I.Resp c × Locked τ) (inv : τ → Prop) (ok : α → τ → Prop)
    (err : ε → τ → Prop) (m : ExceptT (Fault ε) (Prog I) α) (t : τ) : Prop where
  keeps : m.run.Keeps exec (fun l => l.poisoned = false ∧ inv l.state)
    (fun r l => Outcome.Ends ok err r l.state) (.new t)

namespace Runs

variable {I : Interface} {ε ε' α β : Type} {τ : Type u}
  {exec : (c : I.Call) → Locked τ → I.Resp c × Locked τ} {inv inv' : τ → Prop}
  {ok ok' : α → τ → Prop} {err err' : ε → τ → Prop} {m : ExceptT (Fault ε) (Prog I) α} {t : τ}

theorem start (h : Runs exec inv ok err m t) : inv t := h.keeps.start.2

/-- How the whole run ends. -/
theorem result (h : Runs exec inv ok err m t) :
    ∃ r t', Prog.runE exec m (.new t) = (r, .new t') ∧ inv t' ∧ Outcome.Ends ok err r t' := by
  obtain ⟨⟨hhealthy, hinv⟩, hends⟩ := h.keeps.run
  exact ⟨_, _, Prod.ext rfl (Locked.eq_new hhealthy), hinv, hends⟩

/-- The state a run that returned has left. -/
theorem returned (h : Runs exec inv ok err m t) {a : α} {l : Locked τ}
    (hrun : Prog.runE exec m (.new t) = (.ok a, l)) :
    ∃ t', l = .new t' ∧ inv t' ∧ ok a t' := by
  obtain ⟨r, t', hr, hinv, hends⟩ := h.result
  obtain ⟨rfl, rfl⟩ := Prod.mk.inj (hrun.symm.trans hr)
  exact ⟨t', rfl, hinv, hends⟩

/-- The state the run is cut at. -/
theorem halt (h : Runs exec inv ok err m t) (n : Nat) :
    ∃ t', Prog.halt exec n m.run (.new t) = .new t' ∧ inv t' := by
  obtain ⟨hhealthy, hinv⟩ := h.keeps.halt n
  exact ⟨_, Locked.eq_new hhealthy, hinv⟩

theorem pure {a : α} (hinv : inv t) (hok : ok a t) :
    Runs exec inv ok err (Pure.pure a : ExceptT (Fault ε) (Prog I) α) t := ⟨⟨⟨rfl, hinv⟩, hok⟩⟩

theorem fail {e : ε} (hinv : inv t) (herr : err e t) :
    Runs exec inv ok err (throw (.fail e) : ExceptT (Fault ε) (Prog I) α) t :=
  ⟨⟨⟨rfl, hinv⟩, herr⟩⟩

theorem mono (h : Runs exec inv ok err m t) (hinv : ∀ t, inv t → inv' t)
    (hok : ∀ a t, inv t → ok a t → ok' a t) (herr : ∀ e t, inv t → err e t → err' e t) :
    Runs exec inv' ok' err' m t := by
  refine ⟨h.keeps.mono (fun l hl => ⟨hl.1, hinv _ hl.2⟩) fun r l hl hends => ?_⟩
  cases r with
  | ok a => exact hok a _ hl.2 hends
  | error e =>
      cases e with
      | fail e => exact herr e _ hl.2 hends
      | abort => exact hends

/-- Only what the run returns is said with less. -/
theorem imp (h : Runs exec inv ok err m t) (hok : ∀ a t, inv t → ok a t → ok' a t) :
    Runs exec inv ok' err m t := h.mono (fun _ h => h) hok fun _ _ _ h => h

theorem bind {q : α → τ → Prop} {ok : β → τ → Prop} {f : α → ExceptT (Fault ε) (Prog I) β}
    (h : Runs exec inv q err m t) (hf : ∀ a t', inv t' → q a t' → Runs exec inv ok err (f a) t') :
    Runs exec inv ok err (m >>= f) t := by
  refine ⟨h.keeps.bind ?_⟩
  rintro r l ⟨hhealthy, hinv⟩ hends
  cases r with
  | ok a =>
      rw [Locked.eq_new hhealthy]
      exact (hf a _ hinv hends).keeps
  | error e =>
      cases e with
      | fail e => exact ⟨⟨hhealthy, hinv⟩, hends⟩
      | abort => exact hends.elim

theorem ite {c : Prop} [Decidable c] {m' : ExceptT (Fault ε) (Prog I) α}
    (h : c → Runs exec inv ok err m t) (h' : ¬ c → Runs exec inv ok err m' t) :
    Runs exec inv ok err (if c then m else m') t := by
  split
  · exact h ‹_›
  · exact h' ‹_›

/-- A loop over a list, with a statement about what it has gone over. -/
theorem foldlM {f : β → α → ExceptT (Fault ε) (Prog I) β} {q : List α → β → τ → Prop}
    {xs : List α} {b : β} (hinv : inv t) (hstart : q [] b t)
    (hstep : ∀ pre x post b t, xs = pre ++ x :: post → inv t → q pre b t →
      Runs exec inv (q (pre ++ [x])) err (f b x) t) :
    Runs exec inv (q xs) err (xs.foldlM f b) t := by
  -- induction on what is left, over what was gone over
  suffices h : ∀ post pre b t, xs = pre ++ post → inv t → q pre b t →
      Runs exec inv (q xs) err (post.foldlM f b) t from h xs [] b t rfl hinv hstart
  intro post
  induction post with
  | nil =>
      intro pre b t hxs hinv hdone
      rw [List.append_nil] at hxs
      exact .pure hinv (hxs ▸ hdone)
  | cons x post ih =>
      intro pre b t hxs hinv hdone
      rw [List.foldlM_cons]
      refine (hstep pre x post b t hxs hinv hdone).bind fun b' t' hinv' hdone' => ?_
      exact ih (pre ++ [x]) b' t' (by rw [hxs, List.append_assoc, List.singleton_append]) hinv'
        hdone'

/-- A loop over the items of a list and their positions, with a statement about the items. -/
theorem foldlM_zipIdx {f : β → α × Nat → ExceptT (Fault ε) (Prog I) β} {q : List α → β → τ → Prop}
    {xs : List α} {b : β} (hinv : inv t) (hstart : q [] b t)
    (hstep : ∀ pre x post i b t, xs = pre ++ x :: post → inv t → q pre b t →
      Runs exec inv (q (pre ++ [x])) err (f b (x, i)) t) :
    Runs exec inv (q xs) err (xs.zipIdx.foldlM f b) t := by
  have hmap : xs.zipIdx.map Prod.fst = xs := List.zipIdx_map_fst ..
  have hloop : Runs exec inv (q (xs.zipIdx.map Prod.fst)) err (xs.zipIdx.foldlM f b) t := by
    refine foldlM (q := fun pre => q (pre.map Prod.fst)) hinv hstart ?_
    rintro pre ⟨x, i⟩ post b t hsplit hinv hdone
    have hxs : xs = pre.map Prod.fst ++ x :: post.map Prod.fst := by
      rw [← hmap, hsplit, List.map_append, List.map_cons]
    refine (hstep _ x _ i b t hxs hinv hdone).imp fun b' t' _ h => ?_
    rwa [List.map_append]
  rwa [hmap] at hloop

end Runs
