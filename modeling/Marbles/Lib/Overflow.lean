import Marbles.Lib.Outcome

/-!
# Arithmetic that may leave its range

A program computes with integers of some width. What becomes of a result that does not fit depends
on how the program was built: with overflow checks it panics, without them it goes on with a
wrapped number. Such a program is a family of computations, one for each kind of build, next to a
computation in exact integers.

`Computes` relates the two. As long as a condition holds every build arrives at the exact value,
and a build with checks arrives at a value only then. Sequences, maps and folds of such
computations are such computations, under the conditions of all their steps together, so the
condition of a program is read off from its text.
-/

universe u v

/-- What a build does with a result that does not fit. -/
inductive Overflow where
  /-- With overflow checks. -/
  | panics
  /-- Without them. -/
  | wraps
  deriving DecidableEq, Repr

namespace Overflow

variable {ε : Type u} {α β : Type v}

/-- The result of one operation, from its exact value. -/
def result (mode : Overflow) (fits : Int → Prop) [DecidablePred fits] (wrap : Int → Int) (n : Int) :
    Outcome ε Int :=
  if fits n then .ok n
  else match mode with
    | .panics => Outcome.abort
    | .wraps => .ok (wrap n)

/-- The exact value of the computations is `a`. All builds give it under the condition `p`, and one
with checks gives nothing otherwise. -/
structure Computes (x : Overflow → Outcome ε α) (p : Prop) (a : α) : Prop where
  exact : p → ∀ mode, x mode = .ok a
  checked : ∀ b, x panics = .ok b → p

theorem computes_result (fits : Int → Prop) [DecidablePred fits] (wrap : Int → Int) (n : Int) :
    Computes (fun mode => (mode.result fits wrap n : Outcome ε Int)) (fits n) n where
  exact h mode := if_pos h
  checked b h := by
    by_contra hn
    rw [result, if_neg hn] at h
    exact Outcome.abort_ne_ok h

theorem computes_pure (a : α) : Computes (fun _ => (.ok a : Outcome ε α)) True a :=
  ⟨fun _ _ => rfl, fun _ _ => trivial⟩

namespace Computes

variable {x : Overflow → Outcome ε α} {p q : Prop} {a : α}

/-- The condition may be said in other words. -/
theorem congr (h : Computes x p a) (hpq : p ↔ q) : Computes x q a :=
  ⟨fun hq => h.exact (hpq.mpr hq), fun b hb => hpq.mp (h.checked b hb)⟩

theorem panics_iff (h : Computes x p a) {b : α} : x panics = .ok b ↔ p ∧ b = a := by
  constructor
  · intro hb
    have hp := h.checked b hb
    exact ⟨hp, Except.ok.inj (hb.symm.trans (h.exact hp panics))⟩
  · intro ⟨hp, hba⟩
    exact hba ▸ h.exact hp panics

/-- A property that the exact value has is had by the values of all builds under the condition
alone. -/
theorem forall_iff (h : Computes x p a) {Q : α → Prop} (ha : Q a) :
    (∀ mode, ∃ b, x mode = .ok b ∧ Q b) ↔ p := by
  constructor
  · intro hall
    obtain ⟨b, hb, -⟩ := hall panics
    exact h.checked b hb
  · exact fun hp mode => ⟨a, h.exact hp mode, ha⟩

/-- The second step is looked at on the exact value of the first. -/
theorem bind {f : Overflow → α → Outcome ε β} {b : β} (hx : Computes x p a)
    (hf : Computes (fun mode => f mode a) q b) :
    Computes (fun mode => x mode >>= f mode) (p ∧ q) b where
  exact h mode := Outcome.bind_eq_ok.mpr ⟨a, hx.exact h.1 mode, hf.exact h.2 mode⟩
  checked c hc := by
    obtain ⟨a', ha', hc⟩ := Outcome.bind_eq_ok.mp hc
    obtain ⟨hp, rfl⟩ := hx.panics_iff.mp ha'
    exact ⟨hp, hf.checked c hc⟩

/-- A last step that cannot fail. -/
theorem map (h : Computes x p a) (f : α → β) :
    Computes (fun mode => do let a ← x mode; pure (f a)) p (f a) :=
  (h.bind (computes_pure (f a))).congr (iff_of_eq (and_true p))

/-- One computation for each item of a list. -/
theorem mapM {γ : Type v} {f : Overflow → γ → Outcome ε β} {c : γ → Prop} {g : γ → β} {xs : List γ}
    (h : ∀ i ∈ xs, Computes (fun mode => f mode i) (c i) (g i)) :
    Computes (fun mode => xs.mapM (f mode)) (∀ i ∈ xs, c i) (xs.map g) := by
  induction xs with
  | nil => exact (computes_pure []).congr (by simp)
  | cons i xs ih =>
      have hfirst := h i List.mem_cons_self
      have hrest := ih fun j hj => h j (List.mem_cons_of_mem _ hj)
      simp only [List.mapM_cons]
      exact (hfirst.bind (hrest.map (g i :: ·))).congr List.forall_mem_cons.symm

/-- One computation after the other. Each is looked at on the exact value of those before it. -/
theorem foldlM {σ γ : Type v} {f : Overflow → σ → γ → Outcome ε σ} {c : σ → γ → Prop}
    {g : σ → γ → σ} (h : ∀ s i, Computes (fun mode => f mode s i) (c s i) (g s i)) (xs : List γ)
    (s : σ) : Computes (fun mode => xs.foldlM (f mode) s)
      (∀ pre i post, xs = pre ++ i :: post → c (pre.foldl g s) i) (xs.foldl g s) := by
  induction xs generalizing s with
  | nil => exact (computes_pure s).congr (by simp)
  | cons i xs ih =>
      simp only [List.foldlM_cons]
      refine ((h s i).bind (ih (g s i))).congr ⟨fun ⟨hfirst, hrest⟩ pre j post hsplit => ?_,
        fun hall => ⟨hall [] i xs rfl, fun pre j post hsplit => ?_⟩⟩
      · cases pre with
        | nil =>
            obtain ⟨rfl, -⟩ := List.cons.inj hsplit
            exact hfirst
        | cons k pre =>
            obtain ⟨rfl, htail⟩ := List.cons.inj hsplit
            exact hrest pre j post htail
      · exact hall (i :: pre) j post (congrArg (i :: ·) hsplit)

end Computes

end Overflow
