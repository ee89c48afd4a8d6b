import Mathlib.Data.List.Basic

/-!
# Runs of a deterministic machine

A machine is a step function `ι → σ → σ` driven by a list of labels. The two rules
here are the only inductions over runs that a development on top needs: an invariant
rule, and a simulation rule between two machines driven by the same labels. Both take
a side condition on each step, which may look at the state the step starts from.
-/

universe u v w

namespace Machine

variable {ι : Type u} {σ : Type v} {τ : Type w}

/-- The state after the labels, taken from left to right. -/
def run (step : ι → σ → σ) (labels : List ι) (s : σ) : σ :=
  labels.foldl (fun s i => step i s) s

@[simp] theorem run_nil (step : ι → σ → σ) (s : σ) : run step [] s = s := rfl

@[simp] theorem run_cons (step : ι → σ → σ) (i : ι) (labels : List ι) (s : σ) :
    run step (i :: labels) s = run step labels (step i s) := rfl

@[simp] theorem run_append (step : ι → σ → σ) (xs ys : List ι) (s : σ) :
    run step (xs ++ ys) s = run step ys (run step xs s) := List.foldl_append ..

/-- Every step of the run meets `cond` at the state it starts from. -/
def Meets (step : ι → σ → σ) (cond : σ → ι → Prop) : List ι → σ → Prop
  | [], _ => True
  | i :: labels, s => cond s i ∧ Meets step cond labels (step i s)

instance Meets.decidable {step : ι → σ → σ} {cond : σ → ι → Prop}
    [∀ s i, Decidable (cond s i)] :
    ∀ (labels : List ι) (s : σ), Decidable (Meets step cond labels s)
  | [], _ => .isTrue trivial
  | i :: labels, s =>
      have : Decidable (Meets step cond labels (step i s)) := Meets.decidable labels (step i s)
      inferInstanceAs (Decidable (cond s i ∧ Meets step cond labels (step i s)))

/-- A condition on the labels alone. -/
theorem meets_of_forall {step : ι → σ → σ} {cond : σ → ι → Prop} {labels : List ι}
    (h : ∀ i ∈ labels, ∀ s, cond s i) (s : σ) : Meets step cond labels s := by
  induction labels generalizing s with
  | nil => trivial
  | cons i labels ih =>
      exact ⟨h i (List.mem_cons_self ..) s, ih (fun j hj => h j (List.mem_cons_of_mem _ hj)) _⟩

@[simp] theorem meets_append {step : ι → σ → σ} {cond : σ → ι → Prop} {ys xs : List ι} {s : σ} :
    Meets step cond (xs ++ ys) s ↔
      Meets step cond xs s ∧ Meets step cond ys (run step xs s) := by
  induction xs generalizing s with
  | nil => simp [Meets]
  | cons x xs ih => simp only [List.cons_append, Meets, run_cons, ih, and_assoc]

theorem Meets.mono {step : ι → σ → σ} {cond cond' : σ → ι → Prop}
    (h : ∀ s i, cond s i → cond' s i) {labels : List ι} {s : σ} (hm : Meets step cond labels s) :
    Meets step cond' labels s := by
  induction labels generalizing s with
  | nil => trivial
  | cons i labels ih => exact ⟨h _ _ hm.1, ih hm.2⟩

/-- What one step preserves, a run preserves. -/
theorem invariant {step : ι → σ → σ} (inv : σ → Prop) (hstep : ∀ s i, inv s → inv (step i s))
    (labels : List ι) {s : σ} (h : inv s) : inv (run step labels s) := by
  induction labels generalizing s with
  | nil => exact h
  | cons i labels ih => exact ih (hstep s i h)

/-- The invariant rule for runs whose steps meet a condition. -/
theorem invariant_of_meets {step : ι → σ → σ} {cond : σ → ι → Prop} (inv : σ → Prop)
    (hstep : ∀ s i, inv s → cond s i → inv (step i s)) (labels : List ι) {s : σ} (h : inv s)
    (hm : Meets step cond labels s) : inv (run step labels s) := by
  induction labels generalizing s with
  | nil => exact h
  | cons i labels ih => exact ih (hstep s i h hm.1) hm.2

/-- Two machines driven by the same labels stay related. -/
theorem simulation {step : ι → σ → σ} {step' : ι → τ → τ} {cond : σ → ι → Prop}
    (rel : σ → τ → Prop) (hstep : ∀ s t i, rel s t → cond s i → rel (step i s) (step' i t))
    (labels : List ι) {s : σ} {t : τ} (h : rel s t) (hm : Meets step cond labels s) :
    rel (run step labels s) (run step' labels t) := by
  induction labels generalizing s t with
  | nil => exact h
  | cons i labels ih => exact ih (hstep s t i h hm.1) hm.2

end Machine
