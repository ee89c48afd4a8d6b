import Mathlib.Data.List.Induction
import Mathlib.Order.Basic
import Marbles.Lib.Machine

/-!
# Registers that are overwritten

A register holds one item at most. A step may take an item, which then replaces what was
held, or is lost together with it. Such a register never falls behind its own history
exactly when the items come in the order of their keys.
-/

universe u v w x

/-- An item that was taken, and whether the register still had it after the step. -/
structure Taken (α : Type u) where
  item : α
  kept : Bool

/-- What the register holds right after an item was taken. -/
def Taken.left {α : Type u} (t : Taken α) : Option α := if t.kept then some t.item else none

structure Register (ι : Type u) (σ : Type v) (α : Type w) where
  step : ι → σ → σ
  held : σ → Option α
  /-- The item a step takes. -/
  takes : ι → σ → Option (Taken α)
  held_step : ∀ i s, held (step i s) = (takes i s).elim (held s) Taken.left

namespace Register

variable {ι : Type u} {σ : Type v} {α : Type w} {κ : Type x} (R : Register ι σ α)

def run (labels : List ι) (s : σ) : σ := Machine.run R.step labels s

/-- What the steps of a run take, in order. -/
def taken : List ι → σ → List (Taken α)
  | [], _ => []
  | i :: labels, s => (R.takes i s).toList ++ taken labels (R.step i s)

/-- What is held at the start, then what the run takes. -/
def history (labels : List ι) (s : σ) : List (Taken α) :=
  ((R.held s).map fun a => ⟨a, true⟩).toList ++ R.taken labels s

@[simp] theorem run_concat (labels : List ι) (i : ι) (s : σ) :
    R.run (labels ++ [i]) s = R.step i (R.run labels s) := by
  rw [run, Machine.run_append]
  rfl

theorem taken_append (xs ys : List ι) (s : σ) :
    R.taken (xs ++ ys) s = R.taken xs s ++ R.taken ys (R.run xs s) := by
  induction xs generalizing s with
  | nil => rfl
  | cons i xs ih =>
      rw [List.cons_append, taken, taken, ih, List.append_assoc]
      rfl

@[simp] theorem history_concat (labels : List ι) (i : ι) (s : σ) :
    R.history (labels ++ [i]) s =
      R.history labels s ++ (R.takes i (R.run labels s)).toList := by
  rw [history, history, taken_append, List.append_assoc]
  simp [taken]

/-- The register holds the last item of its history, unless that was lost. -/
theorem held_run (labels : List ι) (s : σ) :
    R.held (R.run labels s) = (R.history labels s).getLast?.bind Taken.left := by
  induction labels using List.reverseRecOn with
  | nil =>
      simp only [history, taken, List.append_nil]
      show R.held s = _
      cases R.held s <;> rfl
  | append_singleton labels i ih =>
      rw [run_concat, R.held_step, history_concat]
      -- a step that takes nothing leaves both what is held and the history
      cases R.takes i (R.run labels s) with
      | none =>
          rw [Option.toList_none, List.append_nil]
          exact ih
      | some t =>
          rw [Option.toList_some, List.getLast?_concat]
          rfl

variable [LE κ] (key : α → κ)

/-- What is held has the greatest key of the history; nothing is held only when nothing was
taken or the last item was lost. -/
def Greatest (history : List (Taken α)) : Option α → Prop
  | some a => (∃ t ∈ history, t.item = a) ∧ ∀ t ∈ history, key t.item ≤ key a
  | none => ∀ t, history.getLast? = some t → t.kept = false

/-- After every step of the run, what is held has the greatest key so far. -/
def NeverFallsBack (labels : List ι) (s : σ) : Prop :=
  ∀ p, p <+: labels → Greatest key (R.history p s) (R.held (R.run p s))

/-- No item that is kept comes after one with a greater key. -/
def InOrder (history : List (Taken α)) : Prop :=
  history.Pairwise fun t t' => t'.kept = true → key t.item ≤ key t'.item

end Register

namespace Register

variable {ι : Type u} {σ : Type v} {α : Type w} {κ : Type x} (R : Register ι σ α) [Preorder κ]
  {key : α → κ}

theorem inOrder_concat {history : List (Taken α)} {t : Taken α} :
    InOrder key (history ++ [t]) ↔
      InOrder key history ∧ (t.kept = true → ∀ t' ∈ history, key t'.item ≤ key t.item) := by
  rw [InOrder, List.pairwise_append]
  constructor
  · intro h
    exact ⟨h.1, fun hkept t' ht' => h.2.2 t' ht' t (List.mem_singleton_self t) hkept⟩
  · intro h
    refine ⟨h.1, List.pairwise_singleton .., fun t' ht' t'' ht'' => ?_⟩
    rw [List.mem_singleton.mp ht'']
    exact fun hkept => h.2 hkept t' ht'

/-- An item that was just taken is greatest exactly when nothing before it is greater. -/
theorem greatest_concat {history : List (Taken α)} {t : Taken α} :
    Greatest key (history ++ [t]) t.left ↔
      (t.kept = true → ∀ t' ∈ history, key t'.item ≤ key t.item) := by
  cases hkept : t.kept with
  | false =>
      rw [Taken.left, hkept]
      refine iff_of_true (fun last hlast => ?_) nofun
      rw [List.getLast?_concat, Option.some_inj] at hlast
      rw [← hlast, hkept]
  | true =>
      rw [Taken.left, hkept]
      constructor
      · intro h _ t' ht'
        exact h.2 t' (List.mem_append_left _ ht')
      · intro h
        refine ⟨⟨t, by simp, rfl⟩, fun t' ht' => ?_⟩
        rcases List.mem_append.mp ht' with ht' | ht'
        · exact h rfl t' ht'
        · rw [List.mem_singleton.mp ht']

theorem neverFallsBack_concat {labels : List ι} {i : ι} {s : σ} :
    R.NeverFallsBack key (labels ++ [i]) s ↔ R.NeverFallsBack key labels s ∧
      Greatest key (R.history (labels ++ [i]) s) (R.held (R.run (labels ++ [i]) s)) := by
  constructor
  · intro h
    exact ⟨fun p hp => h p (hp.trans (List.prefix_append ..)), h _ List.prefix_rfl⟩
  · intro h p hp
    rcases List.prefix_concat_iff.mp hp with rfl | hp
    · exact h.2
    · exact h.1 p hp

/-- A register never falls back exactly when its items come in the order of their keys. -/
theorem neverFallsBack_iff (labels : List ι) (s : σ) :
    R.NeverFallsBack key labels s ↔ InOrder key (R.history labels s) := by
  induction labels using List.reverseRecOn with
  | nil =>
      have hhistory : R.history [] s = ((R.held s).map fun a => ⟨a, true⟩).toList := by
        rw [history, taken, List.append_nil]
      have hrun : R.run [] s = s := rfl
      rw [hhistory]
      refine iff_of_true (fun p hp => ?_) ?_
      · rw [List.prefix_nil.mp hp, hhistory, hrun]
        cases R.held s with
        | none => exact nofun
        | some a =>
            have hfirst := @greatest_concat _ _ _ key [] ⟨a, true⟩
            exact hfirst.mpr fun _ _ => nofun
      · cases R.held s with
        | none => exact .nil
        | some a => exact List.pairwise_singleton ..
  | append_singleton labels i ih =>
      -- what the last step takes is compared with all that came before it
      have hheld := R.held_step i (R.run labels s)
      rw [neverFallsBack_concat, ih, run_concat, history_concat, hheld]
      cases R.takes i (R.run labels s) with
      | none =>
          rw [Option.toList_none, List.append_nil]
          refine and_iff_left_of_imp fun hin => ?_
          exact ih.mpr hin labels List.prefix_rfl
      | some t => rw [Option.toList_some, inOrder_concat, Option.elim_some, greatest_concat]

end Register
