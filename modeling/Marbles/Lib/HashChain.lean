import Mathlib.Data.List.Chain
import Mathlib.Data.Set.Function
import Mathlib.Order.Interval.Set.Defs

/-!
# Chains linked by what the members carry of each other

The members of a chain are numbered from 1, and member `k` carries `link (k - 1)`: a trace
of the member before it, or `link 0` when there is none. A reader that remembers only the
number and the trace of the last member it took takes any newer member that carries that
trace. It cannot be made to skip a member exactly when the traces tell the members apart.

There is no cryptography in it: a trace is any function of a member. What a collision allows is
then visible as a lemma and not hidden in an assumption.
-/

universe u

namespace HashChain

variable {β : Type u} (link : Nat → β)

/-- A reader at member `i` takes member `k`. -/
def Follows (i k : Nat) : Prop := i < k ∧ link (k - 1) = link i

instance [DecidableEq β] (i k : Nat) : Decidable (Follows link i k) :=
  inferInstanceAs (Decidable (_ ∧ _))

/-- The next member always follows. -/
theorem follows_succ (i : Nat) : Follows link i (i + 1) := ⟨Nat.lt_succ_self i, rfl⟩

theorem isChain_range' (len i : Nat) :
    List.IsChain (Follows link) (i :: List.range' (i + 1) len) := by
  induction len generalizing i with
  | zero => exact List.isChain_singleton i
  | succ len ih =>
      rw [List.range'_succ, List.isChain_cons_cons]
      exact ⟨follows_succ link i, ih (i + 1)⟩

variable {link}

/-- A reader that has taken nothing takes members with numbers from 1 on. -/
theorem pos_of_isChain {ks : List Nat} (h : List.IsChain (Follows link) (0 :: ks)) :
    ∀ k ∈ ks, 0 < k := by
  have hlt : List.IsChain (· < ·) (0 :: ks) := h.imp fun _ _ hfollows => hfollows.1
  exact (List.pairwise_cons.mp (List.isChain_iff_pairwise.mp hlt)).1

/-- Traces that tell the members apart leave no member out. -/
theorem consecutive {n : Nat} (hinj : Set.InjOn link (Set.Iio n)) {ks : List Nat} {i : Nat}
    (hle : ∀ k ∈ ks, k ≤ n) (h : List.IsChain (Follows link) (i :: ks)) :
    ks = List.range' (i + 1) ks.length := by
  induction ks generalizing i with
  | nil => rfl
  | cons k ks ih =>
      obtain ⟨⟨hlt, hlink⟩, htail⟩ := List.isChain_cons_cons.mp h
      have hk : k ≤ n := hle k (List.mem_cons_self ..)
      -- only the member before `k` has the trace that `k` carries
      have hprev : k - 1 = i := hinj (show k - 1 < n by omega) (show i < n by omega) hlink
      obtain rfl : k = i + 1 := by omega
      rw [List.length_cons, List.range'_succ,
        ← ih (fun j hj => hle j (List.mem_cons_of_mem _ hj)) htail]

theorem injOn_of_lt {n : Nat} (h : ∀ i j, i < j → j < n → link i ≠ link j) :
    Set.InjOn link (Set.Iio n) := by
  intro i hi j hj hlink
  rcases Nat.lt_trichotomy i j with hlt | heq | hgt
  · exact absurd hlink (h i j hlt hj)
  · exact heq
  · exact absurd hlink.symm (h j i hgt hi)

/-- The two members with one trace between which a reader jumps. -/
theorem isChain_jump {i j : Nat} (hij : i < j) (hlink : link i = link j) :
    List.IsChain (Follows link) (0 :: (List.range' 1 i ++ [j + 1])) := by
  have hlast : (0 :: List.range' 1 i).getLast? = some i := by
    cases i with
    | zero => rfl
    | succ i =>
        rw [List.range'_concat, ← List.cons_append, List.getLast?_concat, Nat.one_mul, Nat.add_comm]
  rw [← List.cons_append, List.isChain_append]
  refine ⟨isChain_range' link i 0, List.isChain_singleton _, ?_⟩
  intro a ha b hb
  rw [hlast] at ha
  cases ha
  cases hb
  exact ⟨by omega, hlink.symm⟩

/-- A reader of the first `n` members can only take them one after the other exactly when
the traces of those before the last are all different. -/
theorem consecutive_iff_injOn {n : Nat} :
    (∀ ks : List Nat, (∀ k ∈ ks, k ≤ n) → List.IsChain (Follows link) (0 :: ks) →
      ks = List.range' 1 ks.length) ↔ Set.InjOn link (Set.Iio n) := by
  constructor
  · intro h
    refine injOn_of_lt fun i j hij hj hlink => ?_
    have hle : ∀ k ∈ List.range' 1 i ++ [j + 1], k ≤ n := by
      intro k hk
      rw [List.mem_append, List.mem_range'_1, List.mem_singleton] at hk
      omega
    -- the jump from `i` to `j + 1` would have to be a step
    have hks := h _ hle (isChain_jump hij hlink)
    rw [List.length_append, List.length_range', List.length_singleton, List.range'_concat] at hks
    have hlast := List.append_cancel_left hks
    simp only [Nat.one_mul, List.cons.injEq, and_true] at hlast
    omega
  · intro hinj ks hle hchain
    exact consecutive hinj hle hchain

end HashChain
