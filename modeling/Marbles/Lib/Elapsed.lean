import Mathlib.Algebra.Order.Ring.Int
import Mathlib.Data.Nat.Count

/-!
# Time spent inside a set of instants

Instants are whole seconds. `Elapsed.count p a b` is how many of the seconds from `a` on and
before `b` satisfy `p`: the length of the part of the interval that lies inside `p`. It adds
up over adjoining intervals, and over one period of a periodic set it is always the same.
-/

namespace Elapsed

variable {p : Int → Prop} [DecidablePred p] {a b c : Int}

/-- The seconds from `a` on and before `b` that satisfy `p`. -/
def count (p : Int → Prop) [DecidablePred p] (a b : Int) : Int :=
  Nat.count (fun i : Nat => p (a + i)) (b - a).toNat

theorem count_nonneg : 0 ≤ count p a b := Int.natCast_nonneg _

theorem count_of_le (h : b ≤ a) : count p a b = 0 := by
  rw [count, Int.toNat_of_nonpos (Int.sub_nonpos_of_le h), Nat.count_zero]
  rfl

/-- Adjoining intervals. -/
theorem count_add (hab : a ≤ b) (hbc : b ≤ c) : count p a b + count p b c = count p a c := by
  obtain ⟨m, rfl⟩ := Int.le.dest hab
  have hsplit : (c - a).toNat = m + (c - (a + m)).toNat := by omega
  have hfirst : (a + m - a).toNat = m := by omega
  rw [count, count, count, hsplit, hfirst, Nat.count_add, Nat.cast_add]
  simp only [Nat.cast_add, add_assoc]

theorem count_le (h : a ≤ b) : count p a b ≤ b - a := by
  have hle := Int.ofNat_le.mpr (Nat.count_le (p := fun i : Nat => p (a + i)) (n := (b - a).toNat))
  rwa [Int.toNat_of_nonneg (Int.sub_nonneg_of_le h)] at hle

theorem count_mono (hbc : b ≤ c) : count p a b ≤ count p a c :=
  Int.ofNat_le.mpr (Nat.count_monotone _ (Int.toNat_le_toNat (Int.sub_le_sub_right hbc a)))

/-- An interval inside the set. -/
theorem count_all (hab : a ≤ b) (h : ∀ s, a ≤ s → s < b → p s) : count p a b = b - a := by
  rw [count, Nat.count_of_forall fun i hi => h (a + i) (by omega) (by omega),
    Int.toNat_of_nonneg (Int.sub_nonneg_of_le hab)]

/-- An interval that has one inside the set in it. -/
theorem le_count {d : Int} (hab : a ≤ b) (hbc : b ≤ c) (hcd : c ≤ d)
    (h : ∀ s, b ≤ s → s < c → p s) : c - b ≤ count p a d := by
  have hinside := count_all hbc h
  have hbefore : 0 ≤ count p a b := count_nonneg
  have hmono : count p a c ≤ count p a d := count_mono hcd
  rw [← count_add hab hbc] at hmono
  omega

/-- An interval outside the set. -/
theorem count_none (h : ∀ s, a ≤ s → s < b → ¬ p s) : count p a b = 0 := by
  rw [count, Nat.count_of_forall_not fun i hi => h (a + i) (by omega) (by omega)]
  rfl

/-- Only what the set looks like inside the interval matters. -/
theorem count_congr {q : Int → Prop} [DecidablePred q] (h : ∀ s, a ≤ s → s < b → (p s ↔ q s)) :
    count p a b = count q a b := by
  have hin : ∀ i < (b - a).toNat, p (a + i) ↔ q (a + i) := fun i hi =>
    h (a + i) (by omega) (by omega)
  refine congrArg Nat.cast (le_antisymm ?_ ?_)
  · exact Nat.count_mono_left fun i hi => (hin i hi).mp
  · exact Nat.count_mono_left fun i hi => (hin i hi).mpr

/-- A set made of whole blocks of `n` seconds, over an interval of whole blocks. -/
theorem count_blocks {n : Int} (hn : 0 < n) (h : ∀ s, p s ↔ p (s / n * n)) (hab : a ≤ b) :
    n ∣ count p (a * n) (b * n) := by
  induction b, hab using Int.leInduction with
  | base =>
      rw [count_of_le le_rfl]
      exact Int.dvd_zero n
  | succ b hab ih =>
      have hblock : ∀ s, b * n ≤ s → s < (b + 1) * n → s / n = b := fun s hle hlt =>
        (Int.ediv_eq_iff_of_pos hn).mpr ⟨hle, by rwa [add_mul, one_mul] at hlt⟩
      have hstep : b * n ≤ (b + 1) * n := Int.mul_le_mul_of_nonneg_right (Int.le_add_one le_rfl)
          hn.le
      rw [← count_add (Int.mul_le_mul_of_nonneg_right hab hn.le) hstep]
      refine Int.dvd_add ih ?_
      by_cases hp : p (b * n)
      · rw [count_all hstep fun s hle hlt => (h s).mpr (by rwa [hblock s hle hlt]), add_mul,
          one_mul,
          add_sub_cancel_left]
      · rw [count_none fun s hle hlt hs => hp (by rwa [h s, hblock s hle hlt] at hs)]
        exact Int.dvd_zero n

/-- The set moved by a distance, over an interval that is moved as well. -/
theorem count_shift {n : Int} (h : ∀ s, p (s + n) ↔ p s) :
    count p (a + n) (b + n) = count p a b := by
  have hmoved : ∀ i : Nat, p (a + n + i) ↔ p (a + i) := fun i => by
    rw [add_right_comm]
    exact h (a + i)
  rw [count, count, Int.add_sub_add_right]
  simp only [hmoved]

/-- Over one period of a periodic set the count does not depend on where it starts. -/
theorem count_period {n : Int} (hn : 0 ≤ n) (h : ∀ s, p (s + n) ↔ p s) (a b : Int) :
    count p a (a + n) = count p b (b + n) := by
  have hle : ∀ {a b : Int}, a ≤ b → count p a (a + n) = count p b (b + n) := by
    intro a b hab
    -- what is left behind at one end is gained at the other
    have hstart := @count_add p _ a b (b + n) hab (Int.le_add_of_nonneg_right hn)
    have hend := @count_add p _ a (a + n) (b + n) (Int.le_add_of_nonneg_right hn)
      (Int.add_le_add_right hab n)
    rw [count_shift h] at hend
    omega
  rcases le_total a b with hab | hba
  · exact hle hab
  · exact (hle hba).symm

end Elapsed
