import Mathlib.Logic.Function.Basic
import Mathlib.Order.Lattice

/-!
# Marks that only go up

A ratchet keeps the greatest value it has accepted under each key. An offer of a value is accepted
when it is sound, which is a matter of the offer alone, and above the mark of its key. What is
accepted under one key goes up, and has nothing to do with the offers under other keys.

Soundness of an offer does not depend on the marks. That is what makes a run of calls a run of
offers, in any interleaving of the keys.
-/

universe u v

namespace Ratchet

/-- The marks of all keys. -/
abbrev Marks (κ : Type u) (τ : Type v) := κ → Option τ

structure Offer (κ : Type u) (τ : Type v) where
  key : κ
  value : τ
  sound : Bool

variable {κ : Type u} {τ : Type v} [DecidableEq κ] [LinearOrder τ]

def admits (marks : Marks κ τ) (offer : Offer κ τ) : Bool :=
  offer.sound && (marks offer.key).all (· < offer.value)

def step (marks : Marks κ τ) (offer : Offer κ τ) : Marks κ τ :=
  if admits marks offer then Function.update marks offer.key (some offer.value) else marks

/-- The values accepted under a key, in order. -/
def accepted (key : κ) : List (Offer κ τ) → Marks κ τ → List τ
  | [], _ => []
  | offer :: offers, marks =>
      if offer.key = key ∧ admits marks offer then
        offer.value :: accepted key offers (step marks offer)
      else accepted key offers (step marks offer)

variable {key : κ} {marks marks' : Marks κ τ} {offer : Offer κ τ} {offers : List (Offer κ τ)}

/-- An offer under one key leaves the other marks alone. -/
theorem step_ne (h : key ≠ offer.key) : step marks offer key = marks key := by
  unfold step
  split
  · exact Function.update_of_ne h ..
  · rfl

omit [DecidableEq κ] in
theorem admits_iff :
    admits marks offer = true ↔ offer.sound = true ∧ ∀ mark ∈ marks offer.key,
    mark < offer.value := by
  rw [admits, Bool.and_eq_true_iff]
  cases marks offer.key <;> simp

omit [DecidableEq κ] in
theorem admits_congr (h : marks offer.key = marks' offer.key) :
    admits marks offer = admits marks' offer := by
  rw [admits, admits, h]

theorem step_congr (h : marks key = marks' key) : step marks offer key = step marks' offer key := by
  by_cases hkey : key = offer.key
  · subst hkey
    rw [step, step, admits_congr h]
    split
    · rw [Function.update_self, Function.update_self]
    · exact h
  · rw [step_ne hkey, step_ne hkey]
    exact h

/-- Only the offers under a key, and its own mark, decide what is accepted under it. -/
theorem accepted_filter (h : marks key = marks' key) :
    accepted key (offers.filter fun offer => offer.key = key) marks' =
      accepted key offers marks := by
  induction offers generalizing marks marks' with
  | nil => rfl
  | cons offer offers ih =>
      by_cases hkey : offer.key = key
      · subst hkey
        rw [List.filter_cons_of_pos (by simp), accepted, accepted, ih (step_congr h),
          admits_congr h]
      · rw [List.filter_cons_of_neg (by simpa using hkey), accepted, if_neg (fun hc => hkey hc.1)]
        exact ih ((step_ne (Ne.symm hkey)).trans h)

/-- Everything accepted is sound and above the mark at the start. -/
theorem above_of_mem_accepted {value : τ} (h : value ∈ accepted key offers marks) :
    (∃ offer ∈ offers, offer.sound = true ∧ offer.value = value) ∧ ∀ mark ∈ marks key,
    mark < value := by
  induction offers generalizing marks with
  | nil => cases h
  | cons offer offers ih =>
      rw [accepted] at h
      by_cases hadmits : offer.key = key ∧ admits marks offer = true
      · rw [if_pos hadmits] at h
        obtain ⟨rfl, hadmits⟩ := hadmits
        obtain ⟨hsound, hmark⟩ := admits_iff.mp hadmits
        rcases List.mem_cons.mp h with rfl | h
        · exact ⟨⟨offer, List.mem_cons_self .., hsound, rfl⟩, hmark⟩
        · obtain ⟨⟨other, hmem, hother⟩, habove⟩ := ih h
          refine ⟨⟨other, List.mem_cons_of_mem _ hmem, hother⟩, fun mark hold => ?_⟩
          have hnew : step marks offer offer.key = some offer.value := by
            rw [step, if_pos hadmits, Function.update_self]
          exact (hmark mark hold).trans (habove _ hnew)
      · rw [if_neg hadmits] at h
        obtain ⟨⟨other, hmem, hother⟩, habove⟩ := ih h
        refine ⟨⟨other, List.mem_cons_of_mem _ hmem, hother⟩, ?_⟩
        have hsame : step marks offer key = marks key := by
          by_cases hkey : key = offer.key
          · have hrefused : admits marks offer ≠ true := fun hc => hadmits ⟨hkey.symm, hc⟩
            rw [step, if_neg hrefused]
          · exact step_ne hkey
        rwa [hsame] at habove

/-- What is accepted under a key goes up. -/
theorem accepted_pairwise : (accepted key offers marks).Pairwise (· < ·) := by
  induction offers generalizing marks with
  | nil => exact .nil
  | cons offer offers ih =>
      rw [accepted]
      split
      · rename_i hadmits
        obtain ⟨rfl, hadmits⟩ := hadmits
        refine List.pairwise_cons.mpr ⟨fun value hvalue => ?_, ih⟩
        have hnew : step marks offer offer.key = some offer.value := by
          rw [step, if_pos hadmits, Function.update_self]
        exact (above_of_mem_accepted hvalue).2 _ hnew
      · exact ih

end Ratchet
