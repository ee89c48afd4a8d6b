import Mathlib.Data.List.Infix

/-!
# Markers in a text

Where a marker occurs in a text, how often, and where first. An occurrence in `a ++ b` lies in `a`,
in `b`, or across the boundary; `NoStraddle` rules out the last, and then counting and finding go
through the parts one by one. A marker is not empty.
-/

universe u

namespace Marker

variable {α : Type u} [DecidableEq α]

/-- The number of places at which the marker starts. -/
def count (marker : List α) : List α → Nat
  | [] => 0
  | x :: s => (if marker <+: x :: s then 1 else 0) + count marker s

/-- The first place at which the marker starts. -/
def find (marker : List α) : List α → Option Nat
  | [] => none
  | x :: s => if marker <+: x :: s then some 0 else (find marker s).map (· + 1)

/-- No occurrence begins in `a` and ends in `b`. -/
def NoStraddle (marker a b : List α) : Prop :=
  ∀ start rest, marker = start ++ rest → start ≠ [] → rest ≠ [] → start <:+ a → ¬ rest <+: b

variable {marker a b s : List α}

/-! ### Boundaries -/

namespace NoStraddle

omit [DecidableEq α] in
theorem tail {x : α} (h : NoStraddle marker (x :: a) b) : NoStraddle marker a b :=
  fun start rest hmarker hstart hrest hsuffix =>
    h start rest hmarker hstart hrest (hsuffix.trans (List.suffix_cons ..))

omit [DecidableEq α] in
/-- The second part starts with what a marker only has in front. -/
theorem of_head {x : α} (hx : x ∉ marker.tail) : NoStraddle marker a (x :: b) := by
  intro start rest hmarker hstart hrest _ hstarts
  obtain ⟨y, start, rfl⟩ := List.exists_cons_of_ne_nil hstart
  obtain ⟨z, rest, rfl⟩ := List.exists_cons_of_ne_nil hrest
  obtain ⟨rfl, -⟩ := List.cons_prefix_cons.mp hstarts
  rw [hmarker] at hx
  exact hx (by simp)

omit [DecidableEq α] in
/-- The first part ends with what a marker has at its end at most. -/
theorem of_last {y : α} (hy : y ∉ marker.dropLast) : NoStraddle marker (a ++ [y]) b := by
  intro start rest hmarker hstart hrest hsuffix _
  obtain ⟨start, z, rfl⟩ := (List.eq_nil_or_concat start).resolve_left hstart
  obtain ⟨t, ht⟩ := hsuffix
  rw [List.concat_eq_append, ← List.append_assoc] at ht
  obtain ⟨-, hz⟩ := List.append_inj' ht rfl
  obtain rfl := List.singleton_inj.mp hz
  rw [hmarker, List.dropLast_append_of_ne_nil hrest] at hy
  exact hy (by simp)

omit [DecidableEq α] in
/-- The second part starts with what a marker does not end with, and goes on with what it lacks. -/
theorem of_second {x y : α} (hx : marker.getLast? ≠ some x) (hy : y ∉ marker) :
    NoStraddle marker a (x :: y :: b) := by
  intro start rest hmarker _ hrest _ hstarts
  obtain ⟨z, rest, rfl⟩ := List.exists_cons_of_ne_nil hrest
  obtain ⟨rfl, hnext⟩ := List.cons_prefix_cons.mp hstarts
  cases rest with
  | nil => exact hx (by rw [hmarker]; simp)
  | cons w rest =>
      obtain ⟨hw, -⟩ := List.cons_prefix_cons.mp hnext
      exact hy (by rw [hmarker, ← hw]; simp)

omit [DecidableEq α] in
/-- The first part ends with no beginning of the marker, short of the marker itself. -/
theorem of_border (h : ∀ start ∈ a.tails, start ≠ [] → start <+: marker → start = marker) :
    NoStraddle marker a b := by
  intro start rest hmarker hstart hrest hsuffix _
  have hwhole := h start ((List.mem_tails ..).mpr hsuffix) hstart (hmarker ▸ List.prefix_append ..)
  rw [hwhole] at hmarker
  exact hrest (List.self_eq_append_right.mp hmarker)

end NoStraddle

omit [DecidableEq α] in
/-- A marker at the start of a text does not reach across a boundary that none straddles. -/
theorem prefix_append_iff {x : α} (hmarker : marker ≠ []) (h : NoStraddle marker (x :: a) b) :
    marker <+: x :: a ++ b ↔ marker <+: x :: a := by
  refine ⟨fun hstarts => ?_, fun hstarts => hstarts.trans (List.prefix_append ..)⟩
  by_contra hnot
  rcases List.prefix_or_prefix_of_prefix hstarts (List.prefix_append (x :: a) b) with hshort | hlong
  · exact hnot hshort
  · obtain ⟨rest, rfl⟩ := hlong
    have hrest : rest ≠ [] := by
      rintro rfl
      exact hnot (by simp)
    exact h (x :: a) rest rfl (by simp) hrest (List.suffix_refl _)
      ((List.prefix_append_right_inj _).mp hstarts)

/-! ### Counting -/

theorem count_append (hmarker : marker ≠ []) (h : NoStraddle marker a b) :
    count marker (a ++ b) = count marker a + count marker b := by
  induction a with
  | nil => simp [count]
  | cons x a ih =>
      have hiff := prefix_append_iff hmarker h
      rw [List.cons_append] at hiff ⊢
      rw [count, count, ih h.tail, Nat.add_assoc]
      simp only [hiff]

theorem count_le_append_left : count marker b ≤ count marker (a ++ b) := by
  induction a with
  | nil => exact Nat.le_refl _
  | cons x a ih => exact ih.trans (Nat.le_add_left ..)

theorem count_le_append_right : count marker a ≤ count marker (a ++ b) := by
  induction a with
  | nil => exact Nat.zero_le _
  | cons x a ih =>
      rw [List.cons_append, count, count]
      refine Nat.add_le_add ?_ ih
      by_cases hstarts : marker <+: x :: a
      · rw [if_pos hstarts, ← List.cons_append, if_pos (hstarts.trans (List.prefix_append ..))]
      · rw [if_neg hstarts]
        exact Nat.zero_le _

/-- What is part of a text has no more of a marker than the text. -/
theorem count_le_of_infix (h : a <:+: b) : count marker a ≤ count marker b := by
  obtain ⟨before, after, rfl⟩ := h
  exact count_le_append_left.trans count_le_append_right

/-- Where a marker does not occur no item of it need be looked for. -/
theorem count_eq_zero_of_not_mem {x : α} (hx : x ∈ marker) (h : x ∉ s) : count marker s = 0 := by
  induction s with
  | nil => rfl
  | cons y s ih =>
      have hnot : ¬ marker <+: y :: s := fun hstarts => h (hstarts.subset hx)
      rw [count, if_neg hnot, ih fun hmem => h (List.mem_cons_of_mem _ hmem)]

/-! ### Finding -/

theorem find_eq_none : find marker s = none ↔ count marker s = 0 := by
  induction s with
  | nil => exact ⟨fun _ => rfl, fun _ => rfl⟩
  | cons x s ih =>
      rw [find, count]
      by_cases hstarts : marker <+: x :: s
      · simp [hstarts]
      · simp [hstarts, ih]

/-- A part without the marker is passed over. -/
theorem find_append (hmarker : marker ≠ []) (h : NoStraddle marker a b)
    (hcount : count marker a = 0) : find marker (a ++ b) = (find marker b).map (· + a.length) := by
  induction a with
  | nil => simp
  | cons x a ih =>
      have hiff := prefix_append_iff hmarker h
      rw [count] at hcount
      have hnot : ¬ marker <+: x :: a := fun hstarts => by simp [hstarts] at hcount
      rw [List.cons_append] at hiff ⊢
      rw [find, if_neg fun hstarts => hnot (hiff.mp hstarts), ih h.tail (by omega), Option.map_map]
      rfl

theorem find_self (hmarker : marker ≠ []) : find marker (marker ++ b) = some 0 := by
  obtain ⟨x, t, rfl⟩ := List.exists_cons_of_ne_nil hmarker
  rw [List.cons_append, find, if_pos]
  exact List.prefix_append (x :: t) b

/-- A text is split in one way at its first occurrence. -/
theorem split_inj (hmarker : marker ≠ []) (hstraddle : ∀ a b, NoStraddle marker a (marker ++ b))
    {a' b' : List α} (ha : count marker a = 0) (ha' : count marker a' = 0)
    (h : a ++ (marker ++ b) = a' ++ (marker ++ b')) : a = a' ∧ b = b' := by
  have hfind := find_append hmarker (hstraddle a b) ha
  rw [h, find_append hmarker (hstraddle a' b') ha', find_self hmarker, find_self hmarker] at hfind
  have hlength : a.length = a'.length := by simpa using hfind.symm
  obtain ⟨hsame, hrest⟩ := List.append_inj h hlength
  exact ⟨hsame, List.append_cancel_left hrest⟩

/-- The first occurrence splits a text. -/
theorem exists_first (h : 0 < count marker s) :
    ∃ before after, s = before ++ marker ++ after ∧ count marker before = 0 := by
  induction s with
  | nil => exact absurd h (Nat.not_lt_zero _)
  | cons x s ih =>
      by_cases hstarts : marker <+: x :: s
      · obtain ⟨after, hafter⟩ := hstarts
        exact ⟨[], after, hafter.symm, rfl⟩
      · rw [count, if_neg hstarts, Nat.zero_add] at h
        obtain ⟨before, after, rfl, hbefore⟩ := ih h
        refine ⟨x :: before, after, rfl, ?_⟩
        have hnot : ¬ marker <+: x :: before := fun hshort =>
          hstarts (hshort.trans ⟨marker ++ after, by simp⟩)
        rw [count, if_neg hnot, hbefore]

end Marker
