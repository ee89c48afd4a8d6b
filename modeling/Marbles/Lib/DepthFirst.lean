import Marbles.Lib.Graph
import Mathlib.Logic.Function.Basic

/-!
# Searching for cycles with three colors

A depth-first search marks a node gray when it is entered and black when it is left. Coming
to a gray node closes a cycle, since every gray node reaches the one the search stands on.
Conversely a search that comes to no gray node leaves every node it meets black, and a black
node has only black successors, each of which was left before it: from there no infinite
path starts.

`Visits` is the search as it runs, without a bound on its depth. `visit` is bounded by fuel;
with more fuel than unmarked nodes the bound is never met, so the search ends on every graph.

Termination and correctness are kept apart: the relation has at most one result, the function
computes it with enough fuel, and what the result means is proved about the relation alone.
-/

universe u

namespace DepthFirst

variable {α : Type u}

/-- The color of a node that has been met. -/
inductive Mark where
  | gray
  | black
  deriving DecidableEq

/-- The marks, and the gray nodes that were met again. -/
structure State (α : Type u) where
  mark : α → Option Mark
  found : List α

section Search

variable [DecidableEq α]

def State.set (s : State α) (a : α) (m : Mark) : State α :=
  { s with mark := Function.update s.mark a (some m) }

@[simp] theorem State.set_found (s : State α) (a : α) (m : Mark) : (s.set a m).found = s.found :=
  rfl

@[simp] theorem State.set_self (s : State α) (a : α) (m : Mark) : (s.set a m).mark a = some m :=
  Function.update_self ..

theorem State.set_of_ne (s : State α) {a b : α} (m : Mark) (h : b ≠ a) :
    (s.set a m).mark b = s.mark b :=
  Function.update_of_ne h ..

/-- The search below a node, at most `fuel` nodes deep. -/
def visit (next : α → List α) : Nat → α → State α → State α
  | 0, _, s => s
  | fuel + 1, a, s =>
      match s.mark a with
      | some .gray => { s with found := s.found ++ [a] }
      | some .black => s
      | none => ((next a).foldl (fun s b => visit next fuel b s) (s.set a .gray)).set a .black

/-- The search below some nodes, one after the other. As a relation the search has no fuel, and
facts about it are by induction on the visit. -/
inductive Visits (next : α → List α) : List α → State α → State α → Prop where
  | nil (s : State α) : Visits next [] s s
  | gray {a : α} {rest : List α} {s s' : State α} (hmark : s.mark a = some .gray)
      (hrest : Visits next rest { s with found := s.found ++ [a] } s') :
      Visits next (a :: rest) s s'
  | black {a : α} {rest : List α} {s s' : State α} (hmark : s.mark a = some .black)
      (hrest : Visits next rest s s') : Visits next (a :: rest) s s'
  | enter {a : α} {rest : List α} {s mid s' : State α} (hmark : s.mark a = none)
      (hbelow : Visits next (next a) (s.set a .gray) mid)
      (hrest : Visits next rest (mid.set a .black) s') : Visits next (a :: rest) s s'

namespace Visits

variable {next : α → List α} {nodes : List α} {s s' : State α}

theorem append {front back : List α} {mid : State α} (h : Visits next front s mid)
    (h' : Visits next back mid s') : Visits next (front ++ back) s s' := by
  induction h with
  | nil _ => exact h'
  | gray hmark _ ih => exact .gray hmark (ih h')
  | black hmark _ ih => exact .black hmark (ih h')
  | enter hmark hbelow _ _ ih => exact .enter hmark hbelow (ih h')

/-- The search leaves no new gray node behind, and no gray node changes. -/
theorem gray_iff (h : Visits next nodes s s') (b : α) :
    s'.mark b = some .gray ↔ s.mark b = some .gray := by
  induction h with
  | nil _ => exact Iff.rfl
  | gray _ _ ih => exact ih
  | black _ _ ih => exact ih
  | @enter a rest s mid s' hmark _ _ ihbelow ihrest =>
      rw [ihrest]
      rcases eq_or_ne b a with rfl | hne
      · rw [State.set_self, hmark]
        simp
      · rw [State.set_of_ne _ _ hne, ihbelow, State.set_of_ne _ _ hne]

/-- A black node stays black. -/
theorem black_mono (h : Visits next nodes s s') {b : α} (hb : s.mark b = some .black) :
    s'.mark b = some .black := by
  induction h with
  | nil _ => exact hb
  | gray _ _ ih => exact ih hb
  | black _ _ ih => exact ih hb
  | @enter a rest s mid s' hmark _ _ ihbelow ihrest =>
      have hne : b ≠ a := by
        rintro rfl
        rw [hmark] at hb
        cases hb
      refine ihrest ?_
      rw [State.set_of_ne _ _ hne]
      exact ihbelow (by rw [State.set_of_ne _ _ hne]; exact hb)

/-- No mark is taken back. -/
theorem marked (h : Visits next nodes s s') {b : α} (hb : s'.mark b = none) : s.mark b = none := by
  cases hmark : s.mark b with
  | none => rfl
  | some m =>
      cases m with
      | gray => exact absurd hb (by rw [(h.gray_iff b).mpr hmark]; simp)
      | black => exact absurd hb (by rw [h.black_mono hmark]; simp)

/-- Cycles that were found stay found. -/
theorem found_le (h : Visits next nodes s s') : s.found.length ≤ s'.found.length := by
  induction h with
  | nil _ => exact Nat.le_refl _
  | gray _ _ ih =>
      rw [List.length_append] at ih
      omega
  | black _ _ ih => exact ih
  | enter _ _ _ ihbelow ihrest =>
      rw [State.set_found] at ihbelow ihrest
      omega

/-- Along an acyclic relation nothing is found, as long as the gray nodes reach the nodes the
search comes to. -/
theorem found_eq (hacyclic : Graph.Acyclic fun a b => b ∈ next a) (h : Visits next nodes s s')
    (hpath : ∀ a, s.mark a = some .gray → ∀ b ∈ nodes,
      Relation.TransGen (fun a b => b ∈ next a) a b) :
    s'.found = s.found := by
  induction h with
  | nil _ => rfl
  | @gray a _ _ _ hmark _ _ =>
      exact absurd (hpath a hmark a (List.mem_cons_self ..)) (hacyclic a)
  | black _ _ ih => exact ih fun a ha b hb => hpath a ha b (List.mem_cons_of_mem _ hb)
  | @enter a rest s mid s' hmark hbelow hrest ihbelow ihrest =>
      have hold : ∀ g, g ≠ a → (s.set a .gray).mark g = some .gray → s.mark g = some .gray := by
        intro g hne hg
        rwa [State.set_of_ne _ _ hne] at hg
      have hmid : mid.found = s.found := by
        refine ihbelow fun g hg b hb => ?_
        rcases eq_or_ne g a with rfl | hne
        · exact .single hb
        · exact (hpath g (hold g hne hg) a (List.mem_cons_self ..)).tail hb
      refine (ihrest fun g hg b hb => ?_).trans hmid
      have hne : g ≠ a := by
        rintro rfl
        rw [State.set_self] at hg
        cases hg
      rw [State.set_of_ne _ _ hne, hbelow.gray_iff] at hg
      exact hpath g (hold g hne hg) b (List.mem_cons_of_mem _ hb)

/-- A search that finds nothing leaves black nodes, from which every path ends. -/
theorem black_acc (h : Visits next nodes s s') (hfound : s'.found.length = s.found.length)
    (hacc : ∀ a, s.mark a = some .black → Acc (fun b a => b ∈ next a) a) :
    (∀ b ∈ nodes, s'.mark b = some .black) ∧
      ∀ a, s'.mark a = some .black → Acc (fun b a => b ∈ next a) a := by
  -- On the visit. No edge to a gray node was found, so every successor of a node that turns black
  -- is black already, hence accessible.
  induction h with
  | nil _ => exact ⟨fun _ hb => absurd hb List.not_mem_nil, hacc⟩
  | gray _ hrest _ =>
      have hle := hrest.found_le
      rw [List.length_append, List.length_singleton] at hle
      omega
  | black hmark hrest ih =>
      obtain ⟨hblack, hacc'⟩ := ih hfound hacc
      refine ⟨fun b hb => ?_, hacc'⟩
      rcases List.mem_cons.mp hb with rfl | hb
      · exact hrest.black_mono hmark
      · exact hblack b hb
  | @enter a rest s mid s' hmark hbelow hrest ihbelow ihrest =>
      have hle := hbelow.found_le
      have hle' := hrest.found_le
      rw [State.set_found] at hle hle'
      have hstart : ∀ b, (s.set a .gray).mark b = some .black →
          Acc (fun b a => b ∈ next a) b := by
        intro b hb
        rcases eq_or_ne b a with rfl | hne
        · rw [State.set_self] at hb
          cases hb
        · rw [State.set_of_ne _ _ hne] at hb
          exact hacc b hb
      obtain ⟨hnext, hmid⟩ := ihbelow (by rw [State.set_found]; omega) hstart
      have hleft : ∀ b, (mid.set a .black).mark b = some .black →
          Acc (fun b a => b ∈ next a) b := by
        intro b hb
        rcases eq_or_ne b a with rfl | hne
        · exact Acc.intro _ fun c hc => hmid c (hnext c hc)
        · rw [State.set_of_ne _ _ hne] at hb
          exact hmid b hb
      obtain ⟨hblack, hacc'⟩ := ihrest (by rw [State.set_found]; omega) hleft
      refine ⟨fun b hb => ?_, hacc'⟩
      rcases List.mem_cons.mp hb with rfl | hb
      · exact hrest.black_mono (State.set_self ..)
      · exact hblack b hb

end Visits

/-! ### Enough fuel -/

omit [DecidableEq α] in
/-- The nodes without a mark get fewer. -/
theorem countP_isNone_le (nodes : List α) {s s' : State α}
    (h : ∀ a, s'.mark a = none → s.mark a = none) :
    (nodes.countP fun a => (s'.mark a).isNone) ≤ nodes.countP fun a => (s.mark a).isNone :=
  List.countP_mono_left fun a _ ha => by
    rw [Option.isNone_iff_eq_none] at ha ⊢
    exact h a ha

theorem countP_set_lt {nodes : List α} {s : State α} {a : α} (ha : a ∈ nodes)
    (hmark : s.mark a = none) (m : Mark) : (nodes.countP fun b => ((s.set a m).mark b).isNone) <
      nodes.countP fun b => (s.mark b).isNone := by
  have hold : ∀ b, (s.set a m).mark b = none → s.mark b = none := by
    intro b hb
    rcases eq_or_ne b a with rfl | hne
    · exact hmark
    · rwa [State.set_of_ne _ _ hne] at hb
  obtain ⟨front, back, rfl⟩ := List.append_of_mem ha
  have hfront := countP_isNone_le front hold
  have hback := countP_isNone_le back hold
  simp only [List.countP_append, List.countP_cons, State.set_self, hmark, Option.isNone_none,
    Option.isNone_some, if_true]
  simp only [Bool.false_eq_true, if_false]
  omega

section Fuel

variable {next : α → List α} {nodes : List α} (hnext : ∀ a, ∀ b ∈ next a, a ∈ nodes)
include hnext

/-- A search with more fuel than unmarked nodes runs to its end. -/
theorem visits_visit (fuel : Nat) (a : α) (s : State α)
    (hfuel : (nodes.countP fun b => (s.mark b).isNone) < fuel) :
    Visits next [a] s (visit next fuel a s) := by
  induction fuel generalizing a s with
  | zero => exact absurd hfuel (Nat.not_lt_zero _)
  | succ fuel ih =>
      have hfold : ∀ (rest : List α) (s : State α),
          (nodes.countP fun b => (s.mark b).isNone) < fuel →
          Visits next rest s (rest.foldl (fun s b => visit next fuel b s) s) := by
        intro rest
        induction rest with
        | nil => exact fun s _ => .nil s
        | cons b rest ihrest =>
            intro s hs
            have hb := ih b s hs
            have hle := countP_isNone_le nodes fun c => hb.marked (b := c)
            exact hb.append (ihrest _ (Nat.lt_of_le_of_lt hle hs))
      rw [visit]
      cases hmark : s.mark a with
      | some m =>
          cases m with
          | gray => exact .gray hmark (.nil _)
          | black => exact .black hmark (.nil _)
      | none =>
          refine .enter hmark ?_ (.nil _)
          cases hbelow : next a with
          | nil => exact .nil _
          | cons b rest =>
              -- a node with successors is one of `nodes`, and its mark is new
              have ha : a ∈ nodes := hnext a b (by rw [hbelow]; exact List.mem_cons_self ..)
              have hlt := countP_set_lt ha hmark .gray
              exact hfold _ _ (by omega)

theorem visits_foldl (fuel : Nat) (roots : List α) (s : State α)
    (hfuel : (nodes.countP fun b => (s.mark b).isNone) < fuel) :
    Visits next roots s (roots.foldl (fun s b => visit next fuel b s) s) := by
  induction roots generalizing s with
  | nil => exact .nil s
  | cons b roots ih =>
      have hb := visits_visit hnext fuel b s hfuel
      have hle := countP_isNone_le nodes fun c => hb.marked (b := c)
      exact hb.append (ih _ (Nat.lt_of_le_of_lt hle hfuel))

end Fuel

/-- A search from all nodes that have successors finds nothing exactly when there is no cycle. -/
theorem found_nil_iff {next : α → List α} {roots : List α} {s : State α}
    (hroots : ∀ a, ∀ b ∈ next a, a ∈ roots) (h : Visits next roots ⟨fun _ => none, []⟩ s) :
    s.found = [] ↔ Graph.Acyclic fun a b => b ∈ next a := by
  constructor
  · intro hfound a ha
    obtain ⟨hblack, hacc⟩ := h.black_acc (by rw [hfound]) fun b hb => by cases hb
    obtain ⟨b, hb, -⟩ := Relation.TransGen.head'_iff.mp ha
    have haccessible := (hacc a (hblack a (hroots a b hb))).transGen
    have hirrefl : ∀ c, Acc (Relation.TransGen fun b a => b ∈ next a) c →
        ¬ Relation.TransGen (fun b a => b ∈ next a) c c := by
      intro c hc
      induction hc with
      | intro x _ ih => exact fun hself => ih x hself hself
    exact hirrefl a haccessible (Relation.transGen_swap.mp ha)
  · intro hacyclic
    exact h.found_eq hacyclic fun a ha => by cases ha

end Search

end DepthFirst
