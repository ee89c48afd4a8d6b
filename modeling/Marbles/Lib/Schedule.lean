import Mathlib.Data.List.Chain
import Mathlib.Data.List.Forall2
import Mathlib.Algebra.BigOperators.Group.List.Basic
import Mathlib.Algebra.Order.Ring.Int
import Mathlib.Logic.Function.Basic

/-!
# Scheduling by two passes

Tasks have dependencies and durations, and come in an order in which every task follows the
tasks it depends on. The forward pass starts each task when the last of its dependencies
finishes; the backward pass gives each task the latest finish that delays nobody. Both are
folds over the order, and both are described by what they reach: a finish is the length of a
longest chain into a task, and the time left after a latest start is the length of a longest
chain out of it. What a schedule says about chains follows from the two descriptions alone.
-/

universe u

namespace Schedule

variable {α : Type u}

/-! ### Chains -/

/-- Every task of the list is one of `tasks` and depends on the one before it. -/
structure Chain (deps : α → List α) (tasks chain : List α) : Prop where
  links : chain.IsChain fun p i => p ∈ deps i
  tasks : ∀ i ∈ chain, i ∈ tasks

/-- The time a list of tasks takes one after another. -/
def length (dur : α → Int) (chain : List α) : Int := (chain.map dur).sum

@[simp] theorem length_nil (dur : α → Int) : length dur [] = 0 := rfl

@[simp] theorem length_cons (dur : α → Int) (i : α) (chain : List α) :
    length dur (i :: chain) = dur i + length dur chain := List.sum_cons

@[simp] theorem length_append (dur : α → Int) (c d : List α) :
    length dur (c ++ d) = length dur c + length dur d := by
  simp [length]

theorem length_mono {dur dur' : α → Int} (h : ∀ i, dur i ≤ dur' i) (chain : List α) :
    length dur chain ≤ length dur' chain := by
  induction chain with
  | nil => exact Int.le_refl 0
  | cons i chain ih =>
      rw [length_cons, length_cons]
      exact Int.add_le_add (h i) ih

variable {deps : α → List α} {dur : α → Int} {tasks : List α}

theorem Chain.nil : Chain deps tasks [] := ⟨.nil, fun _ hi => absurd hi List.not_mem_nil⟩

theorem Chain.singleton {i : α} (hi : i ∈ tasks) : Chain deps tasks [i] :=
  ⟨.singleton _, fun _ hj => List.mem_singleton.mp hj ▸ hi⟩

/-- Two chains that meet in a task. -/
theorem chain_append_cons {c d : List α} {i : α} :
    Chain deps tasks (c ++ i :: d) ↔ Chain deps tasks (c ++ [i]) ∧ Chain deps tasks (i :: d) := by
  constructor
  · intro h
    obtain ⟨hleft, hright⟩ := List.isChain_split.mp h.links
    have hmem : ∀ j, j ∈ c ++ [i] ∨ j ∈ i :: d → j ∈ tasks := by
      intro j hj
      refine h.tasks j ?_
      simp only [List.mem_append, List.mem_cons, List.not_mem_nil, or_false] at hj ⊢
      tauto
    exact ⟨⟨hleft, fun j hj => hmem j (Or.inl hj)⟩, ⟨hright, fun j hj => hmem j (Or.inr hj)⟩⟩
  · intro ⟨hleft, hright⟩
    refine ⟨List.isChain_split.mpr ⟨hleft.links, hright.links⟩, fun j hj => ?_⟩
    rcases List.mem_append.mp hj with hj | hj
    · exact hleft.tasks j (List.mem_append_left _ hj)
    · exact hright.tasks j hj

theorem chain_cons_cons {i j : α} {c : List α} :
    Chain deps tasks (i :: j :: c) ↔ i ∈ deps j ∧ i ∈ tasks ∧ Chain deps tasks (j :: c) := by
  constructor
  · intro h
    obtain ⟨hlink, hlinks⟩ := List.isChain_cons_cons.mp h.links
    exact ⟨hlink, h.tasks i (List.mem_cons_self ..), hlinks,
      fun k hk => h.tasks k (List.mem_cons_of_mem _ hk)⟩
  · intro ⟨hlink, hi, h⟩
    refine ⟨List.isChain_cons_cons.mpr ⟨hlink, h.links⟩, fun k hk => ?_⟩
    rcases List.mem_cons.mp hk with rfl | hk
    · exact hi
    · exact h.tasks k hk

theorem chain_snoc_snoc {p i : α} {c : List α} :
    Chain deps tasks (c ++ [p] ++ [i]) ↔ Chain deps tasks (c ++ [p]) ∧ p ∈ deps i ∧ i ∈ tasks := by
  rw [List.append_assoc, List.singleton_append, chain_append_cons, chain_cons_cons]
  constructor
  · intro ⟨h, hlink, _, hi⟩
    exact ⟨h, hlink, hi.tasks i (List.mem_singleton_self i)⟩
  · intro ⟨h, hlink, hi⟩
    exact ⟨h, hlink, h.tasks p (List.mem_append_right _ (List.mem_singleton_self p)), .singleton hi⟩

/-! ### Chains matched element by element -/

theorem exists_forall₂ {β : Type u} {m : α → β → Prop} {c : List α} (h : ∀ a ∈ c, ∃ x, m a x) :
    ∃ e, List.Forall₂ m c e := by
  induction c with
  | nil => exact ⟨[], .nil⟩
  | cons a c ih =>
      obtain ⟨e, he⟩ := ih fun b hb => h b (List.mem_cons_of_mem _ hb)
      obtain ⟨x, hx⟩ := h a (List.mem_cons_self ..)
      exact ⟨x :: e, .cons hx he⟩

theorem forall₂_mem {β : Type u} {m : α → β → Prop} {c : List α} {e : List β}
    (h : List.Forall₂ m c e) : (∀ a ∈ c, ∃ x ∈ e, m a x) ∧ ∀ x ∈ e, ∃ a ∈ c, m a x := by
  induction h with
  | nil => exact ⟨fun _ ha => absurd ha List.not_mem_nil, fun _ hx => absurd hx List.not_mem_nil⟩
  | cons hab _ ih =>
      constructor
      · intro a' ha'
        rcases List.mem_cons.mp ha' with rfl | ha'
        · exact ⟨_, List.mem_cons_self .., hab⟩
        · obtain ⟨x, hx, hm⟩ := ih.1 a' ha'
          exact ⟨x, List.mem_cons_of_mem _ hx, hm⟩
      · intro x' hx'
        rcases List.mem_cons.mp hx' with rfl | hx'
        · exact ⟨_, List.mem_cons_self .., hab⟩
        · obtain ⟨a, ha, hm⟩ := ih.2 x' hx'
          exact ⟨a, List.mem_cons_of_mem _ ha, hm⟩

theorem forall₂_head {β : Type u} {m : α → β → Prop} {c : List α} {e : List β}
    (h : List.Forall₂ m c e) {x : β} (hx : x ∈ e.head?) : ∃ a ∈ c.head?, m a x := by
  cases h with
  | nil => exact absurd hx (by simp)
  | cons hab _ =>
      obtain rfl := Option.some.inj hx
      exact ⟨_, rfl, hab⟩

theorem forall₂_getLast {β : Type u} {m : α → β → Prop} {c : List α} {e : List β}
    (h : List.Forall₂ m c e) {x : β} (hx : x ∈ e.getLast?) : ∃ a ∈ c.getLast?, m a x := by
  rw [List.getLast?_eq_head?_reverse] at hx ⊢
  exact forall₂_head (List.forall₂_reverse_iff.mpr h) hx

theorem filterMap_forall₂ {β γ : Type u} {m : α → β → Prop} {f : α → Option γ} {g : β → γ}
    (hstep : ∀ a x, m a x → f a = some (g x)) {c : List α} {e : List β}
    (h : List.Forall₂ m c e) : c.filterMap f = e.map g := by
  induction h with
  | nil => rfl
  | cons hab _ ih => rw [List.filterMap_cons_some (hstep _ _ hab), ih, List.map_cons]

/-- A list matched element by element, where matches of linked elements are linked. -/
theorem isChain_forall₂ {β : Type u} {r : α → α → Prop} {s : β → β → Prop} {m : α → β → Prop}
    (hstep : ∀ a b x y, m a x → m b y → r a b → s x y) {c : List α} {e : List β}
    (h : List.Forall₂ m c e) (hc : c.IsChain r) : e.IsChain s := by
  induction h with
  | nil => exact .nil
  | cons ha hrest ih =>
      cases hrest with
      | nil => exact .singleton _
      | cons hb hrest =>
          obtain ⟨hlink, hlinks⟩ := List.isChain_cons_cons.mp hc
          exact List.isChain_cons_cons.mpr ⟨hstep _ _ _ _ ha hb hlink, ih hlinks⟩

/-! ### Orders that respect dependencies -/

/-- No task twice, and every task after the tasks it depends on. -/
structure Ordered (deps : α → List α) (order : List α) : Prop where
  nodup : order.Nodup
  before : ∀ pre i post, order = pre ++ i :: post → ∀ p ∈ deps i, p ∈ pre

namespace Ordered

variable {order : List α} (h : Ordered deps order)
include h

theorem deps_mem {i p : α} (hi : i ∈ order) (hp : p ∈ deps i) : p ∈ order := by
  obtain ⟨pre, post, rfl⟩ := List.append_of_mem hi
  exact List.mem_append_left _ (h.before pre i post rfl p hp)

/-- A property that every task has when the tasks it depends on have it. -/
theorem induction {P : α → Prop} (step : ∀ i ∈ order, (∀ p ∈ deps i, P p) → P i) :
    ∀ i ∈ order, P i := by
  have hprefix : ∀ pre post, order = pre ++ post → ∀ i ∈ pre, P i := by
    intro pre
    induction pre using List.reverseRecOn with
    | nil => exact fun _ _ _ hi => absurd hi List.not_mem_nil
    | append_singleton pre i ih =>
        intro post hsplit j hj
        rw [List.append_assoc, List.singleton_append] at hsplit
        have hpre := ih (i :: post) hsplit
        rcases List.mem_append.mp hj with hj | hj
        · exact hpre j hj
        · obtain rfl := List.mem_singleton.mp hj
          exact step j (hsplit ▸ List.mem_append_right _ (List.mem_cons_self ..))
            fun p hp => hpre p (h.before pre j post hsplit p hp)
  exact hprefix order [] (List.append_nil _).symm

/-- Nobody in front of a task, nor the task itself, depends on it. -/
theorem after {pre post : List α} {i k : α} (hsplit : order = pre ++ i :: post) (hk : k ∈ order)
    (hi : i ∈ deps k) : k ∈ post := by
  have hnot : i ∉ pre := fun hmem =>
    (List.nodup_append.mp (hsplit ▸ h.nodup)).2.2 i hmem i (List.mem_cons_self ..) rfl
  rcases List.mem_append.mp (hsplit ▸ hk) with hk | hk
  · obtain ⟨a, b, rfl⟩ := List.append_of_mem hk
    rw [List.append_assoc] at hsplit
    exact absurd (List.mem_append_left _ (h.before a k _ hsplit i hi)) hnot
  · rcases List.mem_cons.mp hk with rfl | hk
    · exact absurd (h.before pre k post hsplit k hi) hnot
    · exact hk

/-- A property that every task has when the tasks that depend on it have it. -/
theorem induction_rev {P : α → Prop} (step : ∀ i ∈ order, (∀ k ∈ order, i ∈ deps k → P k) → P i) :
    ∀ i ∈ order, P i := by
  have hsuffix : ∀ post pre, order = pre ++ post → ∀ i ∈ post, P i := by
    intro post
    induction post with
    | nil => exact fun _ _ _ hi => absurd hi List.not_mem_nil
    | cons i post ih =>
        intro pre hsplit j hj
        have hpost := ih (pre ++ [i]) (by rw [hsplit, List.append_assoc, List.singleton_append])
        rcases List.mem_cons.mp hj with rfl | hj
        · exact step j (hsplit ▸ List.mem_append_right _ (List.mem_cons_self ..))
            fun k hk hdep => hpost k (h.after hsplit hk hdep)
        · exact hpost j hj
  exact hsuffix order [] rfl

/-- A chain meets a task at most once. -/
theorem chain_not_mem {i : α} {c : List α} (hc : Chain deps order (i :: c)) : i ∉ c := by
  obtain ⟨pre, post, hsplit⟩ := List.append_of_mem (hc.tasks i (List.mem_cons_self ..))
  -- everybody later on the chain comes later in the order
  have hlater : ∀ d a pre' post', Chain deps order (a :: d) → order = pre' ++ a :: post' →
      ∀ k ∈ d, k ∈ post' := by
    intro d
    induction d with
    | nil => exact fun _ _ _ _ _ _ hk => absurd hk List.not_mem_nil
    | cons b d ih =>
        intro a pre' post' hchain hsplit' k hk
        obtain ⟨hlink, -, hrest⟩ := chain_cons_cons.mp hchain
        have hb := h.after hsplit' (hrest.tasks b (List.mem_cons_self ..)) hlink
        obtain ⟨x, y, rfl⟩ := List.append_of_mem hb
        rcases List.mem_cons.mp hk with rfl | hk
        · exact hb
        · have hk' := ih b (pre' ++ a :: x) y hrest (by rw [hsplit', List.append_assoc]; rfl) k hk
          exact List.mem_append_right _ (List.mem_cons_of_mem _ hk')
  have hnodup := (List.nodup_append.mp (hsplit ▸ h.nodup)).2.1
  exact fun hmem => (List.nodup_cons.mp hnodup).1 (hlater c i pre post hc hsplit i hmem)

theorem chain_not_mem_init {i : α} {c : List α} (hc : Chain deps order (c ++ [i])) : i ∉ c := by
  intro hi
  obtain ⟨a, b, rfl⟩ := List.append_of_mem hi
  rw [List.append_assoc, List.cons_append] at hc
  exact h.chain_not_mem (chain_append_cons.mp hc).2 (by simp)

/-- Linked tasks are tasks when the last one is. -/
theorem chain_of_last {i : α} {c : List α} (hc : (c ++ [i]).IsChain fun p i => p ∈ deps i)
    (hi : i ∈ order) : Chain deps order (c ++ [i]) := by
  induction c using List.reverseRecOn generalizing i with
  | nil => exact .singleton hi
  | append_singleton c p ih =>
      rw [List.append_assoc, List.singleton_append] at hc
      obtain ⟨hinto, hlink⟩ := List.isChain_split.mp hc
      have hp := (List.isChain_cons_cons.mp hlink).1
      exact chain_snoc_snoc.mpr ⟨ih hinto (h.deps_mem hi hp), hp, hi⟩

theorem init {i : α} (hsnoc : order = tasks ++ [i]) : Ordered deps tasks := by
  subst hsnoc
  refine ⟨(List.nodup_append.mp h.nodup).1, fun pre j post hsplit p hp => ?_⟩
  exact h.before pre j (post ++ [i]) (by rw [hsplit, List.append_assoc, List.cons_append]) p hp

end Ordered

/-! ### The forward pass -/

/-- When the last of these tasks finishes, from 0 on. -/
def lastFinish (finish : α → Int) (after : List α) : Int :=
  after.foldl (fun s p => max s (finish p)) 0

theorem lastFinish_spec {finish : α → Int} {after : List α} :
    0 ≤ lastFinish finish after ∧ (∀ p ∈ after, finish p ≤ lastFinish finish after) ∧
      (lastFinish finish after = 0 ∨ ∃ p ∈ after, lastFinish finish after = finish p) := by
  unfold lastFinish
  induction after using List.reverseRecOn with
  | nil => exact ⟨Int.le_refl 0, fun _ hp => absurd hp List.not_mem_nil, Or.inl rfl⟩
  | append_singleton after q ih =>
      obtain ⟨hnonneg, hle, htight⟩ := ih
      rw [List.foldl_append, List.foldl_cons, List.foldl_nil]
      generalize after.foldl (fun s p => max s (finish p)) 0 = s at hnonneg hle htight ⊢
      refine ⟨Int.le_trans hnonneg (Int.le_max_left ..), fun p hp => ?_, ?_⟩
      · rcases List.mem_append.mp hp with hp | hp
        · exact Int.le_trans (hle p hp) (Int.le_max_left ..)
        · obtain rfl := List.mem_singleton.mp hp
          exact Int.le_max_right ..
      · rcases Int.le_total s (finish q) with hs | hs
        · rw [Int.max_eq_right hs]
          exact Or.inr ⟨q, by simp, rfl⟩
        · rw [Int.max_eq_left hs]
          exact htight.imp_right fun ⟨p, hp, heq⟩ => ⟨p, List.mem_append_left _ hp, heq⟩

theorem lastFinish_congr {finish finish' : α → Int} {after : List α}
    (h : ∀ p ∈ after, finish p = finish' p) :
    lastFinish finish after = lastFinish finish' after := by
  unfold lastFinish
  generalize (0 : Int) = s
  induction after generalizing s with
  | nil => rfl
  | cons p after ih =>
      rw [List.foldl_cons, List.foldl_cons, h p (List.mem_cons_self ..)]
      exact ih (fun q hq => h q (List.mem_cons_of_mem _ hq)) _

/-- When each task starts and when it finishes. -/
structure Times (α : Type u) where
  start : α → Int
  finish : α → Int

/-- What the forward pass reaches: every task starts as soon as its dependencies allow. -/
structure Earliest (deps : α → List α) (dur : α → Int) (tasks : List α) (t : Times α) : Prop where
  finish : ∀ i ∈ tasks, t.finish i = t.start i + dur i
  start : ∀ i ∈ tasks, t.start i = lastFinish t.finish (deps i)

theorem Earliest.congr {dur' : α → Int} {t : Times α} (h : Earliest deps dur tasks t)
    (hdur : ∀ i ∈ tasks, dur i = dur' i) : Earliest deps dur' tasks t :=
  ⟨fun i hi => hdur i hi ▸ h.finish i hi, h.start⟩

section Forward

variable [DecidableEq α]

/-- Start a task when the last of its dependencies finishes. -/
def place (deps : α → List α) (dur : α → Int) (t : Times α) (i : α) : Times α where
  start := Function.update t.start i (lastFinish t.finish (deps i))
  finish := Function.update t.finish i (lastFinish t.finish (deps i) + dur i)

def forward (deps : α → List α) (dur : α → Int) (order : List α) : Times α :=
  order.foldl (place deps dur) ⟨fun _ => 0, fun _ => 0⟩

theorem forward_earliest {order : List α} (h : Ordered deps order) :
    Earliest deps dur order (forward deps dur order) := by
  induction order using List.reverseRecOn with
  | nil => exact ⟨fun _ hi => absurd hi List.not_mem_nil, fun _ hi => absurd hi List.not_mem_nil⟩
  | append_singleton order i ih =>
      have hinit := ih (h.init rfl)
      have hfresh : i ∉ order := fun hi =>
        (List.nodup_append.mp h.nodup).2.2 i hi i (List.mem_singleton_self i) rfl
      -- the new task is nobody's dependency so far, and not its own
      have hdeps : ∀ j ∈ order ++ [i], ∀ p ∈ deps j, p ≠ i := by
        intro j hj p hp heq
        exact absurd (h.after rfl hj (heq ▸ hp)) List.not_mem_nil
      have hfold : forward deps dur (order ++ [i]) = place deps dur (forward deps dur order) i := by
        unfold forward
        rw [List.foldl_append]
        rfl
      rw [hfold]
      generalize forward deps dur order = t at hinit ⊢
      have hsame : ∀ j ∈ order ++ [i],
          lastFinish (place deps dur t i).finish (deps j) = lastFinish t.finish (deps j) :=
        fun j hj => lastFinish_congr fun p hp => Function.update_of_ne (hdeps j hj p hp) ..
      have hold : ∀ j ∈ order, (place deps dur t i).start j = t.start j ∧
          (place deps dur t i).finish j = t.finish j := by
        intro j hj
        have hne : j ≠ i := fun heq => hfresh (heq ▸ hj)
        exact ⟨Function.update_of_ne hne .., Function.update_of_ne hne ..⟩
      have hstart : (place deps dur t i).start i = lastFinish t.finish (deps i) :=
        Function.update_self ..
      have hfinish : (place deps dur t i).finish i = lastFinish t.finish (deps i) + dur i :=
        Function.update_self ..
      refine ⟨fun j hj => ?_, fun j hj => ?_⟩
      · rcases List.mem_append.mp hj with hj | hj
        · rw [(hold j hj).1, (hold j hj).2, hinit.finish j hj]
        · obtain rfl := List.mem_singleton.mp hj
          rw [hstart, hfinish]
      · rw [hsame j hj]
        rcases List.mem_append.mp hj with hj | hj
        · rw [(hold j hj).1, hinit.start j hj]
        · obtain rfl := List.mem_singleton.mp hj
          exact hstart

/-- What the pass has computed for a task when its turn is over stays as it is. -/
theorem forward_at {order pre post : List α} {i : α} (h : Ordered deps order)
    (hsplit : order = pre ++ i :: post) : (forward deps dur order).finish i =
      lastFinish (forward deps dur pre).finish (deps i) + dur i := by
  subst hsplit
  have hfresh : i ∉ post :=
    (List.nodup_cons.mp (List.nodup_append.mp h.nodup).2.1).1
  have hkept : ∀ (post : List α) (t : Times α), i ∉ post →
      (post.foldl (place deps dur) t).finish i = t.finish i := by
    intro post
    induction post with
    | nil => exact fun _ _ => rfl
    | cons j post ih =>
        intro t hnot
        obtain ⟨hne, hnot⟩ := not_or.mp (mt List.mem_cons.mpr hnot)
        rw [List.foldl_cons, ih _ hnot]
        exact Function.update_of_ne hne ..
  unfold forward
  rw [List.foldl_append, List.foldl_cons, hkept _ _ hfresh]
  exact Function.update_self ..

end Forward

/-- The last finish, 0 when there are no tasks. -/
def makespan (finish : α → Int) (tasks : List α) : Int := ((tasks.map finish).max?).getD 0

theorem makespan_spec (finish : α → Int) (hne : tasks ≠ []) :
    (∀ i ∈ tasks, finish i ≤ makespan finish tasks) ∧ ∃ i ∈ tasks, makespan finish tasks =
    finish i := by
  unfold makespan
  cases hmax : (tasks.map finish).max? with
  | none => exact absurd (List.map_eq_nil_iff.mp (List.max?_eq_none_iff.mp hmax)) hne
  | some total =>
      obtain ⟨hmem, hle⟩ := List.max?_eq_some_iff.mp hmax
      obtain ⟨i, hi, rfl⟩ := List.mem_map.mp hmem
      exact ⟨fun j hj => hle _ (List.mem_map_of_mem hj), i, hi, rfl⟩

/-- Only who is in the list matters. -/
theorem makespan_congr {finish : α → Int} {tasks' : List α} (h : ∀ i, i ∈ tasks ↔ i ∈ tasks') :
    makespan finish tasks = makespan finish tasks' := by
  rcases eq_or_ne tasks [] with rfl | hne
  · obtain rfl : tasks' = [] := List.eq_nil_iff_forall_not_mem.mpr fun i hi =>
      absurd ((h i).mpr hi) List.not_mem_nil
    rfl
  · obtain ⟨j, hj⟩ := List.exists_mem_of_ne_nil _ hne
    have hne' : tasks' ≠ [] := List.ne_nil_of_mem ((h j).mp hj)
    obtain ⟨hle, i, hi, heq⟩ := makespan_spec finish hne
    obtain ⟨hle', i', hi', heq'⟩ := makespan_spec finish hne'
    exact Int.le_antisymm (heq ▸ hle' i ((h i).mp hi)) (heq' ▸ hle i' ((h i').mpr hi'))

namespace Earliest

variable {t : Times α} (h : Earliest deps dur tasks t)
include h

theorem start_nonneg {i : α} (hi : i ∈ tasks) : 0 ≤ t.start i :=
  h.start i hi ▸ lastFinish_spec.1

theorem finish_le_start {i p : α} (hi : i ∈ tasks) (hp : p ∈ deps i) : t.finish p ≤ t.start i :=
  h.start i hi ▸ lastFinish_spec.2.1 p hp

theorem start_tight {i : α} (hi : i ∈ tasks) :
    t.start i = 0 ∨ ∃ p ∈ deps i, t.start i = t.finish p :=
  h.start i hi ▸ lastFinish_spec.2.2

/-- A chain is over before the last of its tasks is. -/
theorem length_le_finish {c : List α} {i : α} (hc : Chain deps tasks (c ++ [i])) :
    length dur (c ++ [i]) ≤ t.finish i := by
  induction c using List.reverseRecOn generalizing i with
  | nil =>
      have hi : i ∈ tasks := hc.tasks i (by simp)
      have hstart := h.start_nonneg hi
      rw [h.finish i hi]
      simp only [List.nil_append, length_cons, length_nil]
      omega
  | append_singleton c p ih =>
      obtain ⟨hchain, hp, hi⟩ := chain_snoc_snoc.mp hc
      have hchain := ih hchain
      have hstart := h.finish_le_start hi hp
      rw [length_append, h.finish i hi]
      simp only [length_cons, length_nil]
      omega

/-- Some chain takes exactly until a task finishes. -/
theorem exists_length_eq (hordered : Ordered deps tasks) : ∀ i ∈ tasks,
    ∃ c, Chain deps tasks (c ++ [i]) ∧ length dur (c ++ [i]) = t.finish i := by
  refine hordered.induction fun i hi ih => ?_
  rcases h.start_tight hi with hzero | ⟨p, hp, hstart⟩
  · refine ⟨[], .singleton hi, ?_⟩
    rw [h.finish i hi, hzero]
    simp
  · obtain ⟨c, hc, hlength⟩ := ih p hp
    refine ⟨c ++ [p], chain_snoc_snoc.mpr ⟨hc, hp, hi⟩, ?_⟩
    rw [length_append, hlength, h.finish i hi, hstart]
    simp

/-- No chain takes longer than the whole schedule. -/
theorem length_le_makespan {c : List α} (hc : Chain deps tasks c) (hdur : ∀ i ∈ tasks, 0 ≤ dur i) :
    length dur c ≤ makespan t.finish tasks := by
  rcases eq_or_ne tasks [] with rfl | hne
  · obtain rfl : c = [] := List.eq_nil_iff_forall_not_mem.mpr fun i hi =>
      absurd (hc.tasks i hi) List.not_mem_nil
    exact Int.le_refl 0
  · obtain ⟨hle, last, hlast, hmax⟩ := makespan_spec t.finish hne
    rcases List.eq_nil_or_concat c with rfl | ⟨c, i, rfl⟩
    · have hfinish := h.finish last hlast
      have hstart := h.start_nonneg hlast
      have hpos := hdur last hlast
      rw [length_nil, hmax]
      omega
    · rw [List.concat_eq_append] at hc ⊢
      exact Int.le_trans (h.length_le_finish hc) (hle i (hc.tasks i (by simp)))

/-- Some chain takes as long as the whole schedule. -/
theorem exists_length_eq_makespan (hordered : Ordered deps tasks) :
    ∃ c, Chain deps tasks c ∧ length dur c = makespan t.finish tasks := by
  rcases eq_or_ne tasks [] with rfl | hne
  · exact ⟨[], .nil, rfl⟩
  · obtain ⟨-, last, hlast, hmax⟩ := makespan_spec t.finish hne
    obtain ⟨c, hc, hlength⟩ := h.exists_length_eq hordered last hlast
    exact ⟨_, hc, hlength.trans hmax.symm⟩

end Earliest

/-! ### The backward pass -/

/-- What the backward pass reaches: the latest finish of a task is the latest start of the
tightest task that depends on it, or the end of the schedule. -/
structure Latest (deps : α → List α) (dur : α → Int) (tasks : List α) (total : Int)
    (latest : α → Int) : Prop where
  le_total : ∀ p, latest p ≤ total
  le_start : ∀ i ∈ tasks, ∀ p ∈ deps i, latest p ≤ latest i - dur i
  tight : ∀ p, latest p = total ∨ ∃ i ∈ tasks, p ∈ deps i ∧ latest p = latest i - dur i

section Backward

variable [DecidableEq α]

/-- A dependency has to be over when its dependent starts at the latest. -/
def tighten (latestStart : Int) (latest : α → Int) (p : α) : α → Int :=
  Function.update latest p (min (latest p) latestStart)

def retreat (deps : α → List α) (dur : α → Int) (latest : α → Int) (i : α) : α → Int :=
  (deps i).foldl (tighten (latest i - dur i)) latest

/-- The tasks are taken from the last to the first. -/
def backward (deps : α → List α) (dur : α → Int) (total : Int) (order : List α) : α → Int :=
  order.reverse.foldl (retreat deps dur) fun _ => total

theorem foldl_tighten (latestStart : Int) (ps : List α) (latest : α → Int) (p : α) :
    ps.foldl (tighten latestStart) latest p =
      if p ∈ ps then min (latest p) latestStart else latest p := by
  induction ps generalizing latest with
  | nil => rfl
  | cons q ps ih =>
      rw [List.foldl_cons, ih]
      by_cases hpq : p = q
      · subst hpq
        rw [tighten, Function.update_self, if_pos (List.mem_cons_self ..), Int.min_assoc,
          Int.min_self, ite_self]
      · rw [tighten, Function.update_of_ne hpq]
        simp only [List.mem_cons, hpq, false_or]

theorem backward_latest {order : List α} {total : Int} (h : Ordered deps order) :
    Latest deps dur order total (backward deps dur total order) := by
  have hsuffix : ∀ post pre, order = pre ++ post →
      Latest deps dur post total (backward deps dur total post) := by
    intro post
    induction post with
    | nil =>
        exact fun _ _ => ⟨fun _ => Int.le_refl _, fun _ hi => absurd hi List.not_mem_nil,
          fun _ => Or.inl rfl⟩
    | cons i post ih =>
        intro pre hsplit
        have hpost := ih (pre ++ [i]) (by rw [hsplit, List.append_assoc, List.singleton_append])
        have hfold : backward deps dur total (i :: post) =
            retreat deps dur (backward deps dur total post) i := by
          unfold backward
          rw [List.reverse_cons, List.foldl_append]
          rfl
        rw [hfold]
        generalize backward deps dur total post = latest at hpost ⊢
        have hvalue : ∀ p, retreat deps dur latest i p =
            if p ∈ deps i then min (latest p) (latest i - dur i) else latest p :=
          foldl_tighten _ _ _
        -- the dependencies of `i` come before it, so nobody from `i` on moves
        have hsame : ∀ j ∈ i :: post, retreat deps dur latest i j = latest j := by
          intro j hj
          have hnot : j ∉ deps i := fun hmem =>
            (List.nodup_append.mp (hsplit ▸ h.nodup)).2.2 j (h.before pre i post hsplit j hmem) j hj
              rfl
          rw [hvalue, if_neg hnot]
        have hle : ∀ p, retreat deps dur latest i p ≤ latest p := by
          intro p
          rw [hvalue]
          split
          · exact Int.min_le_left ..
          · exact Int.le_refl _
        refine ⟨fun p => Int.le_trans (hle p) (hpost.le_total p), fun j hj p hp => ?_, fun p => ?_⟩
        · rw [hsame j hj]
          rcases List.mem_cons.mp hj with rfl | hj
          · rw [hvalue, if_pos hp]
            exact Int.min_le_right ..
          · exact Int.le_trans (hle p) (hpost.le_start j hj p hp)
        · have hrest : retreat deps dur latest i p = latest p →
              retreat deps dur latest i p = total ∨
              ∃ j ∈ i :: post, p ∈ deps j ∧
                retreat deps dur latest i p = retreat deps dur latest i j - dur j := by
            intro heq
            rw [heq]
            refine (hpost.tight p).imp_right fun ⟨j, hj, hp, hlatest⟩ => ?_
            have hj' : j ∈ i :: post := List.mem_cons_of_mem _ hj
            exact ⟨j, hj', hp, by rw [hsame j hj', hlatest]⟩
          by_cases hp : p ∈ deps i
          · have hp' := hvalue p
            rw [if_pos hp] at hp'
            rcases Int.le_total (latest p) (latest i - dur i) with hmin | hmin
            · exact hrest (hp'.trans (Int.min_eq_left hmin))
            · have hi : i ∈ i :: post := List.mem_cons_self ..
              exact Or.inr ⟨i, hi, hp, by rw [hsame i hi, hp', Int.min_eq_right hmin]⟩
          · exact hrest (by rw [hvalue, if_neg hp])
  exact hsuffix order [] rfl

/-- Only tasks after it move the latest finish of a task, so it is settled when its turn comes. -/
theorem backward_at {order pre post : List α} {i : α} {total : Int} (h : Ordered deps order)
    (hsplit : order = pre ++ i :: post) :
    backward deps dur total order i = backward deps dur total post i := by
  have hstep : ∀ j rest, backward deps dur total (j :: rest) =
      retreat deps dur (backward deps dur total rest) j := by
    intro j rest
    unfold backward
    rw [List.reverse_cons, List.foldl_append]
    rfl
  -- nobody up to the task depends on it
  have hkept : ∀ mid, (∀ j ∈ mid, i ∉ deps j) →
      backward deps dur total (mid ++ post) i = backward deps dur total post i := by
    intro mid
    induction mid with
    | nil => exact fun _ => rfl
    | cons j mid ih =>
        intro hnot
        rw [List.cons_append, hstep, retreat, foldl_tighten, if_neg (hnot j List.mem_cons_self)]
        exact ih fun k hk => hnot k (List.mem_cons_of_mem _ hk)
  rw [List.append_cons] at hsplit
  subst hsplit
  refine hkept _ fun j hj hmem => ?_
  have hpost := h.after (List.append_cons pre i post).symm (List.mem_append_left _ hj) hmem
  exact (List.nodup_append.mp h.nodup).2.2 j hj j hpost rfl

end Backward

namespace Latest

variable {total : Int} {latest : α → Int} (h : Latest deps dur tasks total latest)
include h

/-- A chain that starts at the latest start of its first task is over by the end. -/
theorem length_le_total {i : α} {c : List α} (hc : Chain deps tasks (i :: c)) :
    latest i - dur i + length dur (i :: c) ≤ total := by
  induction c generalizing i with
  | nil =>
      have hle := h.le_total i
      simp only [length_cons, length_nil]
      omega
  | cons k c ih =>
      obtain ⟨hlink, -, hrest⟩ := chain_cons_cons.mp hc
      have hrest' := ih hrest
      have hle := h.le_start k (hrest.tasks k (List.mem_cons_self ..)) i hlink
      rw [length_cons]
      omega

/-- Some chain out of a task needs all the time that is left. -/
theorem exists_length_eq (hordered : Ordered deps tasks) : ∀ i ∈ tasks,
    ∃ c, Chain deps tasks (i :: c) ∧ latest i - dur i + length dur (i :: c) = total := by
  refine hordered.induction_rev fun i hi ih => ?_
  rcases h.tight i with htotal | ⟨k, hk, hlink, hlatest⟩
  · refine ⟨[], .singleton hi, ?_⟩
    simp only [length_cons, length_nil]
    omega
  · obtain ⟨c, hc, hlength⟩ := ih k hk hlink
    refine ⟨k :: c, chain_cons_cons.mpr ⟨hlink, hi, hc⟩, ?_⟩
    rw [length_cons, hlatest]
    omega

/-- The last task of a schedule has no slack. -/
theorem finish_le {t : Times α} (ht : Earliest deps dur tasks t) (hordered : Ordered deps tasks)
    (hmax : ∀ i ∈ tasks, t.finish i ≤ total) : ∀ i ∈ tasks, t.finish i ≤ latest i := by
  refine hordered.induction_rev fun i hi ih => ?_
  rcases h.tight i with htotal | ⟨k, hk, hlink, hlatest⟩
  · exact htotal ▸ hmax i hi
  · have hlater := ih k hk hlink
    have hfinish := ht.finish k hk
    have hstart := ht.finish_le_start hk hlink
    omega

end Latest

/-! ### Stretching one task -/

section Stretch

variable [DecidableEq α] {t : Times α} {latest : α → Int} {d : Int} {i : α}

theorem length_update_of_not_mem {c : List α} {m : Int} (hi : i ∉ c) :
    length (Function.update dur i m) c = length dur c := by
  have hne : ∀ j ∈ c, j ≠ i := fun j hj heq => hi (heq ▸ hj)
  unfold length
  rw [List.map_congr_left fun j hj => Function.update_of_ne (hne j hj) m dur]

/-- A chain through a task grows with it. -/
theorem length_update {c e : List α} (hc : i ∉ c) (he : i ∉ e) :
    length (Function.update dur i (dur i + d)) (c ++ i :: e) = length dur (c ++ i :: e) + d := by
  rw [length_append, length_append, length_cons, length_cons, length_update_of_not_mem hc,
    length_update_of_not_mem he, Function.update_self]
  omega

/-- The slack of a task is how much longer it may take before the schedule does. -/
theorem makespan_stretch (hordered : Ordered deps tasks) (hdur : ∀ j ∈ tasks, 0 ≤ dur j)
    (ht : Earliest deps dur tasks t)
    (hl : Latest deps dur tasks (makespan t.finish tasks) latest) (hi : i ∈ tasks) (hd : 0 ≤ d)
    {t' : Times α} (ht' : Earliest deps (Function.update dur i (dur i + d)) tasks t') :
    makespan t'.finish tasks =
      makespan t.finish tasks + max 0 (d - (latest i - t.finish i)) := by
  have hdur' : ∀ j ∈ tasks, 0 ≤ Function.update dur i (dur i + d) j := by
    intro j hj
    rcases eq_or_ne j i with rfl | hne
    · rw [Function.update_self]
      exact Int.add_nonneg (hdur j hj) hd
    · rw [Function.update_of_ne hne]
      exact hdur j hj
  have hfinish := ht.finish i hi
  refine Int.le_antisymm ?_ (Int.add_le_of_le_sub_left (Int.max_le.mpr ⟨?_, ?_⟩))
  · -- a longest chain of the stretched tasks avoids the task or goes through it once
    obtain ⟨c, hc, hlength⟩ := ht'.exists_length_eq_makespan hordered
    rw [← hlength]
    by_cases hmem : i ∈ c
    · obtain ⟨a, b, rfl⟩ := List.append_of_mem hmem
      obtain ⟨hinto, hout⟩ := chain_append_cons.mp hc
      have hb : i ∉ b := hordered.chain_not_mem hout
      have ha : i ∉ a := hordered.chain_not_mem_init hinto
      have hinto' := ht.length_le_finish hinto
      have hout' := hl.length_le_total hout
      rw [length_update ha hb, length_append]
      rw [length_append, length_cons, length_nil] at hinto'
      have hmax := Int.le_max_right 0 (d - (latest i - t.finish i))
      omega
    · rw [length_update_of_not_mem hmem]
      have hle := ht.length_le_makespan hc hdur
      have hmax := Int.le_max_left 0 (d - (latest i - t.finish i))
      omega
  · -- stretching shortens no chain
    obtain ⟨c, hc, hlength⟩ := ht.exists_length_eq_makespan hordered
    have hle := ht'.length_le_makespan hc hdur'
    have hgrow : length dur c ≤ length (Function.update dur i (dur i + d)) c := by
      refine length_mono (fun j => ?_) c
      rcases eq_or_ne j i with rfl | hne
      · rw [Function.update_self]
        exact Int.le_add_of_nonneg_right hd
      · exact Int.le_of_eq (Function.update_of_ne hne ..).symm
    omega
  · -- a longest chain through the task takes all but its slack
    obtain ⟨a, ha, hinto⟩ := ht.exists_length_eq hordered i hi
    obtain ⟨b, hb, hout⟩ := hl.exists_length_eq hordered i hi
    have hc := chain_append_cons.mpr ⟨ha, hb⟩
    have hle := ht'.length_le_makespan hc hdur'
    have hib : i ∉ b := hordered.chain_not_mem hb
    have hia : i ∉ a := hordered.chain_not_mem_init ha
    rw [length_update hia hib, length_append] at hle
    rw [length_append, length_cons, length_nil] at hinto
    omega

end Stretch

end Schedule
