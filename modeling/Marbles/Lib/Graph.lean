import Mathlib.Data.Finset.Card
import Mathlib.Data.Finset.Dedup
import Mathlib.Logic.Relation

/-!
# Reachability over a finite edge list

A directed graph is a list of edges. Two textbook searches are defined on it as
programs run them, with a fuel that is shown to be enough:

* `breadthFirst` — the queue discipline of a recursive `UNION` query: a node enters
  the queue the first time it is generated;
* `depthFirst` — an explicit stack with a visited set, a node being marked when it is
  popped.

Both decide `Relation.ReflTransGen`; `below` is the stack search without a target, which collects
everything that can be reached. The last section says when inserting an edge
keeps a relation free of cycles.
-/

universe u

namespace Graph

variable {α : Type u}

/-- `b` is one edge away from `a`. -/
def Edge (edges : List (α × α)) (a b : α) : Prop := (a, b) ∈ edges

/-- No node reaches itself by one edge or more. -/
def Acyclic (r : α → α → Prop) : Prop := ∀ a, ¬ Relation.TransGen r a a

/-- A set that contains `a` and is closed under edges contains all that `a` reaches. -/
theorem reaches_mem_of_closed {r : α → α → Prop} {s : α → Prop} {a b : α} (ha : s a)
    (hclosed : ∀ x y, s x → r x y → s y) (h : Relation.ReflTransGen r a b) : s b := by
  induction h with
  | refl => exact ha
  | tail _ hxy ih => exact hclosed _ _ ih hxy

section Search

variable [DecidableEq α]

/-- The targets of the edges that leave `a`, in edge order. -/
def successors (edges : List (α × α)) (a : α) : List α :=
  (edges.filter fun e => e.1 = a).map Prod.snd

@[simp] theorem mem_successors {edges : List (α × α)} {a b : α} :
    b ∈ successors edges a ↔ Edge edges a b := by
  unfold successors Edge
  constructor
  · intro h
    obtain ⟨⟨x, y⟩, he, rfl⟩ := List.mem_map.mp h
    obtain ⟨hmem, hx⟩ := List.mem_filter.mp he
    obtain rfl : x = a := by simpa using hx
    exact hmem
  · intro h
    exact List.mem_map.mpr ⟨(a, b), List.mem_filter.mpr ⟨h, by simp⟩, rfl⟩

/-! ### Breadth first -/

/-- The successors of `a` not generated before, each once. -/
def fresh (edges : List (α × α)) (seen : List α) (a : α) : List α :=
  (successors edges a).dedup.filter fun b => b ∉ seen

/-- All nodes generated, starting from a queue of nodes already counted in `seen`. -/
def breadthFirst (edges : List (α × α)) : Nat → List α → List α → List α
  | 0, _, seen => seen
  | _ + 1, [], seen => seen
  | fuel + 1, a :: queue, seen =>
      breadthFirst edges fuel (queue ++ fresh edges seen a) (seen ++ fresh edges seen a)

/-- The targets of edges that have not been generated yet. -/
def ungenerated (edges : List (α × α)) (seen : List α) : Finset α :=
  (edges.map Prod.snd).toFinset \ seen.toFinset

@[simp] theorem mem_fresh {edges : List (α × α)} {seen : List α} {a b : α} :
    b ∈ fresh edges seen a ↔ Edge edges a b ∧ b ∉ seen := by
  rw [fresh, List.mem_filter, List.mem_dedup, mem_successors, decide_eq_true_eq]

/-- Every node generated is one `ungenerated` before, so the search runs out of them. -/
theorem card_ungenerated_fresh (edges : List (α × α)) (seen : List α) (a : α) :
    (ungenerated edges (seen ++ fresh edges seen a)).card + (fresh edges seen a).length =
      (ungenerated edges seen).card := by
  have hnodup : (fresh edges seen a).Nodup := (List.nodup_dedup _).filter _
  have hsub : (fresh edges seen a).toFinset ⊆ ungenerated edges seen := by
    intro b hb
    obtain ⟨he, hns⟩ := mem_fresh.mp (List.mem_toFinset.mp hb)
    simp only [ungenerated, Finset.mem_sdiff, List.mem_toFinset]
    exact ⟨List.mem_map.mpr ⟨(a, b), he, rfl⟩, hns⟩
  have hsplit : ungenerated edges (seen ++ fresh edges seen a) =
      ungenerated edges seen \ (fresh edges seen a).toFinset := by
    rw [ungenerated, ungenerated, List.toFinset_append, sdiff_sdiff_left]
    rfl
  rw [hsplit, ← List.toFinset_card_of_nodup hnodup]
  exact Finset.card_sdiff_add_card_eq_card hsub

/-- Only nodes reachable from `a` are generated. -/
theorem breadthFirst_sound {edges : List (α × α)} {a : α} (fuel : Nat) (queue seen : List α)
    (hq : ∀ x ∈ queue, Relation.ReflTransGen (Edge edges) a x)
    (hs : ∀ x ∈ seen, Relation.ReflTransGen (Edge edges) a x) :
    ∀ x ∈ breadthFirst edges fuel queue seen, Relation.ReflTransGen (Edge edges) a x := by
  induction fuel generalizing queue seen with
  | zero => exact hs
  | succ fuel ih =>
      cases queue with
      | nil => exact hs
      | cons b queue =>
          have hnew : ∀ x ∈ fresh edges seen b, Relation.ReflTransGen (Edge edges) a x :=
            fun x hx => (hq b (by simp)).tail (mem_fresh.mp hx).1
          refine ih _ _ ?_ ?_
          · intro x hx
            rcases List.mem_append.mp hx with h | h
            · exact hq x (List.mem_cons_of_mem _ h)
            · exact hnew x h
          · intro x hx
            rcases List.mem_append.mp hx with h | h
            · exact hs x h
            · exact hnew x h

/-- What a search keeps: the queue is generated, and a generated node outside the queue has
had its successors generated. -/
structure Generated (edges : List (α × α)) (queue seen : List α) : Prop where
  queued : ∀ x ∈ queue, x ∈ seen
  done : ∀ x ∈ seen, x ∉ queue → ∀ y, Edge edges x y → y ∈ seen

/-- Taking the first node off the queue appends its fresh successors to both lists. -/
theorem Generated.step {edges : List (α × α)} {a : α} {queue seen : List α}
    (h : Generated edges (a :: queue) seen) :
    Generated edges (queue ++ fresh edges seen a) (seen ++ fresh edges seen a) := by
  constructor
  · intro x hx
    rcases List.mem_append.mp hx with hx | hx
    · exact List.mem_append_left _ (h.queued x (List.mem_cons_of_mem _ hx))
    · exact List.mem_append_right _ hx
  · intro x hx hxq y hxy
    rw [List.mem_append, not_or] at hxq
    have hxseen : x ∈ seen := (List.mem_append.mp hx).resolve_right hxq.2
    by_cases hy : y ∈ seen
    · exact List.mem_append_left _ hy
    · by_cases hxa : x = a
      · subst hxa
        exact List.mem_append_right _ (mem_fresh.mpr ⟨hxy, hy⟩)
      · have hxaq : x ∉ a :: queue := by
          rw [List.mem_cons, not_or]
          exact ⟨hxa, hxq.1⟩
        exact absurd (h.done x hxseen hxaq y hxy) hy

/-- With fuel for the queue and for all that is still ungenerated, the search ends on a
set that contains `seen` and is closed under edges. -/
theorem breadthFirst_closed {edges : List (α × α)} (fuel : Nat) (queue seen : List α)
    (hfuel : queue.length + (ungenerated edges seen).card ≤ fuel)
    (h : Generated edges queue seen) :
    (∀ x ∈ seen, x ∈ breadthFirst edges fuel queue seen) ∧
      ∀ x ∈ breadthFirst edges fuel queue seen, ∀ y, Edge edges x y →
        y ∈ breadthFirst edges fuel queue seen := by
  induction fuel generalizing queue seen with
  | zero =>
      obtain rfl : queue = [] := List.eq_nil_of_length_eq_zero (by omega)
      exact ⟨fun x hx => hx, fun x hx => h.done x hx (by simp)⟩
  | succ fuel ih =>
      cases queue with
      | nil => exact ⟨fun x hx => hx, fun x hx => h.done x hx (by simp)⟩
      | cons a queue =>
          -- each successor put on the queue is one node less to generate
          have hcard := card_ungenerated_fresh edges seen a
          have hstep := ih (queue ++ fresh edges seen a) (seen ++ fresh edges seen a) (by
            simp only [List.length_cons, List.length_append] at hfuel ⊢
            omega) h.step
          exact ⟨fun x hx => hstep.1 x (List.mem_append_left _ hx), hstep.2⟩

/-- Is `target` generated by a breadth-first search from `a`? -/
def reachesBreadthFirst (edges : List (α × α)) (a target : α) : Bool :=
  decide (target ∈ breadthFirst edges (edges.length + 1) [a] [a])

/-- The breadth-first search decides reachability. -/
theorem reachesBreadthFirst_iff {edges : List (α × α)} {a target : α} :
    reachesBreadthFirst edges a target = true ↔
      Relation.ReflTransGen (Edge edges) a target := by
  rw [reachesBreadthFirst, decide_eq_true_eq]
  constructor
  · exact fun h => breadthFirst_sound _ _ _ (by simp [Relation.ReflTransGen.refl])
      (by simp [Relation.ReflTransGen.refl]) _ h
  · intro h
    have hcard : (ungenerated edges [a]).card ≤ edges.length := by
      calc (ungenerated edges [a]).card ≤ (edges.map Prod.snd).toFinset.card :=
            Finset.card_le_card Finset.sdiff_subset
        _ ≤ (edges.map Prod.snd).length := List.toFinset_card_le _
        _ = edges.length := List.length_map ..
    have hstart : Generated edges [a] [a] := ⟨fun _ h => h, fun x hx hnx => absurd hx hnx⟩
    obtain ⟨hmem, hclosed⟩ := breadthFirst_closed (edges.length + 1) [a] [a]
      (by simp only [List.length_singleton]; omega) hstart
    exact reaches_mem_of_closed (hmem a (by simp)) (fun x y hx => hclosed x hx y) h

/-! ### Depth first -/

/-- Pop the stack until it is empty or an edge to `target` is met. -/
def depthFirst (edges : List (α × α)) (target : α) : Nat → List α → List α → Bool
  | 0, _, _ => false
  | _ + 1, [], _ => false
  | fuel + 1, a :: stack, seen =>
      if a ∈ seen then depthFirst edges target fuel stack seen
      else if target ∈ successors edges a then true
      else depthFirst edges target fuel ((successors edges a).reverse ++ stack) (a :: seen)

/-- The edges whose source has not been popped yet. -/
def unvisited (edges : List (α × α)) (seen : List α) : List (α × α) :=
  edges.filter fun e => e.1 ∉ seen

theorem length_unvisited_cons {edges : List (α × α)} {seen : List α} {a : α} (ha : a ∉ seen) :
    (unvisited edges (a :: seen)).length + (successors edges a).length =
      (unvisited edges seen).length := by
  rw [successors, List.length_map]
  induction edges with
  | nil => rfl
  | cons e edges ih =>
      simp only [unvisited, List.filter_cons, List.mem_cons, not_or] at ih ⊢
      by_cases he : e.1 = a
      · simp only [he, ha, not_true_eq_false, false_and, not_false_eq_true, decide_false,
          decide_true, if_true, if_false, List.length_cons, Bool.false_eq_true]
        omega
      · by_cases hs : e.1 ∈ seen
        · simpa [he, hs] using ih
        · simp only [he, hs, not_false_eq_true, and_self, decide_true, decide_false, if_true,
            if_false, List.length_cons, Bool.false_eq_true]
          omega

/-- A search that succeeds has met a node reachable from `a`. -/
theorem depthFirst_sound {edges : List (α × α)} {a target : α} (fuel : Nat) (stack seen : List α)
    (hs : ∀ x ∈ stack, Relation.ReflTransGen (Edge edges) a x)
    (h : depthFirst edges target fuel stack seen = true) :
    Relation.ReflTransGen (Edge edges) a target := by
  induction fuel generalizing stack seen with
  | zero => simp [depthFirst] at h
  | succ fuel ih =>
      cases stack with
      | nil => simp [depthFirst] at h
      | cons b stack =>
          have hb : Relation.ReflTransGen (Edge edges) a b := hs b (by simp)
          have htail : ∀ x ∈ stack, Relation.ReflTransGen (Edge edges) a x :=
            fun x hx => hs x (List.mem_cons_of_mem _ hx)
          rw [depthFirst] at h
          split at h
          · exact ih stack seen htail h
          · split at h
            · rename_i ht
              exact hb.tail (mem_successors.mp ht)
            · refine ih _ _ ?_ h
              intro x hx
              rcases List.mem_append.mp hx with hx | hx
              · exact hb.tail (mem_successors.mp (List.mem_reverse.mp hx))
              · exact htail x hx

/-- What a search that has not succeeded keeps: the edges of the visited nodes miss the target
and lead to visited nodes or onto the stack. -/
def Explored (edges : List (α × α)) (target : α) (stack seen : List α) : Prop :=
  ∀ x ∈ seen, ∀ y, Edge edges x y → y ≠ target ∧ (y ∈ seen ∨ y ∈ stack)

omit [DecidableEq α] in
/-- A node popped a second time is dropped. -/
theorem Explored.skip {edges : List (α × α)} {target a : α} {stack seen : List α} (ha : a ∈ seen)
    (h : Explored edges target (a :: stack) seen) : Explored edges target stack seen := by
  intro x hx y hxy
  obtain ⟨hne, hor⟩ := h x hx y hxy
  refine ⟨hne, hor.elim Or.inl fun hy => ?_⟩
  rcases List.mem_cons.mp hy with rfl | hy
  · exact Or.inl ha
  · exact Or.inr hy

/-- A node popped for the first time is visited: its successors go onto the stack. -/
theorem Explored.visit {edges : List (α × α)} {target a : α} {stack seen : List α}
    (htarget : target ∉ successors edges a) (h : Explored edges target (a :: stack) seen) :
    Explored edges target ((successors edges a).reverse ++ stack) (a :: seen) := by
  intro x hx y hxy
  rcases List.mem_cons.mp hx with rfl | hx
  · have hy := mem_successors.mpr hxy
    refine ⟨fun he => htarget (he ▸ hy), Or.inr ?_⟩
    exact List.mem_append_left _ (List.mem_reverse.mpr hy)
  · obtain ⟨hne, hor⟩ := h x hx y hxy
    refine ⟨hne, ?_⟩
    rcases hor with hy | hy
    · exact Or.inl (List.mem_cons_of_mem _ hy)
    · rcases List.mem_cons.mp hy with rfl | hy
      · exact Or.inl (by simp)
      · exact Or.inr (List.mem_append_right _ hy)

omit [DecidableEq α] in
/-- With an empty stack the visited nodes are closed under edges. -/
theorem Explored.closed {edges : List (α × α)} {target : α} {seen : List α}
    (h : Explored edges target [] seen) :
    ∃ closed : α → Prop, (∀ x, x ∈ seen ∨ x ∈ [] → closed x) ∧
      ∀ x y, closed x → Edge edges x y → closed y ∧ y ≠ target :=
  ⟨(· ∈ seen), fun x hx => by simpa using hx,
    fun x y hx hxy => ⟨by simpa using (h x hx y hxy).2, (h x hx y hxy).1⟩⟩

/-- A search that fails with enough fuel leaves a closed set without `target`: the
popped nodes and the stack together absorb every edge. -/
theorem depthFirst_complete {edges : List (α × α)} {target : α} (fuel : Nat) (stack seen : List α)
    (hfuel : stack.length + (unvisited edges seen).length ≤ fuel)
    (hdone : Explored edges target stack seen)
    (h : depthFirst edges target fuel stack seen = false) :
    ∃ closed : α → Prop, (∀ x, x ∈ seen ∨ x ∈ stack → closed x) ∧
      ∀ x y, closed x → Edge edges x y → closed y ∧ y ≠ target := by
  induction fuel generalizing stack seen with
  | zero =>
      obtain rfl : stack = [] := List.eq_nil_of_length_eq_zero (by omega)
      exact hdone.closed
  | succ fuel ih =>
      cases stack with
      | nil => exact hdone.closed
      | cons a stack =>
          rw [depthFirst] at h
          split at h
          · rename_i ha
            obtain ⟨closed, hin, hclosed⟩ := ih stack seen
              (by simp only [List.length_cons] at hfuel; omega) (hdone.skip ha) h
            refine ⟨closed, fun x hx => ?_, hclosed⟩
            rcases hx with hx | hx
            · exact hin x (Or.inl hx)
            · rcases List.mem_cons.mp hx with rfl | hx
              · exact hin x (Or.inl ha)
              · exact hin x (Or.inr hx)
          · rename_i ha
            split at h
            · simp at h
            · rename_i htarget
              -- the edges out of `a` pay for the successors it puts on the stack
              have hlen := @length_unvisited_cons _ _ edges _ _ ha
              obtain ⟨closed, hin, hclosed⟩ := ih ((successors edges a).reverse ++ stack)
                  (a :: seen)
                (by
                  simp only [List.length_cons, List.length_append, List.length_reverse] at hfuel ⊢
                  omega)
                (hdone.visit htarget) h
              refine ⟨closed, fun x hx => ?_, hclosed⟩
              rcases hx with hx | hx
              · exact hin x (Or.inl (List.mem_cons_of_mem _ hx))
              · rcases List.mem_cons.mp hx with rfl | hx
                · exact hin x (Or.inl (by simp))
                · exact hin x (Or.inr (List.mem_append_right _ hx))

/-- Is `target` reached by a depth-first search from `a`? -/
def reachesDepthFirst (edges : List (α × α)) (a target : α) : Bool :=
  a = target || depthFirst edges target (edges.length + 1) [a] []

/-- The depth-first search decides reachability. -/
theorem reachesDepthFirst_iff {edges : List (α × α)} {a target : α} :
    reachesDepthFirst edges a target = true ↔
      Relation.ReflTransGen (Edge edges) a target := by
  rw [reachesDepthFirst, Bool.or_eq_true, decide_eq_true_eq]
  constructor
  · rintro (rfl | h)
    · exact Relation.ReflTransGen.refl
    · exact depthFirst_sound _ _ _ (by simp [Relation.ReflTransGen.refl]) h
  · intro h
    by_contra hcon
    rw [not_or, Bool.not_eq_true] at hcon
    have hfuel : [a].length + (unvisited edges []).length ≤ edges.length + 1 := by
      have := List.length_filter_le (fun e : α × α => decide (e.1 ∉ ([] : List α))) edges
      simp only [unvisited, List.length_singleton]
      omega
    obtain ⟨closed, hin, hcl⟩ := depthFirst_complete _ _ _ hfuel nofun hcon.2
    let inside : α → Prop := fun x => closed x ∧ (x ≠ a → x ≠ target)
    have hstart : inside a := ⟨hin a (Or.inr (by simp)), fun hne => absurd rfl hne⟩
    have hstep : ∀ x y, inside x → Edge edges x y → inside y := by
      intro x y hx hxy
      exact ⟨(hcl x y hx.1 hxy).1, fun _ => (hcl x y hx.1 hxy).2⟩
    exact (reaches_mem_of_closed hstart hstep h).2 (Ne.symm hcon.1) rfl

/-- The two searches agree. -/
theorem reachesDepthFirst_eq_breadthFirst (edges edges' : List (α × α)) (a target : α)
    (h : ∀ e, e ∈ edges ↔ e ∈ edges') :
    reachesDepthFirst edges a target = reachesBreadthFirst edges' a target := by
  have hrel : Edge edges = Edge edges' := by
    funext x y
    exact propext (h (x, y))
  rw [Bool.eq_iff_iff, reachesDepthFirst_iff, reachesBreadthFirst_iff, hrel]

/-! ### Everything below a node -/

/-- Pop the stack until it is empty, and mark what is popped. -/
def popAll (edges : List (α × α)) : Nat → List α → List α → List α
  | 0, _, seen => seen
  | _ + 1, [], seen => seen
  | fuel + 1, a :: stack, seen =>
      if a ∈ seen then popAll edges fuel stack seen
      else popAll edges fuel ((successors edges a).reverse ++ stack) (a :: seen)

/-- The node and everything it reaches. -/
def below (edges : List (α × α)) (a : α) : List α := popAll edges (edges.length + 1) [a] []

/-- What is marked is reachable. -/
theorem popAll_sound {edges : List (α × α)} {a : α} (fuel : Nat) (stack seen : List α)
    (hstack : ∀ x ∈ stack, Relation.ReflTransGen (Edge edges) a x)
    (hseen : ∀ x ∈ seen, Relation.ReflTransGen (Edge edges) a x) :
    ∀ x ∈ popAll edges fuel stack seen, Relation.ReflTransGen (Edge edges) a x := by
  induction fuel generalizing stack seen with
  | zero => exact hseen
  | succ fuel ih =>
      cases stack with
      | nil => exact hseen
      | cons b stack =>
          obtain ⟨hb, hstack⟩ := List.forall_mem_cons.mp hstack
          rw [popAll]
          split
          · exact ih stack seen hstack hseen
          · refine ih _ _ (fun x hx => ?_) (List.forall_mem_cons.mpr ⟨hb, hseen⟩)
            rcases List.mem_append.mp hx with hx | hx
            · exact hb.tail (mem_successors.mp (List.mem_reverse.mp hx))
            · exact hstack x hx

/-- What is marked, or waits on the stack, ends up marked, and so do its successors. -/
theorem popAll_closed {edges : List (α × α)} (fuel : Nat) (stack seen : List α)
    (hfuel : stack.length + (unvisited edges seen).length ≤ fuel)
    (hdone : ∀ x ∈ seen, ∀ y, Edge edges x y → y ∈ seen ∨ y ∈ stack) :
    (∀ x, x ∈ seen ∨ x ∈ stack → x ∈ popAll edges fuel stack seen) ∧
      ∀ x ∈ popAll edges fuel stack seen, ∀ y, Edge edges x y →
      y ∈ popAll edges fuel stack seen := by
  induction fuel generalizing stack seen with
  | zero =>
      obtain rfl : stack = [] := List.eq_nil_of_length_eq_zero (by omega)
      exact ⟨fun x hx => by simpa [popAll] using hx,
        fun x hx y hxy => by simpa [popAll] using hdone x hx y hxy⟩
  | succ fuel ih =>
      cases stack with
      | nil =>
          exact ⟨fun x hx => by simpa [popAll] using hx,
            fun x hx y hxy => by simpa [popAll] using hdone x hx y hxy⟩
      | cons a stack =>
          rw [popAll]
          split
          · rename_i ha
            have hpop : ∀ y ∈ a :: stack, y ∈ seen ∨ y ∈ stack := by
              intro y hy
              rcases List.mem_cons.mp hy with rfl | hy
              · exact Or.inl ha
              · exact Or.inr hy
            obtain ⟨hin, hclosed⟩ := ih stack seen
              (by simp only [List.length_cons] at hfuel; omega)
              fun x hx y hxy => (hdone x hx y hxy).elim Or.inl (hpop y)
            exact ⟨fun x hx => hin x (hx.elim Or.inl (hpop x)), hclosed⟩
          · rename_i ha
            -- the edges out of `a` pay for the successors it puts on the stack
            have hlen := @length_unvisited_cons _ _ edges _ _ ha
            obtain ⟨hin, hclosed⟩ := ih ((successors edges a).reverse ++ stack) (a :: seen)
              (by
                simp only [List.length_cons, List.length_append, List.length_reverse] at hfuel ⊢
                omega) fun x hx y hxy => by
                  rw [List.mem_cons, List.mem_append, List.mem_reverse]
                  rcases List.mem_cons.mp hx with rfl | hx
                  · exact Or.inr (Or.inl (mem_successors.mpr hxy))
                  · rcases hdone x hx y hxy with hy | hy
                    · exact Or.inl (Or.inr hy)
                    · exact (List.mem_cons.mp hy).imp Or.inl Or.inr
            refine ⟨fun x hx => hin x ?_, hclosed⟩
            rw [List.mem_cons, List.mem_append]
            rcases hx with hx | hx
            · exact Or.inl (Or.inr hx)
            · exact (List.mem_cons.mp hx).imp Or.inl Or.inr

/-- The search comes to exactly what can be reached. -/
theorem mem_below {edges : List (α × α)} {a b : α} :
    b ∈ below edges a ↔ Relation.ReflTransGen (Edge edges) a b := by
  constructor
  · exact popAll_sound _ _ _ (fun x hx => List.mem_singleton.mp hx ▸ .refl) nofun b
  · have hfuel : [a].length + (unvisited edges []).length ≤ edges.length + 1 := by
      have hle := List.length_filter_le (fun e : α × α => decide (e.1 ∉ ([] : List α))) edges
      simp only [unvisited, List.length_singleton]
      omega
    obtain ⟨hin, hclosed⟩ := popAll_closed _ _ _ hfuel nofun
    exact reaches_mem_of_closed (s := fun x => x ∈ below edges a)
      (hin a (Or.inr (List.mem_singleton_self a))) fun x y hx => hclosed x hx y

end Search

/-! ### Keeping a relation acyclic -/

/-- A path that may use the extra edge `a → b` either avoids it or runs through it. -/
theorem transGen_insert {r : α → α → Prop} {a b x y : α}
    (h : Relation.TransGen (fun x y => r x y ∨ (x = a ∧ y = b)) x y) :
    Relation.TransGen r x y ∨
      (Relation.ReflTransGen r x a ∧ Relation.ReflTransGen r b y) := by
  induction h with
  | single hxy =>
      rcases hxy with hr | ⟨rfl, rfl⟩
      · exact Or.inl (.single hr)
      · exact Or.inr ⟨.refl, .refl⟩
  | tail _ hyz ih =>
      rcases hyz with hr | ⟨rfl, rfl⟩
      · rcases ih with h | ⟨h1, h2⟩
        · exact Or.inl (h.tail hr)
        · exact Or.inr ⟨h1, h2.tail hr⟩
      · rcases ih with h | ⟨h1, _⟩
        · exact Or.inr ⟨h.to_reflTransGen, .refl⟩
        · exact Or.inr ⟨h1, .refl⟩

/-- An edge whose target does not already reach its source closes no cycle. -/
theorem Acyclic.insert {r : α → α → Prop} {a b : α} (h : Acyclic r)
    (hba : ¬ Relation.ReflTransGen r b a) :
    Acyclic fun x y => r x y ∨ (x = a ∧ y = b) := by
  intro x hx
  rcases transGen_insert hx with hx | ⟨h1, h2⟩
  · exact h x hx
  · exact hba (h2.trans h1)

theorem Acyclic.mono {r s : α → α → Prop} (h : Acyclic s) (hrs : ∀ a b, r a b → s a b) :
    Acyclic r := fun a ha => h a (Relation.TransGen.mono hrs a a ha)

theorem Acyclic.swap {r : α → α → Prop} (h : Acyclic r) : Acyclic (Function.swap r) :=
  fun a ha => h a (Relation.transGen_swap.mp ha)

/-- A relation whose steps are matched by steps of an acyclic one has no cycle either, when no
element has two matches. -/
theorem Acyclic.along {β : Type u} {r : α → α → Prop} {s : β → β → Prop} {m : α → β → Prop}
    (h : Acyclic s) (hunique : ∀ a x y, m a x → m a y → x = y)
    (hstep : ∀ a b, r a b → ∃ x y, m a x ∧ m b y ∧ s x y) : Acyclic r := by
  intro a ha
  have hpath : ∀ b, Relation.TransGen r a b → ∃ x y, m a x ∧ m b y ∧ Relation.TransGen s x y := by
    intro b hb
    induction hb with
    | single hab =>
        obtain ⟨x, y, hx, hy, hxy⟩ := hstep _ _ hab
        exact ⟨x, y, hx, hy, .single hxy⟩
    | tail _ hbc ih =>
        obtain ⟨x, y, hx, hy, hxy⟩ := ih
        obtain ⟨y', z, hy', hz, hyz⟩ := hstep _ _ hbc
        obtain rfl := hunique _ _ _ hy hy'
        exact ⟨x, z, hx, hz, hxy.tail hyz⟩
  obtain ⟨x, y, hx, hy, hxy⟩ := hpath a ha
  obtain rfl := hunique _ _ _ hx hy
  exact h x hxy

/-- Two acyclic relations, the second of which starts where the first never comes, close no
cycle together. -/
theorem Acyclic.union {r s : α → α → Prop} {p : α → Prop} (hr : Acyclic r) (hs : Acyclic s)
    (hp : ∀ a b, r a b → p a ∧ p b) (hnew : ∀ a b, s a b → ¬ p a) :
    Acyclic fun a b => r a b ∨ s a b := by
  have hstays : ∀ x y, Relation.TransGen (fun a b => r a b ∨ s a b) x y → p x →
      Relation.TransGen r x y ∧ p y := by
    intro x y h hx
    induction h with
    | single hxy =>
        have hxy := hxy.resolve_right fun hxy => hnew _ _ hxy hx
        exact ⟨.single hxy, (hp _ _ hxy).2⟩
    | tail _ hyz ih =>
        have hyz := hyz.resolve_right fun hyz => hnew _ _ hyz ih.2
        exact ⟨ih.1.tail hyz, (hp _ _ hyz).2⟩
  have hnever : ∀ x y, Relation.TransGen (fun a b => r a b ∨ s a b) x y → ¬ p y →
      Relation.TransGen s x y := by
    intro x y h hy
    induction h with
    | single hxy => exact .single (hxy.resolve_left fun hxy => hy (hp _ _ hxy).2)
    | tail _ hyz ih =>
        have hyz := hyz.resolve_left fun hyz => hy (hp _ _ hyz).2
        exact (ih (hnew _ _ hyz)).tail hyz
  intro x hx
  by_cases hx' : p x
  · exact hr x (hstays x x hx hx').1
  · exact hs x (hnever x x hx hx')

/-- Going along the edges of a finite acyclic graph comes to an end. -/
theorem Acyclic.wellFounded {edges : List (α × α)} (h : Acyclic (Edge edges)) :
    WellFounded fun b a => Edge edges a b := by
  classical
  -- the edges that are ahead get fewer
  let ahead := fun a => edges.toFinset.filter fun e => Relation.ReflTransGen (Edge edges) a e.1
  refine Subrelation.wf (fun {b a} hab => ?_) (InvImage.wf (fun a => (ahead a).card) wellFounded_lt)
  refine Finset.card_lt_card (Finset.ssubset_iff_of_subset ?_ |>.mpr ⟨(a, b), ?_, fun hmem => ?_⟩)
  · intro e he
    rw [Finset.mem_filter] at he ⊢
    exact ⟨he.1, he.2.head hab⟩
  · exact Finset.mem_filter.mpr ⟨List.mem_toFinset.mpr hab, .refl⟩
  · exact h a (Relation.TransGen.head' hab (Finset.mem_filter.mp hmem).2)

/-- Where every node of `p` has an edge to a node of `p` or of `q`, every node of `p` reaches
`q` through nodes of `p`. -/
theorem Acyclic.reaches {edges : List (α × α)} (h : Acyclic (Edge edges)) {p q : α → Prop}
    (hstep : ∀ a, p a → ∃ b, Edge edges a b ∧ (p b ∨ q b)) {a : α} (ha : p a) :
    ∃ b, q b ∧ Relation.ReflTransGen (fun x y => p x ∧ Edge edges x y) a b := by
  induction a using h.wellFounded.induction with
  | _ a ih =>
      obtain ⟨b, hab, hb | hb⟩ := hstep a ha
      · obtain ⟨c, hc, hpath⟩ := ih b hab hb
        exact ⟨c, hc, hpath.head ⟨ha, hab⟩⟩
      · exact ⟨b, hb, .single ⟨ha, hab⟩⟩

end Graph
