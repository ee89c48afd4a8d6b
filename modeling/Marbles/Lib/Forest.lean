import Marbles.Lib.Graph

/-!
# Trees

Going through a tree from its root, a node before what is below it, needs no record of the nodes
that were visited: no path comes back to a node, and no two paths meet. `walk` is that recursion,
with a bound on its depth. `Tree.visited` says that it never needs a bound above the number of
nodes, and that it comes to every node below the root exactly once.

Trees that are stored as the parent of each node are changed by attaching one node somewhere else.
They stay trees when the new parent is there and is not below the node, which `climb` finds out by
going up from the new parent, again without a record of where it has been.

The parent of a node is a partial function, and a tree is a parent function without cycles.
Attaching is a change at one place, so whether it closes a cycle is decided by going up from the
new parent alone.
-/

universe u v

namespace Forest

variable {α : Type u} {β : Type v}

/-! ### Going down -/

/-- `c` is below `a`, or `a` itself. -/
abbrev Below (next : α → List α) (a c : α) : Prop :=
  Relation.ReflTransGen (fun a b => b ∈ next a) a c

/-- What is below `a` is a tree: paths down from `a` end, siblings are different, and no node has
two parents. -/
structure Tree (next : α → List α) (a : α) : Prop where
  ends : Acc (fun b a => b ∈ next a) a
  nodup : ∀ b, Below next a b → (next b).Nodup
  parent : ∀ b b' c, Below next a b → Below next a b' → c ∈ next b → c ∈ next b' → b = b'

namespace Tree

variable {next : α → List α} {a b b' c : α}

/-- The part of a tree below a child of its root. -/
theorem child (h : Tree next a) (hb : b ∈ next a) : Tree next b where
  ends := h.ends.inv hb
  nodup := fun c hc => h.nodup c (hc.head hb)
  parent := fun c c' d hc hc' => h.parent c c' d (hc.head hb) (hc'.head hb)

/-- The root is not below its children. -/
theorem not_below_child (h : Tree next a) (hb : b ∈ next a) : ¬ Below next b a := by
  have hcycle : ∀ x, Acc (fun b a => b ∈ next a) x → ∀ y, y ∈ next x → ¬ Below next y x := by
    intro x hx
    induction hx with
    | intro x _ ih =>
        intro y hy hback
        rcases hback.cases_head with rfl | ⟨z, hz, hzx⟩
        · exact ih y hy y hy .refl
        · exact ih y hy z hz (hzx.tail hy)
  exact hcycle a h.ends b hb

/-- What is below two siblings is different. -/
theorem disjoint (h : Tree next a) (hb : b ∈ next a) (hb' : b' ∈ next a) (hne : b ≠ b')
    (hc : Below next b c) : ¬ Below next b' c := by
  -- the last step to a node in both comes from a node in both
  induction hc with
  | refl =>
      intro hback
      rcases hback.cases_tail with heq | ⟨d, hd, hdb⟩
      · exact hne heq
      · obtain rfl := h.parent d a b (hd.head hb') .refl hdb hb
        exact h.not_below_child hb' hd
  | @tail d c hbd hdc ih =>
      intro hback
      rcases hback.cases_tail with heq | ⟨d', hd', hdc'⟩
      · subst heq
        obtain rfl := h.parent d a c (hbd.head hb) .refl hdc hb'
        exact h.not_below_child hb hbd
      · obtain rfl := h.parent d d' c (hbd.head hb) (hd'.head hb') hdc hdc'
        exact ih hd'

end Tree

/-- Go through the tree below a node that is `depth` below the root, a node before what is below
it, at most `fuel` nodes deep. `none` is the case that this is not deep enough. -/
def walk (next : α → List α) (emit : Nat → α → β) : Nat → Nat → α → List β → Option (List β)
  | 0, _, _, _ => none
  | fuel + 1, depth, a, out =>
      (next a).foldlM (fun out b => walk next emit fuel (depth + 1) b out) (out ++ [emit depth a])

/-- The nodes below `a` in the order of the walk, each with how far below `a` it is. -/
structure Visited (next : α → List α) (a : α) (nodes : List (Nat × α)) : Prop where
  mem : ∀ c, c ∈ nodes.map Prod.snd ↔ Below next a c
  nodup : (nodes.map Prod.snd).Nodup
  walk : ∀ {β : Type v} (emit : Nat → α → β) (fuel depth : Nat) (out : List β),
    nodes.length ≤ fuel →
    walk next emit fuel depth a out = some (out ++ nodes.map fun v => emit (depth + v.1) v.2)

/-- The nodes below some children of `a`, one child after the other. -/
structure VisitedAll (next : α → List α) (children : List α) (nodes : List (Nat × α)) : Prop where
  mem : ∀ c, c ∈ nodes.map Prod.snd ↔ ∃ b ∈ children, Below next b c
  nodup : (nodes.map Prod.snd).Nodup
  walk : ∀ {β : Type v} (emit : Nat → α → β) (fuel depth : Nat) (out : List β),
    nodes.length ≤ fuel →
    children.foldlM (fun out b => walk next emit fuel (depth + 1) b out) out =
      some (out ++ nodes.map fun v => emit (depth + v.1) v.2)

theorem VisitedAll.nil (next : α → List α) : VisitedAll.{u, v} next [] [] where
  mem := fun c => by simp
  nodup := List.nodup_nil
  walk := fun emit fuel depth out _ => by simp

/-- Nodes that are one step further down. -/
def lower (nodes : List (Nat × α)) : List (Nat × α) := nodes.map fun v => (v.1 + 1, v.2)

@[simp] theorem map_snd_lower (nodes : List (Nat × α)) : (lower nodes).map Prod.snd = nodes.map
    Prod.snd := by
  simp [lower, Function.comp_def]

theorem VisitedAll.cons {next : α → List α} {b : α} {children : List α}
    {nodes rest : List (Nat × α)} (hb : Visited.{u, v} next b nodes)
    (hrest : VisitedAll.{u, v} next children rest)
    (hdisjoint : ∀ c, Below next b c → ∀ b' ∈ children, ¬ Below next b' c) :
    VisitedAll.{u, v} next (b :: children) (lower nodes ++ rest) where
  mem := fun c => by
    rw [List.map_append, List.mem_append, map_snd_lower, hb.mem, hrest.mem]
    simp
  nodup := by
    rw [List.map_append, map_snd_lower]
    refine List.Nodup.append hb.nodup hrest.nodup fun c hc hc' => ?_
    obtain ⟨b', hb', hbelow⟩ := (hrest.mem c).mp hc'
    exact hdisjoint c ((hb.mem c).mp hc) b' hb' hbelow
  walk := fun emit fuel depth out hfuel => by
    have hlength : nodes.length + rest.length ≤ fuel := by
      simpa [lower] using hfuel
    rw [List.foldlM_cons, hb.walk emit fuel (depth + 1) out (by omega)]
    show List.foldlM _ _ _ = _
    rw [hrest.walk emit fuel depth _ (by omega), List.map_append, List.append_assoc]
    simp [lower, Function.comp_def, Nat.add_assoc, Nat.add_comm 1]

/-- The walk below the root of a tree comes to an end, and to every node once. -/
theorem Tree.visited {next : α → List α} {a : α} (h : Tree next a) :
    ∃ nodes, Visited.{u, v} next a nodes := by
  -- induction along the paths down from `a`
  have hends := h.ends
  induction hends with
  | intro a _ ih =>
      have hchildren : ∀ children : List α, (∀ b ∈ children, b ∈ next a) → children.Nodup →
          ∃ nodes, VisitedAll.{u, v} next children nodes := by
        intro children
        induction children with
        | nil => exact fun _ _ => ⟨[], .nil next⟩
        | cons b children ihchildren =>
            intro hmem hnodup
            have hb := hmem b (List.mem_cons_self ..)
            have hothers : ∀ b' ∈ children, b' ∈ next a := fun b' hb' =>
              hmem b' (List.mem_cons_of_mem _ hb')
            obtain ⟨hnew, hnodup⟩ := List.nodup_cons.mp hnodup
            obtain ⟨nodes, hnodes⟩ := ih b hb (h.child hb)
            obtain ⟨rest, hrest⟩ := ihchildren hothers hnodup
            refine ⟨_, VisitedAll.cons hnodes hrest fun c hc b' hb' => ?_⟩
            exact h.disjoint hb (hothers b' hb') (fun heq => hnew (heq ▸ hb')) hc
      obtain ⟨nodes, hnodes⟩ := hchildren (next a) (fun _ hb => hb) (h.nodup a .refl)
      refine ⟨(0, a) :: nodes, fun c => ?_, ?_, fun emit fuel depth out hfuel => ?_⟩
      · rw [List.map_cons, List.mem_cons, hnodes.mem]
        constructor
        · rintro (rfl | ⟨b, hb, hc⟩)
          · exact .refl
          · exact hc.head hb
        · intro hc
          exact hc.cases_head.imp_left Eq.symm
      · rw [List.map_cons, List.nodup_cons]
        refine ⟨fun hmem => ?_, hnodes.nodup⟩
        obtain ⟨b, hb, hback⟩ := (hnodes.mem a).mp hmem
        exact h.not_below_child hb hback
      · obtain ⟨fuel, rfl⟩ : ∃ n, fuel = n + 1 := ⟨fuel - 1, by
          rw [List.length_cons] at hfuel
          omega⟩
        rw [walk, hnodes.walk emit fuel depth _ (by simpa using hfuel)]
        simp

/-! ### Parents -/

/-- Which nodes there are, each with its parent. -/
abbrev Parents (α : Type u) := α → Option (Option α)

namespace Parents

variable {t : Parents α} {a b : α} {p : Option α}

/-- `b` is the parent of `a`. -/
def Up (t : Parents α) (a b : α) : Prop := t a = some (some b)

/-- Every parent is there, and no node is above itself. -/
structure Sound (t : Parents α) : Prop where
  parents : ∀ a b, t.Up a b → (t b).isSome
  acyclic : Graph.Acyclic t.Up

/-- A node may be put under a parent that is there, and neither the node nor below it. -/
def Admits (t : Parents α) (a : α) (p : Option α) : Prop :=
  ∀ b, p = some b → (t b).isSome ∧ ¬ Relation.ReflTransGen t.Up b a

theorem admits_none (t : Parents α) : t.Admits a none ↔ True :=
  iff_true_intro fun _ h => by cases h

theorem admits_some : t.Admits a (some b) ↔ (t b).isSome ∧ ¬ Relation.ReflTransGen t.Up b a :=
  ⟨fun h => h b rfl, fun h _ hb => Option.some.inj hb ▸ h⟩

theorem sound_empty : Sound fun _ : α => (none : Option (Option α)) where
  parents := fun _ _ h => by cases h
  acyclic := fun a ha => by
    obtain ⟨_, h, -⟩ := Relation.TransGen.head'_iff.mp ha
    cases h

/-- Put a node, new or not, under a parent, or under none. -/
def attach [DecidableEq α] (t : Parents α) (a : α) (p : Option α) : Parents α :=
  Function.update t a (some p)

theorem attach_isSome [DecidableEq α] (h : (t b).isSome) : (t.attach a p b).isSome := by
  unfold attach
  by_cases hb : b = a
  · simp [hb]
  · simpa [hb] using h

theorem up_attach [DecidableEq α] {x y : α} (h : (t.attach a p).Up x y) :
    t.Up x y ∨ x = a ∧ p = some y := by
  unfold Up attach at h
  by_cases hx : x = a
  · subst hx
    exact Or.inr ⟨rfl, by simpa using h⟩
  · exact Or.inl (by simpa [Up, hx] using h)

theorem Sound.attach [DecidableEq α] (h : t.Sound) (hp : t.Admits a p) : (t.attach a p).Sound where
  parents := fun x y hxy => by
    rcases up_attach hxy with hold | ⟨-, hnew⟩
    · exact attach_isSome (h.parents x y hold)
    · exact attach_isSome (hp y hnew).1
  acyclic := by
    cases p with
    | none => exact h.acyclic.mono fun x y hxy => (up_attach hxy).resolve_right (by simp)
    | some b =>
        refine (h.acyclic.insert (hp b rfl).2).mono fun x y hxy => ?_
        exact (up_attach hxy).imp_right fun hnew => ⟨hnew.1, (Option.some.inj hnew.2).symm⟩

/-! ### Going up -/

/-- Does the chain of parents from a node, or from none, meet `target`? `none` is the case that
it is longer than `fuel`. -/
def climb [DecidableEq α] (t : Parents α) (target : α) : Nat → Option α → Option Bool
  | _, none => some false
  | 0, some _ => none
  | fuel + 1, some a => if a = target then some true else climb t target fuel (t a).join

/-- The chain of parents is no longer than there are nodes, and meets what is above. -/
theorem Sound.climb [DecidableEq α] (h : t.Sound) {nodes : List α}
    (hnodes : ∀ a, (t a).isSome → a ∈ nodes) (ha : (t a).isSome) (target : α) {fuel : Nat}
    (hfuel : nodes.length ≤ fuel) :
    ∃ found, t.climb target fuel (some a) = some found ∧
      (found = true ↔ Relation.ReflTransGen t.Up a target) := by
  classical
  -- the nodes that are ahead get fewer
  let ahead := fun a => nodes.toFinset.filter fun b => Relation.ReflTransGen t.Up a b
  have hself : ∀ a, (t a).isSome → a ∈ ahead a := fun a ha =>
    Finset.mem_filter.mpr ⟨List.mem_toFinset.mpr (hnodes a ha), .refl⟩
  have hclimb : ∀ fuel a, (t a).isSome → (ahead a).card ≤ fuel →
      ∃ found, t.climb target fuel (some a) = some found ∧
        (found = true ↔ Relation.ReflTransGen t.Up a target) := by
    intro fuel
    induction fuel with
    | zero =>
        intro a ha hcard
        have hpos := Finset.card_pos.mpr ⟨a, hself a ha⟩
        omega
    | succ fuel ih =>
        intro a ha hcard
        rw [Parents.climb]
        by_cases htarget : a = target
        · exact ⟨true, if_pos htarget, by simp [htarget, Relation.ReflTransGen.refl]⟩
        rw [if_neg htarget]
        obtain ⟨p, hp⟩ := Option.isSome_iff_exists.mp ha
        cases p with
        | none =>
            refine ⟨false, by simp [hp, Parents.climb], ?_⟩
            simp only [Bool.false_eq_true, false_iff]
            intro hpath
            rcases hpath.cases_head with heq | ⟨b, hb, -⟩
            · exact htarget heq
            · rw [Up, hp] at hb
              cases hb
        | some b =>
            have hb : t.Up a b := hp
            have hfewer : (ahead b).card < (ahead a).card := by
              refine Finset.card_lt_card (Finset.ssubset_iff_of_subset ?_ |>.mpr
                ⟨a, hself a ha, ?_⟩)
              · intro c hc
                rw [Finset.mem_filter] at hc ⊢
                exact ⟨hc.1, hc.2.head hb⟩
              · intro hback
                exact h.acyclic a (Relation.TransGen.head' hb (Finset.mem_filter.mp hback).2)
            obtain ⟨found, hfound, hiff⟩ := ih b (h.parents a b hb) (by omega)
            refine ⟨found, by simpa [hp] using hfound, hiff.trans ⟨fun hpath => hpath.head hb, ?_⟩⟩
            intro hpath
            rcases hpath.cases_head with heq | ⟨c, hc, hrest⟩
            · exact absurd heq htarget
            · obtain rfl := Option.some.inj (Option.some.inj (hc.symm.trans hb))
              exact hrest
  refine hclimb fuel a ha (le_trans ?_ hfuel)
  exact (Finset.card_filter_le _ _).trans (List.toFinset_card_le nodes)

end Parents

end Forest
