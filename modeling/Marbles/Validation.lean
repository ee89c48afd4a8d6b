import Marbles.PlanSpec
import Marbles.Lib.DepthFirst

/-!
# What a valid spec is

`validate` collects texts; a spec has none exactly when it has a name and a project, nodes
with different keys and titles, accepted risks and estimates, and dependencies between its
nodes that close no cycle. The cycles are found by a recursive search over the keys; `Runs` is
that search as the source writes it, with no bound on its depth, and every run of it ends.

The specification of the search is the relation `Runs`, which colors keys without any bound. The
model of the source's function uses fuel and marks; `visit` shows that it goes through the same
calls, and that the fuel it is given is enough on every spec, also on one with cycles. The result
about cycles then needs no fuel at all.
-/

namespace Marbles.Plan

open DepthFirst (Mark Visits)

/-! ### The search over the keys -/

/-- The dependencies of a key that are keys of the spec. -/
def knownDeps (nodes : List NodeSpec) (key : String) : List String :=
  (((byKey nodes key).map NodeSpec.deps).getD []).filter fun dep => (byKey nodes dep).isSome

/-- The problem that is reported of a key on the way. -/
def cycleText (key : String) : String := s!"dependency cycle at node {debugStr key}"

/-- The recursive search, key by key: a key on the way is reported, a key that is done is
skipped, and any other is colored 1, searched below and colored 2. -/
inductive Runs (nodes : List NodeSpec) : List String → Visit → Visit → Prop where
  | nil (s : Visit) : Runs nodes [] s s
  | cycle {key : String} {keys : List String} {s s' : Visit} (hcolor : s.color key = some 1)
      (hrest : Runs nodes keys { s with problems := s.problems ++ [cycleText key] } s') :
      Runs nodes (key :: keys) s s'
  | done {key : String} {keys : List String} {s s' : Visit} (hcolor : s.color key = some 2)
      (hrest : Runs nodes keys s s') : Runs nodes (key :: keys) s s'
  | enter {key : String} {keys : List String} {s mid s' : Visit} (hway : s.color key ≠ some 1)
      (hdone : s.color key ≠ some 2)
      (hbelow : Runs nodes (knownDeps nodes key)
        { s with color := Function.update s.color key (some 1) } mid)
      (hrest : Runs nodes keys { mid with color := Function.update mid.color key (some 2) } s') :
      Runs nodes (key :: keys) s s'

/-- The search comes to one result. -/
theorem Runs.unique {nodes : List NodeSpec} {keys : List String} {s s' s'' : Visit}
    (h : Runs nodes keys s s') (h' : Runs nodes keys s s'') : s' = s'' := by
  induction h generalizing s'' with
  | nil s =>
      cases h'
      rfl
  | cycle hcolor _ ih =>
      cases h' with
      | cycle _ hrest => exact ih hrest
      | done hcolor' _ => cases hcolor.symm.trans hcolor'
      | enter hway _ _ _ => exact absurd hcolor hway
  | done hcolor _ ih =>
      cases h' with
      | cycle hcolor' _ => cases hcolor.symm.trans hcolor'
      | done _ hrest => exact ih hrest
      | enter _ hdone _ _ => exact absurd hcolor hdone
  | enter hway hdone _ _ ihbelow ihrest =>
      cases h' with
      | cycle hcolor _ => exact absurd hcolor hway
      | done hcolor _ => exact absurd hcolor hdone
      | enter _ _ hbelow hrest =>
          obtain rfl := ihbelow hbelow
          exact ihrest hrest

/-- What the numbers mean: every other color counts as none. -/
def markOf : Option Nat → Option Mark
  | some 1 => some .gray
  | some 2 => some .black
  | _ => none

@[simp] theorem markOf_gray {color : Option Nat} : markOf color = some .gray ↔ color = some 1 := by
  unfold markOf
  split <;> simp_all

@[simp]
theorem markOf_black {color : Option Nat} : markOf color = some .black ↔ color = some 2 := by
  unfold markOf
  split <;> simp_all

@[simp] theorem markOf_none {color : Option Nat} :
    markOf color = none ↔ color ≠ some 1 ∧ color ≠ some 2 := by
  unfold markOf
  split <;> simp_all

/-- The colors are marks, and what was added to the problems are the cycles found. -/
structure Marked (before : List String) (s : Visit) (t : DepthFirst.State String) : Prop where
  mark : ∀ key, markOf (s.color key) = t.mark key
  problems : s.problems = before ++ t.found.map cycleText

namespace Marked

variable {before : List String} {s : Visit} {t : DepthFirst.State String} {nodes : List NodeSpec}

theorem set (h : Marked before s t) (key : String) (n : Nat) {m : Mark}
    (hm : markOf (some n) = some m) :
    Marked before { s with color := Function.update s.color key (some n) } (t.set key m) := by
  refine ⟨fun k => ?_, h.problems⟩
  show markOf (Function.update s.color key (some n) k) = _
  rcases eq_or_ne k key with rfl | hne
  · rw [DepthFirst.State.set_self, Function.update_self, hm]
  · rw [DepthFirst.State.set_of_ne _ _ hne, Function.update_of_ne hne]
    exact h.mark k

theorem cycle (h : Marked before s t) (key : String) :
    Marked before { s with problems := s.problems ++ [cycleText key] }
      { t with found := t.found ++ [key] } := by
  refine ⟨h.mark, ?_⟩
  show s.problems ++ [cycleText key] = before ++ (t.found ++ [key]).map cycleText
  rw [h.problems, List.map_append, List.append_assoc]
  rfl

/-- The search over marks is the search over colors. -/
theorem runs {keys : List String} {t' : DepthFirst.State String}
    (h : Visits (knownDeps nodes) keys t t') (hs : Marked before s t) :
    ∃ s', Runs nodes keys s s' ∧ Marked before s' t' := by
  induction h generalizing s with
  | nil t => exact ⟨s, .nil s, hs⟩
  | gray hmark _ ih =>
      obtain ⟨s', hruns, hs'⟩ := ih (hs.cycle _)
      exact ⟨s', .cycle (markOf_gray.mp ((hs.mark _).trans hmark)) hruns, hs'⟩
  | black hmark _ ih =>
      obtain ⟨s', hruns, hs'⟩ := ih hs
      exact ⟨s', .done (markOf_black.mp ((hs.mark _).trans hmark)) hruns, hs'⟩
  | enter hmark _ _ ihbelow ihrest =>
      obtain ⟨hway, hdone⟩ := markOf_none.mp ((hs.mark _).trans hmark)
      obtain ⟨mid, hbelow, hmid⟩ := ihbelow (hs.set _ 1 rfl)
      obtain ⟨s', hrest, hs'⟩ := ihrest (hmid.set _ 2 rfl)
      exact ⟨s', .enter hway hdone hbelow hrest, hs'⟩

/-- The branch of a key that has not been met. -/
theorem visit_enter {fuel : Nat} {key : String} (hway : s.color key ≠ some 1)
    (hdone : s.color key ≠ some 2) : Plan.visit nodes (fuel + 1) key s =
      let below := (knownDeps nodes key).foldl (fun s dep => Plan.visit nodes fuel dep s)
        { s with color := Function.update s.color key (some 1) }
      { below with color := Function.update below.color key (some 2) } := by
  rw [Plan.visit]
  split
  · exact absurd ‹_› hway
  · exact absurd ‹_› hdone
  · unfold knownDeps
    cases byKey nodes key with
    | none => rfl
    | some node =>
        rw [Option.map_some, Option.getD_some, List.foldl_filter]

/-- With the same fuel both searches go equally deep. -/
theorem visit (fuel : Nat) (key : String) (h : Marked before s t) :
    Marked before (Plan.visit nodes fuel key s)
      (DepthFirst.visit (knownDeps nodes) fuel key t) := by
  induction fuel generalizing key s t with
  | zero => exact h
  | succ fuel ih =>
      have hfold : ∀ (deps : List String) {s : Visit} {t : DepthFirst.State String},
          Marked before s t → Marked before
            (deps.foldl (fun s dep => Plan.visit nodes fuel dep s) s)
            (deps.foldl (fun t dep => DepthFirst.visit (knownDeps nodes) fuel dep t) t) := by
        intro deps
        induction deps with
        | nil => exact fun hs => hs
        | cons dep deps ihdeps => exact fun hs => ihdeps (ih dep hs)
      rw [DepthFirst.visit, ← h.mark key]
      cases hmark : markOf (s.color key) with
      | none =>
          obtain ⟨hway, hdone⟩ := markOf_none.mp hmark
          rw [visit_enter hway hdone]
          exact (hfold _ (h.set key 1 rfl)).set key 2 rfl
      | some m =>
          cases m with
          | gray =>
              rw [Plan.visit, markOf_gray.mp hmark]
              exact h.cycle key
          | black =>
              rw [Plan.visit, markOf_black.mp hmark]
              exact h

end Marked

/-- Only keys of the spec have known dependencies. -/
theorem mem_keys_of_knownDeps {nodes : List NodeSpec} {key dep : String}
    (h : dep ∈ knownDeps nodes key) : key ∈ nodes.map NodeSpec.key := by
  unfold knownDeps at h
  cases hnode : byKey nodes key with
  | none =>
      rw [hnode] at h
      exact absurd h (by simp)
  | some node =>
      have hmem := List.mem_reverse.mp (List.mem_of_find?_eq_some hnode)
      have hkey : node.key = key := by simpa using List.find?_some hnode
      exact hkey ▸ List.mem_map_of_mem hmem

/-- The fuel of the search is enough, whatever the marks. -/
theorem visits_foldl (nodes : List NodeSpec) (keys : List String) (t : DepthFirst.State String) :
    Visits (knownDeps nodes) keys t (keys.foldl
      (fun t key => DepthFirst.visit (knownDeps nodes) (nodes.length + 1) key t) t) := by
  refine DepthFirst.visits_foldl (fun _ _ h => mem_keys_of_knownDeps h) _ keys t
    (Nat.lt_succ_of_le ?_)
  exact List.countP_le_length.trans (Nat.le_of_eq (List.length_map _))

/-- From any state the search below any keys ends. -/
theorem runs_terminates (nodes : List NodeSpec) (keys : List String) (s : Visit) :
    ∃ s', Runs nodes keys s s' ∧ ∀ s'', Runs nodes keys s s'' → s'' = s' := by
  have hs : Marked s.problems s ⟨fun key => markOf (s.color key), []⟩ :=
    ⟨fun _ => rfl, (List.append_nil _).symm⟩
  obtain ⟨s', hruns, -⟩ := hs.runs (visits_foldl nodes keys _)
  exact ⟨s', hruns, fun s'' h => h.unique hruns⟩

/-- The problems of the search are the cycles the search finds. -/
theorem cycleProblems_spec (nodes : List NodeSpec) :
    (∃ s', Runs nodes (nodes.map NodeSpec.key) ⟨fun _ => none, []⟩ s' ∧
      s'.problems = cycleProblems nodes) ∧
    (cycleProblems nodes = [] ↔ Graph.Acyclic fun key dep => dep ∈ knownDeps nodes key) := by
  have hstart : Marked [] ⟨fun _ => none, []⟩ ⟨fun _ => none, []⟩ := ⟨fun _ => rfl, rfl⟩
  have hvisits := visits_foldl nodes (nodes.map NodeSpec.key) ⟨fun _ => none, []⟩
  have hsame : ∀ (keys : List String) {s : Visit} {t : DepthFirst.State String}, Marked [] s t →
      Marked [] (keys.foldl (fun s key => visit nodes (nodes.length + 1) key s) s)
        (keys.foldl (fun t key => DepthFirst.visit (knownDeps nodes) (nodes.length + 1) key t)
            t) := by
    intro keys
    induction keys with
    | nil => exact fun h => h
    | cons key keys ih => exact fun h => ih (h.visit _ key)
  have hcycle := (hsame (nodes.map NodeSpec.key) hstart).problems
  rw [List.foldl_map] at hcycle
  change cycleProblems nodes = _ at hcycle
  rw [List.nil_append] at hcycle
  obtain ⟨s', hruns, hs'⟩ := hstart.runs hvisits
  refine ⟨⟨s', hruns, hs'.problems.trans hcycle.symm⟩, ?_⟩
  rw [hcycle, List.map_eq_nil_iff]
  exact DepthFirst.found_nil_iff (fun _ _ h => mem_keys_of_knownDeps h) hvisits

/-! ### The fields of the nodes -/

/-- What the fields of a node have to be, whatever the other nodes. -/
structure NodeSpec.Valid (node : NodeSpec) : Prop where
  key : trim node.key ≠ ""
  title : trim node.title ≠ ""
  risk : node.risk ∈ ["", "low", "medium", "high", "critical"]
  estimate : ∀ minutes, node.estimate = some minutes → 0 < minutes

@[simp] theorem nodeProblems_eq_nil {keys : List String} {node : NodeSpec} :
    nodeProblems keys node = [] ↔ node.Valid ∧ node.key ∉ keys := by
  have hestimate : node.estimate.any (· ≤ 0) = false ↔
      ∀ minutes, node.estimate = some minutes → 0 < minutes := by
    cases node.estimate <;> simp
  unfold nodeProblems
  by_cases hkey : trim node.key = ""
  · simp only [hkey, if_true, List.append_eq_nil_iff, List.cons_ne_nil, false_and, false_iff]
    exact fun h => h.1.key hkey
  · by_cases hdup : node.key ∈ keys
    · simp only [hkey, hdup, if_true, if_false, List.append_eq_nil_iff, List.cons_ne_nil, false_and,
        not_true, and_false]
    · by_cases htitle : trim node.title = ""
      · simp only [htitle, if_true, List.append_eq_nil_iff, List.cons_ne_nil, false_and, and_false,
          false_iff]
        exact fun h => h.1.title htitle
      · simp only [hkey, hdup, htitle, if_false, List.append_eq_nil_iff, true_and, validateRisk,
          decide_eq_true_eq, ite_eq_left_iff, List.cons_ne_nil, imp_false, not_not,
          ite_eq_right_iff, Bool.not_eq_true, hestimate, not_false_eq_true, and_true]
        exact ⟨fun h => ⟨hkey, htitle, h.1, h.2⟩, fun h => ⟨h.risk, h.estimate⟩⟩

/-- The keys of the nodes read so far are the keys a later node must not have. -/
@[simp] theorem nodesProblems_eq_nil {keys : List String} {nodes : List NodeSpec} :
    nodesProblems keys nodes = [] ↔ (∀ node ∈ nodes, node.Valid) ∧
      (nodes.map NodeSpec.key).Nodup ∧ ∀ node ∈ nodes, node.key ∉ keys := by
  induction nodes generalizing keys with
  | nil => simp [nodesProblems]
  | cons node nodes ih =>
      rw [nodesProblems, List.append_eq_nil_iff, nodeProblems_eq_nil, ih]
      constructor
      · intro ⟨⟨hvalid, hfresh⟩, hvalids, hnodup, hlater⟩
        have hkeys : specKeys [node] = [node.key] := by simp [specKeys, hvalid.key]
        rw [hkeys] at hlater
        refine ⟨List.forall_mem_cons.mpr ⟨hvalid, hvalids⟩, ?_, ?_⟩
        · refine List.nodup_cons.mpr ⟨fun hmem => ?_, hnodup⟩
          obtain ⟨other, hother, hkey⟩ := List.mem_map.mp hmem
          exact hlater other hother (List.mem_append_right _ (by simp [hkey]))
        · refine List.forall_mem_cons.mpr ⟨hfresh, fun other hother hmem => ?_⟩
          exact hlater other hother (List.mem_append_left _ hmem)
      · intro ⟨hvalids, hnodup, hfresh⟩
        obtain ⟨hvalid, hvalids⟩ := List.forall_mem_cons.mp hvalids
        obtain ⟨hnew, hnodup⟩ := List.nodup_cons.mp hnodup
        have hkeys : specKeys [node] = [node.key] := by simp [specKeys, hvalid.key]
        refine ⟨⟨hvalid, hfresh node (List.mem_cons_self ..)⟩, hvalids, hnodup,
          fun other hother hmem => ?_⟩
        rw [hkeys] at hmem
        rcases List.mem_append.mp hmem with hmem | hmem
        · exact hfresh other (List.mem_cons_of_mem _ hother) hmem
        · exact hnew (List.mem_singleton.mp hmem ▸ List.mem_map_of_mem hother)

@[simp] theorem depProblems_eq_nil {keys : List String} {node : NodeSpec} :
    depProblems keys node = [] ↔ ∀ dep ∈ node.deps, dep ≠ node.key ∧ dep ∈ keys := by
  rw [depProblems, List.filterMap_eq_nil_iff]
  refine forall₂_congr fun dep _ => ?_
  by_cases hself : dep = node.key
  · simp [hself]
  · by_cases hknown : dep ∈ keys
    · simp [hself, hknown]
    · simp [hself, hknown]

/-! ### Valid specs -/

/-- One key depends on another in the spec. -/
def KeyDependsOn (nodes : List NodeSpec) (key dep : String) : Prop :=
  ∃ node ∈ nodes, node.key = key ∧ dep ∈ node.deps

/-- A spec that can be written. -/
structure ResolvedPlan.Valid (plan : ResolvedPlan) : Prop where
  name : trim plan.plan ≠ ""
  project : trim plan.project ≠ ""
  nonempty : plan.nodes ≠ []
  nodes : ∀ node ∈ plan.nodes, node.Valid
  keys : (plan.nodes.map NodeSpec.key).Nodup
  deps : ∀ node ∈ plan.nodes, ∀ dep ∈ node.deps,
    ∃ other ∈ plan.nodes, other.key = dep ∧ other.key ≠ node.key
  acyclic : Graph.Acyclic (KeyDependsOn plan.nodes)

/-- With different keys the node of a key is the only one. -/
theorem byKey_eq_some {nodes : List NodeSpec} (h : (nodes.map NodeSpec.key).Nodup) {node : NodeSpec}
    (hnode : node ∈ nodes) : byKey nodes node.key = some node := by
  cases hfound : byKey nodes node.key with
  | none =>
      have hnone := List.find?_eq_none.mp hfound node (List.mem_reverse.mpr hnode)
      exact absurd (decide_eq_true rfl) hnone
  | some other =>
      have hmem := List.mem_reverse.mp (List.mem_of_find?_eq_some hfound)
      have hkey : other.key = node.key := by simpa using List.find?_some hfound
      rw [List.inj_on_of_nodup_map h hmem hnode hkey]

theorem mem_knownDeps {nodes : List NodeSpec} {key dep : String} (h : dep ∈ knownDeps nodes key) :
    KeyDependsOn nodes key dep := by
  unfold knownDeps at h
  cases hnode : byKey nodes key with
  | none =>
      rw [hnode] at h
      exact absurd h (by simp)
  | some node =>
      rw [hnode] at h
      have hkey : node.key = key := by simpa using List.find?_some hnode
      exact ⟨node, List.mem_reverse.mp (List.mem_of_find?_eq_some hnode), hkey,
        (List.mem_filter.mp h).1⟩

/-- The texts `validate` collects are those of the fields, the dependencies and the cycles. -/
@[simp] theorem validate_eq_nil {plan : ResolvedPlan} : validate plan = [] ↔ plan.Valid := by
  have hsplit : validate plan = [] ↔ trim plan.plan ≠ "" ∧ trim plan.project ≠ "" ∧
      plan.nodes ≠ [] ∧ nodesProblems [] plan.nodes = [] ∧
      (∀ node ∈ plan.nodes, depProblems (specKeys plan.nodes) node = []) ∧
      cycleProblems plan.nodes = [] := by
    unfold validate
    simp only [List.append_eq_nil_iff, ite_eq_right_iff, List.cons_ne_nil, imp_false,
      List.isEmpty_iff, List.flatMap_eq_nil_iff, and_assoc, ne_eq]
  have hcycle := (cycleProblems_spec plan.nodes).2
  rw [hsplit, nodesProblems_eq_nil, hcycle]
  simp only [depProblems_eq_nil]
  have hkeys : (∀ node ∈ plan.nodes, node.Valid) →
      specKeys plan.nodes = plan.nodes.map NodeSpec.key := by
    intro hvalid
    unfold specKeys
    rw [List.filter_eq_self.mpr fun node hnode => decide_eq_true (hvalid node hnode).key]
  constructor
  · intro ⟨hname, hproject, hnonempty, ⟨hvalid, hnodup, _⟩, hdeps, hacyclic⟩
    rw [hkeys hvalid] at hdeps
    have hknown : ∀ node ∈ plan.nodes, ∀ dep ∈ node.deps,
        ∃ other ∈ plan.nodes, other.key = dep ∧ other.key ≠ node.key := by
      intro node hnode dep hdep
      obtain ⟨hself, hmem⟩ := hdeps node hnode dep hdep
      obtain ⟨other, hother, rfl⟩ := List.mem_map.mp hmem
      exact ⟨other, hother, rfl, hself⟩
    refine ⟨hname, hproject, hnonempty, hvalid, hnodup, hknown, ?_⟩
    -- every dependency of a key is one the search follows
    refine hacyclic.mono ?_
    intro key dep ⟨node, hnode, hkey, hdep⟩
    obtain ⟨other, hother, hname, -⟩ := hknown node hnode dep hdep
    unfold knownDeps
    rw [← hkey, byKey_eq_some hnodup hnode]
    refine List.mem_filter.mpr ⟨hdep, ?_⟩
    rw [← hname, byKey_eq_some hnodup hother]
    rfl
  · intro h
    refine ⟨h.name, h.project, h.nonempty, ⟨h.nodes, h.keys, fun _ _ => List.not_mem_nil⟩,
      fun node hnode dep hdep => ?_, h.acyclic.mono fun _ _ => mem_knownDeps⟩
    obtain ⟨other, hother, rfl, hne⟩ := h.deps node hnode dep hdep
    rw [hkeys h.nodes]
    exact ⟨hne, List.mem_map_of_mem hother⟩

/-- Validation is exact, and its search ends on every spec: from every state there is one result,
and the one from the start has the cycles that are reported. Exact means that each problem is
reported and nothing else, with the texts of the source. -/
theorem validate_exact (plan : ResolvedPlan) :
    (validate plan = [] ↔ plan.Valid) ∧
      (∀ keys s, ∃ s', Runs plan.nodes keys s s' ∧ ∀ s'', Runs plan.nodes keys s s'' → s'' = s') ∧
      ∃ s', Runs plan.nodes (plan.nodes.map NodeSpec.key) ⟨fun _ => none, []⟩ s' ∧
        s'.problems = cycleProblems plan.nodes :=
  ⟨validate_eq_nil, runs_terminates plan.nodes, (cycleProblems_spec plan.nodes).1⟩

end Marbles.Plan
