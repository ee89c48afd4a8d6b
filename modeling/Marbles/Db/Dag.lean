import Marbles.Db.Action

/-!
# The dependency graph

Dependency rows join two existing issues and close no cycle. Every lock scope preserves
this: an edge is only inserted between issues that exist, after the walk over the table
has not met its source, and dropping a project deletes the edges at either end of its
issues, so an id that is created again starts without edges.

Acyclicity is kept in the form the walk decides: no issue reaches itself. That the walk of the
source meets every issue that can be reached is a fact of the graph library; the rest is about
which edges a scope adds or takes.
-/

namespace Marbles.Db

/-- A dependency graph without dangling edges and without cycles. -/
structure WellFormed (t : Tables) : Prop where
  endpoints : ∀ {a b}, t.DependsOn a b → a ∈ t.issue.keys ∧ b ∈ t.issue.keys
  acyclic : Graph.Acyclic t.DependsOn

theorem wellFormed_empty (storeId : String) : WellFormed (.empty storeId) := by
  have hnone : ∀ a b, ¬ (Tables.empty storeId).DependsOn a b := by
    intro a b h
    simp [Tables.DependsOn, Tables.empty] at h
  refine ⟨fun h => absurd h (hnone _ _), fun a ha => ?_⟩
  cases ha with
  | single h => exact hnone _ _ h
  | tail _ h => exact hnone _ _ h

/-- Losing edges and gaining issues does no harm. -/
theorem WellFormed.shrink {t t' : Tables} (h : WellFormed t)
    (hkeys : ∀ k ∈ t.issue.keys, k ∈ t'.issue.keys)
    (hdep : ∀ a b, t'.DependsOn a b → t.DependsOn a b) : WellFormed t' := by
  refine ⟨fun hab => ?_, h.acyclic.mono hdep⟩
  obtain ⟨ha, hb⟩ := h.endpoints (hdep _ _ hab)
  exact ⟨hkeys _ ha, hkeys _ hb⟩

/-- The same edges over at least the same issues. -/
theorem WellFormed.frame {t t' : Tables} (h : WellFormed t)
    (hkeys : ∀ k ∈ t.issue.keys, k ∈ t'.issue.keys) (hdep : t'.dep = t.dep) :
    WellFormed t' := by
  refine h.shrink hkeys fun a b hab => ?_
  rw [Tables.DependsOn, hdep] at hab
  exact hab

/-- Dropping a project takes the edges at its issues with it. -/
theorem WellFormed.drop {t t' : Tables} {slug : String} (h : WellFormed t)
    (hissue : t'.issue = t.issue.filter fun _ row => row.project ≠ slug)
    (hdep : t'.dep = t.dep.filter fun e _ =>
      !((t.issue.find e.1).any (fun row => row.project = slug) ||
        (t.issue.find e.2).any (fun row => row.project = slug))) : WellFormed t' := by
  have hkept : ∀ a b, t'.DependsOn a b → t.DependsOn a b ∧
      (t.issue.find a).any (fun row => row.project = slug) = false ∧
      (t.issue.find b).any (fun row => row.project = slug) = false := by
    intro a b hab
    rw [Tables.DependsOn, hdep] at hab
    obtain ⟨v, hv, hp⟩ := Table.mem_keys_filter.mp hab
    refine ⟨Table.mem_keys_of_find hv, ?_⟩
    simpa only [Bool.not_eq_true', Bool.or_eq_false_iff] using hp
  have hstays : ∀ k ∈ t.issue.keys,
      (t.issue.find k).any (fun row => row.project = slug) = false → k ∈ t'.issue.keys := by
    intro k hk hother
    obtain ⟨row, hrow⟩ := Table.mem_keys.mp hk
    rw [hrow, Option.any_some, decide_eq_false_iff_not] at hother
    rw [hissue]
    exact Table.mem_keys_filter.mpr ⟨row, hrow, by simpa using hother⟩
  refine ⟨fun hab => ?_, h.acyclic.mono fun a b hab => (hkept a b hab).1⟩
  obtain ⟨hold, ha, hb⟩ := hkept _ _ hab
  obtain ⟨hka, hkb⟩ := h.endpoints hold
  exact ⟨hstays _ hka ha, hstays _ hkb hb⟩

/-- A new edge whose target does not reach its source. -/
theorem WellFormed.addEdge {t t' : Tables} {child parent : String} (h : WellFormed t)
    (hchild : child ∈ t.issue.keys) (hparent : parent ∈ t.issue.keys)
    (hreach : t.reachable parent child = false) (hkeys : t'.issue.keys = t.issue.keys)
    (hdep : t'.dep = t.dep.insert (child, parent) ()) : WellFormed t' := by
  have hedge : ∀ a b, t'.DependsOn a b → t.DependsOn a b ∨ (a = child ∧ b = parent) := by
    intro a b hab
    rw [Tables.DependsOn, hdep] at hab
    rcases Table.mem_keys_insert.mp hab with he | he
    · exact Or.inr (Prod.mk.inj he)
    · exact Or.inl he
  refine ⟨fun hab => ?_, ?_⟩
  · rw [hkeys]
    rcases hedge _ _ hab with hold | ⟨rfl, rfl⟩
    · exact h.endpoints hold
    · exact ⟨hchild, hparent⟩
  · refine (h.acyclic.insert ?_).mono hedge
    rw [← Tables.reachable_iff, hreach]
    exact Bool.false_ne_true

/-- Every lock scope keeps the graph well formed. -/
theorem WellFormed.effect {cfg : Config} {t t' : Tables} {s : Scope} (h : WellFormed t)
    (he : Effect cfg t s t') : WellFormed t' := by
  cases he with
  | idle hissue hdep | ensureProject hissue hdep =>
      exact h.frame (fun k hk => hissue ▸ hk) hdep
  | dropProject hissue hdep => exact h.drop hissue hdep
  | create _ _ _ _ hissue hdep =>
      refine h.frame (fun k hk => ?_) hdep
      rw [hissue]
      exact Table.mem_keys_insert.mpr (Or.inr hk)
  | addDep hchild hparent hreach hissue hdep =>
      refine h.addEdge hchild hparent hreach ?_ hdep
      rw [hissue, Table.keys_modify]
  | removeDep hissue hdep =>
      refine h.shrink (fun k hk => hissue ▸ hk) fun a b hab => ?_
      rw [Tables.DependsOn, hdep] at hab
      obtain ⟨v, hv, -⟩ := Table.mem_keys_filter.mp hab
      exact Table.mem_keys_of_find hv
  | sweep hissue hdep =>
      refine h.frame (fun k hk => ?_) hdep
      rwa [hissue, Table.keys_mapRows]
  | update _ _ _ hissue hdep | setLabels hissue hdep | addRemoteDep hissue hdep
  | claim _ _ hissue hdep | touch _ _ hissue hdep | release hissue hdep
  | closeUnchecked _ hissue hdep =>
      refine h.frame (fun k hk => ?_) hdep
      rwa [hissue, Table.keys_modify]

/-- The graph is well formed in every reachable state. -/
theorem Reachable.wellFormed {cfg : Config} {s : Locked Tables} (h : Reachable cfg s) :
    WellFormed s.state :=
  h.invariant wellFormed_empty fun _ _ _ hw he => hw.effect he

/-! ### Adding an edge -/

/-- On issues that exist, the transaction refuses exactly the edges that close a cycle. -/
theorem addDepTx_eq {t : Tables} {child parent : String} (actor : String) (now : Int)
    (hchild : child ∈ t.issue.keys) (hparent : parent ∈ t.issue.keys) :
    (t.reachable parent child = true →
      addDepTx child parent actor now t = .error (.fail (.cycle child parent))) ∧
    (t.reachable parent child = false →
      ∃ t', addDepTx child parent actor now t = .ok ((), t')) := by
  obtain ⟨crow, hc⟩ := Table.mem_keys.mp hchild
  obtain ⟨prow, hp⟩ := Table.mem_keys.mp hparent
  unfold addDepTx
  simp only [Tables.rowToIssue, hc, hp, Option.map_some, Outcome.ofOption_some]
  constructor
  · intro h
    change (if t.reachable parent child = true then _ else _) = _
    rw [if_pos h]
    rfl
  · intro h
    change ∃ t', (if t.reachable parent child = true then _ else _) = _
    rw [h, if_neg Bool.false_ne_true]
    exact ⟨_, rfl⟩

/-- An issue other than the source is reached over one edge or more. -/
theorem reachable_ne {t : Tables} {a b : String} (hne : b ≠ a) :
    t.reachable a b = true ↔ Relation.TransGen t.DependsOn a b := by
  rw [Tables.reachable_iff, Relation.reflTransGen_iff_eq_or_transGen]
  exact or_iff_right hne

/-- In a sequence of actions from an empty store the graph stays a DAG, and after actions that came
back an edge between existing issues is refused exactly when it would close a cycle, without
touching the store. The second half speaks of actions that came back because a poisoned lock refuses
every edge. -/
theorem dependencies_stay_acyclic (cfg : Config) (storeId : String) (actions : List Action) :
    WellFormed (Action.run cfg actions (opened storeId)).state ∧
      (Action.Returned cfg actions (opened storeId) →
        ∀ child parent actor now, child ∈
        (Action.run cfg actions (opened storeId)).state.issue.keys →
          parent ∈ (Action.run cfg actions (opened storeId)).state.issue.keys →
          (child = parent ∨ Relation.TransGen
              (Action.run cfg actions (opened storeId)).state.DependsOn parent child →
            perform cfg (.addDep child parent actor now) (Action.run cfg actions (opened storeId)) =
              (.error (.fail (.cycle child parent)), Action.run cfg actions (opened storeId))) ∧
          (¬ (child = parent ∨ Relation.TransGen
              (Action.run cfg actions (opened storeId)).state.DependsOn parent child) →
            (perform cfg (.addDep child parent actor now)
              (Action.run cfg actions (opened storeId))).1 = .ok .unit)) := by
  refine ⟨Reachable.wellFormed ⟨storeId, actions, rfl⟩, fun hback => ?_⟩
  have hhealthy := Action.run_healthy hback
  generalize Action.run cfg actions (opened storeId) = s at hhealthy ⊢
  intro child parent actor now hchild hparent
  rw [Locked.eq_new hhealthy]
  obtain ⟨hcycle, hok⟩ := addDepTx_eq actor now hchild hparent
  by_cases hne : child = parent
  · refine ⟨fun _ => ?_, fun h => absurd (Or.inl hne) h⟩
    simp only [perform, method, addDep, if_pos hne]
    rfl
  · simp only [hne, false_or, Locked.new_state]
    -- The search that add_dep makes from the parent finds the child exactly when there is a path.
    rw [← reachable_ne hne, Bool.not_eq_true]
    have hperform : perform cfg (.addDep child parent actor now) (.new s.state) =
        runM cfg (do call (.addDep child parent actor now); pure Reply.unit) (.new s.state) := by
      simp only [perform, method, addDep, if_neg hne]
    rw [hperform]
    constructor
    · intro h
      exact Prog.runE_bind_error (Locked.tx_fail (hcycle h))
    · intro h
      obtain ⟨t', ht'⟩ := hok h
      have hrun : runM cfg (call (.addDep child parent actor now)) (.new s.state) =
          (.ok (), .new t') := Locked.tx_ok ht'
      rw [runM, Prog.runE_bind_ok hrun]
      rfl

/-- Two issues of one project, the first depending on the second. -/
def twoIssues : List Action :=
  [.op (.ensureProject "p" "/p" "p" 0), .op (.create { id := some "a", project := some "p" } [] 0),
    .op (.create { id := some "b", project := some "p" } [] 0), .op (.addDep "a" "b" "me" 1)]

theorem edge_back_refused :
    perform {} (.addDep "b" "a" "me" 2) (Action.run {} twoIssues (opened "s")) =
      (.error (.fail (.cycle "b" "a")), Action.run {} twoIssues (opened "s")) :=
  ((dependencies_stay_acyclic {} "s" twoIssues).2
    ⟨by decide, by decide, by decide, by decide, trivial⟩ "b" "a" "me" 2
    (by decide) (by decide)).1 (Or.inr (.single (by decide)))

end Marbles.Db
