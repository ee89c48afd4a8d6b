import Marbles.Db.Alone
import Marbles.Db.Rows
import Marbles.PlanSpec

/-!
# Writing a plan once

`create` looks for issues of the plan in one call of the store and writes its own in later
ones. `writes_once` says when only one of several callers writes under a name: whenever
one of them looks, no other has found the name free and not yet written its first node.

The callers are programs over the store that take turns call by call. Where each of them stands is
read off its trace: it has found the name free and not written yet (`Pending`), or it has written
(`Wrote`). Both make it a writer, and the invariant is that there is at most one of those, and
that what it wrote is in the store for the next one to find. The condition is about the order of
calls and not about their results, and `plan_written_twice` is a run of two callers without it.
-/

namespace Marbles.Plan

open Db (Tables Scope DbI DbM Effect exec_effect)
open Json (Value Object)

/-! ### The calls of a caller -/

/-- The issue that is created names the plan. -/
def Names (name : String) (spec : NewIssue) : Prop :=
  ∃ fields, spec.metadata = some (.obj fields) ∧ spec.externalRef = none ∧
    Object.get metaPlan fields = some (.str name)

/-- The calls that write a plan. -/
def WritesPlan (name : String) : Scope → Prop
  | .create spec .. => Names name spec
  | .addDep .. => True
  | _ => False

/-- The first call found no issue of the plan. -/
def Passed (name : String) (tr : List (Event DbI)) : Prop :=
  ∃ issues rest, tr = ⟨.list none true none, .ok issues⟩ :: rest ∧
    ∀ issue ∈ issues, planNameOf issue ≠ some name

/-- An issue of the plan has been created. -/
def Wrote (name : String) (tr : List (Event DbI)) : Prop :=
  ∃ spec project available draws now id, Names name spec ∧
    (⟨.create spec project available draws now, .ok id⟩ : Event DbI) ∈ tr

/-- The check comes first, and nothing is written unless it passed. -/
def Guarded (name : String) (s : Scope) (tr : List (Event DbI)) : Prop :=
  (s = .list none true none ∧ tr = []) ∨ (WritesPlan name s ∧ Passed name tr)

theorem Passed.snoc {name : String} {tr : List (Event DbI)} (h : Passed name tr)
    (e : Event DbI) : Passed name (tr ++ [e]) := by
  obtain ⟨issues, rest, rfl, hnone⟩ := h
  exact ⟨issues, rest ++ [e], rfl, hnone⟩

theorem names_specOf (plan : ResolvedPlan) (node : NodeSpec) (now : Int) (actor : String) :
    Names plan.plan (specOf plan node now actor) :=
  ⟨metadataFor plan node, rfl, rfl, get_metadataFor plan node⟩

section

variable (cfg : Db.Config) (plan : ResolvedPlan) (draws : String → List String) (now : Int)
  (actor : String)

theorem only_store {α : Type} {p : Scope → Prop} {m : DbM α} (h : Prog.Only (I := DbI) p m.run) :
    Prog.Only (I := DbI) p (store m).run := by
  change Prog.Only (I := DbI) p (m.run >>= fun r => pure (r.mapError (Fault.map Error.display)))
  exact h.bind fun _ => trivial

theorem only_createNode (created : List CreatedNode) (node : NodeSpec) :
    Prog.Only (I := DbI) (WritesPlan plan.plan)
      (createNode cfg plan draws now actor created node).run := by
  have hcreate : Prog.Only (I := DbI) (WritesPlan plan.plan)
      (Db.create cfg (specOf plan node now actor) (draws node.key) now).run :=
    ⟨names_specOf plan node now actor, fun _ => trivial⟩
  exact (only_store hcreate).bind_except fun _ => trivial

theorem only_idOf (name : String) (created : List CreatedNode) (key : String) :
    Prog.Only (I := DbI) (WritesPlan name) (idOf created key).run := by
  unfold idOf
  split
  · trivial
  · trivial

theorem only_addEdge (name : String) (created : List CreatedNode) (child : String)
    (edges : List Edge) (dep : String) :
    Prog.Only (I := DbI) (WritesPlan name) (addEdge now actor created child edges dep).run := by
  refine (only_idOf name created dep).bind_except fun parent => ?_
  have hdep : Prog.Only (I := DbI) (WritesPlan name) (Db.addDep child parent actor now).run := by
    unfold Db.addDep
    split
    · exact trivial
    · exact ⟨trivial, fun _ => trivial⟩
  exact (only_store hdep).bind_except fun _ => trivial

theorem only_addEdges (name : String) (created : List CreatedNode) (edges : List Edge)
    (node : NodeSpec) :
    Prog.Only (I := DbI) (WritesPlan name) (addEdges now actor created edges node).run :=
  (only_idOf name created node.key).bind_except fun child =>
    Prog.Only.foldlM (only_addEdge now actor name created child) node.deps edges

/-- What comes after the check. -/
theorem only_writes : Prog.Only (I := DbI) (WritesPlan plan.plan)
    (do
      let created ← plan.nodes.foldlM (createNode cfg plan draws now actor) []
      let edges ← plan.nodes.foldlM (addEdges now actor created) []
      pure (⟨plan.plan, plan.project, created, edges⟩ : CreateReport) : PlanM CreateReport).run :=
  (Prog.Only.foldlM (only_createNode cfg plan draws now actor) plan.nodes []).bind_except
    fun created => (Prog.Only.foldlM (only_addEdges now actor plan.plan created)
      plan.nodes []).bind_except fun _ => trivial

/-- The check passes when there is no issue of the plan. -/
theorem checkName_spec : Prog.Spec (I := DbI) (Guarded plan.plan)
    (fun r tr => r = .ok () → Passed plan.plan tr) (checkName plan).run [] := by
  refine ⟨Or.inl ⟨rfl, rfl⟩, fun r => ?_⟩
  cases r with
  | error e => exact fun h => nomatch h
  | ok issues =>
      change Prog.Spec (I := DbI) _ _ (ExceptT.run
        (if issues.countP (fun issue => decide (planNameOf issue = some plan.plan)) > 0
          then _ else pure ())) [⟨.list none true none, .ok issues⟩]
      split
      · exact fun h => nomatch h
      · rename_i hcount
        refine fun _ => ⟨issues, [], rfl, fun issue hissue hname => hcount ?_⟩
        exact List.countP_pos_iff.mpr ⟨issue, hissue, decide_eq_true hname⟩

/-- The statement is about any name for the program, which keeps its terms small. -/
theorem create_spec {p : Prog DbI (Except (Fault String) CreateReport)}
    (hp : p = (create cfg plan draws now actor).run) :
    Prog.Spec (I := DbI) (Guarded plan.plan) (fun _ _ => True) p [] := by
  rw [hp]
  unfold create
  split
  · refine (checkName_spec plan).bind_except (fun _ tr htr => ?_) fun _ _ _ => trivial
    have hwrites := Prog.Spec.of_only (Passed plan.plan) (fun c r tr _ h => Passed.snoc h ⟨c, r⟩)
      (only_writes cfg plan draws now actor) (htr rfl)
    exact hwrites.mono (fun c tr h => Or.inr h) fun _ _ _ => trivial
  · exact trivial

end

/-! ### What the calls do to the store -/

/-- There is an issue of the plan. -/
def HasPlan (name : String) (t : Tables) : Prop :=
  ∃ id row, t.issue.find id = some row ∧ planNameOf (t.view id row) = some name

/-- The plan of an issue is part of its metadata. -/
theorem planNameOf_view (t t' : Tables) (id id' : String) {row row' : Db.IssueRow}
    (h : row'.metadata = row.metadata) :
    planNameOf (t'.view id' row') = planNameOf (t.view id row) := by
  rw [planNameOf, planNameOf, metaStr, metaStr, Tables.view_metadata, Tables.view_metadata, h]

/-- Writing a plan removes no issue from it. -/
theorem HasPlan.effect {cfg : Db.Config} {name : String} {t t' : Tables} {s : Scope}
    (h : HasPlan name t) (hs : WritesPlan name s) (he : Effect cfg t s t') :
    HasPlan name t' := by
  obtain ⟨id, row, hrow, hname⟩ := h
  have hdrop : s ≠ .dropProject row.project := by
    rintro rfl
    exact hs
  obtain ⟨row', hrow'⟩ := he.stays hrow hdrop
  refine ⟨id, row', hrow', ?_⟩
  cases he.row hrow' with
  | create hnone =>
      rw [hrow] at hnone
      cases hnone
  | kept hold | addDep hold =>
      obtain rfl := Option.some.inj (hrow.symm.trans hold)
      exact hname ▸ planNameOf_view t t' id id rfl
  | update | setLabels | addRemoteDep | claim | touch | release | sweep | closeUnchecked =>
      exact hs.elim

/-- A created issue is in the plan it names. -/
theorem hasPlan_of_created {cfg : Db.Config} {name : String} {spec : NewIssue} {project id : String}
    {available now : Int} {draws : List String} {l : Locked Tables} (hspec : Names name spec)
    (h : ((Scope.create spec project available draws now).exec cfg l).1 = .ok id) :
    HasPlan name ((Scope.create spec project available draws now).exec cfg l).2.state := by
  obtain ⟨fields, hfields, hreference, hname⟩ := hspec
  obtain ⟨t', hcreate, hstate⟩ := Locked.tx_committed h
  obtain ⟨metadata, -, -, hfresh, -, hmetadata, rfl⟩ := Db.createTx_ok hcreate
  have hstored : spec.storedMetadata = .ok fields := by
    unfold NewIssue.storedMetadata
    rw [hfields, hreference]
    rfl
  obtain rfl : fields = metadata := Except.ok.inj (hstored.symm.trans hmetadata)
  refine ⟨id, Db.newRow spec project available fields now, ?_, ?_⟩
  · change (Locked.tx _ l).2.state.issue.find id = _
    rw [hstate, Tables.logEvent_issue]
    exact Table.find_insert_new hfresh _
  · change ((Object.get metaPlan fields).bind Value.asStr) = some name
    rw [hname]
    rfl

/-- A check that passed found no issue of the plan. -/
theorem not_hasPlan_of_list {cfg : Db.Config} {name : String} {l : Locked Tables}
    {issues : List Issue} (h : ((Scope.list none true none).exec cfg l).1 = .ok issues)
    (hnone : ∀ issue ∈ issues, planNameOf issue ≠ some name) :
    ¬ HasPlan name l.state := by
  rintro ⟨id, row, hrow, hname⟩
  have hlist : Except.ok (Db.listQuery none true none l.state) = .ok issues :=
    @Locked.query_answered _ _ _ (fun t => .ok (Db.listQuery none true none t)) _ _ h
  obtain rfl := Except.ok.inj hlist
  refine hnone (l.state.view id row) (List.mem_map.mpr ⟨(id, row), ?_, rfl⟩) hname
  exact Db.mem_select.mpr ⟨hrow, rfl⟩

/-! ### Callers that write the same plan -/

section Callers

variable {ι : Type} [DecidableEq ι]

/-- Callers of `create`, each in the middle of its program. -/
abbrev Planners (ι : Type) := System ι DbI (Locked Tables) (Except (Fault String) CreateReport)

/-- A caller that found the name free and has not written anything yet. -/
def Pending (name : String) (w : Planners ι) (i : ι) : Prop :=
  Passed name (w.threads i).trace ∧ ¬ Wrote name (w.threads i).trace ∧
    ∃ s k, (w.threads i).prog = .call s k

/-- When a caller looks whether the name is free, no other is between its look and its
first node. -/
def LooksAlone (name : String) (w : Planners ι) (i : ι) : Prop :=
  (∃ k, (w.threads i).prog = .call (.list none true none) k) → ∀ j, j ≠ i → ¬ Pending name w j

/-- A caller that writes, or is about to. -/
def Writer (name : String) (w : Planners ι) (i : ι) : Prop :=
  Pending name w i ∨ Wrote name (w.threads i).trace

/-- There is at most one writer, and what it wrote is there. -/
structure OneWriter (name : String) (w : Planners ι) : Prop where
  guarded : ∀ i, Prog.Spec (I := DbI) (Guarded name) (fun _ _ => True) (w.threads i).prog
    (w.threads i).trace
  one : ∀ i j, Writer name w i → Writer name w j → i = j
  there : ∀ i, Wrote name (w.threads i).trace → HasPlan name w.shared.state

@[simp] theorem Wrote.snoc_iff {name : String} {tr : List (Event DbI)} {e : Event DbI} :
    Wrote name (tr ++ [e]) ↔ Wrote name tr ∨ Wrote name [e] := by
  constructor
  · rintro ⟨spec, project, available, draws, now, id, hspec, hmem⟩
    rcases List.mem_append.mp hmem with hmem | hmem
    · exact Or.inl ⟨spec, project, available, draws, now, id, hspec, hmem⟩
    · exact Or.inr ⟨spec, project, available, draws, now, id, hspec, hmem⟩
  · rintro (⟨spec, project, available, draws, now, id, hspec, hmem⟩ |
      ⟨spec, project, available, draws, now, id, hspec, hmem⟩)
    · exact ⟨spec, project, available, draws, now, id, hspec, List.mem_append_left _ hmem⟩
    · exact ⟨spec, project, available, draws, now, id, hspec, List.mem_append_right _ hmem⟩

/-- Where caller `i` stands after its call. -/
theorem step_self {cfg : Db.Config} {w : Planners ι} {i : ι} {s : Scope}
    {k : Result s.Ret → Prog DbI (Except (Fault String) CreateReport)}
    (hprog : (w.threads i).prog = .call s k) :
    (System.step (Scope.exec cfg) i w).threads i =
      ⟨k (s.exec cfg w.shared).1, (w.threads i).trace ++ [⟨s, (s.exec cfg w.shared).1⟩]⟩ := by
  rw [System.step_call hprog]
  exact Function.update_self ..

theorem step_shared {cfg : Db.Config} {w : Planners ι} {i : ι} {s : Scope}
    {k : Result s.Ret → Prog DbI (Except (Fault String) CreateReport)}
    (hprog : (w.threads i).prog = .call s k) :
    (System.step (Scope.exec cfg) i w).shared = (s.exec cfg w.shared).2 := by
  rw [System.step_call hprog]

/-- The calls of one caller do not make another one a writer. -/
theorem writer_step_ne {cfg : Db.Config} {name : String} {w : Planners ι} {i j : ι} (hj : j ≠ i) :
    Writer name (System.step (Scope.exec cfg) i w) j ↔ Writer name w j := by
  unfold Writer Pending
  rw [System.step_threads_ne hj]

/-- A caller looks: it becomes a writer only if there is none. -/
theorem OneWriter.look {cfg : Db.Config} {name : String} {w : Planners ι} {i : ι}
    {k : Result (List Issue) → Prog DbI (Except (Fault String) CreateReport)}
    (h : OneWriter name w) (hi : LooksAlone name w i)
    (hprog : (w.threads i).prog = .call (.list none true none) k)
    (htrace : (w.threads i).trace = []) :
    ¬ Wrote name ((System.step (Scope.exec cfg) i w).threads i).trace ∧
      (Writer name (System.step (Scope.exec cfg) i w) i → ∀ j, j ≠ i → ¬ Writer name w j) := by
  have htrace' : ((System.step (Scope.exec cfg) i w).threads i).trace =
      [⟨.list none true none, ((Scope.list none true none).exec cfg w.shared).1⟩] := by
    rw [step_self hprog, htrace]
    rfl
  have hwrote : ¬ Wrote name ((System.step (Scope.exec cfg) i w).threads i).trace := by
    rw [htrace']
    rintro ⟨spec, project, available, draws, now, id, -, hmem⟩
    exact nomatch List.mem_singleton.mp hmem
  refine ⟨hwrote, fun hwriter j hj hother => ?_⟩
  obtain ⟨⟨issues, rest, hpassed, hnone⟩, -, -⟩ := hwriter.resolve_right hwrote
  rw [htrace'] at hpassed
  obtain ⟨-, hanswer⟩ := Event.mk.inj (List.cons.inj hpassed).1
  -- the name was free, so nobody has written, and nobody else has looked
  rcases hother with hpending | hwritten
  · exact hi ⟨k, hprog⟩ j hj hpending
  · exact not_hasPlan_of_list (eq_of_heq hanswer) hnone (h.there j hwritten)

theorem OneWriter.step {cfg : Db.Config} {name : String} {w : Planners ι} {i : ι}
    (h : OneWriter name w) (hi : LooksAlone name w i) :
    OneWriter name (System.step (Scope.exec cfg) i w) := by
  cases hprog : (w.threads i).prog with
  | ret r => rwa [System.step_ret hprog]
  | call s k =>
      have hspec := h.guarded i
      rw [hprog] at hspec
      have hguarded : ∀ j, Prog.Spec (I := DbI) (Guarded name) (fun _ _ => True)
          ((System.step (Scope.exec cfg) i w).threads j).prog
          ((System.step (Scope.exec cfg) i w).threads j).trace := by
        intro j
        by_cases hj : j = i
        · subst hj
          rw [step_self hprog]
          exact hspec.2 _
        · rw [System.step_threads_ne hj]
          exact h.guarded j
      rcases hspec.1 with ⟨rfl, htrace⟩ | ⟨hwrites, hpassed⟩
      · obtain ⟨hwrote, hwriter⟩ := h.look hi hprog htrace
        refine ⟨hguarded, fun j j' hj hj' => ?_, fun j hj => ?_⟩
        · by_cases hji : j = i
          · subst hji
            by_contra hne
            exact hwriter hj j' (Ne.symm hne) ((writer_step_ne (Ne.symm hne)).mp hj')
          · by_cases hji' : j' = i
            · subst hji'
              exact absurd ((writer_step_ne hji).mp hj) (hwriter hj' j hji)
            · exact h.one j j' ((writer_step_ne hji).mp hj) ((writer_step_ne hji').mp hj')
        · have hji : j ≠ i := fun heq => hwrote (heq ▸ hj)
          rw [System.step_threads_ne hji] at hj
          rw [step_shared hprog]
          exact (Locked.query_state ..).symm ▸ h.there j hj
      · -- a caller that writes was a writer before
        have hbefore : Writer name w i := by
          by_cases hwrote : Wrote name (w.threads i).trace
          · exact Or.inr hwrote
          · exact Or.inl ⟨hpassed, hwrote, s, k, hprog⟩
        have hback : ∀ j, Writer name (System.step (Scope.exec cfg) i w) j → Writer name w j := by
          intro j hj
          by_cases hji : j = i
          · exact hji ▸ hbefore
          · exact (writer_step_ne hji).mp hj
        refine ⟨hguarded, fun j j' hj hj' => h.one j j' (hback j hj) (hback j' hj'), fun j hj => ?_⟩
        have hkept : ∀ j, Wrote name (w.threads j).trace →
            HasPlan name (s.exec cfg w.shared).2.state := fun j hj =>
          (h.there j hj).effect hwrites (exec_effect cfg s w.shared)
        rw [step_shared hprog]
        by_cases hji : j = i
        · subst hji
          rw [step_self hprog, Wrote.snoc_iff] at hj
          rcases hj with hj | ⟨spec, project, available, draws, now, id, hnames, hmem⟩
          · exact hkept j hj
          · obtain ⟨rfl, hanswer⟩ := Event.mk.inj (List.mem_singleton.mp hmem)
            exact hasPlan_of_created hnames (eq_of_heq hanswer).symm
        · rw [System.step_threads_ne hji] at hj
          exact hkept j hj

/-- Of any callers that create a plan of one name, at most one writes an issue of it, if no caller
looks while another one has found the name free and not written yet. The look and the writes are
different calls, and the name is reserved by neither. -/
theorem writes_once {cfg : Db.Config} {name : String}
    {p : ι → Prog DbI (Except (Fault String) CreateReport)}
    (hp : ∀ i, ∃ plan draws now actor, plan.plan = name ∧
      p i = (create cfg plan draws now actor).run)
    {s₀ : Locked Tables} {schedule : List ι}
    (hschedule : Machine.Meets (System.step (Scope.exec cfg)) (LooksAlone name) schedule
      (System.init s₀ p)) (i j : ι)
    (hi : Wrote name ((System.run (Scope.exec cfg) schedule (System.init s₀ p)).threads i).trace)
    (hj : Wrote name ((System.run (Scope.exec cfg) schedule (System.init s₀ p)).threads j).trace) :
    i = j := by
  have hstart : OneWriter name (System.init s₀ p) := by
    refine ⟨fun i => ?_, ?_, ?_⟩
    · obtain ⟨plan, draws, now, actor, rfl, hprog⟩ := hp i
      exact create_spec cfg plan draws now actor hprog
    · rintro i j (⟨⟨issues, rest, hpassed, -⟩, -⟩ | ⟨_, _, _, _, _, _, -, hmem⟩)
      · exact absurd hpassed.symm (List.cons_ne_nil _ _)
      · exact absurd hmem List.not_mem_nil
    · rintro i ⟨_, _, _, _, _, _, -, hmem⟩
      exact absurd hmem List.not_mem_nil
  have hrun := Machine.invariant_of_meets (OneWriter name) (fun _ _ h hi => h.step hi) schedule
    hstart hschedule
  exact hrun.one i j (Or.inr hi) (Or.inr hj)

end Callers

/-! ### A plan that is written twice -/

/-- A plan of two nodes, the second waiting for the first. -/
def chainPlan : ResolvedPlan :=
  ⟨"plan", "p", [{ key := "a", title := "t" },
    { key := "b", title := "u", estimate := some 45, deps := ["a"] }]⟩

/-- The suffixes one of two callers draws: the other draws none of them. -/
def suffixes (second : Bool) (key : String) : List String := [key ++ if second then "2" else "1"]

/-- Two callers that create it. -/
def twoCreates (second : Bool) : Prog DbI (Except (Fault String) CreateReport) :=
  (create {} chainPlan (suffixes second) 10 "me").run

/-- A store with a project. -/
def unplanned : Locked Tables :=
  Db.run {} [.ensureProject "p" "/p" "p" 0] (Db.opened "s")

/-- What a caller has written once its first node is created. -/
theorem wrote_first (second : Bool) {trace : List (Event DbI)} {id : String}
    (h : ⟨.create (specOf chainPlan { key := "a", title := "t" } 10 "me") "p" 10
      (suffixes second "a") 10, .ok id⟩ ∈ trace) : Wrote "plan" trace :=
  ⟨_, "p", 10, _, 10, id, names_specOf chainPlan _ 10 "me", h⟩

/-- Both look before either writes: each writes the whole plan. -/
theorem plan_written_twice :
    let w := System.run (Scope.exec {}) [true, false, true, false, true, false, true, false]
        (System.init unplanned twoCreates)
    Wrote "plan" (w.threads true).trace ∧ Wrote "plan" (w.threads false).trace ∧
      w.shared.state.issue.keys = ["p-a2", "p-a1", "p-b2", "p-b1"] := by
  refine ⟨?_, ?_, by decide +kernel⟩
  · exact wrote_first true (List.mem_cons_of_mem _ (List.mem_cons_self ..))
  · exact wrote_first false (List.mem_cons_of_mem _ (List.mem_cons_self ..))

/-- One after the other, the second caller writes nothing. -/
theorem plan_written_by_first :
    ¬ Wrote "plan" ((System.run (Scope.exec {}) [true, true, true, true, false]
      (System.init unplanned twoCreates)).threads false).trace := by
  intro hsecond
  have hfirst : Wrote "plan" ((System.run (Scope.exec {}) [true, true, true, true, false]
      (System.init unplanned twoCreates)).threads true).trace :=
    wrote_first true (List.mem_cons_of_mem _ (List.mem_cons_self ..))
  have hmeets : Machine.Meets (System.step (Scope.exec {})) (LooksAlone "plan")
      [true, true, true, true, false] (System.init unplanned twoCreates) := by
    -- only a first step can be one that looks, and the other caller has not run before it
    refine ⟨fun _ j _ hpending => ?_, fun ⟨k, hk⟩ => ?_, fun ⟨k, hk⟩ => ?_, fun ⟨k, hk⟩ => ?_,
      fun _ j hj hpending => ?_, trivial⟩
    · obtain ⟨⟨issues, rest, hpassed, -⟩, -⟩ := hpending
      exact absurd hpassed.symm (List.cons_ne_nil _ _)
    · exact nomatch hk
    · exact nomatch hk
    · exact nomatch hk
    · obtain ⟨-, -, s, k, hprog⟩ := hpending
      cases j with
      | false => exact hj rfl
      | true => exact nomatch hprog
  exact absurd (writes_once (fun i => ⟨chainPlan, _, 10, "me", rfl, rfl⟩) hmeets false true hsecond
    hfirst) (by decide)

end Marbles.Plan
