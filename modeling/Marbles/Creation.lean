import Marbles.Planning
import Marbles.Validation
import Marbles.Db.References

/-!
# Writing the nodes of a plan

`create` writes one issue for each node, each in a transaction of its own. `Sown` says which
rows are there after some of the nodes; `createNodes_outcome` that the loop gets as far as the
first node whose project does not exist, and leaves what it has written until then.

The loop is followed by `Progress`, an induction over the nodes with the three ways a node can go:
it is written, its project is missing, or no free id can be drawn. Nothing before the failing node
is taken back, and that is what `Sown` records for the callers of this module.
-/

namespace Marbles.Plan

open Db (Tables IsTx Reachable)

/-- Run a plan method with no other caller around. -/
def runPlan {α : Type} (cfg : Db.Config) (m : PlanM α) (s : Locked Tables) :
    Outcome String α × Locked Tables := Prog.runE (Db.Scope.exec cfg) m s

theorem runPlan_store {α : Type} (cfg : Db.Config) (m : Db.DbM α) (s : Locked Tables) :
    runPlan cfg (store m) s =
      ((Db.runM cfg m s).1.mapError (Fault.map Error.display), (Db.runM cfg m s).2) := by
  change Prog.run _ (m.run >>= fun r => pure (r.mapError (Fault.map Error.display))) s = _
  rw [Prog.run_bind]
  rfl

/-! ### The row of a node -/

section

variable (plan : ResolvedPlan) (now : Int) (actor : String)

/-- The row that is written for a node, before its edges. -/
def rowOf (node : NodeSpec) : Db.IssueRow :=
  Db.newRow (specOf plan node now actor) (projectOf plan node) now (metadataFor plan node) now

/-- What `create` reports of a node under its id. -/
def createdOf (p : NodeSpec × String) : CreatedNode :=
  ⟨p.1.key, p.2, p.1.title, projectOf plan p.1, p.1.deps, .obj (metadataFor plan p.1)⟩

/-- The store after some nodes of the plan have been written, each under the id next to it, and
linked. -/
structure Sown (t₀ t : Tables) (pairs : List (NodeSpec × String)) (links : List (String × String)) :
    Prop where
  ids : (pairs.map Prod.snd).Nodup
  fresh : ∀ p ∈ pairs, t₀.issue.find p.2 = none
  new : ∀ p ∈ pairs, t.issue.find p.2 = some (rowOf plan now actor p.1)
  old : ∀ id, id ∉ pairs.map Prod.snd → t.issue.find id = t₀.issue.find id
  edges : ∀ a b, t.DependsOn a b ↔ t₀.DependsOn a b ∨ (a, b) ∈ links
  project : t.project = t₀.project

end

section

variable {plan : ResolvedPlan} {now : Int} {actor : String} {t₀ t : Tables}
  {pairs : List (NodeSpec × String)} {links : List (String × String)} {id : String}

theorem Sown.nil : Sown plan now actor t t [] [] :=
  ⟨List.nodup_nil, by simp, by simp, fun _ _ => rfl, by simp, rfl⟩

theorem Sown.find_none (h : Sown plan now actor t₀ t pairs links) (hid : t.issue.find id = none) :
    id ∉ pairs.map Prod.snd ∧ t₀.issue.find id = none := by
  have hnot : id ∉ pairs.map Prod.snd := by
    intro hmem
    obtain ⟨p, hp, rfl⟩ := List.mem_map.mp hmem
    rw [h.new p hp] at hid
    cases hid
  exact ⟨hnot, (h.old id hnot).symm.trans hid⟩

/-- One more node, under an id that is not taken. -/
theorem Sown.snoc (h : Sown plan now actor t₀ t pairs links) (node : NodeSpec)
    (hid : t.issue.find id = none) :
    Sown plan now actor t₀
      ({ t with issue := t.issue.insert id (rowOf plan now actor node) }.logEvent id now actor
        "created" node.title) (pairs ++ [(node, id)]) links := by
  obtain ⟨hnot, hfresh⟩ := h.find_none hid
  have hfind : ∀ k, (t.issue.insert id (rowOf plan now actor node)).find k =
      if k = id then some (rowOf plan now actor node) else t.issue.find k := by
    intro k
    rw [Table.find_insert]
    split
    · rw [hid]
      rfl
    · rfl
  -- The new id is none of those drawn before, since they are all taken in the table by now.
  refine ⟨?_, fun p hp => ?_, fun p hp => ?_, fun k hk => ?_, h.edges, h.project⟩
  · rw [List.map_append]
    refine List.nodup_append.mpr ⟨h.ids, List.nodup_singleton id, fun a ha b hb heq => ?_⟩
    obtain rfl : b = id := List.mem_singleton.mp hb
    exact hnot (heq ▸ ha)
  · rcases List.mem_append.mp hp with hp | hp
    · exact h.fresh p hp
    · exact List.mem_singleton.mp hp ▸ hfresh
  · rw [Tables.logEvent_issue]
    refine (hfind p.2).trans ?_
    rcases List.mem_append.mp hp with hp | hp
    · have hne : p.2 ≠ id := fun heq => hnot (heq ▸ List.mem_map_of_mem hp)
      rw [if_neg hne]
      exact h.new p hp
    · obtain rfl := List.mem_singleton.mp hp
      exact if_pos rfl
  · rw [Tables.logEvent_issue]
    rw [List.map_append, List.mem_append, not_or] at hk
    have hne : k ≠ id := fun heq => hk.2 (heq ▸ List.mem_singleton_self id)
    exact ((hfind k).trans (if_neg hne)).trans (h.old k hk.1)

end

/-! ### One node -/

section

variable {cfg : Db.Config} {plan : ResolvedPlan} {draws : String → List String} {now : Int}
  {actor : String} {t : Tables} {node : NodeSpec}

/-- Creating a node is one transaction. -/
theorem runPlan_createNode (created : List CreatedNode) :
    runPlan cfg (createNode cfg plan draws now actor created node) (.new t) =
      match Db.createTx (specOf plan node now actor) (projectOf plan node) now
      (draws node.key) now t with
      | .ok (id, t') => (.ok (created ++ [createdOf plan (node, id)]), .new t')
      | .error (.fail e) => (.error (.fail e.display), .new t)
      | .error .abort => (.error .abort, ⟨t, true⟩) := by
  have hcreate := (Db.isTx_create cfg (specOf plan node now actor) (draws node.key) now).eq t
  have hstore := runPlan_store cfg (Db.create cfg (specOf plan node now actor) (draws node.key) now)
    (.new t)
  rw [hcreate] at hstore
  change _ = (Except.mapError _ (Locked.finish t (Db.createTx (specOf plan node now actor)
    (projectOf plan node) now (draws node.key) now t)).1, (Locked.finish t (Db.createTx
      (specOf plan node now actor) (projectOf plan node) now (draws node.key) now t)).2) at hstore
  rw [createNode, runPlan, Prog.runE_bind, ← runPlan, hstore]
  cases Db.createTx (specOf plan node now actor) (projectOf plan node) now (draws node.key) now
      t with
  | ok p => rfl
  | error e => cases e <;> rfl

/-- Without its project a node is refused. -/
theorem createTx_noProject (h : projectOf plan node ∉ t.project.keys) :
    Db.createTx (specOf plan node now actor) (projectOf plan node) now (draws node.key) now t =
      .error (.fail (.noProject (projectOf plan node))) := by
  rw [Db.createTx, Table.find_eq_none.mpr h]
  rfl

/-- With its project a node is written, as long as an id can be drawn. -/
theorem createTx_project {row : Db.ProjectRow}
    (h : t.project.find (projectOf plan node) = some row) :
    Db.createTx (specOf plan node now actor) (projectOf plan node) now (draws node.key) now t =
      (Db.drawId t row.idPrefix (draws node.key)).map fun id =>
        (id, { t with issue := t.issue.insert id (rowOf plan now actor node) }.logEvent id now actor
          "created" node.title) := by
  rw [Db.createTx, h]
  change (Db.drawId t row.idPrefix (draws node.key) >>= fun id => _) = _
  cases Db.drawId t row.idPrefix (draws node.key) with
  | ok id => rfl
  | error e => rfl

theorem drawId_ok {idPrefix id : String} {suffixes : List String}
    (h : Db.drawId t idPrefix suffixes = .ok id) : t.issue.find id = none := by
  induction suffixes with
  | nil => cases h
  | cons suffix suffixes ih =>
      rw [Db.drawId] at h
      split at h
      · exact ih h
      · cases h
        exact Table.find_eq_none.mpr ‹_›

theorem drawId_ne_fail {idPrefix : String} {suffixes : List String} {e : Error} :
    Db.drawId t idPrefix suffixes ≠ .error (.fail e) := by
  induction suffixes with
  | nil =>
      intro h
      cases h
  | cons suffix suffixes ih =>
      rw [Db.drawId]
      split
      · exact ih
      · intro h
        cases h

/-- When no id can be drawn, every suffix is taken. -/
theorem drawId_abort {idPrefix : String} {suffixes : List String}
    (h : Db.drawId t idPrefix suffixes = .error .abort) :
    ∀ suffix ∈ suffixes, s!"{idPrefix}-{suffix}" ∈ t.issue.keys := by
  induction suffixes with
  | nil => exact fun _ hs => absurd hs List.not_mem_nil
  | cons suffix suffixes ih =>
      rw [Db.drawId] at h
      split at h
      · rename_i htaken
        intro other hother
        rcases List.mem_cons.mp hother with rfl | hother
        · exact htaken
        · exact ih h other hother
      · cases h

end

/-! ### All nodes -/

section

variable (cfg : Db.Config) (plan : ResolvedPlan) (draws : String → List String) (now : Int)
  (actor : String) (t₀ : Tables) (pairs : List (NodeSpec × String))

/-- How far the loop over `rest` gets after the nodes of `pairs`: to the end, to the first node
without a project, or to a node for which no id can be drawn. -/
inductive Progress (rest : List NodeSpec) : Outcome String (List CreatedNode) × Locked Tables → Prop
  | done (more : List (NodeSpec × String)) (t : Tables) (hmore : more.map Prod.fst = rest)
      (hprojects : ∀ p ∈ more, projectOf plan p.1 ∈ t₀.project.keys)
      (hsown : Sown plan now actor t₀ t (pairs ++ more) []) :
      Progress rest (.ok ((pairs ++ more).map (createdOf plan)), .new t)
  | refused (more : List (NodeSpec × String)) (t : Tables) (node : NodeSpec) (post : List NodeSpec)
      (hrest : rest = more.map Prod.fst ++ node :: post)
      (hprojects : ∀ p ∈ more, projectOf plan p.1 ∈ t₀.project.keys)
      (hproject : projectOf plan node ∉ t₀.project.keys)
      (hsown : Sown plan now actor t₀ t (pairs ++ more) []) :
      Progress rest (.error (.fail (Error.noProject (projectOf plan node)).display), .new t)
  | stuck (more : List (NodeSpec × String)) (t : Tables) (node : NodeSpec) (idPrefix : String)
      (hmore : ∀ p ∈ more, p.1 ∈ rest) (hlength : more.length ≤ rest.length) (hnode : node ∈ rest)
      (hdraw : Db.drawId t idPrefix (draws node.key) = .error .abort)
      (hsown : Sown plan now actor t₀ t (pairs ++ more) []) :
      Progress rest (.error .abort, ⟨t, true⟩)

end

section

variable {cfg : Db.Config} {plan : ResolvedPlan} {draws : String → List String} {now : Int}
  {actor : String} {t₀ t : Tables} {pairs : List (NodeSpec × String)}

/-- What comes after one more node comes after the nodes before it. -/
theorem Progress.cons {node : NodeSpec} {id : String} {rest : List NodeSpec}
    {r : Outcome String (List CreatedNode) × Locked Tables}
    (hproject : projectOf plan node ∈ t₀.project.keys)
    (h : Progress plan draws now actor t₀ (pairs ++ [(node, id)]) rest r) :
    Progress plan draws now actor t₀ pairs (node :: rest) r := by
  have happend : ∀ more, pairs ++ [(node, id)] ++ more = pairs ++ (node, id) :: more := by simp
  cases h with
  | done more t hmore hprojects hsown =>
      rw [happend] at hsown ⊢
      exact .done ((node, id) :: more) t (by rw [List.map_cons, hmore])
        (List.forall_mem_cons.mpr ⟨hproject, hprojects⟩) hsown
  | refused more t refused post hrest hprojects hmissing hsown =>
      rw [happend] at hsown
      refine .refused ((node, id) :: more) t refused post (by rw [hrest]; rfl) ?_ hmissing hsown
      exact List.forall_mem_cons.mpr ⟨hproject, hprojects⟩
  | stuck more t stuck idPrefix hmore hlength hnode hdraw hsown =>
      rw [happend] at hsown
      refine .stuck ((node, id) :: more) t stuck idPrefix ?_ (Nat.succ_le_succ hlength)
        (List.mem_cons_of_mem _ hnode) hdraw hsown
      exact List.forall_mem_cons.mpr ⟨List.mem_cons_self .., fun p hp =>
        List.mem_cons_of_mem _ (hmore p hp)⟩

/-- The loop over the nodes. -/
theorem createNodes_outcome (rest : List NodeSpec) (hsown : Sown plan now actor t₀ t pairs []) :
    Progress plan draws now actor t₀ pairs rest
      (runPlan cfg (rest.foldlM (createNode cfg plan draws now actor) (pairs.map (createdOf plan)))
        (.new t)) := by
  -- On the nodes left: each is created, or refused for want of a project, or stuck without an id to
  -- draw.
  induction rest generalizing t pairs with
  | nil =>
      have hnil : pairs ++ [] = pairs := List.append_nil _
      have hdone : Progress plan draws now actor t₀ pairs [] _ :=
        .done [] t rfl (by simp) (hnil.symm ▸ hsown)
      rwa [hnil] at hdone
  | cons node rest ih =>
      have hone := @runPlan_createNode cfg plan draws now actor t node (pairs.map (createdOf plan))
      rw [List.foldlM_cons, runPlan, Prog.runE_bind, ← runPlan, hone]
      cases hproject : t.project.find (projectOf plan node) with
      | none =>
          have hmissing := Table.find_eq_none.mp hproject
          rw [createTx_noProject hmissing]
          rw [hsown.project] at hmissing
          exact .refused [] t node rest rfl (by simp) hmissing ((List.append_nil _).symm ▸ hsown)
      | some row =>
          rw [createTx_project hproject]
          have hkey := hsown.project ▸ Table.mem_keys_of_find hproject
          cases hdraw : Db.drawId t row.idPrefix (draws node.key) with
          | ok id =>
              have hnext := ih (hsown.snoc node (drawId_ok hdraw))
              rw [List.map_append] at hnext
              exact hnext.cons hkey
          | error e =>
              cases e with
              | fail e => exact absurd hdraw drawId_ne_fail
              | abort =>
                  exact .stuck [] t node row.idPrefix (by simp) (Nat.zero_le _)
                    (List.mem_cons_self ..) hdraw ((List.append_nil _).symm ▸ hsown)

end

end Marbles.Plan
