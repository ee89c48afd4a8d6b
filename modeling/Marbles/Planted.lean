import Marbles.Creation
import Marbles.Offering
import Marbles.Store

/-!
# A plan that has been written

After the nodes `create` adds the dependencies, each in a transaction of its own. Between the
nodes of a valid spec none of them closes a cycle, so from there on nothing is refused, and
the plan that is read back is the spec. What can be refused half-way is a node: its project is
looked up when its turn comes, after the nodes before it are in the store.

The key of a node and the id it was given determine each other, so the walk that looks for a cycle
in the store can be followed among the keys of the spec. There it finds none, as the spec was
validated. Everything that was in the store before is out of reach: an old issue does not depend
on a new one.
-/

namespace Marbles.Plan

open Db (Tables IsTx Reachable WellFormed)

/-! ### The dependencies -/

/-- The id under which a key was written; of two nodes with one key the later counts. -/
def idIn (pairs : List (NodeSpec × String)) (key : String) : String :=
  ((pairs.reverse.find? fun p => p.1.key = key).map Prod.snd).getD ""

/-- The dependencies of one node, between ids. -/
def linksAt (pairs : List (NodeSpec × String)) (p : NodeSpec × String) : List (String × String) :=
  p.1.deps.map fun dep => (p.2, idIn pairs dep)

/-- The dependencies of the nodes. -/
def linksOf (pairs : List (NodeSpec × String)) : List (String × String) :=
  pairs.flatMap (linksAt pairs)

/-- A dependency as it is reported. -/
def edgeOf (link : String × String) : Edge := ⟨link.1, link.2⟩

/-- The nodes of a valid plan, each under an id. -/
structure Planned (plan : ResolvedPlan) (pairs : List (NodeSpec × String)) : Prop where
  valid : plan.Valid
  nodes : pairs.map Prod.fst = plan.nodes

section

variable {cfg : Db.Config} {plan : ResolvedPlan} {now : Int} {actor : String} {t₀ t : Tables}
  {pairs : List (NodeSpec × String)} {links : List (String × String)} {p q : NodeSpec × String}

theorem Planned.mem (h : Planned plan pairs) (hp : p ∈ pairs) : p.1 ∈ plan.nodes :=
  h.nodes ▸ List.mem_map_of_mem hp

theorem Planned.mem_of_node (h : Planned plan pairs) {node : NodeSpec} (hnode : node ∈ plan.nodes) :
    ∃ p ∈ pairs, p.1 = node := by
  rw [← h.nodes] at hnode
  exact List.mem_map.mp hnode

theorem Planned.keys (h : Planned plan pairs) : (pairs.map fun p => p.1.key).Nodup := by
  have hkeys := h.valid.keys
  rwa [← h.nodes, List.map_map] at hkeys

/-- The node of a key. -/
theorem Planned.find (h : Planned plan pairs) (hp : p ∈ pairs) :
    pairs.reverse.find? (fun q => q.1.key = p.1.key) = some p := by
  cases hfound : pairs.reverse.find? (fun q => q.1.key = p.1.key) with
  | none =>
      have hnone := List.find?_eq_none.mp hfound p (List.mem_reverse.mpr hp)
      exact absurd (decide_eq_true rfl) hnone
  | some q =>
      have hmem := List.mem_reverse.mp (List.mem_of_find?_eq_some hfound)
      have hkey : q.1.key = p.1.key := by simpa using List.find?_some hfound
      rw [List.inj_on_of_nodup_map h.keys hmem hp hkey]

theorem Planned.idIn_eq (h : Planned plan pairs) (hp : p ∈ pairs) : idIn pairs p.1.key = p.2 := by
  rw [idIn, h.find hp]
  rfl

/-- A dependency of a node is the key of another node. -/
theorem Planned.dep (h : Planned plan pairs) (hp : p ∈ pairs) {dep : String}
    (hdep : dep ∈ p.1.deps) : ∃ q ∈ pairs, q.1.key = dep ∧ idIn pairs dep = q.2 := by
  obtain ⟨other, hother, rfl, -⟩ := h.valid.deps p.1 (h.mem hp) dep hdep
  obtain ⟨q, hq, rfl⟩ := h.mem_of_node hother
  exact ⟨q, hq, rfl, h.idIn_eq hq⟩

theorem Planned.idOf (h : Planned plan pairs) (hp : p ∈ pairs) :
    idOf (pairs.map (createdOf plan)) p.1.key = pure p.2 := by
  have hfind : (pairs.map (createdOf plan)).reverse.find? (fun node => node.key = p.1.key) =
      some (createdOf plan p) := by
    rw [← List.map_reverse, List.find?_map]
    exact congrArg (Option.map (createdOf plan)) (h.find hp)
  rw [Plan.idOf, hfind]
  rfl

/-- A link leads from a node to one of its dependencies. -/
theorem Planned.link (h : Planned plan pairs) {a b : String} (hlink : (a, b) ∈ linksOf pairs) :
    ∃ p ∈ pairs, ∃ q ∈ pairs, p.2 = a ∧ q.2 = b ∧ q.1.key ∈ p.1.deps := by
  obtain ⟨p, hp, hlink⟩ := List.mem_flatMap.mp hlink
  obtain ⟨dep, hdep, hlink⟩ := List.mem_map.mp hlink
  obtain ⟨rfl, rfl⟩ := Prod.mk.inj hlink
  obtain ⟨q, hq, rfl, hid⟩ := h.dep hp hdep
  exact ⟨p, hp, q, hq, rfl, hid.symm, hdep⟩

namespace Sown

variable (hsown : Sown plan now actor t₀ t pairs links)
include hsown

theorem unique (hp : p ∈ pairs) (hq : q ∈ pairs) (hid : p.2 = q.2) : p = q :=
  List.inj_on_of_nodup_map hsown.ids hp hq hid

/-- The new nodes depend on nothing but new nodes. -/
theorem linked (hplan : Planned plan pairs) (hwf : WellFormed t₀)
    (hlinks : ∀ l ∈ links, l ∈ linksOf pairs)
    (hp : p ∈ pairs) {b : String} (hedge : t.DependsOn p.2 b) :
    ∃ q ∈ pairs, q.2 = b ∧ q.1.key ∈ p.1.deps := by
  rcases (hsown.edges _ _).mp hedge with hold | hlink
  · have hkey := (hwf.endpoints hold).1
    exact absurd hkey (Table.find_eq_none.mp (hsown.fresh p hp))
  · obtain ⟨p', hp', q, hq, hid, rfl, hdep⟩ := hplan.link (hlinks _ hlink)
    obtain rfl := hsown.unique hp' hp hid
    exact ⟨q, hq, rfl, hdep⟩

/-- Where the ids lead, the keys lead too. -/
theorem reaches (hplan : Planned plan pairs) (hwf : WellFormed t₀)
    (hlinks : ∀ l ∈ links, l ∈ linksOf pairs) (hp : p ∈ pairs) {b : String}
    (hpath : Relation.ReflTransGen t.DependsOn p.2 b) :
    ∃ q ∈ pairs, q.2 = b ∧ Relation.ReflTransGen (KeyDependsOn plan.nodes) p.1.key q.1.key := by
  induction hpath with
  | refl => exact ⟨p, hp, rfl, .refl⟩
  | tail _ hedge ih =>
      obtain ⟨q, hq, rfl, hkeys⟩ := ih
      obtain ⟨r, hr, hid, hdep⟩ := hsown.linked hplan hwf hlinks hq hedge
      exact ⟨r, hr, hid, hkeys.tail ⟨q.1, hplan.mem hq, rfl, hdep⟩⟩

/-- No dependency of a node leads back to it. -/
theorem not_reaches (hplan : Planned plan pairs) (hwf : WellFormed t₀)
    (hlinks : ∀ l ∈ links, l ∈ linksOf pairs) (hp : p ∈ pairs) (hq : q ∈ pairs)
    (hdep : q.1.key ∈ p.1.deps) : ¬ Relation.ReflTransGen t.DependsOn q.2 p.2 := by
  intro hpath
  obtain ⟨p', hp', hid, hkeys⟩ := hsown.reaches hplan hwf hlinks hq hpath
  obtain rfl := hsown.unique hp' hp hid
  have hfirst : KeyDependsOn plan.nodes p'.1.key q.1.key := ⟨p'.1, hplan.mem hp, rfl, hdep⟩
  exact hplan.valid.acyclic _ (.head' hfirst hkeys)

theorem mem_keys (hp : p ∈ pairs) : p.2 ∈ t.issue.keys :=
  Table.mem_keys_of_find (hsown.new p hp)

/-- One more link. -/
theorem link (hp : p ∈ pairs) (b : String) :
    Sown plan now actor t₀
      (({ t with dep := t.dep.insert (p.2, b) () }.setIssue p.2 fun row =>
        { row with updatedAt := now }).logEvent p.2 now actor "depends_on" b) pairs
      (links ++ [(p.2, b)]) := by
  refine ⟨hsown.ids, hsown.fresh, fun q hq => ?_, fun id hid => ?_, fun x y => ?_, hsown.project⟩
  · -- the rows of the plan carry the time already
    rw [Tables.logEvent_issue, Tables.setIssue_issue, Table.find_modify]
    split
    · rename_i heq
      rw [← heq, hsown.new q hq]
      rfl
    · exact hsown.new q hq
  · have hne : id ≠ p.2 := fun heq => hid (heq ▸ List.mem_map_of_mem hp)
    rw [Tables.logEvent_issue, Tables.setIssue_issue, Table.find_modify, if_neg hne]
    exact hsown.old id hid
  · have hkeys : (x, y) ∈ (t.dep.insert (p.2, b) ()).keys ↔ t.DependsOn x y ∨
        (x, y) = (p.2, b) := by
      rw [Table.mem_keys_insert, or_comm]
      rfl
    change (x, y) ∈ (t.dep.insert (p.2, b) ()).keys ↔ _
    rw [hkeys, hsown.edges, List.mem_append, List.mem_singleton, or_assoc]

end Sown

/-- Adding a dependency of the plan. -/
theorem runPlan_addDep (hplan : Planned plan pairs) (hwf : WellFormed t₀)
    (hsown : Sown plan now actor t₀ t pairs links) (hlinks : ∀ l ∈ links, l ∈ linksOf pairs)
    (hp : p ∈ pairs) (hq : q ∈ pairs) (hdep : q.1.key ∈ p.1.deps) :
    ∃ t', runPlan cfg (store (Db.addDep p.2 q.2 actor now)) (.new t) = (.ok (), .new t') ∧
      Sown plan now actor t₀ t' pairs (links ++ [(p.2, q.2)]) := by
  have hback := hsown.not_reaches hplan hwf hlinks hp hq hdep
  have hne : p.2 ≠ q.2 := fun heq => hback (heq ▸ .refl)
  have hreach : t.reachable q.2 p.2 = false := by
    rw [← Bool.not_eq_true, Tables.reachable_iff]
    exact hback
  obtain ⟨t', ht'⟩ := (Db.addDepTx_eq actor now (hsown.mem_keys hp) (hsown.mem_keys hq)).2 hreach
  obtain ⟨-, -, -, heq⟩ := Db.addDepTx_ok ht'
  have hrun := (Db.isTx_addDep cfg p.2 q.2 actor now).eq t
  rw [Db.addDepAlone, if_neg hne, ht'] at hrun
  refine ⟨t', ?_, heq ▸ hsown.link hp q.2⟩
  rw [runPlan_store, hrun]
  rfl

/-- Adding the dependencies of one node. -/
theorem runPlan_addEdge (hplan : Planned plan pairs) (hwf : WellFormed t₀) (hp : p ∈ pairs)
    (deps : List String) (hdeps : ∀ dep ∈ deps, dep ∈ p.1.deps)
    (hsown : Sown plan now actor t₀ t pairs links) (hlinks : ∀ l ∈ links, l ∈ linksOf pairs) :
    ∃ t', runPlan cfg (deps.foldlM (addEdge now actor (pairs.map (createdOf plan)) p.2)
        (links.map edgeOf)) (.new t) =
        (.ok ((links ++ deps.map fun dep => (p.2, idIn pairs dep)).map edgeOf), .new t') ∧
      Sown plan now actor t₀ t' pairs (links ++ deps.map fun dep => (p.2, idIn pairs dep)) := by
  -- On the dependencies left, with the links made so far; each goes to a node created earlier.
  induction deps generalizing t links with
  | nil =>
      rw [List.map_nil, List.append_nil]
      exact ⟨t, rfl, hsown⟩
  | cons dep deps ih =>
      obtain ⟨hdep, hlater⟩ := List.forall_mem_cons.mp hdeps
      obtain ⟨q, hq, rfl, hid⟩ := hplan.dep hp hdep
      obtain ⟨t₁, hadd, hsown₁⟩ := @runPlan_addDep cfg _ _ _ _ _ _ _ _ _ hplan hwf hsown hlinks hp
          hq hdep
      have hlinks₁ : ∀ l ∈ links ++ [(p.2, q.2)], l ∈ linksOf pairs := by
        intro l hl
        rcases List.mem_append.mp hl with hl | hl
        · exact hlinks l hl
        · obtain rfl := List.mem_singleton.mp hl
          refine List.mem_flatMap.mpr ⟨p, hp, List.mem_map.mpr ⟨q.1.key, hdep, ?_⟩⟩
          rw [hid]
      obtain ⟨t', hrest, hsown'⟩ := ih hlater hsown₁ hlinks₁
      have hone : runPlan cfg (addEdge now actor (pairs.map (createdOf plan)) p.2 (links.map edgeOf)
          q.1.key) (.new t) = (.ok ((links ++ [(p.2, q.2)]).map edgeOf), .new t₁) := by
        rw [addEdge, hplan.idOf hq, pure_bind, runPlan, Prog.runE_bind_ok hadd, List.map_append]
        rfl
      have hall : links ++ (q.1.key :: deps).map (fun dep => (p.2, idIn pairs dep)) =
          links ++ [(p.2, q.2)] ++ deps.map fun dep => (p.2, idIn pairs dep) := by
        rw [List.map_cons, hid, List.append_cons]
      refine ⟨t', ?_, hall ▸ hsown'⟩
      rw [List.foldlM_cons, runPlan, Prog.runE_bind_ok hone, hall]
      exact hrest

/-- Adding the dependencies of the nodes is never refused. -/
theorem runPlan_addEdges (hplan : Planned plan pairs) (hwf : WellFormed t₀)
    (rest : List (NodeSpec × String)) (hrest : ∀ p ∈ rest, p ∈ pairs)
    (hsown : Sown plan now actor t₀ t pairs links) (hlinks : ∀ l ∈ links, l ∈ linksOf pairs) :
    ∃ t', runPlan cfg ((rest.map Prod.fst).foldlM (addEdges now actor (pairs.map (createdOf plan)))
        (links.map edgeOf)) (.new t) =
        (.ok ((links ++ rest.flatMap (linksAt pairs)).map edgeOf), .new t') ∧
      Sown plan now actor t₀ t' pairs (links ++ rest.flatMap (linksAt pairs)) := by
  -- On the nodes whose edges are still to be added.
  induction rest generalizing t links with
  | nil =>
      rw [List.flatMap_nil, List.append_nil]
      exact ⟨t, rfl, hsown⟩
  | cons p rest ih =>
      obtain ⟨hp, hrest⟩ := List.forall_mem_cons.mp hrest
      obtain ⟨t₁, hone, hsown₁⟩ := @runPlan_addEdge cfg _ _ _ _ _ _ _ _ hplan hwf hp p.1.deps
        (fun _ h => h) hsown hlinks
      have hlinks₁ : ∀ l ∈ links ++ linksAt pairs p, l ∈ linksOf pairs := by
        intro l hl
        rcases List.mem_append.mp hl with hl | hl
        · exact hlinks l hl
        · exact List.mem_flatMap.mpr ⟨p, hp, hl⟩
      obtain ⟨t', hmore, hsown'⟩ := ih hrest hsown₁ hlinks₁
      have hall : links ++ (p :: rest).flatMap (linksAt pairs) =
          links ++ linksAt pairs p ++ rest.flatMap (linksAt pairs) := by
        rw [List.flatMap_cons, List.append_assoc]
      refine ⟨t', ?_, hall ▸ hsown'⟩
      have hnode : runPlan cfg
          (addEdges now actor (pairs.map (createdOf plan)) (links.map edgeOf) p.1) (.new t) =
          (.ok ((links ++ linksAt pairs p).map edgeOf), .new t₁) := by
        rw [addEdges, hplan.idOf hp, pure_bind]
        exact hone
      rw [List.map_cons, List.foldlM_cons, runPlan, Prog.runE_bind_ok hnode, hall]
      exact hmore

end

end Marbles.Plan
