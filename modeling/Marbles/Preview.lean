import Marbles.Planted

/-!
# The draft of a plan

`draft` is what `create --dry-run` prints: the report of `create` with a placeholder for every
id. `create` then makes the calls the draft shows, one for each node and one for each edge, in
this order and no others, whatever the other callers of the store do in between; and what it
reports is the draft with the ids the store gave.

`create` is followed call by call. The program of a caller is compared with the list of calls the
draft stands for; what the store answers to each of them is arbitrary, which covers all other
callers at once. Ids are the only thing the draft cannot know, so reports are compared up to a
renaming of placeholders.
-/

namespace Marbles.Plan

open Db (Scope DbI DbM)

/-! ### The draft -/

/-- The id under which a draft shows a node. -/
def placeholder (key : String) : String := s!"<new:{key}>"

/-- The placeholder of a key that some node has; the map of the placeholders panics at another. -/
def draftId (plan : ResolvedPlan) (key : String) : Outcome (List String) String :=
  if key ∈ plan.nodes.map NodeSpec.key then .ok (placeholder key) else Outcome.abort

/-- The edges of a node between placeholders. -/
def draftEdges (plan : ResolvedPlan) (node : NodeSpec) : Outcome (List String) (List Edge) :=
  node.deps.mapM fun dep => do
    let child ← draftId plan node.key
    let parent ← draftId plan dep
    pure ⟨child, parent⟩

/-- The node under its placeholder. -/
def draftNode (plan : ResolvedPlan) (node : NodeSpec) : Outcome (List String) CreatedNode := do
  let id ← draftId plan node.key
  pure ⟨node.key, id, node.title, projectOf plan node, node.deps, .obj (metadataFor plan node)⟩

/-- A reviewable draft, or every problem of the spec. -/
def draft (plan : ResolvedPlan) : Outcome (List String) CreateReport :=
  match validate plan with
  | [] => do
      let edges ← plan.nodes.mapM (draftEdges plan)
      let nodes ← plan.nodes.mapM (draftNode plan)
      pure ⟨plan.plan, plan.project, nodes, edges.flatten⟩
  | problems => Outcome.fail problems

/-- The report with other ids. -/
def CreateReport.rename (f : String → String) (report : CreateReport) : CreateReport where
  plan := report.plan
  project := report.project
  nodes := report.nodes.map fun node => { node with id := f node.id }
  edges := report.edges.map fun edge => ⟨f edge.child, f edge.parent⟩

theorem placeholder_injective : Function.Injective placeholder := by
  intro a b h
  have hlist := congrArg String.toList h
  simp only [placeholder, String.toList_append, ToString.toString] at hlist
  exact String.toList_inj.mp (List.append_cancel_left (List.append_cancel_right hlist))

/-- The report of `create` when the nodes get these ids. -/
def reportOf (plan : ResolvedPlan) (pairs : List (NodeSpec × String)) : CreateReport where
  plan := plan.plan
  project := plan.project
  nodes := pairs.map (createdOf plan)
  edges := (linksOf pairs).map edgeOf

/-- A valid plan with the placeholders for ids. -/
def drafted (plan : ResolvedPlan) : List (NodeSpec × String) :=
  plan.nodes.map fun node => (node, placeholder node.key)

theorem planned_drafted {plan : ResolvedPlan} (h : plan.Valid) : Planned plan (drafted plan) :=
  ⟨h, by rw [drafted, List.map_map]; exact List.map_id _⟩

theorem mapM_ok {ε α β : Type} {f : α → Outcome ε β} {g : α → β} {xs : List α}
    (h : ∀ x ∈ xs, f x = .ok (g x)) : xs.mapM f = .ok (xs.map g) := by
  obtain ⟨ys, hys⟩ := Outcome.mapM_isOk.mpr fun x hx => ⟨g x, h x hx⟩
  rw [hys, Outcome.mapM_eq_map hys fun x hx y hy => Except.ok.inj (hy.symm.trans (h x hx))]

/-- A plan without problems has a draft: no placeholder is missing. -/
theorem draft_valid {plan : ResolvedPlan} (h : plan.Valid) :
    draft plan = .ok (reportOf plan (drafted plan)) := by
  have hplanned := planned_drafted h
  have hkey : ∀ node ∈ plan.nodes, draftId plan node.key = .ok (placeholder node.key) :=
    fun node hnode => if_pos (List.mem_map_of_mem hnode)
  have hnodes : plan.nodes.mapM (draftNode plan) =
      .ok (plan.nodes.map fun node => createdOf plan (node, placeholder node.key)) :=
    mapM_ok fun node hnode => by rw [draftNode, hkey node hnode]; rfl
  have hedges : plan.nodes.mapM (draftEdges plan) = .ok (plan.nodes.map fun node =>
      (linksAt (drafted plan) (node, placeholder node.key)).map edgeOf) := by
    refine mapM_ok fun node hnode => ?_
    have hmem : (node, placeholder node.key) ∈ drafted plan := List.mem_map.mpr ⟨node, hnode, rfl⟩
    rw [draftEdges, linksAt, List.map_map]
    refine mapM_ok fun dep hdep => ?_
    obtain ⟨q, hq, rfl, hid⟩ := hplanned.dep hmem hdep
    obtain ⟨other, hother, rfl⟩ := List.mem_map.mp hq
    rw [hkey node hnode, hkey other hother]
    exact congrArg (fun id => Except.ok (edgeOf (placeholder node.key, id))) hid.symm
  rw [draft, validate_eq_nil.mpr h, hedges, hnodes]
  simp only [reportOf, drafted, linksOf, bind, Except.bind, pure, Except.pure, List.flatMap_def,
    List.map_flatten, List.map_map]
  rfl

/-- A spec with problems is not drafted. -/
theorem draft_invalid {plan : ResolvedPlan} (h : validate plan ≠ []) :
    draft plan = Outcome.fail (validate plan) := by
  unfold draft
  split
  · rename_i hnone
    exact absurd hnone h
  · rfl

/-- A report by the ids of the keys. -/
def reportBy (plan : ResolvedPlan) (g : String → String) : CreateReport where
  plan := plan.plan
  project := plan.project
  nodes := plan.nodes.map fun node => createdOf plan (node, g node.key)
  edges := plan.nodes.flatMap fun node => node.deps.map fun dep => ⟨g node.key, g dep⟩

theorem Planned.reportOf {plan : ResolvedPlan} {pairs : List (NodeSpec × String)}
    (h : Planned plan pairs) : reportOf plan pairs = reportBy plan (idIn pairs) := by
  have hnodes : pairs.map (createdOf plan) =
      plan.nodes.map fun node => createdOf plan (node, idIn pairs node.key) := by
    rw [← h.nodes, List.map_map]
    refine List.map_congr_left fun p hp => ?_
    rw [Function.comp_apply, h.idIn_eq hp]
  have hedges : (linksOf pairs).map edgeOf =
      plan.nodes.flatMap fun node => node.deps.map fun dep =>
          ⟨idIn pairs node.key, idIn pairs dep⟩ := by
    rw [← h.nodes, linksOf, List.map_flatMap, List.flatMap_map]
    refine List.flatMap_congr fun p hp => ?_
    rw [linksAt, List.map_map, h.idIn_eq hp]
    rfl
  rw [Plan.reportOf, hnodes, hedges, reportBy]

/-- The report of `create` is the draft with the ids of the keys for the placeholders. -/
theorem Planned.rename {plan : ResolvedPlan} {pairs : List (NodeSpec × String)}
    (h : Planned plan pairs) {f : String → String}
    (hf : ∀ p ∈ pairs, f (placeholder p.1.key) = p.2) :
    (Plan.reportOf plan (drafted plan)).rename f = Plan.reportOf plan pairs := by
  have hid : ∀ key ∈ plan.nodes.map NodeSpec.key, f (idIn (drafted plan) key) = idIn pairs key := by
    intro key hkey
    obtain ⟨node, hnode, rfl⟩ := List.mem_map.mp hkey
    obtain ⟨p, hp, rfl⟩ := h.mem_of_node hnode
    have hdraft := (planned_drafted h.valid).idIn_eq (List.mem_map.mpr ⟨p.1, hnode, rfl⟩)
    rw [h.idIn_eq hp, hdraft]
    exact hf p hp
  rw [h.reportOf, (planned_drafted h.valid).reportOf, reportBy, reportBy, CreateReport.rename,
    List.map_map, List.map_flatMap]
  congr 1
  · refine List.map_congr_left fun node hnode => ?_
    have hnodeId := hid node.key (List.mem_map_of_mem hnode)
    simp only [Function.comp_apply, createdOf, hnodeId]
  · refine List.flatMap_congr fun node hnode => ?_
    rw [List.map_map]
    refine List.map_congr_left fun dep hdep => ?_
    obtain ⟨other, hother, rfl, -⟩ := h.valid.deps node hnode dep hdep
    simp only [Function.comp_apply, hid node.key (List.mem_map_of_mem hnode),
      hid other.key (List.mem_map_of_mem hother)]

/-- Such ids there are, one for each placeholder. -/
theorem Planned.exists_ids {plan : ResolvedPlan} {pairs : List (NodeSpec × String)}
    (h : Planned plan pairs) : ∃ f : String → String, ∀ p ∈ pairs, f
    (placeholder p.1.key) = p.2 := by
  refine ⟨fun text =>
    ((pairs.find? fun p => placeholder p.1.key = text).map Prod.snd).getD "", fun p hp => ?_⟩
  cases hfound : pairs.find? fun q => placeholder q.1.key = placeholder p.1.key with
  | none => exact absurd (decide_eq_true rfl) (List.find?_eq_none.mp hfound p hp)
  | some q =>
      have hsame : placeholder q.1.key = placeholder p.1.key := by
        simpa using List.find?_some hfound
      have hkey := placeholder_injective hsame
      obtain rfl := List.inj_on_of_nodup_map h.keys (List.mem_of_find?_eq_some hfound) hp hkey
      simp only [hfound]
      rfl

/-! ### The calls of a caller -/

section

variable (cfg : Db.Config) (plan : ResolvedPlan) (draws : String → List String) (now : Int)
  (actor : String)

/-- A node has been created under an id. -/
def createdEvent (p : NodeSpec × String) : Event DbI :=
  ⟨.create (specOf plan p.1 now actor) (projectOf plan p.1) now (draws p.1.key) now, .ok p.2⟩

/-- A dependency has been added. -/
def linkedEvent (l : String × String) : Event DbI := ⟨.addDep l.1 l.2 actor now, .ok ()⟩

/-- What a caller has seen: no issue of the plan, then some of its nodes under their ids, then,
after all of them, some of its dependencies. -/
structure Along (pairs : List (NodeSpec × String)) (links : List (String × String))
    (tr : List (Event DbI)) : Prop where
  trace : ∃ issues, tr = ⟨.list none true none, .ok issues⟩ ::
      (pairs.map (createdEvent plan draws now actor) ++ links.map (linkedEvent now actor)) ∧
    ∀ issue ∈ issues, planNameOf issue ≠ some plan.plan
  created : pairs.map Prod.fst <+: plan.nodes
  linked : links <+: linksOf pairs
  after : links ≠ [] → pairs.map Prod.fst = plan.nodes

/-- The call that comes next. It is told by the calls made so far and their answers, as a caller in
between would see them. -/
inductive Next : Scope → List (Event DbI) → Prop where
  | list : Next (.list none true none) []
  | create {pairs : List (NodeSpec × String)} {node : NodeSpec} {tr : List (Event DbI)}
      (h : Along plan draws now actor pairs [] tr)
      (hnext : pairs.map Prod.fst ++ [node] <+: plan.nodes) :
      Next (.create (specOf plan node now actor) (projectOf plan node) now (draws node.key) now) tr
  | addDep {pairs : List (NodeSpec × String)} {links : List (String × String)}
      {l : String × String} {tr : List (Event DbI)} (h : Along plan draws now actor pairs links tr)
      (hall : pairs.map Prod.fst = plan.nodes) (hnext : links ++ [l] <+: linksOf pairs) :
      Next (.addDep l.1 l.2 actor now) tr

/-- How it ends. -/
def Concluded : Except (Fault String) CreateReport → List (Event DbI) → Prop
  | .ok report, tr => ∃ pairs preview f, draft plan = .ok preview ∧
      Along plan draws now actor pairs (linksOf pairs) tr ∧ pairs.map Prod.fst = plan.nodes ∧
      (∀ p ∈ pairs, f (placeholder p.1.key) = p.2) ∧ report = preview.rename f
  | .error e, tr => (∃ problems, draft plan = Outcome.fail problems ∧ tr = [] ∧
      e = .fail ("; ".intercalate problems)) ∨ ((∃ preview, draft plan = .ok preview) ∧ tr ≠ [])

end

section

variable {cfg : Db.Config} {plan : ResolvedPlan} {draws : String → List String} {now : Int}
  {actor : String} {pairs : List (NodeSpec × String)} {links : List (String × String)}
  {tr : List (Event DbI)}

theorem Along.ne_nil (h : Along plan draws now actor pairs links tr) : tr ≠ [] := by
  obtain ⟨⟨issues, rfl, -⟩, -⟩ := h
  exact List.cons_ne_nil _ _

/-- One more node. -/
theorem Along.create (h : Along plan draws now actor pairs [] tr) {node : NodeSpec}
    (hnext : pairs.map Prod.fst ++ [node] <+: plan.nodes) (id : String) :
    Along plan draws now actor (pairs ++ [(node, id)]) []
      (tr ++ [createdEvent plan draws now actor (node, id)]) := by
  obtain ⟨⟨issues, rfl, hfree⟩, -⟩ := h
  refine ⟨⟨issues, ?_, hfree⟩, ?_, List.nil_prefix, fun hne => absurd rfl hne⟩
  · rw [List.map_append, List.map_nil, List.append_nil, List.append_nil]
    rfl
  · rw [List.map_append]
    exact hnext

/-- One more dependency. -/
theorem Along.link (h : Along plan draws now actor pairs links tr)
    (hall : pairs.map Prod.fst = plan.nodes) {l : String × String}
    (hnext : links ++ [l] <+: linksOf pairs) :
    Along plan draws now actor pairs (links ++ [l]) (tr ++ [linkedEvent now actor l]) := by
  obtain ⟨⟨issues, rfl, hfree⟩, hcreated, -⟩ := h
  refine ⟨⟨issues, ?_, hfree⟩, hcreated, hnext, fun _ => hall⟩
  rw [List.map_append, ← List.append_assoc]
  rfl

/-- Creating the nodes that are left. -/
theorem createNodes_spec (rest : List NodeSpec) :
    ∀ {pairs : List (NodeSpec × String)} {tr : List (Event DbI)},
      Along plan draws now actor pairs [] tr → pairs.map Prod.fst ++ rest = plan.nodes →
      Prog.Spec (I := DbI) (Next plan draws now actor)
        (fun r tr' => match r with
          | .ok created => ∃ pairs', created = pairs'.map (createdOf plan) ∧
              pairs'.map Prod.fst = plan.nodes ∧ Along plan draws now actor pairs' [] tr'
          | .error _ => tr' ≠ [])
        (rest.foldlM (createNode cfg plan draws now actor)
          (pairs.map (createdOf plan))).run tr := by
  -- On the nodes left, the trace so far being the calls for the nodes before them.
  induction rest with
  | nil =>
      intro pairs tr h hrest
      rw [List.append_nil] at hrest
      exact ⟨pairs, rfl, hrest, h⟩
  | cons node rest ih =>
      intro pairs tr h hrest
      have hnext : pairs.map Prod.fst ++ [node] <+: plan.nodes :=
        ⟨rest, by rw [List.append_assoc]; exact hrest⟩
      rw [List.foldlM_cons]
      have hturn : Prog.Spec (I := DbI) (Next plan draws now actor)
          (fun r tr' => match r with
            | .ok created => ∃ id, created = (pairs ++ [(node, id)]).map (createdOf plan) ∧
                Along plan draws now actor (pairs ++ [(node, id)]) [] tr'
            | .error _ => tr' ≠ [])
          (createNode cfg plan draws now actor (pairs.map (createdOf plan)) node).run tr := by
        refine ⟨.create h hnext, fun r => ?_⟩
        cases r with
        | error e => exact List.append_ne_nil_of_right_ne_nil _ (List.cons_ne_nil _ _)
        | ok id =>
            refine ⟨id, ?_, h.create hnext id⟩
            rw [List.map_append]
            rfl
      refine hturn.bind_except (fun created tr' hmid => ?_) fun e tr' hmid => hmid
      obtain ⟨id, rfl, halong⟩ := hmid
      refine ih halong ?_
      rw [List.map_append, List.append_assoc]
      exact hrest

/-- Adding the dependencies of one node that are left. -/
theorem addEdge_spec (hplan : Planned plan pairs) {p : NodeSpec × String} (hp : p ∈ pairs)
    (later : List (String × String)) (deps : List String) (hdeps : ∀ dep ∈ deps, dep ∈ p.1.deps) :
    ∀ {links : List (String × String)} {tr : List (Event DbI)},
      Along plan draws now actor pairs links tr →
      links ++ deps.map (fun dep => (p.2, idIn pairs dep)) ++ later = linksOf pairs →
      Prog.Spec (I := DbI) (Next plan draws now actor)
        (fun r tr' => match r with
          | .ok edges =>
              edges = (links ++ deps.map fun dep => (p.2, idIn pairs dep)).map edgeOf ∧
              Along plan draws now actor pairs (links ++ deps.map fun dep => (p.2, idIn pairs dep))
                tr'
          | .error _ => tr' ≠ [])
        (deps.foldlM (addEdge now actor (pairs.map (createdOf plan)) p.2) (links.map edgeOf)).run
        tr := by
  induction deps with
  | nil =>
      intro links tr h _
      rw [List.map_nil, List.append_nil]
      exact ⟨rfl, h⟩
  | cons dep deps ih =>
      intro links tr h hlater
      obtain ⟨hdep, hrest⟩ := List.forall_mem_cons.mp hdeps
      obtain ⟨q, hq, rfl, hid⟩ := hplan.dep hp hdep
      have hall : links ++ (q.1.key :: deps).map (fun dep => (p.2, idIn pairs dep)) =
          links ++ [(p.2, q.2)] ++ deps.map fun dep => (p.2, idIn pairs dep) := by
        rw [List.map_cons, hid, List.append_cons]
      rw [hall] at hlater ⊢
      have hnext : links ++ [(p.2, q.2)] <+: linksOf pairs :=
        ⟨_, by rw [← List.append_assoc]; exact hlater⟩
      rw [List.foldlM_cons]
      have hturn : Prog.Spec (I := DbI) (Next plan draws now actor)
          (fun r tr' => match r with
            | .ok edges => edges = (links ++ [(p.2, q.2)]).map edgeOf ∧
                Along plan draws now actor pairs (links ++ [(p.2, q.2)]) tr'
            | .error _ => tr' ≠ [])
          (addEdge now actor (pairs.map (createdOf plan)) p.2 (links.map edgeOf) q.1.key).run
              tr := by
        rw [addEdge, hplan.idOf hq, pure_bind, Db.addDep]
        split
        · -- refused without a call
          exact h.ne_nil
        · refine ⟨.addDep h hplan.nodes hnext, fun r => ?_⟩
          cases r with
          | error e => exact List.append_ne_nil_of_right_ne_nil _ (List.cons_ne_nil _ _)
          | ok u =>
              refine ⟨?_, h.link hplan.nodes hnext⟩
              rw [List.map_append]
              rfl
      refine hturn.bind_except (fun edges tr' hmid => ?_) fun e tr' hmid => hmid
      obtain ⟨rfl, halong⟩ := hmid
      exact ih hrest halong hlater

/-- Adding the dependencies of the nodes that are left. -/
theorem addEdges_spec (hplan : Planned plan pairs) (rest : List (NodeSpec × String))
    (hrest : ∀ p ∈ rest, p ∈ pairs) :
    ∀ {links : List (String × String)} {tr : List (Event DbI)},
      Along plan draws now actor pairs links tr →
      links ++ rest.flatMap (linksAt pairs) = linksOf pairs →
      Prog.Spec (I := DbI) (Next plan draws now actor)
        (fun r tr' => match r with
          | .ok edges => edges = (linksOf pairs).map edgeOf ∧
              Along plan draws now actor pairs (linksOf pairs) tr'
          | .error _ => tr' ≠ [])
        ((rest.map Prod.fst).foldlM (addEdges now actor (pairs.map (createdOf plan)))
          (links.map edgeOf)).run tr := by
  induction rest with
  | nil =>
      intro links tr h hall
      rw [List.flatMap_nil, List.append_nil] at hall
      exact ⟨by rw [← hall], hall ▸ h⟩
  | cons p rest ih =>
      intro links tr h hall
      obtain ⟨hp, hlater⟩ := List.forall_mem_cons.mp hrest
      rw [List.flatMap_cons, ← List.append_assoc] at hall
      have hturn := @addEdge_spec plan draws now actor pairs hplan p hp
          (rest.flatMap (linksAt pairs))
        p.1.deps (fun _ hdep => hdep) links tr h hall
      rw [List.map_cons, List.foldlM_cons, addEdges, hplan.idOf hp, pure_bind]
      refine hturn.bind_except (fun edges tr' hmid => ?_) fun e tr' hmid => hmid
      obtain ⟨rfl, halong⟩ := hmid
      exact ih hlater halong hall

/-- The statement is about any name for the program, which keeps its terms small. -/
theorem create_drafted {p : Prog DbI (Except (Fault String) CreateReport)}
    (hp : p = (create cfg plan draws now actor).run) :
    Prog.Spec (I := DbI) (Next plan draws now actor) (Concluded plan draws now actor) p [] := by
  rw [hp]
  unfold create
  split
  · rename_i hvalid
    have hplanValid := validate_eq_nil.mp hvalid
    have hdraft := draft_valid hplanValid
    -- The name check reads all issues once and writes nothing; after it the nodes are created in
    -- plan order, then the edges.
    have hname : Prog.Spec (I := DbI) (Next plan draws now actor)
        (fun r tr => match r with
          | .ok _ => Along plan draws now actor [] [] tr
          | .error _ => tr ≠ []) (checkName plan).run [] := by
      refine ⟨.list, fun r => ?_⟩
      cases r with
      | error e => exact List.cons_ne_nil _ _
      | ok issues =>
          change Prog.Spec (I := DbI) _ _ (ExceptT.run
            (if issues.countP (fun issue => decide (planNameOf issue = some plan.plan)) > 0
              then _ else pure ())) [⟨.list none true none, .ok issues⟩]
          split
          · exact List.cons_ne_nil _ _
          · rename_i hcount
            refine ⟨⟨issues, rfl, fun issue hissue hname => hcount ?_⟩, List.nil_prefix,
              List.nil_prefix, fun hne => absurd rfl hne⟩
            exact List.countP_pos_iff.mpr ⟨issue, hissue, decide_eq_true hname⟩
    refine hname.bind_except (fun _ tr halong => ?_) fun e tr htr => Or.inr ⟨⟨_, hdraft⟩, htr⟩
    refine (createNodes_spec plan.nodes halong rfl).bind_except (fun created tr' hmid => ?_)
      fun e tr' htr => Or.inr ⟨⟨_, hdraft⟩, htr⟩
    obtain ⟨pairs, rfl, hnodes, halong'⟩ := hmid
    have hplan : Planned plan pairs := ⟨hplanValid, hnodes⟩
    have hlinks := addEdges_spec hplan pairs (fun _ hp => hp) halong' rfl
    rw [hnodes] at hlinks
    refine hlinks.bind_except (fun edges tr'' hmid => ?_) fun e tr'' htr =>
      Or.inr ⟨⟨_, hdraft⟩, htr⟩
    obtain ⟨rfl, hend⟩ := hmid
    obtain ⟨f, hf⟩ := hplan.exists_ids
    exact ⟨pairs, _, f, hdraft, hend, hnodes, hf, (hplan.rename hf).symm⟩
  · rename_i hproblems
    exact Or.inl ⟨_, draft_invalid hproblems, rfl, rfl⟩

end

/-! ### The draft is what is written -/

/-- Whatever other callers of the store do in between, and whether or not it succeeds: a caller that
creates a plan makes the calls that its draft shows, one after the other, and makes none when there
is no draft. What it reports in the end is the draft with the ids the store gave. Ids are drawn by
the store, which is why the draft has placeholders and a renaming. -/
theorem created_as_drafted {ι : Type} [DecidableEq ι] {cfg : Db.Config} {plan : ResolvedPlan}
    {draws : String → List String} {now : Int} {actor : String}
    {p : ι → Prog DbI (Except (Fault String) CreateReport)} {i : ι}
    (hp : p i = (create cfg plan draws now actor).run) (s : Locked Db.Tables) (schedule : List ι) :
    let w := System.run (Scope.exec cfg) schedule (System.init s p)
    (∀ c k, (w.threads i).prog = .call c k → Next plan draws now actor c (w.threads i).trace) ∧
      ∀ r, w.Returned i r → Concluded plan draws now actor r (w.threads i).trace := by
  have hspec := @System.spec_run _ _ _ _ _ (Scope.exec cfg) _ _ p i (create_drafted hp) schedule s
  refine ⟨fun c k hprog => ?_, fun r hreturned => ?_⟩
  · rw [hprog] at hspec
    exact hspec.1
  · rw [hreturned] at hspec
    exact hspec

/-- Two callers race for one name, and each writes what its draft shows. -/
theorem race_created_as_drafted :
    let w := System.run (Scope.exec {}) [true, false, true, false, true, false, true, false]
        (System.init unplanned twoCreates)
    (∀ c k, (w.threads true).prog = .call c k →
        Next chainPlan (suffixes true) 10 "me" c (w.threads true).trace) ∧
      ∀ r, w.Returned true r → Concluded chainPlan (suffixes true) 10 "me" r
          (w.threads true).trace :=
  @created_as_drafted Bool _ {} chainPlan (suffixes true) 10 "me" twoCreates true rfl unplanned
    [true, false, true, false, true, false, true, false]

end Marbles.Plan
