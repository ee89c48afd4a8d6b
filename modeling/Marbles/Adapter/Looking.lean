import Marbles.Adapter.Store

/-!
# Methods that only look

Most of what the methods of the adapter are made of writes nothing: it lists the keys of a type
and looks at documents. What is shown here of the calls they make serves every proof that is about
what is written.

The predicate on programs is the one the later proofs are written against: a program looks if it
asks for keys and documents only. Most lemmas say that one of the helpers of `adapter.rs` looks,
and are used by the proofs about keys, about columns and about numbers alike.
-/

namespace Marbles.Adapter

open Json (Value)
open Records (Key)

/-- The call looks at the documents and writes nothing. -/
def Call.IsLook : Call → Prop
  | .current .. | .keys _ => True
  | _ => False

/-- A method that only looks. -/
structure Looking {α : Type} (m : AdapterM α) : Prop where
  only : Prog.Only Call.IsLook m.run

namespace Looking

variable {α β : Type}

theorem liftResult (r : Result α) : Looking (Adapter.liftResult r) := ⟨trivial⟩

theorem pure (a : α) : Looking (pure a : AdapterM α) := ⟨trivial⟩

theorem throw (e : Fault Error) : Looking (throw e : AdapterM α) := ⟨trivial⟩

theorem bind {m : AdapterM α} {f : α → AdapterM β} (hm : Looking m) (hf : ∀ a, Looking (f a)) :
    Looking (m >>= f) := ⟨hm.only.bind_except fun a => (hf a).only⟩

theorem foldlM {f : β → α → AdapterM β} (hf : ∀ b a, Looking (f b a)) (xs : List α) (b : β) :
    Looking (xs.foldlM f b) := ⟨Prog.Only.foldlM (fun b a => (hf b a).only) xs b⟩

theorem forM {f : α → AdapterM PUnit} (hf : ∀ a, Looking (f a)) (xs : List α) :
    Looking (xs.forM f) := by
  induction xs with
  | nil => exact pure PUnit.unit
  | cons x xs ih => exact (hf x).bind fun _ => ih

theorem ite {c : Prop} [Decidable c] {m m' : AdapterM α} (hm : Looking m) (hm' : Looking m') :
    Looking (if c then m else m') := by
  split
  · exact hm
  · exact hm'

theorem current (name : String) (key : Key) : Looking (Adapter.current name key) :=
  ⟨⟨trivial, fun _ => trivial⟩⟩

theorem keys (name : String) : Looking (Adapter.keys name) := ⟨⟨trivial, fun _ => trivial⟩⟩

theorem docs (name : String) : Looking (Adapter.docs name) := by
  refine (keys name).bind fun found => foldlM (fun found key => ?_) found []
  refine (current name key).bind fun data => ?_
  cases data with
  | none => exact pure _
  | some data => exact pure _

theorem edges : Looking Adapter.edges := (keys dependencyKind).bind fun _ => pure _

theorem loadIssue (id : String) : Looking (Adapter.loadIssue id) := current issueKind [id]

theorem statusOf (id : String) : Looking (Adapter.statusOf id) := (loadIssue id).bind fun _ =>
  pure _

theorem countOpen (ids : List String) : Looking (Adapter.countOpen ids) :=
  foldlM (fun _ id => (statusOf id).bind fun _ => pure _) ids 0

theorem rowToIssue (id : String) : Looking (Adapter.rowToIssue id) := by
  refine (loadIssue id).bind fun data => ?_
  cases data with
  | none => exact pure _
  | some data =>
      refine edges.bind fun _ => (countOpen _).bind fun _ => edges.bind fun _ => ?_
      exact (countOpen _).bind fun _ => pure _

theorem get (id : String) : Looking (Adapter.get id) := by
  refine (rowToIssue id).bind fun issue => ?_
  cases issue with
  | none => exact throw _
  | some issue => exact pure _

/-- A fold over keys that looks at their first component. -/
theorem foldKeys {f : List β → String → AdapterM (List β)} (hf : ∀ found id, Looking (f found id))
    (xs : List Key) : Looking (xs.foldlM (fun found key => match key with
      | id :: _ => f found id
      | [] => Pure.pure found) []) := by
  refine foldlM (fun found key => ?_) xs []
  cases key with
  | nil => exact pure _
  | cons id rest => exact hf found id

theorem allIssues : Looking Adapter.allIssues := by
  refine (keys issueKind).bind fun found => foldKeys (fun found id => ?_) found
  refine (rowToIssue id).bind fun issue => ?_
  cases issue with
  | none => exact pure _
  | some issue => exact pure _

theorem reachable (source target : String) : Looking (Adapter.reachable source target) :=
  ite (pure _) (edges.bind fun _ => pure _)

/-! ### Projects and folders -/

theorem loadProject (slug : String) : Looking (Adapter.loadProject slug) :=
  current projectKind [slug]

theorem projectOf (id : String) : Looking (Adapter.projectOf id) := by
  refine (loadIssue id).bind fun data => ?_
  cases data with
  | none => exact throw _
  | some data => exact pure _

theorem loadFolder (slug : String) : Looking (Adapter.loadFolder slug) := current folderKind [slug]

theorem projects : Looking Adapter.projects := by
  refine (keys projectKind).bind fun found => (foldKeys (fun found slug => ?_) found).bind fun _ =>
    pure _
  refine (loadProject slug).bind fun data => ?_
  cases data with
  | none => exact pure _
  | some data => exact pure _

theorem parentOf (slug : String) : Looking (Adapter.parentOf slug) :=
  (loadFolder slug).bind fun _ => pure _

theorem meets (slug : String) (fuel : Nat) (node : Option String) :
    Looking (Adapter.meets slug fuel node) := by
  induction fuel generalizing node with
  | zero =>
      cases node with
      | none => exact pure _
      | some node => exact throw _
  | succ fuel ih =>
      cases node with
      | none => exact pure _
      | some node => exact ite (pure _) ((parentOf node).bind fun next => ih next)

theorem checkFolderParent (slug : String) (parent : Option String) :
    Looking (Adapter.checkFolderParent slug parent) := by
  cases parent with
  | none => exact pure _
  | some parent =>
      refine ite (throw _) ((loadFolder parent).bind fun data => ?_)
      cases data with
      | none => exact throw _
      | some data =>
          refine (keys folderKind).bind fun _ => (parentOf parent).bind fun _ => ?_
          exact (meets slug _ _).bind fun _ => ite (throw _) (pure _)

theorem folderView : Looking Adapter.folderView :=
  (docs folderKind).bind fun _ => (docs projectFolderKind).bind fun _ => pure _

theorem pendingEvents (now : Int) (limit : Nat) : Looking (Adapter.pendingEvents now limit) :=
  (docs outboundEventKind).bind fun _ => pure _

theorem issuesOf (slug : String) : Looking (Adapter.issuesOf slug) := by
  refine (keys issueKind).bind fun found => foldKeys (fun mine id => ?_) found
  refine (loadIssue id).bind fun data => ?_
  cases data with
  | none => exact pure _
  | some data => exact pure _

/-! ### The life of an issue -/

theorem checkParent (project : String) (parent : Option String) :
    Looking (Adapter.checkParent project parent) := by
  cases parent with
  | none => exact pure _
  | some parent =>
      refine (loadIssue parent).bind fun data => ?_
      cases data with
      | none => exact throw _
      | some data => exact ite (pure _) (throw _)

theorem drawId (idPrefix : String) (draws : List String) :
    Looking (Adapter.drawId idPrefix draws) := by
  induction draws with
  | nil => exact throw _
  | cons suffix draws ih =>
      refine (loadIssue _).bind fun data => ?_
      cases data with
      | none => exact pure _
      | some data => exact ih

theorem chooseId (idPrefix : String) (draws : List String) (id : Option String) :
    Looking (Adapter.chooseId idPrefix draws id) := by
  cases id with
  | none => exact drawId idPrefix draws
  | some id =>
      refine (loadIssue id).bind fun data => ?_
      cases data with
      | none => exact pure _
      | some data => exact throw _

theorem list (project : Option String) (all : Bool) (onlyId : Option String) :
    Looking (Adapter.list project all onlyId) := allIssues.bind fun _ => pure _

theorem unblocked (id : String) : Looking (Adapter.unblocked id) :=
  edges.bind fun _ => foldlM (fun _ parent => ite ((statusOf parent).bind fun _ => pure _) (pure _))
    _ _

theorem ready (project : Option String) (now : Int) : Looking (Adapter.ready project now) := by
  refine allIssues.bind fun issues => (foldlM (fun found issue => ?_) issues []).bind fun _ =>
    pure _
  exact ite ((unblocked issue.id).bind fun _ => ite (pure _) (pure _)) (pure _)

theorem checkIssue (id : String) : Looking (Adapter.checkIssue id) := by
  refine (loadIssue id).bind fun data => ?_
  cases data with
  | none => exact throw _
  | some data => exact pure _

theorem lapsed (now : Int) : Looking (Adapter.lapsed now) := by
  refine (keys issueKind).bind fun found => (foldKeys (fun found id => ?_) found).bind fun _ =>
    pure _
  refine (loadIssue id).bind fun data => ?_
  cases data with
  | none => exact pure _
  | some data => exact pure _

theorem checkBlockers (id : String) : Looking (Adapter.checkBlockers id) :=
  edges.bind fun _ => forM (fun blocker => (statusOf blocker).bind fun _ => ite (throw _) (pure _))
    _

/-! ### Reports -/

theorem history (id : String) : Looking (Adapter.history id) :=
  (docs marblesEventKind).bind fun _ => pure _

theorem stats : Looking Adapter.stats := (docs issueKind).bind fun _ => pure _

theorem spans {span : String → Value → AdapterM (Option (Int × Int))}
    (hspan : ∀ id data, Looking (span id data)) : Looking (Adapter.spans span) := by
  refine (docs issueKind).bind fun found => foldlM (fun found d => ?_) _ _
  obtain ⟨key, data⟩ := d
  cases key with
  | nil => exact pure _
  | cons id rest =>
      refine (hspan id data).bind fun ends => ?_
      cases ends with
      | none => exact pure _
      | some ends => exact pure _

theorem firstEvent (p : Value → Bool) (id : String) : Looking (Adapter.firstEvent p id) :=
  (docs marblesEventKind).bind fun _ => pure _

theorem eventLabels (event : Value) : Looking (Adapter.eventLabels event) := by
  unfold Adapter.eventLabels
  cases (event.field "issue_id").asStr with
  | none => exact pure _
  | some id => exact (loadIssue id).bind fun _ => pure _

theorem reviewTime (id : String) (data : Value) : Looking (Adapter.reviewTime id data) := by
  unfold Adapter.reviewTime
  cases (data.field "closed_at").asInt with
  | none => exact pure _
  | some closed => exact (firstEvent _ id).bind fun _ => pure _

theorem prometheusMetrics (now : Int) : Looking (Adapter.prometheusMetrics now) := by
  refine (docs issueKind).bind fun _ => (ready none now).bind fun _ =>
    (docs issueKind).bind fun _ => ?_
  refine (docs marblesEventKind).bind fun events => ?_
  refine (foldlM (fun _ d => (eventLabels d.2).bind fun _ => pure _) events []).bind fun _ => ?_
  refine (spans fun id data => (firstEvent _ id).bind fun _ => pure _).bind fun _ => ?_
  refine (spans fun _ _ => pure _).bind fun _ => ?_
  exact (spans reviewTime).bind fun _ => pure _

end Looking

end Marbles.Adapter
