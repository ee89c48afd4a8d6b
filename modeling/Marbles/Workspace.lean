import Marbles.Federation.Assertions

/-!
# The remotes workspace

One line for each pinned remote: what the cached references of its store say about it as a whole.
The references are read in the order of their issue ids, one named freshness each, and the
freshness of the remote is computed in one pass over them.

`weakest` is what that pass is for: the freshness of the weakest reference, whatever the order.
The pass leaves at the first failure it meets, so the two differ on lists in which an unknown
reference hides an unverifiable one behind it (`Masked`).

The aggregate is computed by a loop that stops at the first failure. Its specification `weakest`
looks at all references, so the two are compared at the place where the loop stops: what comes
before it is no failure, and what comes after it has not been seen. From the same lemma one reads
off when the order of the references shows.
-/

namespace Marbles

open Sorting (sortOn)

/-- When the assertion that the view shows was observed. -/
def AssertionView.observedAt (view : AssertionView) : Option Int :=
  view.assertion.map CachedAssertion.observedAt

namespace Report

/-! ### The freshness of a remote -/

/-- The pass over the references; the flags tell whether a stale and a fresh one have passed. -/
def remoteWorkspaceFreshness.loop :
    Bool → Bool → List AssertionView → AssertionFreshness
  | stale, fresh, [] => if stale then .stale else if fresh then .fresh else .unknown
  | stale, fresh, view :: views =>
      match view.freshness with
      | .unverifiable => .unverifiable
      | .unknown => .unknown
      | .stale => loop true fresh views
      | .fresh => loop stale true views

/-- `remote_workspace_freshness`. -/
def remoteWorkspaceFreshness (views : List AssertionView) : AssertionFreshness :=
  remoteWorkspaceFreshness.loop false false views

/-- Some reference reads so. -/
def Reads (freshness : AssertionFreshness) (views : List AssertionView) : Prop :=
  ∃ view ∈ views, view.freshness = freshness

instance (freshness : AssertionFreshness) (views : List AssertionView) :
    Decidable (Reads freshness views) :=
  inferInstanceAs (Decidable (∃ view ∈ views, _))

/-- The freshness of the weakest reference; no references are unknown. -/
def weakest (views : List AssertionView) : AssertionFreshness :=
  if Reads .unverifiable views then .unverifiable
  else if Reads .unknown views ∨ views = [] then .unknown
  else if Reads .stale views then .stale
  else .fresh

/-- An unverifiable reference comes behind an unknown one, and none before it. -/
def Masked (views : List AssertionView) : Prop :=
  ∃ before view behind, views = before ++ view :: behind ∧ ¬ Reads .unverifiable before ∧
    view.freshness = .unknown ∧ Reads .unverifiable behind

@[simp] theorem reads_cons {freshness : AssertionFreshness} {view : AssertionView}
    {views : List AssertionView} :
    Reads freshness (view :: views) ↔ view.freshness = freshness ∨ Reads freshness views := by
  simp only [Reads, List.mem_cons, exists_eq_or_imp]

theorem not_reads_nil {freshness : AssertionFreshness} : ¬ Reads freshness [] := by
  rintro ⟨view, hmem, -⟩
  cases hmem

theorem Reads.of_perm {freshness : AssertionFreshness} {views views' : List AssertionView}
    (h : views.Perm views') (hreads : Reads freshness views) : Reads freshness views' := by
  obtain ⟨view, hmem, hview⟩ := hreads
  exact ⟨view, h.mem_iff.mp hmem, hview⟩

theorem reads_perm {freshness : AssertionFreshness} {views views' : List AssertionView}
    (h : views.Perm views') : Reads freshness views ↔ Reads freshness views' :=
  ⟨Reads.of_perm h, Reads.of_perm h.symm⟩

/-- The weakest reference does not depend on the order. -/
theorem weakest_perm {views views' : List AssertionView} (h : views.Perm views') :
    weakest views = weakest views' := by
  have hnil : views = [] ↔ views' = [] := by
    rw [← List.length_eq_zero_iff, ← List.length_eq_zero_iff, h.length_eq]
  unfold weakest
  simp only [reads_perm h, hnil]

/-! ### Where the pass leaves -/

/-- The reference ends the pass. -/
def failed (view : AssertionView) : Bool :=
  view.freshness = .unverifiable ∨ view.freshness = .unknown

/-- Where the pass leaves. -/
def firstFailure (views : List AssertionView) : Option AssertionView := views.find? failed

/-- What the pass gives when nothing ends it. -/
def settled (stale fresh : Bool) (views : List AssertionView) : AssertionFreshness :=
  if stale ∨ Reads .stale views then .stale
  else if fresh ∨ Reads .fresh views then .fresh
  else .unknown

/-- The pass leaves at the first failure with its freshness, and settles when there is none. -/
theorem loop_eq (stale fresh : Bool) (views : List AssertionView) :
    remoteWorkspaceFreshness.loop stale fresh views =
      ((firstFailure views).map AssertionView.freshness).getD (settled stale fresh views) := by
  induction views generalizing stale fresh with
  | nil => cases stale <;> cases fresh <;> simp [remoteWorkspaceFreshness.loop, firstFailure,
      settled, not_reads_nil]
  | cons view views ih =>
      rw [remoteWorkspaceFreshness.loop, firstFailure, List.find?_cons]
      cases hview : view.freshness with
      | unverifiable => simp [failed, hview]
      | unknown => simp [failed, hview]
      | stale =>
          -- a stale reference only raises its flag
          simp only [ih, firstFailure, failed, settled, reads_cons, hview]
          simp
      | fresh =>
          simp only [ih, firstFailure, failed, settled, reads_cons, hview]
          simp

theorem firstFailure_eq_none {views : List AssertionView} :
    firstFailure views = none ↔ ¬ Reads .unverifiable views ∧ ¬ Reads .unknown views := by
  simp only [firstFailure, failed, List.find?_eq_none, decide_eq_true_eq, Reads, not_exists,
    not_and, not_or]
  exact ⟨fun h => ⟨fun view hmem => (h view hmem).1, fun view hmem => (h view hmem).2⟩,
    fun h view hmem => ⟨h.1 view hmem, h.2 view hmem⟩⟩

/-- Without a failure the pass gives the weakest reference. -/
theorem settled_eq_weakest {views : List AssertionView} (hverified : ¬ Reads .unverifiable views)
    (hknown : ¬ Reads .unknown views) : settled false false views = weakest views := by
  rw [settled, weakest, if_neg hverified]
  cases views with
  | nil => simp [not_reads_nil]
  | cons view views =>
      have hview : view.freshness = .stale ∨ view.freshness = .fresh := by
        rw [reads_cons, not_or] at hverified hknown
        cases hfreshness : view.freshness with
        | unverifiable => exact absurd hfreshness hverified.1
        | unknown => exact absurd hfreshness hknown.1
        | stale => exact Or.inl rfl
        | fresh => exact Or.inr rfl
      have hnone : ¬ (Reads .unknown (view :: views) ∨ view :: views = []) := by
        simp [hknown]
      rw [if_neg hnone]
      by_cases hstale : Reads .stale (view :: views)
      · simp [hstale]
      · have hfresh : Reads .fresh (view :: views) := by
          rw [reads_cons, not_or] at hstale
          exact reads_cons.mpr (Or.inl (hview.resolve_left hstale.1))
        simp [hstale, hfresh]

/-- The references before the first failure are none. -/
theorem firstFailure_eq_some {views : List AssertionView} {view : AssertionView}
    (h : firstFailure views = some view) :
    ∃ before behind, views = before ++ view :: behind ∧ ¬ Reads .unverifiable before ∧
      ¬ Reads .unknown before := by
  rw [firstFailure, List.find?_eq_some_iff_append] at h
  obtain ⟨-, before, behind, rfl, hbefore⟩ := h
  refine ⟨before, behind, rfl, firstFailure_eq_none.mp ?_⟩
  rw [firstFailure, List.find?_eq_none]
  intro other hmem
  simpa using hbefore other hmem

theorem failed_of_firstFailure {views : List AssertionView} {view : AssertionView}
    (h : firstFailure views = some view) :
    view ∈ views ∧ (view.freshness = .unverifiable ∨ view.freshness = .unknown) :=
  ⟨List.mem_of_find?_eq_some h, of_decide_eq_true (List.find?_some (p := failed) h)⟩

@[simp] theorem reads_append {freshness : AssertionFreshness} {views views' : List AssertionView} :
    Reads freshness (views ++ views') ↔ Reads freshness views ∨ Reads freshness views' := by
  simp only [Reads, List.mem_append, or_and_right, exists_or]

/-- A masked list is left at an unknown reference. -/
theorem firstFailure_of_masked {views : List AssertionView} (h : Masked views) :
    ∃ view, firstFailure views = some view ∧ view.freshness = .unknown := by
  obtain ⟨before, view, behind, rfl, hbefore, hview, -⟩ := h
  cases hfirst : firstFailure before with
  | none =>
      have hfailed : failed view = true := by simp [failed, hview]
      refine ⟨view, ?_, hview⟩
      rw [firstFailure] at hfirst ⊢
      rw [List.find?_append, hfirst, Option.none_or, List.find?_cons_of_pos hfailed]
  | some found =>
      -- an earlier failure is unknown as well
      obtain ⟨hmem, hfailed⟩ := failed_of_firstFailure hfirst
      have hunknown : found.freshness = .unknown :=
        hfailed.resolve_left fun hunverifiable => hbefore ⟨found, hmem, hunverifiable⟩
      refine ⟨found, ?_, hunknown⟩
      rw [firstFailure] at hfirst ⊢
      rw [List.find?_append, hfirst, Option.some_or]

/-- The pass gives the weakest reference unless an unknown one hides an unverifiable one. -/
theorem remoteWorkspaceFreshness_eq_weakest {views : List AssertionView} :
    remoteWorkspaceFreshness views = weakest views ↔ ¬ Masked views := by
  rw [remoteWorkspaceFreshness, loop_eq]
  constructor
  · intro h hmasked
    obtain ⟨view, hfirst, hview⟩ := firstFailure_of_masked hmasked
    obtain ⟨before, other, behind, rfl, -, -, hbehind⟩ := hmasked
    have hreads : Reads .unverifiable (before ++ other :: behind) :=
      reads_append.mpr (Or.inr (reads_cons.mpr (Or.inr hbehind)))
    rw [hfirst, Option.map_some, Option.getD_some, hview, weakest, if_pos hreads] at h
    cases h
  · intro hmasked
    cases hfirst : firstFailure views with
    | none =>
        obtain ⟨hverified, hknown⟩ := firstFailure_eq_none.mp hfirst
        exact settled_eq_weakest hverified hknown
    | some view =>
        obtain ⟨hmem, hfailed⟩ := failed_of_firstFailure hfirst
        rw [Option.map_some, Option.getD_some, weakest]
        rcases hfailed with hunverifiable | hunknown
        · rw [if_pos ⟨view, hmem, hunverifiable⟩, hunverifiable]
        · -- the pass left at an unknown reference: what it did not see is verified
          obtain ⟨before, behind, rfl, hbefore, -⟩ := firstFailure_eq_some hfirst
          have hverified : ¬ Reads .unverifiable (before ++ view :: behind) := by
            intro hreads
            have hbehind : Reads .unverifiable behind := by
              rcases reads_append.mp hreads with hreads | hreads
              · exact absurd hreads hbefore
              · refine (reads_cons.mp hreads).resolve_left ?_
                rw [hunknown]
                decide
            exact hmasked ⟨before, view, behind, rfl, hbefore, hunknown, hbehind⟩
          rw [if_neg hverified, if_pos (Or.inl ⟨view, hmem, hunknown⟩), hunknown]

/-- The pass gives every order the same freshness unless it can leave in two ways. -/
theorem remoteWorkspaceFreshness_perm {views : List AssertionView} :
    (∀ views', views'.Perm views →
      remoteWorkspaceFreshness views' = remoteWorkspaceFreshness views) ↔
    ¬ (Reads .unknown views ∧ Reads .unverifiable views) := by
  constructor
  · rintro h ⟨⟨unknown, hunknown, hreads⟩, hunverifiable⟩
    -- the unknown reference first, and the unverifiable one first
    have hfront : ∀ view ∈ views, ∀ freshness, view.freshness = freshness →
        freshness = .unverifiable ∨ freshness = .unknown →
        remoteWorkspaceFreshness views = freshness := by
      intro view hmem freshness hview hfailed
      rw [← h _ (List.perm_cons_erase hmem).symm, remoteWorkspaceFreshness,
        remoteWorkspaceFreshness.loop, hview]
      rcases hfailed with rfl | rfl <;> rfl
    obtain ⟨view, hmem, hview⟩ := hunverifiable
    have hone := hfront unknown hunknown _ hreads (Or.inr rfl)
    rw [hfront view hmem _ hview (Or.inl rfl)] at hone
    cases hone
  · intro h views' hperm
    have hmasked : ∀ list : List AssertionView, list.Perm views → ¬ Masked list := by
      rintro list hlist ⟨before, view, behind, rfl, -, hview, hbehind⟩
      refine h ⟨Reads.of_perm hlist ?_, Reads.of_perm hlist ?_⟩
      · exact reads_append.mpr (Or.inr (reads_cons.mpr (Or.inl hview)))
      · exact reads_append.mpr (Or.inr (reads_cons.mpr (Or.inr hbehind)))
    rw [remoteWorkspaceFreshness_eq_weakest.mpr (hmasked views' hperm),
      remoteWorkspaceFreshness_eq_weakest.mpr (hmasked views (List.Perm.refl views)),
      weakest_perm hperm]

/-- The whole of the aggregate: it names the weakest reference exactly when no unknown one hides an
unverifiable one, and it is the same in every order exactly when not both occur. The pass leaves at
the first failure, whichever it is. -/
theorem remoteWorkspaceFreshness_weakest (views : List AssertionView) :
    (remoteWorkspaceFreshness views = weakest views ↔ ¬ Masked views) ∧
    ((∀ views', views'.Perm views →
      remoteWorkspaceFreshness views' = remoteWorkspaceFreshness views) ↔
      ¬ (Reads .unknown views ∧ Reads .unverifiable views)) :=
  ⟨remoteWorkspaceFreshness_eq_weakest, remoteWorkspaceFreshness_perm⟩

/-- A reference that was never reached comes before one whose entry cannot be read. -/
theorem remoteWorkspaceFreshness_masked :
    ∃ views views' : List AssertionView, views'.Perm views ∧
      remoteWorkspaceFreshness views = .unknown ∧ weakest views = .unverifiable ∧
      remoteWorkspaceFreshness views' = .unverifiable :=
  ⟨[.unknown "s" "1" .remoteUnreachable, .unverifiable "s" "2" "assertion signature is invalid"],
    [.unverifiable "s" "2" "assertion signature is invalid", .unknown "s" "1" .remoteUnreachable],
    List.Perm.swap _ _ _, rfl, by decide, rfl⟩

/-- A remote reads as healthy only when every reference verifies, whatever the order: a failure is
never hidden behind a reference that verifies. -/
theorem verified_of_remoteWorkspaceFreshness {views : List AssertionView}
    (h : remoteWorkspaceFreshness views = .fresh ∨ remoteWorkspaceFreshness views = .stale) :
    views ≠ [] ∧ ∀ view ∈ views, view.freshness = .fresh ∨ view.freshness = .stale := by
  have hnone : firstFailure views = none := by
    cases hfirst : firstFailure views with
    | none => rfl
    | some view =>
        obtain ⟨-, hfailed⟩ := failed_of_firstFailure hfirst
        rw [remoteWorkspaceFreshness, loop_eq, hfirst, Option.map_some, Option.getD_some] at h
        rcases hfailed with hfailed | hfailed <;> rw [hfailed] at h <;>
          exact h.elim (fun h => by cases h) (fun h => by cases h)
  constructor
  · rintro rfl
    exact h.elim (fun h => by cases h) (fun h => by cases h)
  · intro view hmem
    obtain ⟨hverified, hknown⟩ := firstFailure_eq_none.mp hnone
    cases hview : view.freshness with
    | fresh => exact Or.inl rfl
    | stale => exact Or.inr rfl
    | unknown => exact absurd ⟨view, hmem, hview⟩ hknown
    | unverifiable => exact absurd ⟨view, hmem, hview⟩ hverified

end Report

/-! ### The lines of the workspace -/

namespace AssertionCache

/-- The issues of a store that have an entry, in the order of the files. -/
def issuesOf (files : AssertionFiles) (names : List String) (storeId : String) : List String :=
  names.filterMap fun name =>
    match files name with
    | .ok (.ok entry) => if entry.header.2.1 = storeId then some entry.header.2.2 else none
    | _ => none

/-- `read_all`; `listing` is the names that end in `.json`, in the order of the directory. -/
def readAll (c : Crypto) (files : AssertionFiles) (listing : Option (List String))
    (self : AssertionCache) (registry : RemoteRegistry) (storeId : String) (now : Int) :
    List AssertionView :=
  match listing with
  | none => []
  | some names =>
      (sortOn (fun issue => issue) (issuesOf files names storeId)).dedup.map fun issue =>
        self.read c files registry storeId issue now

/-- The order of the directory does not show. -/
theorem readAll_perm {c : Crypto} {files : AssertionFiles} {names names' : List String}
    (h : names.Perm names') (self : AssertionCache) (registry : RemoteRegistry) (storeId : String)
    (now : Int) :
    self.readAll c files (some names) registry storeId now =
      self.readAll c files (some names') registry storeId now := by
  have hperm : (issuesOf files names storeId).Perm (issuesOf files names' storeId) :=
    h.filterMap _
  simp only [readAll]
  rw [Sorting.sortOn_perm (fun _ _ heq => heq) hperm]

/-- One view for each issue that has an entry. -/
theorem mem_readAll {c : Crypto} {files : AssertionFiles} {names : List String}
    {self : AssertionCache} {registry : RemoteRegistry} {storeId : String} {now : Int}
    {view : AssertionView} :
    view ∈ self.readAll c files (some names) registry storeId now ↔
      ∃ issue ∈ issuesOf files names storeId,
        self.read c files registry storeId issue now = view := by
  simp only [readAll, List.mem_map, List.mem_dedup, Sorting.mem_sortOn]

end AssertionCache

namespace Report

open AssertionCache (readAll issuesOf)

/-- What is reported of a remote, over all references to it. -/
structure RemoteWorkspaceEntry where
  name : String
  displayName : String
  storeId : String
  keyId : String
  endpoint : String
  freshness : AssertionFreshness
  observedAt : Option Int
  references : Nat
  problem : Option String
  deriving DecidableEq

/-- `remote_entry`. -/
def remoteEntry (c : Crypto) (files : AssertionFiles) (listing : Option (List String))
    (registry : RemoteRegistry) (cache : AssertionCache) (record : RemoteRecord) (now : Int) :
    RemoteWorkspaceEntry :=
  let views := cache.readAll c files listing registry record.storeId now
  { name := record.name
    displayName := record.displayName
    storeId := record.storeId
    keyId := record.keyId
    endpoint := record.endpoint
    freshness := remoteWorkspaceFreshness views
    observedAt := (views.filterMap AssertionView.observedAt).max?
    references := views.length
    problem := views.findSome? AssertionView.problem }

/-- Behind a line that reads as healthy there is an entry, and the keys the registry pins now vouch
for every assertion the cache holds of that store. -/
theorem vouches_of_remoteEntry {c : Crypto} {files : AssertionFiles} {names : List String}
    {registry : RemoteRegistry} {cache : AssertionCache} {record : RemoteRecord} {now : Int}
    (h : (remoteEntry c files (some names) registry cache record now).freshness = .fresh ∨
      (remoteEntry c files (some names) registry cache record now).freshness = .stale) :
    AssertionCache.issuesOf files names record.storeId ≠ [] ∧
    ∀ issue ∈ AssertionCache.issuesOf files names record.storeId, ∃ cached,
      AssertionCache.Filed c files record.storeId issue cached ∧
      registry.Vouches c record.storeId cached.toAssertion now := by
  obtain ⟨hne, hviews⟩ := verified_of_remoteWorkspaceFreshness h
  constructor
  · intro hnil
    apply hne
    simp only [readAll, hnil]
    rfl
  · intro issue hissue
    have hview := hviews _ (AssertionCache.mem_readAll.mpr ⟨issue, hissue, rfl⟩)
    rcases AssertionCache.read_cases (c := c) files cache registry record.storeId issue now with
      ⟨cached, hfiled, hvouches, -, -⟩ | hunknown | hunverifiable
    · exact ⟨cached, hfiled, hvouches⟩
    · rw [hunknown] at hview
      exact absurd hview (by decide)
    · rw [hunverifiable] at hview
      exact absurd hview (by decide)

end Report

end Marbles
