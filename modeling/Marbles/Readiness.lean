import Marbles.Federation.Assertions

/-!
# Remote readiness

Whether locally ready work may be started, given what its remote edges wait for. Each edge
passes a gate that opens for one thing only: a fresh assertion that the remote issue is
closed. Everything else is a named reason to wait.

Reasons are only ever added, so a row without reasons has passed every gate. What a passed gate
means is then taken from the cache, which returns an assertion only together with a key that
vouches for it. Times are 64 bits wide, and the one comparison that saturates is treated by a
lemma of its own.
-/

namespace Marbles

/-- The verdict for one remote edge. -/
inductive RemoteGate where
  | satisfied
  | blocked (reason : String)
  deriving DecidableEq, Repr

/-- Only a fresh assertion that says `closed` satisfies an edge; everything else blocks it. What
cannot be verified blocks, so a lost pin never opens an issue. -/
def remoteGate (view : AssertionView) : RemoteGate :=
  match view.freshness with
  | .fresh =>
      match view.assertedState with
      | some state => if state = "closed" then .satisfied else .blocked s!"remote: {state}"
      | none => .blocked "remote: unverifiable"
  | .stale => .blocked "remote: stale"
  | .unknown => .blocked "remote: unknown"
  | .unverifiable => .blocked "remote: unverifiable"

/-- A locally ready issue, with the reasons for which it has to wait. -/
structure ReadinessRow where
  issue : Issue
  blockingReasons : List String
  deriving DecidableEq

/-- Nothing blocks the issue. -/
def ReadinessRow.isReady (row : ReadinessRow) : Bool := row.blockingReasons.isEmpty

/-- The verdict for an edge; a reference that does not name it cannot be verified. -/
def edgeGate (c : Crypto) (registry : RemoteRegistry) (files : AssertionFiles)
    (cache : AssertionCache) (now : Int) (edge : RemoteDependency) : RemoteGate :=
  match CanonicalRef.parse edge.canonicalRef with
  | .ok reference =>
      if reference.names edge.storeId edge.remoteIssueId then
        remoteGate (cache.read c files registry edge.storeId edge.remoteIssueId now)
      else .blocked "remote: unverifiable"
  | .error _ => .blocked "remote: unverifiable"

/-- Each reason is named once, in the order of the edges. -/
def blockingReasons (gates : List RemoteGate) : List String :=
  gates.foldl (fun reasons gate => match gate with
    | .blocked reason => if reason ∈ reasons then reasons else reasons ++ [reason]
    | .satisfied => reasons) []

/-- The rows for locally ready work. `registryFile` is what reading the registry gives and
`root` where the cache is. -/
def readinessRows (c : Crypto) (registryFile : Except FileError (Except String RemoteRegistry))
    (files : AssertionFiles) (root : String) (now : Int)
    (rows : List (Issue × List RemoteDependency)) : List ReadinessRow :=
  let registry := (RemoteRegistry.load registryFile).toOption.getD {}
  let cache := AssertionCache.new root
  rows.map fun row =>
    ⟨row.1, blockingReasons (row.2.map (edgeGate c registry files cache now))⟩

/-! ### The gate -/

variable {c : Crypto}

/-- Reasons are only added. -/
theorem blockingReasons_fold (gates : List RemoteGate) (reasons : List String) :
    gates.foldl (fun reasons gate => match gate with
      | .blocked reason => if reason ∈ reasons then reasons else reasons ++ [reason]
      | .satisfied => reasons) reasons = [] ↔ reasons = [] ∧ ∀ gate ∈ gates, gate = .satisfied := by
  induction gates generalizing reasons with
  | nil => simp
  | cons gate gates ih =>
      rw [List.foldl_cons, ih]
      cases gate with
      | satisfied => simp
      | blocked reason =>
          -- a blocked gate leaves a reason behind, its own or one that was there
          simp only [List.mem_cons, forall_eq_or_imp, reduceCtorEq, false_and, and_false,
            iff_false, not_and]
          intro hnone
          split at hnone
          · rename_i hmem
            rw [hnone] at hmem
            cases hmem
          · simp at hnone

theorem blockingReasons_eq_nil {gates : List RemoteGate} :
    blockingReasons gates = [] ↔ ∀ gate ∈ gates, gate = .satisfied := by
  rw [blockingReasons, blockingReasons_fold]
  simp

/-- The gate opens for a fresh assertion of a closed issue. -/
theorem remoteGate_satisfied {view : AssertionView} (h : remoteGate view = .satisfied) :
    view.freshness = .fresh ∧ view.assertedState = some "closed" := by
  unfold remoteGate at h
  split at h
  · rename_i hfresh
    split at h
    · rename_i state hstate
      split at h
      · rename_i hclosed
        exact ⟨hfresh, hstate.trans (congrArg some hclosed)⟩
      · cases h
    · cases h
  · cases h
  · cases h
  · cases h

/-- What a cache holds for an edge that does not block: its reference names it, and an entry
filed under it is vouched for by a key that the registry pins and that has not retired, says
closed, and is recent. -/
structure EdgeClosed (c : Crypto) (registry : RemoteRegistry) (files : AssertionFiles) (now : Int)
    (edge : RemoteDependency) : Prop where
  reference : ∃ reference, CanonicalRef.parse edge.canonicalRef = .ok reference ∧
    reference.storeId = edge.storeId ∧ reference.issueId = edge.remoteIssueId
  evidence : ∃ cached record pin,
    AssertionCache.Filed c files edge.storeId edge.remoteIssueId cached ∧
    record ∈ registry.remotes ∧ record.storeId = edge.storeId ∧ pin ∈ record.pins ∧
    (∀ validUntil, pin.validUntil = some validUntil → now < validUntil) ∧
    verifyIssueAssertion c cached.toAssertion pin now = .ok () ∧ cached.state = "closed" ∧
    cached.assertedAt ≤ cached.observedAt + 300 ∧
    now - cached.observedAt ≤ defaultFreshnessWindowSeconds ∧
    cached.observedAt - now ≤ defaultFreshnessWindowSeconds

/-- The times of the entries are 64-bit integers, as a JSON library reads them. -/
def AssertionFiles.Fits (files : AssertionFiles) : Prop :=
  ∀ name version storeId remoteIssueId observedAt cached,
    files name = .ok (.ok (.assertion version storeId remoteIssueId observedAt cached)) →
    IsI64 cached.assertedAt ∧ IsI64 cached.observedAt

/-- On 64-bit times saturation does not let an instant pass that is too far ahead. -/
theorem le_add_of_le_satI64 {a b : Int} (h : a ≤ satI64 (b + maxClockSkewSeconds))
    (hb : IsI64 b) : a ≤ b + 300 := by
  rw [satI64, maxClockSkewSeconds] at h
  rw [IsI64] at hb
  omega

theorem sub_le_of_fresh {window now observedAt : Int}
    (h : freshnessAt window now observedAt = .fresh)
    (hwindow : -2 ^ 63 ≤ window ∧ window < 2 ^ 63 - 1) : now - observedAt ≤ window := by
  rw [freshnessAt] at h
  split at h
  · cases h
  · rename_i hage
    rw [satI64] at hage
    omega

theorem edgeGate_satisfied {registry : RemoteRegistry} {files : AssertionFiles}
    (hfits : files.Fits) {root : String} {now : Int} (hnow : IsI64 now) {edge : RemoteDependency}
    (h : edgeGate c registry files (.new root) now edge = .satisfied) :
    EdgeClosed c registry files now edge := by
  unfold edgeGate at h
  cases hparse : CanonicalRef.parse edge.canonicalRef with
  | error error =>
      rw [hparse] at h
      cases h
  | ok reference =>
      rw [hparse] at h
      simp only at h
      split at h
      · rename_i hnames
        simp only [CanonicalRef.names, Bool.and_eq_true, decide_eq_true_eq] at hnames
        obtain ⟨hfresh, hstate⟩ := remoteGate_satisfied h
        rcases AssertionCache.read_cases (c := c) files (.new root) registry edge.storeId
          edge.remoteIssueId now with ⟨cached, hfiled, hvouched, htime, hread⟩ | hother
        · rw [hread] at hfresh hstate
          have hfresh : freshnessAt (AssertionCache.new root).freshnessWindowSeconds now
            cached.observedAt = .fresh := hfresh
          obtain ⟨record, pin, hrecord, hpin, hverify⟩ := hvouched
          obtain ⟨observedAt, hfile⟩ := hfiled
          obtain ⟨-, hobserved⟩ := hfits _ _ _ _ _ _ hfile
          refine ⟨⟨reference, hparse, hnames.1, hnames.2⟩, cached, record, pin, ⟨observedAt, hfile⟩,
            List.mem_of_find?_eq_some hrecord, by simpa using List.find?_some hrecord,
            List.mem_of_find?_eq_some hpin, ?_, hverify, ?_, ?_, ?_, ?_⟩
          · intro validUntil hvalid
            exact PinnedKey.lt_of_retired_eq_none
              (verifyIssueAssertion_eq_ok.mp hverify).notRetired hvalid
          · simp only [AssertionView.assertedState, hfresh, Option.map_some] at hstate
            exact Option.some.inj hstate
          · exact le_add_of_le_satI64 htime.1 hobserved
          · exact sub_le_of_fresh hfresh (by decide)
          · have := le_add_of_le_satI64 htime.2 hnow
            show _ ≤ (300 : Int)
            omega
        · -- nothing else a read says is fresh
          rcases hother with hother | hother
          · rw [hother] at hfresh
            cases hfresh
          · rw [hother] at hfresh
            cases hfresh
      · cases h

/-- There is a row for each issue, in order, and a row is ready only if every remote edge of its
issue is closed. That it is closed means that a signature of its store says so, under a key that is
current now and observed recently enough. -/
theorem readiness_fails_closed (c : Crypto)
    (registryFile : Except FileError (Except String RemoteRegistry)) {files : AssertionFiles}
    (hfits : files.Fits) (root : String) {now : Int} (hnow : IsI64 now)
    (rows : List (Issue × List RemoteDependency)) :
    (readinessRows c registryFile files root now rows).map ReadinessRow.issue =
      rows.map Prod.fst ∧
    ∀ (i : Nat) (row : ReadinessRow) (source : Issue × List RemoteDependency),
      (readinessRows c registryFile files root now rows)[i]? = some row →
      rows[i]? = some source → row.isReady = true → ∀ edge ∈ source.2,
        EdgeClosed c ((RemoteRegistry.load registryFile).toOption.getD {}) files now edge := by
  refine ⟨?_, ?_⟩
  · rw [readinessRows, List.map_map]
    rfl
  · intro i row source hrow hsource hready edge hedge
    rw [readinessRows, List.getElem?_map, hsource] at hrow
    cases hrow
    have hnone := blockingReasons_eq_nil.mp (List.isEmpty_iff.mp hready)
    exact edgeGate_satisfied hfits hnow (hnone _ (List.mem_map_of_mem hedge))

/-! ### A closed remote -/

/-- An edge to the issue `i` of the store `s`. -/
def remoteEdge : RemoteDependency where
  canonicalRef := "marbles://s/c/p/i"
  storeId := "s"
  remoteIssueId := "i"
  state := "closed"
  assertedAt := 100
  observedAt := 110
  signature := ""
  keyId := "s/key-1"
  freshness := none

/-- What the store `s` says about its issue, observed at 110. -/
def closedCached : CachedAssertion :=
  { schema := issueAssertionSchema
    storeId := "s"
    remoteIssueId := "i"
    state := "closed"
    assertedAt := 100
    signature := (plainAssertion 7 "closed" 100).signature.getD ""
    keyId := "s/key-1"
    observedAt := 110 }

/-- One file, in which the issue is asserted closed. -/
def closedFiles : AssertionFiles := fun name =>
  if name = AssertionCache.entryName Crypto.plain "s" "i" then
    .ok (.ok (.assertion assertionCacheVersion "s" "i" 110 closedCached))
  else .error .notFound

theorem closedFiles_fits : closedFiles.Fits := by
  intro name version storeId remoteIssueId observedAt cached hfile
  unfold closedFiles at hfile
  split at hfile
  · cases hfile
    exact ⟨by decide, by decide⟩
  · cases hfile

/-- The registry that pins the store `s`. -/
def pinnedRegistry : RemoteRegistry := { remotes := [plainRecord 7] }

theorem remoteEdge_gate (root : String) :
    edgeGate Crypto.plain pinnedRegistry closedFiles (.new root) 120 remoteEdge = .satisfied := by
  have hparse : CanonicalRef.parse "marbles://s/c/p/i" = .ok ⟨"s", "c", "p", "i"⟩ := by decide
  have hfiled : AssertionCache.Filed Crypto.plain closedFiles "s" "i" closedCached :=
    ⟨110, if_pos rfl⟩
  have hvouched : pinnedRegistry.Vouches Crypto.plain "s" closedCached.toAssertion 120 :=
    ⟨plainRecord 7, _, rfl, rfl, plainAssertion_verifies 7 100 (by decide) 120⟩
  have hread : (AssertionCache.new root).read Crypto.plain closedFiles pinnedRegistry "s" "i" 120 =
      (AssertionCache.new root).readCached Crypto.plain pinnedRegistry "s" "i" 120 closedCached :=
    AssertionCache.read_of_filed hfiled
  rw [AssertionCache.readCached_of_vouches hvouched (by decide)] at hread
  simp only [edgeGate, remoteEdge, hparse, hread]
  rfl

/-- An open issue of the local store. -/
def waitingIssue : Issue where
  id := "x"
  title := "x"
  description := ""
  status := "open"
  priority := 0
  issueType := "task"
  labels := []
  metadata := .null
  externalRef := none
  dependencyCount := 0
  dependentCount := 0
  dependencies := []
  evidence := []
  parent := none
  assignee := none
  actorKind := none
  expiresAt := none
  availableAt := none
  closedAt := none
  createdAt := 0
  updatedAt := 0
  project := "p"

/-- The remote issue behind a row that is ready. -/
theorem closed_remote_ready : EdgeClosed Crypto.plain pinnedRegistry closedFiles 120
    remoteEdge := by
  have hready : (⟨waitingIssue, blockingReasons [edgeGate Crypto.plain pinnedRegistry closedFiles
      (.new "assertions") 120 remoteEdge]⟩ : ReadinessRow).isReady = true := by
    rw [remoteEdge_gate]
    rfl
  exact (readiness_fails_closed Crypto.plain (.ok (.ok pinnedRegistry)) closedFiles_fits
    "assertions" (by decide) [(waitingIssue, [remoteEdge])]).2 0 _ _ rfl rfl hready _
    (List.mem_singleton_self _)

end Marbles
