import Marbles.Db.Effect
import Marbles.Federation.Audit
import Marbles.Lib.Register

/-!
# Which assertion stays

The cache keeps one assertion for a reference, the database one for an edge. Both take every
assertion that passes their checks and put it in the place of the one they have, without
comparing when the two were asserted: each is a register that is overwritten. It never falls
back exactly when what it takes comes in the order of the assertions.

Both stores of assertions are instances of one register. For a register the question is decided by
the sequence of items it takes, which makes the condition one about the order of what is accepted.
A pruned file makes a register empty, and an empty register has nothing to fall behind.
-/

namespace Marbles

variable {c : Crypto}

/-! ### The cache -/

/-- Pruning removes the file of this name. -/
def AssertionIo.prunes (io : AssertionIo) (name : String) : Bool :=
  io.listing.any fun listed =>
    name ∈ ((Sorting.sortOn (fun f => -f.2) listed).drop AssertionCache.maxEntries).map Prod.fst ∧
      io.removes name = true

@[simp] theorem prune_apply (io : AssertionIo) (files : AssertionFiles) (name : String) :
    AssertionCache.prune io files name =
      if io.prunes name = true then .error .notFound else files name := by
  unfold AssertionCache.prune AssertionIo.prunes
  cases io.listing with
  | none => rfl
  | some listed => simp only [Option.any_some, decide_eq_true_eq]

/-- The assertion the cache holds for a reference. -/
def AssertionCache.stored (c : Crypto) (storeId remoteIssueId : String) (files : AssertionFiles) :
    Option CachedAssertion :=
  match files (entryName c storeId remoteIssueId) with
  | .ok (.ok (.assertion version store issue _ cached)) =>
      if version = assertionCacheVersion ∧ store = storeId ∧ issue = remoteIssueId then
        some cached
      else none
  | _ => none

/-- A call of `record` for one reference. -/
structure RecordCall (storeId remoteIssueId : String) where
  io : AssertionIo
  pin : RemoteRecord
  assertion : IssueAssertion
  observedAt : Int
  store : assertion.storeId = storeId
  issue : assertion.remoteIssueId = remoteIssueId

namespace RecordCall

variable {storeId remoteIssueId : String}

def perform (c : Crypto) (self : AssertionCache) (call : RecordCall storeId remoteIssueId)
    (files : AssertionFiles) : Except AssertionCacheError AssertionView × AssertionFiles :=
  Mutation.call (self.record c call.io call.pin call.assertion call.observedAt) files

/-- What the call stores: its assertion, when that verifies and the file can be written. -/
def accepted (c : Crypto) (call : RecordCall storeId remoteIssueId) : Option CachedAssertion :=
  match AssertionCache.verified c call.pin call.assertion call.observedAt, call.io.createDir,
      call.io.write, call.io.rename with
  | .ok cached, .ok _, .ok _, .ok _ => some cached
  | _, _, _, _ => none

/-- The file the call leaves. -/
def entry (call : RecordCall storeId remoteIssueId) (cached : CachedAssertion) : AssertionEntry :=
  .assertion assertionCacheVersion storeId remoteIssueId call.observedAt cached

end RecordCall

theorem verified_named {pin : RemoteRecord} {assertion : IssueAssertion} {observedAt : Int}
    {cached : CachedAssertion}
    (h : AssertionCache.verified c pin assertion observedAt = .ok cached) :
    cached.storeId = assertion.storeId ∧ cached.remoteIssueId = assertion.remoteIssueId := by
  simp only [AssertionCache.verified, Except.ite_error_eq_ok, Except.bind_eq_ok] at h
  obtain ⟨-, key, -, -, -, -, -, h⟩ := h
  simp only [CachedAssertion.fromVerified, Except.bind_eq_ok] at h
  obtain ⟨signature, -, h⟩ := h
  cases h
  exact ⟨rfl, rfl⟩

namespace RecordCall

variable {storeId remoteIssueId : String} {call : RecordCall storeId remoteIssueId}
  {self : AssertionCache} {cached : CachedAssertion}

theorem perform_of_accepted (h : call.accepted c = some cached) (files : AssertionFiles) :
    call.perform c self files =
      (.ok ⟨storeId, remoteIssueId, .fresh, some cached, none, none⟩,
        AssertionCache.prune call.io (Function.update files
          (AssertionCache.entryName c storeId remoteIssueId) (.ok (.ok (call.entry cached))))) := by
  unfold accepted at h
  split at h
  · rename_i hverified hdir hwrite hrename
    cases h
    -- the file is named after the assertion, which is of the reference of the call
    obtain ⟨hstore, hissue⟩ := verified_named hverified
    rw [call.store] at hstore
    rw [call.issue] at hissue
    simp only [perform, AssertionCache.record, AssertionCache.writeEntry, Mutation.call_bind,
      Mutation.call_liftM, Mutation.call_get, Mutation.call_set, Mutation.call_pure, hverified,
      hdir, hwrite, hrename, Except.mapError, AssertionEntry.header, hstore, hissue, entry]
  · cases h

theorem perform_of_rejected (h : call.accepted c = none) (files : AssertionFiles) :
    ∃ error, call.perform c self files = (.error error, files) := by
  simp only [perform, AssertionCache.record, AssertionCache.writeEntry, Mutation.call_bind,
    Mutation.call_liftM, Mutation.call_get, Mutation.call_set, Mutation.call_pure]
  unfold accepted at h
  cases hverified : AssertionCache.verified c call.pin call.assertion call.observedAt with
  | error error => exact ⟨_, rfl⟩
  | ok cached =>
      cases hdir : call.io.createDir with
      | error reason => exact ⟨_, rfl⟩
      | ok _ =>
          cases hwrite : call.io.write with
          | error error => exact ⟨_, rfl⟩
          | ok _ =>
              cases hrename : call.io.rename with
              | error reason => exact ⟨_, rfl⟩
              | ok _ =>
                  rw [hverified, hdir, hwrite, hrename] at h
                  cases h

end RecordCall

namespace AssertionCache

variable {self : AssertionCache} {storeId remoteIssueId : String}

/-- What the cache holds for a reference once its file is written and the cache pruned. -/
theorem stored_prune_update (io : AssertionIo) (files : AssertionFiles)
    (call : RecordCall storeId remoteIssueId) (cached : CachedAssertion) :
    stored c storeId remoteIssueId (prune io (Function.update files
      (entryName c storeId remoteIssueId) (.ok (.ok (call.entry cached))))) =
      Taken.left ⟨cached, !io.prunes (entryName c storeId remoteIssueId)⟩ := by
  rw [stored, prune_apply, Function.update_self]
  cases io.prunes (entryName c storeId remoteIssueId) with
  | true => rfl
  | false => exact if_pos ⟨rfl, rfl, rfl⟩

/-- The cache as a register: one reference, any calls of `record` for it. Seen as a register, the
two caches share their definitions and one theorem. -/
def recordRegister (c : Crypto) (self : AssertionCache) (storeId remoteIssueId : String) :
    Register (RecordCall storeId remoteIssueId) AssertionFiles CachedAssertion where
  step call files := (call.perform c self files).2
  held := stored c storeId remoteIssueId
  takes call _ := (call.accepted c).map fun cached =>
    ⟨cached, !call.io.prunes (entryName c storeId remoteIssueId)⟩
  held_step call files := by
    cases haccepted : call.accepted c with
    | none =>
        obtain ⟨error, hcall⟩ := call.perform_of_rejected haccepted files
        rw [hcall]
        rfl
    | some cached =>
        rw [RecordCall.perform_of_accepted haccepted files]
        exact stored_prune_update call.io files call cached

/-- An accepted call is taken by the register of its reference. -/
theorem recordRegister_takes {call : RecordCall storeId remoteIssueId} {cached : CachedAssertion}
    (h : call.accepted c = some cached) (files : AssertionFiles) :
    (self.recordRegister c storeId remoteIssueId).takes call files =
      some ⟨cached, !call.io.prunes (entryName c storeId remoteIssueId)⟩ := by
  simp only [recordRegister, h, Option.map_some]

end AssertionCache

/-! ### The database -/

open Db (Tables RemoteDepRow addRemoteDepTx)

/-- A call of `add_remote_dep`. -/
structure EdgeCall where
  child : String
  dependency : RemoteDependency
  actor : String
  now : Int

namespace EdgeCall

/-- One call that touches the remote edges of the store. -/
def perform (cfg : Db.Config) (call : EdgeCall) (l : Locked Tables) : Result Unit × Locked Tables :=
  Db.runM cfg (Db.addRemoteDep call.child call.dependency call.actor call.now) l

/-- The row the call stores. -/
def row (call : EdgeCall) : RemoteDepRow :=
  ⟨call.dependency.storeId, call.dependency.remoteIssueId, call.dependency.state,
    call.dependency.assertedAt, call.dependency.observedAt, call.dependency.signature,
    call.dependency.keyId⟩

/-- The reference parses and names the store and the issue of the dependency. -/
def named (call : EdgeCall) : Bool :=
  match CanonicalRef.parse call.dependency.canonicalRef with
  | .ok parsed => parsed.names call.dependency.storeId call.dependency.remoteIssueId
  | .error _ => false

/-- What the call stores: its row, when the reference names it and the child exists. -/
def accepted (call : EdgeCall) (l : Locked Tables) : Option RemoteDepRow :=
  if call.named = true ∧ l.poisoned = false ∧ (l.state.rowToIssue call.child).isSome = true then
    some call.row
  else none

variable {cfg : Db.Config} {call : EdgeCall} {l : Locked Tables}

theorem perform_of_named (h : call.named = true) : call.perform cfg l =
    Locked.tx (addRemoteDepTx call.child call.dependency call.actor call.now) l := by
  unfold named at h
  unfold perform Db.addRemoteDep
  split at h
  · rename_i parsed hparse
    rw [hparse]
    simp only
    rw [if_pos h]
    rfl
  · cases h

theorem perform_of_not_named (h : call.named = false) :
    ∃ error, call.perform cfg l = (.error error, l) := by
  unfold named at h
  unfold perform Db.addRemoteDep
  split at h
  · rename_i parsed hparse
    rw [hparse]
    simp only
    rw [if_neg (by simp [h])]
    exact ⟨_, rfl⟩
  · rename_i error hparse
    rw [hparse]
    exact ⟨_, rfl⟩

theorem addRemoteDepTx_eq (call : EdgeCall) {t : Tables} {issue : Issue}
    (h : t.rowToIssue call.child = some issue) :
    ∃ t', addRemoteDepTx call.child call.dependency call.actor call.now t = .ok ((), t') ∧
      t'.remoteDep = t.remoteDep.upsert (call.child, call.dependency.canonicalRef) call.row
        fun _ => call.row := by
  rw [addRemoteDepTx, h]
  exact ⟨_, rfl, rfl⟩

theorem perform_of_accepted {row : RemoteDepRow} (h : call.accepted l = some row) :
    ∃ l', call.perform cfg l = (.ok (), l') ∧ l'.state.remoteDep =
      l.state.remoteDep.upsert (call.child, call.dependency.canonicalRef) row fun _ => row := by
  unfold accepted at h
  split at h
  · rename_i hpasses
    obtain ⟨hnamed, hhealthy, hchild⟩ := hpasses
    cases h
    obtain ⟨issue, hissue⟩ := Option.isSome_iff_exists.mp hchild
    obtain ⟨t', htx, hrows⟩ := addRemoteDepTx_eq call hissue
    rw [perform_of_named hnamed, Locked.eq_new hhealthy, Locked.tx_new, htx]
    exact ⟨_, rfl, hrows⟩
  · cases h

theorem perform_of_rejected (h : call.accepted l = none) :
    ∃ error l', call.perform cfg l = (.error error, l') ∧ l'.state = l.state := by
  cases hnamed : call.named with
  | false =>
      obtain ⟨error, hcall⟩ := @perform_of_not_named cfg call l hnamed
      exact ⟨error, l, hcall, rfl⟩
  | true =>
      rw [perform_of_named hnamed]
      cases hpoisoned : l.poisoned with
      | true => exact ⟨_, l, Locked.tx_poisoned _ hpoisoned, rfl⟩
      | false =>
          have hmissing : l.state.rowToIssue call.child = none := by
            simpa [accepted, hnamed, hpoisoned] using h
          have htx : addRemoteDepTx call.child call.dependency call.actor call.now l.state =
              Outcome.fail (.notFound call.child) := by
            rw [addRemoteDepTx, hmissing]
            rfl
          rw [Locked.eq_new hpoisoned, Locked.tx_new, Locked.new_state, htx]
          exact ⟨_, _, rfl, rfl⟩

end EdgeCall

/-- The database as a register: one edge of a child, any calls of `add_remote_dep`. It takes what
the store accepts, and no comparison with the row that is there is made. -/
def edgeRegister (cfg : Db.Config) (child canonicalRef : String) :
    Register EdgeCall (Locked Tables) RemoteDepRow where
  step call l := (call.perform cfg l).2
  held l := l.state.remoteDep.find (child, canonicalRef)
  takes call l :=
    if (child, canonicalRef) = (call.child, call.dependency.canonicalRef) then
      (call.accepted l).map fun row => ⟨row, true⟩
    else none
  held_step call l := by
    cases haccepted : call.accepted l with
    | none =>
        obtain ⟨error, l', hcall, hstate⟩ := @EdgeCall.perform_of_rejected cfg call l haccepted
        rw [hcall, hstate]
        split
        · rfl
        · rfl
    | some row =>
        obtain ⟨l', hcall, hrows⟩ := @EdgeCall.perform_of_accepted cfg call l row haccepted
        -- the row is replaced whether or not there was one
        rw [hcall, hrows, Table.find_upsert]
        split
        · cases l.state.remoteDep.find (call.child, call.dependency.canonicalRef) <;> rfl
        · rfl

/-- An accepted call is taken by the register of its edge. -/
theorem edgeRegister_takes {cfg : Db.Config} {call : EdgeCall} {l : Locked Tables}
    {row : RemoteDepRow} (h : call.accepted l = some row) :
    (edgeRegister cfg call.child call.dependency.canonicalRef).takes call l = some ⟨row, true⟩ := by
  refine (if_pos rfl).trans ?_
  rw [h]
  rfl

/-! ### Both -/

/-- Neither the cache nor the database ever falls back behind what it has taken, exactly when what
it takes comes in the order in which it was asserted. Each of them keeps what it was given last, and
does not look at what it had. -/
theorem rollback_free_iff (c : Crypto) (self : AssertionCache) (storeId remoteIssueId : String)
    (cfg : Db.Config) (child canonicalRef : String) :
    (∀ calls files,
      (self.recordRegister c storeId remoteIssueId).NeverFallsBack CachedAssertion.assertedAt
        calls files ↔
      Register.InOrder CachedAssertion.assertedAt
        ((self.recordRegister c storeId remoteIssueId).history calls files)) ∧
    (∀ calls l,
      (edgeRegister cfg child canonicalRef).NeverFallsBack RemoteDepRow.assertedAt calls l ↔
      Register.InOrder RemoteDepRow.assertedAt
        ((edgeRegister cfg child canonicalRef).history calls l)) :=
  ⟨Register.neverFallsBack_iff _, Register.neverFallsBack_iff _⟩

/-! ### An older assertion, presented later -/

def quietIo : AssertionIo := ⟨.ok (), .ok (), .ok (), none, fun _ => false⟩

/-- The toy remote asserts this state of its issue; it is observed at 1000. -/
def presented (state : String) (assertedAt : Int) : RecordCall "s" "i" :=
  ⟨quietIo, plainRecord 7, plainAssertion 7 state assertedAt, 1000, rfl, rfl⟩

def presentedCached (state : String) (assertedAt : Int) : CachedAssertion :=
  ⟨issueAssertionSchema, "s", "i", state, assertedAt,
    (plainAssertion 7 state assertedAt).signature.getD "", "s/key-1", 1000⟩

theorem presented_accepted {state : String} {assertedAt : Int} (hknown : isKnownState state = true)
    (htime : assertedAt ≤ satI64 (1000 + maxClockSkewSeconds)) :
    (presented state assertedAt).accepted Crypto.plain = some
    (presentedCached state assertedAt) := by
  have hissue : ¬ trim (plainAssertion 7 state assertedAt).remoteIssueId = "" := by
    show ¬ trim "i" = ""
    decide
  have hskew : checkClockSkew (plainAssertion 7 state assertedAt) 1000 = .ok () :=
    checkClockSkew_eq_ok.mpr htime
  have hpin : (plainRecord 7).pinOf (plainAssertion 7 state assertedAt).keyId =
      some (plainRecord 7).activePin := rfl
  have hverifies := plainAssertion_verifies 7 assertedAt hknown 1000
  have hverified : AssertionCache.verified Crypto.plain (plainRecord 7)
      (plainAssertion 7 state assertedAt) 1000 = .ok (presentedCached state assertedAt) := by
    rw [AssertionCache.verified, if_neg hissue, hpin, Except.okOr_some]
    simp only [bind, Except.bind, hverifies, hskew]
    rfl
  simp only [RecordCall.accepted, presented, quietIo, hverified]

theorem presented_takes {state : String} {assertedAt : Int} (hknown : isKnownState state = true)
    (htime : assertedAt ≤ satI64 (1000 + maxClockSkewSeconds)) (files : AssertionFiles) :
    ((AssertionCache.new "cache").recordRegister Crypto.plain "s" "i").takes
      (presented state assertedAt) files = some ⟨presentedCached state assertedAt, true⟩ :=
  AssertionCache.recordRegister_takes (presented_accepted hknown htime) files

/-- The edge of the issue `x`, with an assertion of the toy remote. -/
def presentedEdge (state : String) (assertedAt : Int) : EdgeCall where
  child := "x"
  dependency := { observedEdge 1000 with
    state := state
    assertedAt := assertedAt
    signature := (plainAssertion 7 state assertedAt).signature.getD "" }
  actor := "me"
  now := 1000

/-- A store with the issue `x`. -/
def oneIssue : Locked Tables :=
  Db.run {} [.ensureProject "p" "/p" "p" 0, .create { id := some "x", project := some "p" } [] 0]
    (Db.opened "local")

theorem presentedEdge_accepted {state : String} {assertedAt : Int} {l : Locked Tables}
    (hhealthy : l.poisoned = false) (hchild : (l.state.rowToIssue "x").isSome = true) :
    (presentedEdge state assertedAt).accepted l = some (presentedEdge state assertedAt).row := by
  have hparse : CanonicalRef.parse (presentedEdge state assertedAt).dependency.canonicalRef =
      .ok ⟨"s", "c", "p", "i"⟩ := by
    show CanonicalRef.parse "marbles://s/c/p/i" = _
    decide
  have hnamed : (presentedEdge state assertedAt).named = true := by
    rw [EdgeCall.named, hparse]
    show CanonicalRef.names ⟨"s", "c", "p", "i"⟩ "s" "i" = true
    decide
  exact if_pos ⟨hnamed, hhealthy, hchild⟩

theorem presentedEdge_takes {state : String} {assertedAt : Int} {l : Locked Tables}
    (hhealthy : l.poisoned = false) (hchild : (l.state.rowToIssue "x").isSome = true) :
    (edgeRegister {} "x" "marbles://s/c/p/i").takes (presentedEdge state assertedAt) l =
      some ⟨(presentedEdge state assertedAt).row, true⟩ :=
  edgeRegister_takes (presentedEdge_accepted hhealthy hchild)

/-- Both persist an older `closed` over a newer `open`, observed at the same time. -/
theorem older_closed_replaces_open :
    let cache := (AssertionCache.new "cache").recordRegister Crypto.plain "s" "i"
    let records := [presented "open" 200, presented "closed" 100]
    let edge := edgeRegister {} "x" "marbles://s/c/p/i"
    let edges := [presentedEdge "open" 200, presentedEdge "closed" 100]
    ((cache.history records fun _ => .error .notFound).map fun t =>
      (t.item.state, t.item.assertedAt)) =
        [("open", 200), ("closed", 100)] ∧
      (cache.held (cache.run records fun _ => .error .notFound)).map CachedAssertion.state =
        some "closed" ∧
      ¬ cache.NeverFallsBack CachedAssertion.assertedAt records (fun _ => .error .notFound) ∧
      ((edge.history edges oneIssue).map fun t => (t.item.state, t.item.assertedAt)) =
        [("open", 200), ("closed", 100)] ∧
      (edge.held (edge.run edges oneIssue)).map RemoteDepRow.state = some "closed" ∧
      ¬ edge.NeverFallsBack RemoteDepRow.assertedAt edges oneIssue := by
  intro cache records edge edges
  have hrecords : cache.history records (fun _ => .error .notFound) =
      [⟨presentedCached "open" 200, true⟩, ⟨presentedCached "closed" 100, true⟩] := by
    rw [Register.history, Register.taken, Register.taken, Register.taken,
      presented_takes (by decide) (by decide), presented_takes (by decide) (by decide)]
    rfl
  have hedges : edge.history edges oneIssue =
      [⟨(presentedEdge "open" 200).row, true⟩, ⟨(presentedEdge "closed" 100).row, true⟩] := by
    have hheld : edge.held oneIssue = none := by decide +kernel
    rw [Register.history, hheld, Register.taken, Register.taken, Register.taken,
      @presentedEdge_takes "open" 200 oneIssue (by decide +kernel) (by decide +kernel),
      @presentedEdge_takes "closed" 100 (edge.step (presentedEdge "open" 200) oneIssue)
        (by decide +kernel) (by decide +kernel)]
    rfl
  -- Both registers take the older assertion after the newer one, so the order by time is broken at
  -- their second entry.
  refine ⟨?_, ?_, ?_, ?_, ?_, ?_⟩
  · rw [hrecords]
    rfl
  · rw [Register.held_run, hrecords]
    rfl
  · rw [Register.neverFallsBack_iff, hrecords]
    intro h
    exact absurd ((List.pairwise_cons.mp h).1 _ (List.mem_singleton_self _) rfl) (by decide)
  · rw [hedges]
    rfl
  · rw [Register.held_run, hedges]
    rfl
  · rw [Register.neverFallsBack_iff, hedges]
    intro h
    exact absurd ((List.pairwise_cons.mp h).1 _ (List.mem_singleton_self _) rfl) (by decide)

end Marbles
