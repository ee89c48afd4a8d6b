import Marbles.Federation.Pins
import Marbles.Federation.Rollback

/-!
# Reading back what was recorded

An assertion is recorded under the record it is handed in with, and read under the first record of
its store in the registry. A store can be added under two names, with a key of its own under each,
so the two need not be the same: what was just recorded is read back exactly when its file was not
pruned and the first record of the store pins a key that vouches for it, too.

Recording and reading select a record of the store by different rules, and that is all there is to
the exact condition. Pruning can take any file, so whether the file is there is left as part of
the condition. A failed observation rewrites the file only if it holds no assertion.
-/

namespace Marbles

variable {c : Crypto}

/-- The first record of the store pins, under the key id of the assertion, a key that has not
retired and that the signature verifies under. -/
def RemoteRegistry.Selects (c : Crypto) (registry : RemoteRegistry) (assertion : IssueAssertion)
    (now : Int) : Prop :=
  ∃ first pin, (registry.remotes.find? fun record => record.storeId = assertion.storeId) =
      some first ∧ first.pinOf assertion.keyId = some pin ∧ pin.retired now = none ∧
    c.Signed assertion.signature pin.publicKey assertion.signingBytes

theorem RemoteRecord.pinOf_spec {record : RemoteRecord} {keyId : String} {pin : PinnedKey}
    (h : record.pinOf keyId = some pin) : pin.keyId = keyId ∧ pin.storeId = record.storeId := by
  have hkey := List.find?_some h
  have hmem := List.mem_of_find?_eq_some h
  refine ⟨of_decide_eq_true hkey, ?_⟩
  rcases List.mem_cons.mp hmem with rfl | hmem
  · rfl
  · obtain ⟨key, -, rfl⟩ := List.mem_map.mp hmem
    rfl

/-- When one key vouches for an assertion, all that matters of another is that it is current and
that the signature verifies under it. -/
theorem vouches_iff_selects {registry : RemoteRegistry} {assertion : IssueAssertion}
    {pin : PinnedKey} {now : Int} (h : assertion.Holds c pin now) :
    registry.Vouches c assertion.storeId assertion now ↔ registry.Selects c assertion now := by
  constructor
  · intro ⟨first, pin', hfirst, hpin, hverify⟩
    have hholds := verifyIssueAssertion_eq_ok.mp hverify
    exact ⟨first, pin', hfirst, hpin, hholds.notRetired, hholds.signed⟩
  · intro ⟨first, pin', hfirst, hpin, hretired, hsigned⟩
    obtain ⟨hkey, hstore⟩ := RemoteRecord.pinOf_spec hpin
    have hfirstStore := List.find?_some hfirst
    have hsame : pin'.storeId = assertion.storeId := hstore.trans (of_decide_eq_true hfirstStore)
    refine ⟨first, pin', hfirst, hpin, verifyIssueAssertion_eq_ok.mpr ⟨h.schema, ?_, hsame.symm,
      hkey.symm, hretired, h.known, hsigned⟩⟩
    rw [hsame, h.storeId]
    exact h.pinned

namespace AssertionCache

/-- A cache as it is made, with the default window or another. -/
def Built (self : AssertionCache) : Prop :=
  ∃ root, self = .new root ∨ ∃ seconds, self = (new root).withFreshnessWindow seconds

theorem Built.window {self : AssertionCache} (h : self.Built) :
    0 ≤ self.freshnessWindowSeconds := by
  obtain ⟨root, rfl | ⟨seconds, rfl⟩⟩ := h
  · exact Int.le_of_lt (by decide : (0 : Int) < defaultFreshnessWindowSeconds)
  · exact Int.le_max_right _ _

/-- What passed the checks of `record`. -/
structure Passed (c : Crypto) (record : RemoteRecord) (assertion : IssueAssertion) (now : Int)
    (cached : CachedAssertion) : Prop where
  toAssertion : cached.toAssertion = assertion
  observedAt : cached.observedAt = now
  pinned : ∃ pin, record.pinOf assertion.keyId = some pin ∧ assertion.Holds c pin now
  inTime : assertion.assertedAt ≤ satI64 (now + maxClockSkewSeconds)

theorem passed_of_verified {record : RemoteRecord} {assertion : IssueAssertion} {now : Int}
    {cached : CachedAssertion} (h : verified c record assertion now = .ok cached) :
    Passed c record assertion now cached := by
  simp only [verified, Except.ite_error_eq_ok, Except.bind_eq_ok, Except.okOr_eq_ok] at h
  obtain ⟨-, pin, hpin, _, hverify, _, hskew, hcached⟩ := h
  simp only [CachedAssertion.fromVerified, Except.bind_eq_ok, Except.okOr_eq_ok] at hcached
  obtain ⟨signature, hsignature, hcached⟩ := hcached
  cases hcached
  refine ⟨?_, rfl, ⟨pin, hpin, verifyIssueAssertion_eq_ok.mp hverify⟩,
    checkClockSkew_eq_ok.mp hskew⟩
  rw [CachedAssertion.toAssertion, ← hsignature]

/-- What a recorded assertion leaves. -/
theorem record_ok {self : AssertionCache} {io : AssertionIo} {record : RemoteRecord}
    {assertion : IssueAssertion} {now : Int} {files files' : AssertionFiles} {view : AssertionView}
    (h : Mutation.call (self.record c io record assertion now) files = (.ok view, files')) :
    ∃ cached, Passed c record assertion now cached ∧
      view = ⟨assertion.storeId, assertion.remoteIssueId, .fresh, some cached, none, none⟩ ∧
      files' = prune io (Function.update files
        (entryName c assertion.storeId assertion.remoteIssueId) (.ok (.ok (.assertion
          assertionCacheVersion assertion.storeId assertion.remoteIssueId now cached)))) := by
  let call : RecordCall assertion.storeId assertion.remoteIssueId :=
    ⟨io, record, assertion, now, rfl, rfl⟩
  have hcall : call.perform c self files = (.ok view, files') := h
  cases haccepted : call.accepted c with
  | none =>
      obtain ⟨error, herror⟩ := call.perform_of_rejected haccepted files
      rw [hcall] at herror
      cases herror
  | some cached =>
      rw [RecordCall.perform_of_accepted haccepted files] at hcall
      obtain ⟨hview, hfiles⟩ := Prod.mk.inj hcall
      have hverified : verified c record assertion now = .ok cached := by
        unfold RecordCall.accepted at haccepted
        split at haccepted
        · rename_i hverified _ _ _
          cases haccepted
          exact hverified
        · cases haccepted
      exact ⟨cached, passed_of_verified hverified, (Except.ok.inj hview).symm, hfiles.symm⟩

/-- At the instant it is recorded, what passed the checks is in time. -/
theorem Passed.timely {record : RemoteRecord} {assertion : IssueAssertion} {now : Int}
    {cached : CachedAssertion} (h : Passed c record assertion now cached) (hnow : IsI64 now) :
    InTime cached.assertedAt cached.observedAt now := by
  rw [h.observedAt]
  constructor
  · have hskew := h.inTime
    rw [← h.toAssertion] at hskew
    exact hskew
  · obtain ⟨hlow, hhigh⟩ := hnow
    simp only [satI64, maxClockSkewSeconds]
    omega

/-- A file that is not pruned holds what was written to it. -/
theorem filed_of_kept {io : AssertionIo} {files : AssertionFiles} {storeId remoteIssueId : String}
    {observedAt : Int} {cached : CachedAssertion}
    (h : io.prunes (entryName c storeId remoteIssueId) = false) :
    Filed c (prune io (Function.update files (entryName c storeId remoteIssueId) (.ok (.ok
      (.assertion assertionCacheVersion storeId remoteIssueId observedAt cached)))))
      storeId remoteIssueId cached := by
  refine ⟨observedAt, ?_⟩
  rw [prune_apply, h, if_neg Bool.false_ne_true, Function.update_self]

/-! ### Failed observations -/

/-- A call of `note_unreachable` for a reference. -/
structure Note where
  io : AssertionIo
  detail : String
  attemptedAt : Int

/-- The files after failed observations of a reference. -/
def noted (c : Crypto) (self : AssertionCache) (storeId remoteIssueId : String) (notes : List Note)
    (files : AssertionFiles) : AssertionFiles :=
  Machine.run (fun (note : Note) files => (Mutation.call (self.noteUnreachable c note.io storeId
    remoteIssueId note.detail note.attemptedAt) files).2) notes files

/-- A failed observation leaves an assertion as it is. -/
theorem noteUnreachable_of_filed {self : AssertionCache} {storeId remoteIssueId : String}
    {files : AssertionFiles} {cached : CachedAssertion}
    (h : Filed c files storeId remoteIssueId cached) (note : Note) :
    (Mutation.call (self.noteUnreachable c note.io storeId remoteIssueId note.detail
      note.attemptedAt) files).2 = files := by
  obtain ⟨observedAt, hfile⟩ := h
  have hload : self.loadEntry c files storeId remoteIssueId = .ok (some (.assertion
      assertionCacheVersion storeId remoteIssueId observedAt cached)) := by
    simp only [loadEntry, hfile]
  simp only [noteUnreachable, Mutation.call_bind, Mutation.call_get, Mutation.call_liftM, hload]
  rfl

theorem noted_of_filed {self : AssertionCache} {storeId remoteIssueId : String}
    {files : AssertionFiles} {cached : CachedAssertion}
    (h : Filed c files storeId remoteIssueId cached) (notes : List Note) :
    self.noted c storeId remoteIssueId notes files = files := by
  induction notes with
  | nil => rfl
  | cons note notes ih =>
      rw [noted, Machine.run_cons, noteUnreachable_of_filed h note]
      exact ih

/-! ### Reading back -/

variable {self : AssertionCache} {registry : RemoteRegistry} {storeId remoteIssueId : String}

/-- A file that is gone was never observed. -/
theorem read_of_gone {files : AssertionFiles} {now : Int}
    (h : files (entryName c storeId remoteIssueId) = .error .notFound) :
    self.read c files registry storeId remoteIssueId now =
      .unknown storeId remoteIssueId .neverObserved := by
  simp only [read, loadEntry, h]

theorem freshnessAt_now {window now : Int} (h : 0 ≤ window) : freshnessAt window now now =
    .fresh := by
  have hage : satI64 (now - now) = 0 := by
    rw [Int.sub_self]
    decide
  rw [freshnessAt, hage, if_neg (by omega)]

/-- What was recorded is read back at the same instant exactly when its file was not pruned and the
first record of the store selects a key that vouches. -/
theorem read_recorded (hself : self.Built) {io : AssertionIo} {record : RemoteRecord}
    {assertion : IssueAssertion} {now : Int} (hnow : IsI64 now) {files files' : AssertionFiles}
    {view : AssertionView}
    (h : Mutation.call (self.record c io record assertion now) files = (.ok view, files')) :
    self.read c files' registry view.storeId view.remoteIssueId now = view ↔
      registry.Selects c assertion now ∧
        io.prunes (entryName c assertion.storeId assertion.remoteIssueId) = false := by
  obtain ⟨cached, hpassed, rfl, rfl⟩ := record_ok h
  obtain ⟨pin, -, hholds⟩ := hpassed.pinned
  rw [← vouches_iff_selects hholds]
  cases hprunes : io.prunes (entryName c assertion.storeId assertion.remoteIssueId) with
  | true =>
      -- without its file the reference was never observed
      refine iff_of_false (fun hread => ?_) fun hcond => Bool.noConfusion hcond.2
      rw [read_of_gone (by rw [prune_apply, if_pos hprunes])] at hread
      cases congrArg AssertionView.freshness hread
  | false =>
      rw [read_of_filed (filed_of_kept hprunes), and_iff_left rfl]
      constructor
      · intro hread
        by_contra hvouched
        have hfails := @readCached_freshness c self registry assertion.storeId
          assertion.remoteIssueId now cached fun hboth => hvouched (hpassed.toAssertion ▸ hboth.1)
        rw [hread] at hfails
        cases hfails
      · intro hvouched
        rw [readCached_of_vouches (hpassed.toAssertion.symm ▸ hvouched) (hpassed.timely hnow),
          hpassed.observedAt, freshnessAt_now hself.window]

/-- What was recorded is read back at the same instant, and still after any failed observations,
exactly when its file was not pruned and the first record of the store selects a key that vouches.
The record it was handed in with need not be the first one of its store. -/
theorem record_read_back {registry : RemoteRegistry} {record : RemoteRecord} {self : AssertionCache}
    (hself : self.Built) {io : AssertionIo} {assertion : IssueAssertion} {now : Int}
    (hnow : IsI64 now) {files files' : AssertionFiles} {view : AssertionView}
    (h : Mutation.call (self.record c io record assertion now) files = (.ok view, files')) :
    view.freshness = .fresh ∧
    ((∀ notes, self.read c (self.noted c view.storeId view.remoteIssueId notes files') registry
        view.storeId view.remoteIssueId now = view) ↔
      registry.Selects c assertion now ∧
        io.prunes (entryName c assertion.storeId assertion.remoteIssueId) = false) := by
  have hread := @read_recorded c self registry hself io record assertion now hnow files files' view
      h
  obtain ⟨cached, -, rfl, rfl⟩ := record_ok h
  refine ⟨rfl, ?_⟩
  constructor
  · intro hall
    exact hread.mp (hall [])
  · intro hcond notes
    rw [noted_of_filed (filed_of_kept hcond.2)]
    exact hread.mpr hcond

/-! ### A store under two names -/

/-- The record of the toy store under a name, pinned from the descriptor of one of its keys. -/
def namedRecord (name : String) (secret : UInt8) : RemoteRecord :=
  .first name "https://s" (plainDescriptor secret "s" "s/key-1" "S") 1000

def addNamed (name : String) (secret : UInt8) : RegistryCall :=
  .pin (.add name "https://s" (.ok (plainDescriptor secret "s" "s/key-1" "S")) 1000)

/-- Adding the store under a name that is free. -/
theorem addNamed_call {registry : RemoteRegistry} {name : String} {secret : UInt8}
    (hname : validateRemoteName name = .ok name) (hfree : registry.get name = none) :
    ((addNamed name secret).call Crypto.plain registry).2 =
      { registry with remotes := registry.remotes ++ [namedRecord name secret] } := by
  have hself := @plainDescriptor_verifies secret "s" "s/key-1" "S" (by decide) (by decide) 1000
  have hadd := @RemoteRegistry.add_call Crypto.plain registry name name "https://s" "https://s" _ _
    1000 hname (by decide) hfree hself
  simp only [addNamed, RegistryCall.call, PinCall.call, hadd, namedRecord]

theorem registered_once (secret : UInt8) : registered Crypto.plain [addNamed "a" secret] =
    ⟨remoteRegistryVersion, [namedRecord "a" secret]⟩ := by
  rw [registered, Machine.run_cons, Machine.run_nil, addNamed_call (by decide) rfl]
  rfl

theorem registered_twice : registered Crypto.plain [addNamed "a" 7, addNamed "b" 9] =
    ⟨remoteRegistryVersion, [namedRecord "a" 7, namedRecord "b" 9]⟩ := by
  have hfirst := registered_once 7
  rw [registered, Machine.run_cons, Machine.run_nil] at hfirst
  rw [registered, Machine.run_cons, Machine.run_cons, Machine.run_nil, hfirst,
    addNamed_call (by decide) (by decide)]
  rfl

/-- What the toy store asserts, as it is recorded at 1000 under one of its names. -/
def namedCached (secret : UInt8) : CachedAssertion :=
  ⟨issueAssertionSchema, "s", "i", "open", 900,
    (plainAssertion secret "open" 900).signature.getD "", "s/key-1", 1000⟩

/-- Under whichever name, the store records what it signs with the key of that name. -/
theorem namedRecord_records (self : AssertionCache) (name : String) (secret : UInt8)
    (files : AssertionFiles) :
    ∃ files', Mutation.call (self.record Crypto.plain quietIo (namedRecord name secret)
      (plainAssertion secret "open" 900) 1000) files =
        (.ok ⟨"s", "i", .fresh, some (namedCached secret), none, none⟩, files') := by
  let call : RecordCall "s" "i" :=
    ⟨quietIo, namedRecord name secret, plainAssertion secret "open" 900, 1000, rfl, rfl⟩
  have hissue : ¬ trim (plainAssertion secret "open" 900).remoteIssueId = "" := by
    show ¬ trim "i" = ""
    decide
  have hskew : checkClockSkew (plainAssertion secret "open" 900) 1000 = .ok () :=
    checkClockSkew_eq_ok.mpr (by show (900 : Int) ≤ satI64 (1000 + maxClockSkewSeconds); decide)
  have hpin : (namedRecord name secret).pinOf (plainAssertion secret "open" 900).keyId =
      some (plainRecord secret).activePin := rfl
  have hverifies := @plainAssertion_verifies secret "open" 900 (by decide) 1000
  have hverified : verified Crypto.plain (namedRecord name secret)
      (plainAssertion secret "open" 900) 1000 = .ok (namedCached secret) := by
    rw [verified, if_neg hissue, hpin, Except.okOr_some]
    simp only [bind, Except.bind, hverifies, hskew]
    rfl
  have haccepted : call.accepted Crypto.plain = some (namedCached secret) := by
    simp only [RecordCall.accepted, call, quietIo, hverified]
  exact ⟨_, call.perform_of_accepted haccepted files⟩

/-- One key of the toy store does not verify what another signed. -/
theorem selects_named {registry : RemoteRegistry} {name : String} {key secret : UInt8}
    (hfirst : (registry.remotes.find? fun record => record.storeId = "s") =
      some (namedRecord name key)) (now : Int) :
    registry.Selects Crypto.plain (plainAssertion secret "open" 900) now ↔ secret = key := by
  constructor
  · intro hselects
    obtain ⟨first, pin, hfind, hpin, -, text, bytes, raw, htext, hbytes, hpublic, handle, hhandle,
      hvalid⟩ := hselects
    cases hfirst.symm.trans hfind
    have hpin' : (namedRecord name key).pinOf (plainAssertion secret "open" 900).keyId =
        some (namedRecord name key).activePin := rfl
    cases hpin'.symm.trans hpin
    cases htext
    have hkey : raw = List.replicate 32 key := by
      rw [← Except.ok.inj hpublic]
      exact Crypto.plainBytes_plainText _
    subst hkey
    cases hhandle
    have hsigned := of_decide_eq_true (Except.ok.inj hvalid)
    rw [← Except.ok.inj hbytes, Crypto.plainBytes_plainText] at hsigned
    exact (List.cons.inj hsigned).1
  · intro hsame
    subst hsame
    exact ⟨_, _, hfirst, rfl, rfl,
      @Crypto.Correct.signed _ Crypto.plain_correct (Crypto.plainSecret secret) _ _ rfl⟩

/-- The store is added under two names, with a key of its own under each. What it signs with the
second key is recorded under the second name, and read back as unverifiable. -/
theorem second_name_unread : ∃ record view files files',
    record ∈ (registered Crypto.plain [addNamed "a" 7, addNamed "b" 9]).remotes ∧
    Mutation.call ((AssertionCache.new "cache").record Crypto.plain quietIo record
      (plainAssertion 9 "open" 900) 1000) files = (.ok view, files') ∧
    (AssertionCache.new "cache").read Crypto.plain files'
      (registered Crypto.plain [addNamed "a" 7, addNamed "b" 9]) view.storeId view.remoteIssueId
      1000 ≠ view := by
  obtain ⟨files', hrecord⟩ := namedRecord_records (.new "cache") "b" 9 fun _ => .error .notFound
  refine ⟨namedRecord "b" 9, _, _, files', ?_, hrecord, fun hread => ?_⟩
  · rw [registered_twice]
    exact List.mem_cons_of_mem _ List.mem_cons_self
  · have hselects := ((read_recorded ⟨"cache", Or.inl rfl⟩ (by decide) hrecord).mp hread).1
    rw [registered_twice] at hselects
    have hsame : (9 : UInt8) = 7 := (selects_named rfl 1000).mp hselects
    exact absurd hsame (by decide)

/-- Added under one name, the store reads back what it recorded. -/
theorem record_read_back_one_name : ∃ view files', ∀ notes,
    (AssertionCache.new "cache").read Crypto.plain
      ((AssertionCache.new "cache").noted Crypto.plain view.storeId view.remoteIssueId notes files')
      (registered Crypto.plain [addNamed "a" 7]) view.storeId view.remoteIssueId 1000 = view := by
  obtain ⟨files', hrecord⟩ := namedRecord_records (.new "cache") "a" 7 fun _ => .error .notFound
  refine ⟨_, files', (record_read_back ⟨"cache", Or.inl rfl⟩ (by decide) hrecord).2.mpr ?_⟩
  refine ⟨?_, rfl⟩
  rw [registered_once]
  exact (selects_named rfl 1000).mpr rfl

end AssertionCache

end Marbles
