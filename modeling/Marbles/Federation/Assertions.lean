import Marbles.Lib.Sort
import Marbles.Refs
import Marbles.Federation.Remotes

/-!
# Issue assertions and their cache

A store signs what state an issue is in. A reader keeps the assertions it has verified, one
file for each issue of a store, and verifies an entry again on every read, under the keys it
pins at that time. A read gives a named freshness; only a fresh or a stale one comes with an
assertion.

Reading a file gives an entry, or why it is none; how entries are written as JSON is left
out.

Verification takes a pin and an assertion and nothing else, so the same function serves the cache
and the stored edges. `Vouches` says that some pinned key is current and verifies. A read has many
ways to refuse, in the order of the source, and two to serve; the results are about the two.
-/

namespace Marbles

open Json (Value)
open Signing

/-- The schema is part of what is signed, so an assertion cannot be taken for a record of another
kind. -/
def issueAssertionSchema : String := "marbles.issue-assertion/1"

/-- A cache file of another version is not read. -/
def assertionCacheVersion : Nat := 1

/-- How long an observation counts as fresh. -/
def defaultFreshnessWindowSeconds : Int := 5 * 60

/-- How far an instant may be ahead of the one it is compared with. -/
def maxClockSkewSeconds : Int := 5 * 60

/-- Why an assertion is not accepted, with what the text of the error names. The first check that
fails is the one that is reported. -/
inductive AssertionError where
  | unsupportedSchema (schema : String)
  | wrongStore (actual expected : String)
  | wrongKeyId (actual expected : String)
  | keyRetired (keyId : String) (validUntil : Int)
  | unsigned
  | malformedSignature (reason : String)
  | badSignature
  | emptyRemoteIssueId
  | unknownState (state : String)
  | futureAssertion (assertedAt observedAt tolerance : Int)
  | crypto (reason : String)
  deriving DecidableEq, Repr

/-- The texts end up in views and audits, so they are part of what the reads return. -/
def AssertionError.display : AssertionError → String
  | .unsupportedSchema schema => s!"unsupported assertion schema {debugStr schema}"
  | .wrongStore actual expected =>
      s!"assertion belongs to store {debugStr actual}, but the verifier pins {debugStr expected}"
  | .wrongKeyId actual expected =>
      s!"assertion key {debugStr actual} does not match pinned key {debugStr expected}"
  | .keyRetired keyId validUntil => s!"pinned key {debugStr keyId} is retired at {validUntil}"
  | .unsigned => "assertion is unsigned"
  | .malformedSignature reason => s!"assertion signature is malformed: {reason}"
  | .badSignature => "assertion signature is invalid"
  | .emptyRemoteIssueId => "assertion names an empty remote issue id"
  | .unknownState state =>
      s!"assertion carries unknown issue state {debugStr state}; refusing to guess its meaning"
  | .futureAssertion assertedAt observedAt tolerance =>
      s!"assertion asserted_at {assertedAt} is more than {tolerance}s after " ++
        s!"observation {observedAt}"
  | .crypto reason => s!"crypto failure: {reason}"

/-- The error an assertion gets for a signature fault. -/
def AssertionError.ofFault : Crypto.SignatureFault → AssertionError
  | .unsigned => .unsigned
  | .malformed reason => .malformedSignature reason
  | .crypto reason => .crypto reason
  | .bad => .badSignature

/-- Why the cache could not be read or written. -/
inductive AssertionCacheError where
  | read (path reason : String)
  | write (path reason : String)
  | assertion (error : AssertionError)
  | json (reason : String)
  deriving DecidableEq, Repr

/-- The text of the cause, with the path when a file is to blame. -/
def AssertionCacheError.display : AssertionCacheError → String
  | .read path reason => s!"reading assertion cache {path}: {reason}"
  | .write path reason => s!"writing assertion cache {path}: {reason}"
  | .assertion error => error.display
  | .json reason => s!"assertion cache json: {reason}"

/-- How far a read can be relied on. The last two carry no state. -/
inductive AssertionFreshness where
  | fresh
  | stale
  | unknown
  | unverifiable
  deriving DecidableEq, Repr

/-- The names in views and on the command line. -/
def AssertionFreshness.asStr : AssertionFreshness → String
  | .fresh => "fresh"
  | .stale => "stale"
  | .unknown => "unknown"
  | .unverifiable => "unverifiable"

/-- Why there is nothing to read: nobody has asked yet, or the remote did not answer. -/
inductive MissingReason where
  | neverObserved
  | remoteUnreachable
  deriving DecidableEq, Repr

/-! ### Assertions -/

/-- The signed claim of a store about one of its issues. It says what was so at `asserted_at` and
nothing about later times. -/
structure IssueAssertion where
  schema : String
  storeId : String
  remoteIssueId : String
  state : String
  assertedAt : Int
  keyId : String
  signature : Option String
  deriving DecidableEq, Repr

namespace IssueAssertion

/-- Unsigned and without a key; the signer sets both. -/
def new (storeId remoteIssueId state : String) (assertedAt : Int) : IssueAssertion :=
  ⟨issueAssertionSchema, storeId, remoteIssueId, state, assertedAt, "", none⟩

/-- The text the signature covers: every field but the signature, in the order of their
declaration. -/
def signingBytes (a : IssueAssertion) : String :=
  Value.text (.obj [("schema", .str a.schema), ("store_id", .str a.storeId),
    ("remote_issue_id", .str a.remoteIssueId), ("state", .str a.state),
    ("asserted_at", .num a.assertedAt), ("key_id", .str a.keyId)])

end IssueAssertion

/-- Sign an assertion; `keyId` and `sign` are the signer. The signature covers the key id, so it is
set before the bytes are made. -/
def signIssueAssertion (c : Crypto) (assertion : IssueAssertion) (keyId : String)
    (sign : String → Except String Bytes) : Except AssertionError IssueAssertion := do
  if assertion.schema ≠ issueAssertionSchema then .error (.unsupportedSchema assertion.schema)
  else if trim assertion.remoteIssueId = "" then .error .emptyRemoteIssueId
  else
    let assertion := { assertion with keyId := keyId, signature := none }
    let signature ← (sign assertion.signingBytes).mapError .crypto
    .ok { assertion with signature := some (c.urlSafe.encode signature) }

def isKnownState (state : String) : Bool := allStatuses.contains state

/-- Verify an assertion offline against one pinned key. Nothing but the pin and the clock is
consulted, so the verdict can be repeated offline. -/
def verifyIssueAssertion (c : Crypto) (assertion : IssueAssertion) (pin : PinnedKey) (now : Int) :
    Except AssertionError Unit :=
  if assertion.schema ≠ issueAssertionSchema then .error (.unsupportedSchema assertion.schema)
  else if pin.storeId = "" ∨ assertion.storeId ≠ pin.storeId then
    .error (.wrongStore assertion.storeId pin.storeId)
  else if assertion.keyId ≠ pin.keyId then .error (.wrongKeyId assertion.keyId pin.keyId)
  else match pin.retired now with
    | some validUntil => .error (.keyRetired pin.keyId validUntil)
    | none =>
        if isKnownState assertion.state = false then .error (.unknownState assertion.state)
        else (c.verifySignature assertion.signature pin.publicKey
          assertion.signingBytes).mapError .ofFault

/-- An assertion is not from the future of its observation. -/
def checkClockSkew (assertion : IssueAssertion) (observedAt : Int) : Except AssertionError Unit :=
  if assertion.assertedAt > satI64 (observedAt + maxClockSkewSeconds) then
    .error (.futureAssertion assertion.assertedAt observedAt maxClockSkewSeconds)
  else .ok ()

/-- Fresh, or stale when the observation is older than the window. -/
def freshnessAt (window now observedAt : Int) : AssertionFreshness :=
  if satI64 (now - observedAt) > window then .stale else .fresh

/-- A verified assertion, and the instant it was observed. The signature is kept with it, so that it
can be verified again when the pins have changed. -/
structure CachedAssertion where
  schema : String
  storeId : String
  remoteIssueId : String
  state : String
  assertedAt : Int
  signature : String
  keyId : String
  observedAt : Int
  deriving DecidableEq, Repr

namespace CachedAssertion

/-- The cached form carries its signature, since every read checks it again; an assertion without
one is not cached. -/
def fromVerified (assertion : IssueAssertion) (observedAt : Int) :
    Except AssertionError CachedAssertion := do
  let signature ← Except.okOr .unsigned assertion.signature
  .ok ⟨assertion.schema, assertion.storeId, assertion.remoteIssueId, assertion.state,
    assertion.assertedAt, signature, assertion.keyId, observedAt⟩

/-- The signed form, to check the signature again. -/
def toAssertion (a : CachedAssertion) : IssueAssertion :=
  ⟨a.schema, a.storeId, a.remoteIssueId, a.state, a.assertedAt, a.keyId, some a.signature⟩

end CachedAssertion

/-! ### Views -/

/-- What a read tells. A state comes with a freshness, so no caller can read one without the other.
-/
structure AssertionView where
  storeId : String
  remoteIssueId : String
  freshness : AssertionFreshness
  assertion : Option CachedAssertion
  missing : Option MissingReason
  problem : Option String
  deriving DecidableEq, Repr

namespace AssertionView

/-- Nothing is known of the issue. -/
def unknown (storeId remoteIssueId : String) (reason : MissingReason) : AssertionView :=
  ⟨storeId, remoteIssueId, .unknown, none, some reason, none⟩

/-- There is something in the cache that does not verify any more, and this is why. -/
def unverifiable (storeId remoteIssueId problem : String) : AssertionView :=
  ⟨storeId, remoteIssueId, .unverifiable, none, none, some problem⟩

/-- The asserted state, when a verified assertion backs it. -/
def assertedState (view : AssertionView) : Option String :=
  match view.freshness with
  | .fresh | .stale => view.assertion.map CachedAssertion.state
  | .unknown | .unverifiable => none

end AssertionView

/-! ### The cache -/

/-- A file of the cache: an assertion, or a remote that could not be reached. -/
inductive AssertionEntry where
  | assertion (version : Nat) (storeId remoteIssueId : String) (observedAt : Int)
      (assertion : CachedAssertion)
  | unreachable (version : Nat) (storeId remoteIssueId : String) (attemptedAt : Int)
      (detail : String)
  deriving DecidableEq, Repr

/-- `header`: the version and the reference an entry is filed under. -/
def AssertionEntry.header : AssertionEntry → Nat × String × String
  | .assertion version storeId remoteIssueId _ _ => (version, storeId, remoteIssueId)
  | .unreachable version storeId remoteIssueId _ _ => (version, storeId, remoteIssueId)

/-- The cache directory: what reading the file of a name gives. -/
abbrev AssertionFiles := String → Except FileError (Except String AssertionEntry)

/-- What the file system does while an entry is written. The writer and the pruner can fail
independently, as in the source. -/
structure AssertionIo where
  createDir : Except String Unit
  /-- Writing the temporary file beside the target. -/
  write : Except AssertionCacheError Unit
  rename : Except String Unit
  /-- The names and modification times in the order the directory lists them. -/
  listing : Option (List (String × Int))
  removes : String → Bool

/-- Only the directory and the window: what is in the directory is the state that the operations are
given. -/
structure AssertionCache where
  root : String
  freshnessWindowSeconds : Int
  deriving DecidableEq, Repr

namespace AssertionCache

/-- Newest entries kept. -/
def maxEntries : Nat := 4096

/-- The window unless another is asked for. -/
def new (root : String) : AssertionCache := ⟨root, defaultFreshnessWindowSeconds⟩

/-- A negative window counts as none. -/
def withFreshnessWindow (self : AssertionCache) (seconds : Int) : AssertionCache :=
  { self with freshnessWindowSeconds := max seconds 0 }

/-- `entry_path`, the name without the directory. -/
def entryName (c : Crypto) (storeId remoteIssueId : String) : String :=
  c.hexDigest (storeId ++ "\x00" ++ remoteIssueId) ++ ".json"

/-- No file is no entry. A file that is there and cannot be read or parsed is an error, not a
missing entry. -/
def loadEntry (c : Crypto) (files : AssertionFiles) (self : AssertionCache)
    (storeId remoteIssueId : String) : Except AssertionCacheError (Option AssertionEntry) :=
  let name := entryName c storeId remoteIssueId
  match files name with
  | .error .notFound => .ok none
  | .error (.other reason) => .error (.read s!"{self.root}/{name}" reason)
  | .ok (.error reason) => .error (.json reason)
  | .ok (.ok entry) => .ok (some entry)

/-- The second half of a read: a cached assertion against the keys pinned now. The signature is
checked again at every read, since a pin may have been rotated or removed. -/
def readCached (c : Crypto) (self : AssertionCache) (registry : RemoteRegistry)
    (storeId remoteIssueId : String) (now : Int) (cached : CachedAssertion) : AssertionView :=
  let unverifiable := AssertionView.unverifiable storeId remoteIssueId
  match registry.remotes.find? fun record => record.storeId = storeId with
  | none => unverifiable
      s!"store {debugStr storeId} is not pinned; the cached assertion cannot be verified"
  | some record =>
      match record.pinOf cached.keyId with
      | none => unverifiable
          s!"assertion key {debugStr cached.keyId} is not pinned for store {debugStr storeId}"
      | some pin =>
          match verifyIssueAssertion c cached.toAssertion pin now with
          | .error error => unverifiable s!"cached assertion does not verify: {error.display}"
          | .ok _ =>
              match checkClockSkew cached.toAssertion cached.observedAt with
              | .error error => unverifiable error.display
              | .ok _ =>
                  if cached.observedAt > satI64 (now + maxClockSkewSeconds) then unverifiable
                    s!"observation time {cached.observedAt} is in the future relative to {now}"
                  else ⟨storeId, remoteIssueId,
                    freshnessAt self.freshnessWindowSeconds now cached.observedAt, some cached,
                    none, none⟩

/-- Read one reference against the keys pinned now. An entry that cannot be read is unverifiable,
and only a missing one is unknown. -/
def read (c : Crypto) (files : AssertionFiles) (self : AssertionCache) (registry : RemoteRegistry)
    (storeId remoteIssueId : String) (now : Int) : AssertionView :=
  match self.loadEntry c files storeId remoteIssueId with
  | .error error => .unverifiable storeId remoteIssueId error.display
  | .ok none => .unknown storeId remoteIssueId .neverObserved
  | .ok (some entry) =>
      if entry.header.1 ≠ assertionCacheVersion then
        .unverifiable storeId remoteIssueId
          s!"cached entry version {entry.header.1} is not supported"
      else if entry.header.2 ≠ (storeId, remoteIssueId) then
        .unverifiable storeId remoteIssueId
          "cached entry is filed under a different (store_id, remote_issue_id) reference"
      else match entry with
        | .unreachable _ _ _ attemptedAt detail =>
            { AssertionView.unknown storeId remoteIssueId .remoteUnreachable with
              problem := some
                s!"remote unreachable at {attemptedAt}: {detail}; no assertion has been observed" }
        | .assertion _ _ _ _ cached => self.readCached c registry storeId remoteIssueId now cached

/-- Drop the oldest files past the bound; a file that cannot be removed stays. -/
def prune (io : AssertionIo) (files : AssertionFiles) : AssertionFiles :=
  match io.listing with
  | none => files
  | some listed =>
      let doomed := ((Sorting.sortOn (fun f => -f.2) listed).drop maxEntries).map Prod.fst
      fun name => if name ∈ doomed ∧ io.removes name = true then .error .notFound else files name

/-- `write_entry`: written beside the target, then renamed. Pruning comes after the rename, so it
sees the entry that was just written. -/
def writeEntry (c : Crypto) (io : AssertionIo) (self : AssertionCache) (entry : AssertionEntry) :
    Mutation AssertionFiles AssertionCacheError Unit := do
  liftM (io.createDir.mapError (AssertionCacheError.write self.root))
  let name := entryName c entry.header.2.1 entry.header.2.2
  liftM io.write
  liftM (io.rename.mapError (AssertionCacheError.write s!"{self.root}/{name}"))
  let files ← get
  set (prune io (Function.update files name (.ok (.ok entry))))

/-- The checks of `record`: what is written when they pass. No check looks at what is cached, so an
older assertion passes after a newer one. -/
def verified (c : Crypto) (pin : RemoteRecord) (assertion : IssueAssertion) (observedAt : Int) :
    Except AssertionError CachedAssertion := do
  if trim assertion.remoteIssueId = "" then .error .emptyRemoteIssueId
  else
    let key ← Except.okOr (.wrongKeyId assertion.keyId pin.keyId) (pin.pinOf assertion.keyId)
    verifyIssueAssertion c assertion key observedAt
    checkClockSkew assertion observedAt
    CachedAssertion.fromVerified assertion observedAt

/-- Verify an assertion and store it. -/
def record (c : Crypto) (io : AssertionIo) (self : AssertionCache) (pin : RemoteRecord)
    (assertion : IssueAssertion) (observedAt : Int) :
    Mutation AssertionFiles AssertionCacheError AssertionView := do
  let cached ← liftM ((verified c pin assertion observedAt).mapError AssertionCacheError.assertion)
  self.writeEntry c io
    (.assertion assertionCacheVersion cached.storeId cached.remoteIssueId observedAt cached)
  return ⟨cached.storeId, cached.remoteIssueId, .fresh, some cached, none, none⟩

/-- Record that a remote could not be reached, unless there is an assertion to keep. An unreachable
remote takes nothing back that it has signed. -/
def noteUnreachable (c : Crypto) (io : AssertionIo) (self : AssertionCache)
    (storeId remoteIssueId detail : String) (attemptedAt : Int) :
    Mutation AssertionFiles AssertionCacheError Unit := do
  let files ← get
  match ← liftM (self.loadEntry c files storeId remoteIssueId) with
  | some (.assertion ..) => return ()
  | _ =>
      self.writeEntry c io
        (.unreachable assertionCacheVersion storeId remoteIssueId attemptedAt detail)

end AssertionCache

/-! ### What an assertion has to meet -/

variable {c : Crypto}

/-- A pin vouches for the assertion. The conjunction of the checks, so that acceptance can be stated
without an order of them. -/
structure IssueAssertion.Holds (c : Crypto) (assertion : IssueAssertion) (pin : PinnedKey)
    (now : Int) : Prop where
  schema : assertion.schema = issueAssertionSchema
  pinned : pin.storeId ≠ ""
  storeId : assertion.storeId = pin.storeId
  keyId : assertion.keyId = pin.keyId
  notRetired : pin.retired now = none
  known : isKnownState assertion.state = true
  signed : c.Signed assertion.signature pin.publicKey assertion.signingBytes

theorem verifyIssueAssertion_eq_ok {assertion : IssueAssertion} {pin : PinnedKey} {now : Int} :
    verifyIssueAssertion c assertion pin now = .ok () ↔ assertion.Holds c pin now := by
  unfold verifyIssueAssertion
  simp only [Except.ite_error_eq_ok, not_or, not_not]
  constructor
  · -- the three comparisons come first, then the end of the overlap, then the signature
    intro h
    obtain ⟨hschema, ⟨hpinned, hstore⟩, hkey, h⟩ := h
    cases hretired : pin.retired now with
    | some validUntil =>
        rw [hretired] at h
        cases h
    | none =>
        rw [hretired] at h
        simp only [Except.ite_error_eq_ok, Except.mapError_eq_ok, Bool.not_eq_false,
          Crypto.verifySignature_eq_ok] at h
        exact ⟨hschema, hpinned, hstore, hkey, hretired, h.1, h.2⟩
  · intro h
    refine ⟨h.schema, ⟨h.pinned, h.storeId⟩, h.keyId, ?_⟩
    rw [h.notRetired]
    simp only [Except.ite_error_eq_ok, Except.mapError_eq_ok, Bool.not_eq_false,
      Crypto.verifySignature_eq_ok]
    exact ⟨h.known, h.signed⟩

/-- What a store signs holds under the pin of its key, until the key retires. -/
theorem signIssueAssertion_holds (hc : c.Correct) {secret : c.ed25519.Secret} {keyId : String}
    {assertion signed : IssueAssertion} {pin : PinnedKey} {now : Int}
    (h : signIssueAssertion c assertion keyId (c.ed25519.sign secret) = .ok signed)
    (hstore : pin.storeId = assertion.storeId) (hne : pin.storeId ≠ "") (hkey : pin.keyId = keyId)
    (hpublic : pin.publicKey = c.urlSafe.encode (c.ed25519.publicBytes secret))
    (hretired : pin.retired now = none) (hknown : isKnownState assertion.state = true) :
    signed.Holds c pin now := by
  simp only [signIssueAssertion, Except.ite_error_eq_ok, not_not, Except.bind_eq_ok,
    Except.mapError_eq_ok] at h
  obtain ⟨hschema, -, signature, hsign, hsigned⟩ := h
  cases hsigned
  refine ⟨hschema, hne, hstore.symm, hkey.symm, hretired, hknown, ?_⟩
  rw [hpublic]
  exact hc.signed hsign

/-- A pin that has not retired ends later, if it ends. -/
theorem PinnedKey.lt_of_retired_eq_none {pin : PinnedKey} {now validUntil : Int}
    (h : pin.retired now = none) (hvalid : pin.validUntil = some validUntil) :
    now < validUntil := by
  by_contra hle
  rw [retired, hvalid] at h
  simp at h
  omega

@[simp] theorem checkClockSkew_eq_ok {assertion : IssueAssertion} {observedAt : Int} :
    checkClockSkew assertion observedAt = .ok () ↔
      assertion.assertedAt ≤ satI64 (observedAt + maxClockSkewSeconds) := by
  rw [checkClockSkew, Except.ite_error_eq_ok]
  simp

/-- The keys the registry pins for a store vouch for the assertion. -/
def RemoteRegistry.Vouches (c : Crypto) (registry : RemoteRegistry) (storeId : String)
    (assertion : IssueAssertion) (now : Int) : Prop :=
  ∃ record pin, (registry.remotes.find? fun record => record.storeId = storeId) = some record ∧
    record.pinOf assertion.keyId = some pin ∧ verifyIssueAssertion c assertion pin now = .ok ()

/-- Neither the assertion nor its observation is from the future. -/
def InTime (assertedAt observedAt now : Int) : Prop :=
  assertedAt ≤ satI64 (observedAt + maxClockSkewSeconds) ∧
    observedAt ≤ satI64 (now + maxClockSkewSeconds)

instance (assertedAt observedAt now : Int) : Decidable (InTime assertedAt observedAt now) :=
  inferInstanceAs (Decidable (_ ∧ _))

namespace AssertionCache

variable {self : AssertionCache} {registry : RemoteRegistry} {storeId remoteIssueId : String}
  {now : Int} {cached : CachedAssertion}

/-- An entry that is vouched for and in time is served with its age. -/
theorem readCached_of_vouches (hvouched : registry.Vouches c storeId cached.toAssertion now)
    (htime : InTime cached.assertedAt cached.observedAt now) :
    self.readCached c registry storeId remoteIssueId now cached =
      ⟨storeId, remoteIssueId, freshnessAt self.freshnessWindowSeconds now cached.observedAt,
        some cached, none, none⟩ := by
  obtain ⟨record, pin, hrecord, hpin, hverify⟩ := hvouched
  have hskew := checkClockSkew_eq_ok.mpr (show cached.toAssertion.assertedAt ≤ _ from htime.1)
  have hpin : record.pinOf cached.keyId = some pin := hpin
  simp only [readCached, hrecord, hpin, hverify, hskew]
  rw [if_neg (by have := htime.2; omega)]

/-- Any other entry is unverifiable. -/
theorem readCached_freshness (h : ¬ (registry.Vouches c storeId cached.toAssertion now ∧
    InTime cached.assertedAt cached.observedAt now)) :
    (self.readCached c registry storeId remoteIssueId now cached).freshness = .unverifiable := by
  unfold readCached
  cases hrecord : registry.remotes.find? fun record => record.storeId = storeId with
  | none => rfl
  | some record =>
      simp only
      cases hpin : record.pinOf cached.keyId with
      | none => rfl
      | some pin =>
          simp only
          cases hverify : verifyIssueAssertion c cached.toAssertion pin now with
          | error error => rfl
          | ok _ =>
              simp only
              cases hskew : checkClockSkew cached.toAssertion cached.observedAt with
              | error error => rfl
              | ok _ =>
                  by_cases hfuture : cached.observedAt > satI64 (now + maxClockSkewSeconds)
                  · simp only
                    rw [if_pos hfuture]
                    rfl
                  · exact absurd ⟨⟨record, pin, hrecord, hpin, hverify⟩,
                      checkClockSkew_eq_ok.mp hskew, Int.not_lt.mp hfuture⟩ h

/-- An entry that is filed under the reference and has the version of the cache. -/
def Filed (c : Crypto) (files : AssertionFiles) (storeId remoteIssueId : String)
    (cached : CachedAssertion) : Prop :=
  ∃ observedAt, files (entryName c storeId remoteIssueId) =
    .ok (.ok (.assertion assertionCacheVersion storeId remoteIssueId observedAt cached))

theorem file_of_loadEntry {files : AssertionFiles} {entry : AssertionEntry}
    (h : self.loadEntry c files storeId remoteIssueId = .ok (some entry)) :
    files (entryName c storeId remoteIssueId) = .ok (.ok entry) := by
  simp only [loadEntry] at h
  split at h
  · cases h
  · cases h
  · cases h
  · rename_i hfile
    cases h
    exact hfile

theorem read_of_filed {files : AssertionFiles} (h : Filed c files storeId remoteIssueId cached) :
    self.read c files registry storeId remoteIssueId now =
      self.readCached c registry storeId remoteIssueId now cached := by
  obtain ⟨observedAt, hfile⟩ := h
  simp only [read, loadEntry, hfile, AssertionEntry.header, ne_eq, not_true, if_false]

/-- Only a filed entry that is vouched for and in time is ever fresh or stale. -/
theorem read_cases (files : AssertionFiles) (self : AssertionCache) (registry : RemoteRegistry)
    (storeId remoteIssueId : String) (now : Int) :
    (∃ cached, Filed c files storeId remoteIssueId cached ∧
      registry.Vouches c storeId cached.toAssertion now ∧
      InTime cached.assertedAt cached.observedAt now ∧
      self.read c files registry storeId remoteIssueId now =
        ⟨storeId, remoteIssueId, freshnessAt self.freshnessWindowSeconds now cached.observedAt,
          some cached, none, none⟩) ∨
    (self.read c files registry storeId remoteIssueId now).freshness = .unknown ∨
    (self.read c files registry storeId remoteIssueId now).freshness = .unverifiable := by
  unfold read
  cases hload : self.loadEntry c files storeId remoteIssueId with
  | error error => exact Or.inr (Or.inr rfl)
  | ok found =>
      cases found with
      | none => exact Or.inr (Or.inl rfl)
      | some entry =>
          simp only
          split
          · exact Or.inr (Or.inr rfl)
          · rename_i hversion
            split
            · exact Or.inr (Or.inr rfl)
            · rename_i hheader
              cases entry with
              | unreachable => exact Or.inr (Or.inl rfl)
              | assertion version entryStore entryIssue observedAt cached =>
                  simp only
                  -- only a filed entry gets here
                  by_cases h : registry.Vouches c storeId cached.toAssertion now ∧
                      InTime cached.assertedAt cached.observedAt now
                  · refine Or.inl ⟨cached, ⟨observedAt, ?_⟩, h.1, h.2,
                      readCached_of_vouches h.1 h.2⟩
                    simp only [AssertionEntry.header, ne_eq, not_not, Prod.mk.injEq]
                      at hversion hheader
                    obtain ⟨rfl, rfl⟩ := hheader
                    rw [file_of_loadEntry hload, hversion]
                  · exact Or.inr (Or.inr (readCached_freshness h))

end AssertionCache

/-! ### A toy remote

The store `s` with the toy key of a byte, and what it asserts about its issue `i`. -/

def plainRecord (secret : UInt8) : RemoteRecord where
  name := "remote"
  endpoint := "https://remote"
  storeId := "s"
  displayName := "Remote"
  keyId := "s/key-1"
  publicKey := Crypto.plainText (List.replicate 32 secret)
  validUntil := none
  capabilities := []
  addedAt := 0
  updatedAt := 0
  overlapKeys := []

def plainAssertion (secret : UInt8) (state : String) (assertedAt : Int) : IssueAssertion :=
  let unsigned : IssueAssertion :=
    { IssueAssertion.new "s" "i" state assertedAt with keyId := "s/key-1" }
  { unsigned with
    signature := some (Crypto.plainText (secret :: Crypto.plainBytes unsigned.signingBytes)) }

theorem plainAssertion_verifies (secret : UInt8) {state : String} (assertedAt : Int)
    (hknown : isKnownState state = true) (now : Int) :
    verifyIssueAssertion Crypto.plain (plainAssertion secret state assertedAt)
      (plainRecord secret).activePin now = .ok () := by
  have hschema : ¬ (IssueAssertion.new "s" "i" state assertedAt).schema ≠
      issueAssertionSchema := not_not.mpr rfl
  have hissue : ¬ trim (IssueAssertion.new "s" "i" state assertedAt).remoteIssueId = "" := by
    show ¬ trim "i" = ""
    decide
  have hsign : signIssueAssertion Crypto.plain (.new "s" "i" state assertedAt) "s/key-1"
      (Crypto.plain.ed25519.sign (Crypto.plainSecret secret)) =
      .ok (plainAssertion secret state assertedAt) := by
    rw [signIssueAssertion, if_neg hschema, if_neg hissue]
    rfl
  have hstore : (plainRecord secret).activePin.storeId ≠ "" := by
    show "s" ≠ ""
    decide
  exact verifyIssueAssertion_eq_ok.mpr (signIssueAssertion_holds Crypto.plain_correct hsign rfl
    hstore rfl rfl rfl hknown)

end Marbles
