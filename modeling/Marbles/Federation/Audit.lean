import Marbles.Federation.Assertions

/-!
# Offline verdicts on a stored edge

A remote edge keeps the last assertion it was made from. Two functions judge it again
without the cache: one names its freshness, one audits its receipt. They always agree with
each other. The cache also refuses evidence from the future, which they do not look at.

All three judges are reduced to the same facts about the edge: whether its evidence is vouched
for, when it was asserted and when it was observed. They are then compared as conditions on these.
The comparison with the cache is about an entry that was recorded from the same evidence, as
nothing else would be a fair one.
-/

namespace Marbles

variable {c : Crypto}

/-! ### Freshness -/

/-- The signed form of the assertion an edge keeps. -/
def RemoteDependency.toAssertion (d : RemoteDependency) : IssueAssertion :=
  ⟨issueAssertionSchema, d.storeId, d.remoteIssueId, d.state, d.assertedAt, d.keyId,
    some d.signature⟩

/-- Judge a stored edge under the keys pinned now. Nothing but the columns of the edge and the pins
is consulted. -/
def remoteDependencyFreshness (c : Crypto) (dependency : RemoteDependency)
    (registry : RemoteRegistry) (now freshnessWindowSeconds : Int) : AssertionFreshness :=
  match registry.remotes.find? fun record => record.storeId = dependency.storeId with
  | none => .unverifiable
  | some record =>
      match record.pinOf dependency.keyId with
      | none => .unverifiable
      | some pin =>
          match CanonicalRef.parse dependency.canonicalRef with
          | .error _ => .unverifiable
          | .ok parsed =>
              if parsed.names dependency.storeId dependency.remoteIssueId = false then
                .unverifiable
              else match verifyIssueAssertion c dependency.toAssertion pin now with
                | .error _ => .unverifiable
                | .ok _ => freshnessAt (max freshnessWindowSeconds 0) now dependency.observedAt

/-! ### Audits -/

/-- The six fields a remote reference has to carry. Any of them may be missing or blank in a
reference from outside. -/
structure AuditReceipt where
  storeId : String
  remoteIssueId : String
  state : String
  assertedAt : Int
  signature : String
  keyId : String
  deriving DecidableEq, Repr

namespace AuditReceipt

/-- The receipt the local store keeps with an edge. -/
def fromDependency (d : RemoteDependency) : AuditReceipt :=
  ⟨d.storeId, d.remoteIssueId, d.state, d.assertedAt, d.signature, d.keyId⟩

/-- The receipt the cache keeps. -/
def fromCached (a : CachedAssertion) : AuditReceipt :=
  ⟨a.storeId, a.remoteIssueId, a.state, a.assertedAt, a.signature, a.keyId⟩

/-- What was signed, put together again. A receipt does not carry the schema, so it is taken to be
the current one. -/
def toAssertion (r : AuditReceipt) : IssueAssertion :=
  ⟨issueAssertionSchema, r.storeId, r.remoteIssueId, r.state, r.assertedAt, r.keyId,
    some r.signature⟩

end AuditReceipt

/-- The verdicts. Only `verified` and `stale` leave a state to rely on. Each names one thing that is
wrong, so that a reader knows what to ask for. -/
inductive ReceiptState where
  | verified
  | wrongKey
  | wrongStore
  | stale
  | differentIssue
  | forgedSignature
  | absentStore
  | missingReceipt
  | malformedReference
  deriving DecidableEq, Repr

/-- A verdict that names why the evidence is refused. -/
def ReceiptState.rejects (state : ReceiptState) : Prop := state ≠ .verified ∧ state ≠ .stale

instance (state : ReceiptState) : Decidable state.rejects := inferInstanceAs (Decidable (_ ∧ _))

/-- The verdict on a verification error. -/
def ReceiptState.ofError : AssertionError → ReceiptState
  | .wrongStore .. => .wrongStore
  | .wrongKeyId .. | .keyRetired .. => .wrongKey
  | _ => .forgedSignature

/-- One line of an audit: the reference as it was written, the verdict, and the reason when there is
one. -/
structure ReferenceAudit where
  reference : String
  storeId : String
  remoteIssueId : String
  state : ReceiptState
  receipt : Option AuditReceipt
  detail : Option String
  deriving DecidableEq, Repr

/-- Audit a receipt under the reference it is shown with. The checks are ordered so that the first
verdict is about the pin, and time comes last. -/
def auditReceipt (c : Crypto) (reference : CanonicalRef) (receipt : Option AuditReceipt)
    (registry : RemoteRegistry) (observedAt : Option Int) (now freshnessWindowSeconds : Int) :
    ReferenceAudit :=
  let audit : ReferenceAudit :=
    ⟨reference.display, reference.storeId, reference.issueId, .verified, receipt, none⟩
  let verdict := fun state detail => { audit with state := state, detail := some detail }
  match registry.remotes.find? fun record => record.storeId = reference.storeId with
  | none => verdict .absentStore
      s!"store {debugStr reference.storeId} is not pinned; no key can verify this reference offline"
  | some record =>
      match receipt with
      | none => verdict .missingReceipt "no audit receipt accompanies this remote reference"
      | some receipt =>
          if receipt.remoteIssueId ≠ reference.issueId then
            verdict .differentIssue
              (s!"receipt is for remote issue {debugStr receipt.remoteIssueId}, " ++
                s!"but this reference names {debugStr reference.issueId}")
          else if receipt.storeId ≠ reference.storeId ∨ receipt.storeId ≠ record.storeId then
            verdict .wrongStore (s!"receipt claims store {debugStr receipt.storeId}, " ++
              s!"but the pinned record for this reference is {debugStr record.storeId}")
          else match record.pinOf receipt.keyId with
            | none =>
                verdict .wrongKey
                  (s!"receipt key {debugStr receipt.keyId} is not pinned for store " ++
                    s!"{debugStr record.storeId} (active key {debugStr record.keyId})")
            | some pin =>
                match verifyIssueAssertion c receipt.toAssertion pin now with
                | .error error => verdict (.ofError error) error.display
                | .ok _ =>
                    let observedAt := observedAt.getD receipt.assertedAt
                    match freshnessAt (max freshnessWindowSeconds 0) now observedAt with
                    | .stale =>
                        verdict .stale (s!"observation at {observedAt} is " ++
                          s!"{satI64 (now - observedAt)}s old, past the " ++
                          s!"{freshnessWindowSeconds}s window")
                    | _ => audit

/-- Audit a stored edge. The columns of the edge are its receipt. -/
def auditRemoteDependency (c : Crypto) (dependency : RemoteDependency) (registry : RemoteRegistry)
    (now freshnessWindowSeconds : Int) : ReferenceAudit :=
  let receipt := AuditReceipt.fromDependency dependency
  match CanonicalRef.parse dependency.canonicalRef with
  | .ok reference => auditReceipt c reference (some receipt) registry (some dependency.observedAt)
      now freshnessWindowSeconds
  | .error error => ⟨dependency.canonicalRef, dependency.storeId, dependency.remoteIssueId,
      .malformedReference, some receipt, some error.display⟩

/-! ### What the verdicts depend on -/

/-- The reference of the edge names the store and the issue of the edge. -/
def RemoteDependency.Named (d : RemoteDependency) : Prop :=
  ∃ reference, CanonicalRef.parse d.canonicalRef = .ok reference ∧
    reference.names d.storeId d.remoteIssueId = true

variable {registry : RemoteRegistry} {dependency : RemoteDependency} {now window : Int}

theorem remoteDependencyFreshness_of_vouches (hnamed : dependency.Named)
    (h : registry.Vouches c dependency.storeId dependency.toAssertion now) :
    remoteDependencyFreshness c dependency registry now window =
      freshnessAt (max window 0) now dependency.observedAt := by
  obtain ⟨reference, hparse, hnames⟩ := hnamed
  obtain ⟨record, pin, hrecord, hpin, hverify⟩ := h
  have hpin : record.pinOf dependency.keyId = some pin := hpin
  simp only [remoteDependencyFreshness, hrecord, hpin, hparse, hverify]
  rw [if_neg (by simp [hnames])]

theorem remoteDependencyFreshness_of_not
    (h : ¬ registry.Vouches c dependency.storeId dependency.toAssertion now) :
    remoteDependencyFreshness c dependency registry now window = .unverifiable := by
  unfold remoteDependencyFreshness
  cases hrecord : registry.remotes.find? fun record => record.storeId = dependency.storeId with
  | none => rfl
  | some record =>
      simp only
      cases hpin : record.pinOf dependency.keyId with
      | none => rfl
      | some pin =>
          simp only
          cases CanonicalRef.parse dependency.canonicalRef with
          | error error => rfl
          | ok parsed =>
              simp only
              split
              · rfl
              · cases hverify : verifyIssueAssertion c dependency.toAssertion pin now with
                | error error => rfl
                | ok _ => exact absurd ⟨record, pin, hrecord, hpin, hverify⟩ h

/-- The verdict on evidence that verifies. -/
def ReceiptState.ofAge : AssertionFreshness → ReceiptState
  | .stale => .stale
  | _ => .verified

theorem ofError_rejects (error : AssertionError) : (ReceiptState.ofError error).rejects := by
  cases error <;> exact ⟨nofun, nofun⟩

/-- The audit of a named edge goes by the same evidence. -/
theorem auditRemoteDependency_of_vouches (hnamed : dependency.Named)
    (h : registry.Vouches c dependency.storeId dependency.toAssertion now) :
    (auditRemoteDependency c dependency registry now window).state =
      .ofAge (freshnessAt (max window 0) now dependency.observedAt) := by
  obtain ⟨reference, hparse, hnames⟩ := hnamed
  obtain ⟨record, pin, hrecord, hpin, hverify⟩ := h
  simp only [CanonicalRef.names, Bool.and_eq_true, decide_eq_true_eq] at hnames
  have hstore : record.storeId = dependency.storeId := by simpa using List.find?_some hrecord
  have hpin : record.pinOf (AuditReceipt.fromDependency dependency).keyId = some pin := hpin
  have hverify : verifyIssueAssertion c (AuditReceipt.fromDependency dependency).toAssertion pin
    now = .ok () := hverify
  simp only [auditRemoteDependency, hparse, auditReceipt, hnames.1, hrecord, Option.getD_some]
  rw [if_neg (by simp [AuditReceipt.fromDependency, hnames.2]),
    if_neg (by simp [AuditReceipt.fromDependency, hstore])]
  simp only [hpin, hverify]
  cases freshnessAt (max window 0) now dependency.observedAt <;> rfl

theorem auditRemoteDependency_of_not (hnamed : dependency.Named)
    (h : ¬ registry.Vouches c dependency.storeId dependency.toAssertion now) :
    (auditRemoteDependency c dependency registry now window).state.rejects := by
  obtain ⟨reference, hparse, hnames⟩ := hnamed
  simp only [CanonicalRef.names, Bool.and_eq_true, decide_eq_true_eq] at hnames
  simp only [auditRemoteDependency, hparse, auditReceipt, hnames.1]
  cases hrecord : registry.remotes.find? fun record => record.storeId = dependency.storeId with
  | none =>
      show ReceiptState.absentStore.rejects
      decide
  | some record =>
      simp only
      split
      · show ReceiptState.differentIssue.rejects
        decide
      · split
        · show ReceiptState.wrongStore.rejects
          decide
        · cases hpin : record.pinOf (AuditReceipt.fromDependency dependency).keyId with
          | none =>
              show ReceiptState.wrongKey.rejects
              decide
          | some pin =>
              simp only
              cases hverify : verifyIssueAssertion c
                  (AuditReceipt.fromDependency dependency).toAssertion pin now with
              | error error => exact ofError_rejects error
              | ok _ => exact absurd ⟨record, pin, hrecord, hpin, hverify⟩ h

/-! ### The cache -/

/-- The entry of the cache that carries the same fields as the edge. -/
def RemoteDependency.cached (d : RemoteDependency) : CachedAssertion :=
  ⟨issueAssertionSchema, d.storeId, d.remoteIssueId, d.state, d.assertedAt, d.signature,
    d.keyId, d.observedAt⟩

/-- The three verdicts on an edge agree. -/
structure Agree (freshness cached : AssertionFreshness) (audit : ReceiptState) : Prop where
  freshness : freshness = cached
  verified : audit = .verified ↔ cached = .fresh
  stale : audit = .stale ↔ cached = .stale
  rejects : audit.rejects ↔ cached = .unverifiable

theorem agree_of_age {age : AssertionFreshness} (h : age = .fresh ∨ age = .stale) :
    Agree age age (.ofAge age) := by
  rcases h with rfl | rfl
  · exact ⟨rfl, by decide, by decide, by decide⟩
  · exact ⟨rfl, by decide, by decide, by decide⟩

theorem freshnessAt_cases (window now observedAt : Int) :
    freshnessAt window now observedAt = .fresh ∨ freshnessAt window now observedAt = .stale := by
  unfold freshnessAt
  split
  · exact Or.inr rfl
  · exact Or.inl rfl

/-- The cache, the freshness and the audit of an edge agree exactly when its evidence does not
verify or is not from the future. Only the cache compares the observation with the clock; on
evidence that does not verify it does not matter. -/
theorem verifiers_agree_iff {files : AssertionFiles} (root : String) (hnamed : dependency.Named)
    (hfiled : AssertionCache.Filed c files dependency.storeId dependency.remoteIssueId
      dependency.cached) :
    Agree (remoteDependencyFreshness c dependency registry now window)
        (((AssertionCache.new root).withFreshnessWindow window).read c files registry
          dependency.storeId dependency.remoteIssueId now).freshness
        (auditRemoteDependency c dependency registry now window).state ↔
      (registry.Vouches c dependency.storeId dependency.toAssertion now →
        InTime dependency.assertedAt dependency.observedAt now) := by
  rw [AssertionCache.read_of_filed hfiled]
  have hvouches : registry.Vouches c dependency.storeId dependency.cached.toAssertion now ↔
      registry.Vouches c dependency.storeId dependency.toAssertion now := Iff.rfl
  have hintime : InTime dependency.cached.assertedAt dependency.cached.observedAt now ↔
      InTime dependency.assertedAt dependency.observedAt now := Iff.rfl
  by_cases hvouched : registry.Vouches c dependency.storeId dependency.toAssertion now
  · rw [remoteDependencyFreshness_of_vouches hnamed hvouched,
      auditRemoteDependency_of_vouches hnamed hvouched]
    by_cases htime : InTime dependency.assertedAt dependency.observedAt now
    · rw [AssertionCache.readCached_of_vouches (hvouches.mpr hvouched) (hintime.mpr htime)]
      have hagree := agree_of_age (freshnessAt_cases (max window 0) now dependency.observedAt)
      exact iff_of_true hagree fun _ => htime
    · -- the cache refuses what the other two date
      rw [AssertionCache.readCached_freshness fun h => htime (hintime.mp h.2)]
      refine iff_of_false (fun hagree => ?_) fun h => htime (h hvouched)
      rcases freshnessAt_cases (max window 0) now dependency.observedAt with hage | hage
      · exact nomatch hage.symm.trans hagree.freshness
      · exact nomatch hage.symm.trans hagree.freshness
  · rw [remoteDependencyFreshness_of_not hvouched,
      AssertionCache.readCached_freshness fun h => hvouched (hvouches.mp h.1)]
    have hrejects : (auditRemoteDependency c dependency registry now window).state.rejects :=
      auditRemoteDependency_of_not hnamed hvouched
    refine iff_of_true ⟨rfl, ?_, ?_, ?_⟩ fun h => absurd h hvouched
    · exact iff_of_false hrejects.1 nofun
    · exact iff_of_false hrejects.2 nofun
    · exact iff_of_true hrejects rfl

/-! ### An observation from the future -/

/-- The registry that pins the toy store. -/
def toyRegistry : RemoteRegistry := { remotes := [plainRecord 7] }

/-- An edge to a closed issue, observed at this time. -/
def observedEdge (observedAt : Int) : RemoteDependency where
  canonicalRef := "marbles://s/c/p/i"
  storeId := "s"
  remoteIssueId := "i"
  state := "closed"
  assertedAt := 100
  observedAt := observedAt
  signature := (plainAssertion 7 "closed" 100).signature.getD ""
  keyId := "s/key-1"
  freshness := none

def observedFiles (observedAt : Int) : AssertionFiles := fun name =>
  if name = AssertionCache.entryName Crypto.plain "s" "i" then
    .ok (.ok (.assertion assertionCacheVersion "s" "i" observedAt
      (observedEdge observedAt).cached))
  else .error .notFound

theorem observedEdge_named (observedAt : Int) : (observedEdge observedAt).Named := by
  have hparse : CanonicalRef.parse "marbles://s/c/p/i" = .ok ⟨"s", "c", "p", "i"⟩ := by decide
  refine ⟨_, hparse, ?_⟩
  show CanonicalRef.names ⟨"s", "c", "p", "i"⟩ "s" "i" = true
  decide

theorem observedEdge_filed (observedAt : Int) : AssertionCache.Filed Crypto.plain
    (observedFiles observedAt) "s" "i" (observedEdge observedAt).cached :=
  ⟨observedAt, if_pos rfl⟩

theorem observedEdge_vouched (observedAt now : Int) :
    toyRegistry.Vouches Crypto.plain "s" (observedEdge observedAt).toAssertion now :=
  ⟨plainRecord 7, _, rfl, rfl, plainAssertion_verifies 7 100 (by decide) now⟩

/-- At 120, an edge observed at 5000 is fresh and verified, and the cache refuses it. -/
theorem future_observation_fresh :
    remoteDependencyFreshness Crypto.plain (observedEdge 5000) toyRegistry 120 300 = .fresh ∧
    (auditRemoteDependency Crypto.plain (observedEdge 5000) toyRegistry 120 300).state =
      .verified ∧
    (((AssertionCache.new "cache").withFreshnessWindow 300).read Crypto.plain (observedFiles 5000)
      toyRegistry "s" "i" 120).freshness = .unverifiable := by
  refine ⟨?_, ?_, ?_⟩
  · rw [remoteDependencyFreshness_of_vouches (observedEdge_named 5000)
      (observedEdge_vouched 5000 120)]
    decide
  · rw [auditRemoteDependency_of_vouches (observedEdge_named 5000) (observedEdge_vouched 5000 120)]
    decide
  · rw [AssertionCache.read_of_filed (observedEdge_filed 5000),
      AssertionCache.readCached_freshness fun h => absurd h.2 (by decide)]

/-- Observed at 110, it is fresh for all three. -/
theorem past_observation_agrees :
    Agree (remoteDependencyFreshness Crypto.plain (observedEdge 110) toyRegistry 120 300)
      (((AssertionCache.new "cache").withFreshnessWindow 300).read Crypto.plain (observedFiles 110)
        toyRegistry "s" "i" 120).freshness
      (auditRemoteDependency Crypto.plain (observedEdge 110) toyRegistry 120 300).state :=
  (verifiers_agree_iff "cache" (observedEdge_named 110) (observedEdge_filed 110)).mpr
    fun _ => by decide

end Marbles
