import Marbles.Federation.Identity
import Marbles.Lib.Numeral
import Marbles.Webhook

/-!
# Federation assertions

A store signs what happened to an issue, with the sequence number of the event in its outbox and an
id made of the store and the number. A receiver pins one key of one store and takes every sequence
once, forward.

The id is signed with the rest, and nothing compares it with the store and the number: the ids are
what the pinned stores make them. So the ids that the receivers accept are the ids of the events as
long as the owners of the pinned keys sign no other (`SignsOwnIds`). That is an assumption about the
keys, which no receiver can check; an assertion that breaks it is let through like any other.

Two receivers of one store each keep marks of their own, so each of them accepts a sequence once.
The run is therefore one over presentations, each to one receiver. What the receivers keep of the
ids is nothing at all; ids are a matter of who signs what.
-/

namespace Marbles.Webhook

open Json (Value)

/-- The schema is part of what is signed, so an event cannot be taken for a record of another kind.
-/
def assertionSchema : String := "marbles.assertion/1"

/-- `event_id`: a sequence number is only meaningful together with its store. -/
def eventId (storeId : String) (seq : Int) : String := storeId ++ ":" ++ toString seq

/-- Why an event is not accepted, in the order in which it is checked; the sequence comes last. A
replay is told from a forgery, so that a sender can stop resending. -/
inductive FederationError where
  | unsupportedSchema (schema : String)
  | wrongStore (actual expected : String)
  | wrongKeyId (actual expected : String)
  | keyRetired (keyId : String) (validUntil : Int)
  | unsigned
  | malformedSignature (reason : String)
  | badSignature
  | crypto (reason : String)
  | replay (error : ReplayError)
  deriving DecidableEq

/-- The texts are those of the source. -/
def ReplayError.display : ReplayError → String
  | .invalidSequence storeId seq =>
      s!"event seq {seq} for store {debugStr storeId} is not a positive sequence"
  | .replayed storeId seq lastSeq =>
      s!"event seq {seq} for store {debugStr storeId} was already accepted " ++
        s!"(last accepted {lastSeq})"

/-- The texts are those of the source; a replay speaks for itself. -/
def FederationError.display : FederationError → String
  | .unsupportedSchema schema => s!"unsupported assertion schema {debugStr schema}"
  | .wrongStore actual expected =>
      s!"assertion belongs to store {debugStr actual}, but the verifier pins {debugStr expected}"
  | .wrongKeyId actual expected =>
      s!"assertion key {debugStr actual} does not match pinned key {debugStr expected}"
  | .keyRetired keyId validUntil => s!"pinned key {debugStr keyId} is retired at {validUntil}"
  | .unsigned => "assertion is unsigned"
  | .malformedSignature reason => s!"assertion signature is malformed: {reason}"
  | .badSignature => "assertion signature is invalid"
  | .crypto reason => s!"crypto failure: {reason}"
  | .replay error => error.display

/-- The error an assertion gets for a signature fault. -/
def FederationError.ofFault : Crypto.SignatureFault → FederationError
  | .unsigned => .unsigned
  | .malformed reason => .malformedSignature reason
  | .crypto reason => .crypto reason
  | .bad => .badSignature

/-! ### Assertions -/

/-- An outbound event as it travels. `id` repeats what `storeId` and `seq` say; nothing here makes
it do so. -/
structure FederationAssertion where
  schema : String
  storeId : String
  seq : Int
  id : String
  company : String
  project : String
  issueId : String
  event : String
  occurredAt : Int
  keyId : String
  signature : Option String
  deriving DecidableEq

namespace FederationAssertion

/-- The unsigned assertion of an event; the signer sets the key. The id is derived here, and a
verifier does not derive it again. -/
def fromEvent (company : String) (event : OutboundEvent) : FederationAssertion where
  schema := assertionSchema
  storeId := event.storeId
  seq := event.seq
  id := eventId event.storeId event.seq
  company := company
  project := event.project
  issueId := event.issueId
  event := event.event
  occurredAt := event.occurredAt
  keyId := ""
  signature := none

/-- The text the signature covers: every field but the signature, in the order of their
declaration. -/
def signingBytes (a : FederationAssertion) : String :=
  Value.text (.obj [("schema", .str a.schema), ("store_id", .str a.storeId), ("seq", .num a.seq),
    ("id", .str a.id), ("company", .str a.company), ("project", .str a.project),
    ("issue_id", .str a.issueId), ("event", .str a.event), ("occurred_at", .num a.occurredAt),
    ("key_id", .str a.keyId)])

end FederationAssertion

/-- Sign an assertion; `keyId` and `sign` are the signer. The signature covers all that is sent, the
id among it, whatever the id is. -/
def signFederationAssertion (c : Crypto) (assertion : FederationAssertion) (keyId : String)
    (sign : String → Except String Signing.Bytes) :
    Except FederationError FederationAssertion := do
  if assertion.schema ≠ assertionSchema then .error (.unsupportedSchema assertion.schema)
  else
    let assertion := { assertion with keyId := keyId, signature := none }
    let signature ← (sign assertion.signingBytes).mapError .crypto
    .ok { assertion with signature := some (c.urlSafe.encode signature) }

/-- Verify an assertion offline against one pinned key. The sequence is not looked at here; the
guard of the receiver does that. -/
def verifyFederationAssertion (c : Crypto) (assertion : FederationAssertion) (pin : PinnedKey)
    (now : Int) : Except FederationError Unit :=
  if assertion.schema ≠ assertionSchema then .error (.unsupportedSchema assertion.schema)
  else if pin.storeId = "" ∨ assertion.storeId ≠ pin.storeId then
    .error (.wrongStore assertion.storeId pin.storeId)
  else if assertion.keyId ≠ pin.keyId then .error (.wrongKeyId assertion.keyId pin.keyId)
  else match pin.retired now with
    | some validUntil => .error (.keyRetired pin.keyId validUntil)
    | none => (c.verifySignature assertion.signature pin.publicKey
        assertion.signingBytes).mapError .ofFault

/-! ### The receiver of one store -/

/-- A pin, and the sequences accepted under it. -/
structure FederationVerifier where
  pin : PinnedKey
  replay : ReplayGuard

namespace FederationVerifier

/-- Nothing has been accepted yet. -/
def new (pin : PinnedKey) : FederationVerifier := ⟨pin, .new⟩

/-- The guard is asked under the store of the pin, the only one whose events get that far. -/
def lastSeq (self : FederationVerifier) : Option Int := self.replay.last.find self.pin.storeId

/-- Verify and take the sequence; after an error the verifier is as it was. -/
def verify (c : Crypto) (self : FederationVerifier) (assertion : FederationAssertion) (now : Int) :
    Except FederationError FederationVerifier := do
  verifyFederationAssertion c assertion self.pin now
  let replay ← (self.replay.accept assertion.storeId assertion.seq).mapError .replay
  .ok { self with replay := replay }

end FederationVerifier

/-! ### What an assertion has to meet -/

variable {c : Crypto}

/-- A pin vouches for the assertion. That the id is the derived one is not among the conditions. -/
structure FederationAssertion.Holds (c : Crypto) (assertion : FederationAssertion) (pin : PinnedKey)
    (now : Int) : Prop where
  schema : assertion.schema = assertionSchema
  pinned : pin.storeId ≠ ""
  storeId : assertion.storeId = pin.storeId
  keyId : assertion.keyId = pin.keyId
  notRetired : pin.retired now = none
  signed : c.Signed assertion.signature pin.publicKey assertion.signingBytes

theorem verifyFederationAssertion_eq_ok {assertion : FederationAssertion} {pin : PinnedKey}
    {now : Int} :
    verifyFederationAssertion c assertion pin now = .ok () ↔ assertion.Holds c pin now := by
  unfold verifyFederationAssertion
  simp only [Except.ite_error_eq_ok, not_or, not_not]
  constructor
  · intro h
    obtain ⟨hschema, ⟨hpinned, hstore⟩, hkey, h⟩ := h
    cases hretired : pin.retired now with
    | some validUntil =>
        rw [hretired] at h
        cases h
    | none =>
        rw [hretired] at h
        simp only [Except.mapError_eq_ok, Crypto.verifySignature_eq_ok] at h
        exact ⟨hschema, hpinned, hstore, hkey, hretired, h⟩
  · intro h
    refine ⟨h.schema, ⟨h.pinned, h.storeId⟩, h.keyId, ?_⟩
    rw [h.notRetired]
    simp only [Except.mapError_eq_ok, Crypto.verifySignature_eq_ok]
    exact h.signed

/-- What a store signs holds under the pin of its key, until the key retires. -/
theorem signFederationAssertion_holds (hc : c.Correct) {secret : c.ed25519.Secret} {keyId : String}
    {assertion signed : FederationAssertion} {pin : PinnedKey} {now : Int}
    (h : signFederationAssertion c assertion keyId (c.ed25519.sign secret) = .ok signed)
    (hstore : pin.storeId = assertion.storeId) (hne : pin.storeId ≠ "") (hkey : pin.keyId = keyId)
    (hpublic : pin.publicKey = c.urlSafe.encode (c.ed25519.publicBytes secret))
    (hretired : pin.retired now = none) : signed.Holds c pin now := by
  simp only [signFederationAssertion, Except.ite_error_eq_ok, not_not, Except.bind_eq_ok,
    Except.mapError_eq_ok] at h
  obtain ⟨hschema, signature, hsign, hsigned⟩ := h
  cases hsigned
  refine ⟨hschema, hne, hstore.symm, hkey.symm, hretired, ?_⟩
  rw [hpublic]
  exact hc.signed hsign

/-- Signing changes neither the store, the number nor the id. -/
theorem signFederationAssertion_kept {assertion signed : FederationAssertion} {keyId : String}
    {sign : String → Except String Signing.Bytes}
    (h : signFederationAssertion c assertion keyId sign = .ok signed) :
    signed.storeId = assertion.storeId ∧ signed.seq = assertion.seq ∧
      signed.id = assertion.id := by
  simp only [signFederationAssertion, Except.ite_error_eq_ok, Except.bind_eq_ok] at h
  obtain ⟨-, signature, -, hsigned⟩ := h
  cases hsigned
  exact ⟨rfl, rfl, rfl⟩

/-- A sequence is accepted when it is positive and ahead of the last one. -/
theorem ReplayGuard.accept_eq_ok {guard guard' : ReplayGuard} {storeId : String} {seq : Int} :
    guard.accept storeId seq = .ok guard' ↔
      (0 < seq ∧ ∀ last, guard.last.find storeId = some last → last < seq) ∧
        guard' = ⟨guard.last.upsert storeId seq fun _ => seq⟩ := by
  rw [accept, Except.ite_error_eq_ok, Int.not_le, and_assoc]
  refine and_congr_right fun _ => ?_
  cases hfind : guard.last.find storeId with
  | none =>
      simp only [reduceCtorEq, false_implies, implies_true, true_and, Except.ok.injEq, eq_comm]
  | some last =>
      simp only [Except.ite_error_eq_ok, Int.not_le, Option.some.injEq, forall_eq', Except.ok.injEq]
      exact and_congr_right fun _ => eq_comm

/-- What the verifier of a pin lets through. -/
structure FederationVerifier.Admits (c : Crypto) (verifier : FederationVerifier)
    (assertion : FederationAssertion) (now : Int) : Prop where
  holds : assertion.Holds c verifier.pin now
  positive : 0 < assertion.seq
  forward : ∀ last, verifier.lastSeq = some last → last < assertion.seq

/-- The verifier once it has taken the sequence of an assertion. -/
def FederationVerifier.taken (self : FederationVerifier) (assertion : FederationAssertion) :
    FederationVerifier :=
  ⟨self.pin,
    ⟨self.replay.last.upsert assertion.storeId assertion.seq fun _ => assertion.seq⟩⟩

@[simp] theorem FederationVerifier.taken_pin (self : FederationVerifier)
    (assertion : FederationAssertion) : (self.taken assertion).pin = self.pin := rfl

theorem FederationVerifier.lastSeq_taken {self : FederationVerifier}
    {assertion : FederationAssertion} (h : assertion.storeId = self.pin.storeId) :
    (self.taken assertion).lastSeq = some assertion.seq := by
  show (self.replay.last.upsert _ _ _).find self.pin.storeId = _
  rw [Table.find_upsert, if_pos h.symm]
  cases self.replay.last.find assertion.storeId <;> rfl

theorem FederationVerifier.verify_eq_ok {self self' : FederationVerifier}
    {assertion : FederationAssertion} {now : Int} :
    self.verify c assertion now = .ok self' ↔
      self.Admits c assertion now ∧ self' = self.taken assertion := by
  simp only [verify, Except.bind_eq_ok, Except.mapError_eq_ok, ReplayGuard.accept_eq_ok]
  constructor
  · rintro ⟨_, hverify, replay, ⟨⟨hpositive, hforward⟩, rfl⟩, hself⟩
    have hholds := verifyFederationAssertion_eq_ok.mp hverify
    refine ⟨⟨hholds, hpositive, ?_⟩, (Except.ok.inj hself).symm⟩
    rw [lastSeq, ← hholds.storeId]
    exact hforward
  · rintro ⟨hadmits, rfl⟩
    refine ⟨(), verifyFederationAssertion_eq_ok.mpr hadmits.holds, _, ⟨⟨hadmits.positive, ?_⟩, rfl⟩,
      rfl⟩
    have hforward := hadmits.forward
    rw [lastSeq, ← hadmits.holds.storeId] at hforward
    exact hforward

/-! ### The id of an event -/

@[simp] theorem toList_eventId (storeId : String) (seq : Int) :
    (eventId storeId seq).toList = storeId.toList ++ ':' :: (toString seq).toList := by
  rw [eventId, String.toList_append, String.toList_append, List.append_assoc]
  rfl

/-- The store and the number can be read off the id: the last colon stands between them. -/
theorem eventId_injective {storeId storeId' : String} {seq seq' : Int}
    (h : eventId storeId seq = eventId storeId' seq') : storeId = storeId' ∧ seq = seq' := by
  have hnumeral : ∀ n : Int, ∀ ch ∈ (toString n).toList.reverse, Numeral.isNumeral ch = true :=
    fun n ch hch => Numeral.isNumeral_of_mem (List.mem_reverse.mp hch)
  have hreverse := congrArg (fun s : String => s.toList.reverse) h
  simp only [toList_eventId, List.reverse_append, List.reverse_cons, List.append_assoc,
    List.cons_append, List.nil_append] at hreverse
  obtain ⟨hseq, hbehind⟩ := Numeral.delimited (hnumeral seq) (hnumeral seq') (by decide) (by decide)
    hreverse
  have hstore : storeId.toList = storeId'.toList :=
    List.reverse_injective (List.cons.inj hbehind).2
  exact ⟨String.toList_inj.mp hstore,
    Numeral.toString_injective (String.toList_inj.mp (List.reverse_injective hseq))⟩

/-! ### Receivers of many stores -/

/-- The receivers, and what they have accepted so far, each with its receiver. -/
structure Receivers (ι : Type) where
  verifiers : ι → FederationVerifier
  accepted : List (ι × FederationAssertion)

/-- An assertion that reaches one of the receivers. -/
structure Presented (ι : Type) where
  receiver : ι
  assertion : FederationAssertion
  now : Int

namespace Receivers

variable {ι : Type} [DecidableEq ι]

/-- Every receiver with its pin, before the first event. -/
def pinned (pins : ι → PinnedKey) : Receivers ι := ⟨fun i => .new (pins i), []⟩

/-- One receiver verifies what it is presented; the others are not asked. -/
def present (c : Crypto) (p : Presented ι) (w : Receivers ι) : Receivers ι :=
  match (w.verifiers p.receiver).verify c p.assertion p.now with
  | .ok verifier =>
      { verifiers := Function.update w.verifiers p.receiver verifier
        accepted := w.accepted ++ [(p.receiver, p.assertion)] }
  | .error _ => w

/-- Any order of events presented to any receivers. -/
def run (c : Crypto) (presented : List (Presented ι)) (w : Receivers ι) : Receivers ι :=
  Machine.run (present c) presented w

/-- The id is the one of the store and the number. -/
def Genuine (assertion : FederationAssertion) : Prop :=
  assertion.id = eventId assertion.storeId assertion.seq

/-- What is signed under the pinned key carries its own id. -/
def SignsOwnIds (c : Crypto) (pin : PinnedKey) (assertion : FederationAssertion) : Prop :=
  c.Signed assertion.signature pin.publicKey assertion.signingBytes → Genuine assertion

/-- A receiver that lets an assertion through takes its sequence; the rest stays. -/
theorem present_of_admits {w : Receivers ι} {p : Presented ι}
    (h : (w.verifiers p.receiver).Admits c p.assertion p.now) :
    present c p w =
      ⟨Function.update w.verifiers p.receiver ((w.verifiers p.receiver).taken p.assertion),
        w.accepted ++ [(p.receiver, p.assertion)]⟩ := by
  rw [present, FederationVerifier.verify_eq_ok.mpr ⟨h, rfl⟩]

theorem present_of_not_admits {w : Receivers ι} {p : Presented ι}
    (h : ¬ (w.verifiers p.receiver).Admits c p.assertion p.now) : present c p w = w := by
  rw [present]
  cases hverify : (w.verifiers p.receiver).verify c p.assertion p.now with
  | error error => rfl
  | ok verifier => exact absurd (FederationVerifier.verify_eq_ok.mp hverify).1 h

/-- The other receivers are as they were. -/
theorem present_other {w : Receivers ι} {p : Presented ι} {i : ι} (hi : i ≠ p.receiver) :
    (present c p w).verifiers i = w.verifiers i := by
  by_cases h : (w.verifiers p.receiver).Admits c p.assertion p.now
  · rw [present_of_admits h]
    exact Function.update_of_ne hi _ _
  · rw [present_of_not_admits h]

theorem accepted_of_admits {w : Receivers ι} {p : Presented ι}
    (h : (w.verifiers p.receiver).Admits c p.assertion p.now) :
    (present c p w).accepted = w.accepted ++ [(p.receiver, p.assertion)] := by
  rw [present_of_admits h]

/-! ### Sequences -/

/-- Two receivers are one, or pin different stores. -/
def Apart (pins : ι → PinnedKey) (i j : ι) : Prop := i = j ∨ (pins i).storeId ≠ (pins j).storeId

/-- What was accepted is from the pinned store and is remembered, and each receiver took its
sequences in ascending order. -/
structure Kept (pins : ι → PinnedKey) (w : Receivers ι) : Prop where
  pin : ∀ i, (w.verifiers i).pin = pins i
  storeId : ∀ x ∈ w.accepted, x.2.storeId = (pins x.1).storeId
  remembered : ∀ x ∈ w.accepted, ∃ last, (w.verifiers x.1).lastSeq = some last ∧ x.2.seq ≤ last
  ascending : w.accepted.Pairwise fun x y => x.1 = y.1 → x.2.seq < y.2.seq

omit [DecidableEq ι] in
theorem kept_pinned (pins : ι → PinnedKey) : Kept pins (pinned pins) where
  pin _ := rfl
  storeId x hx := by cases hx
  remembered x hx := by cases hx
  ascending := List.Pairwise.nil

theorem Kept.present {pins : ι → PinnedKey} {w : Receivers ι} (h : Kept pins w) (p : Presented ι) :
    Kept pins (present c p w) := by
  by_cases hadmits : (w.verifiers p.receiver).Admits c p.assertion p.now
  swap
  · rwa [present_of_not_admits hadmits]
  rw [present_of_admits hadmits]
  have hstore : p.assertion.storeId = (w.verifiers p.receiver).pin.storeId := hadmits.holds.storeId
  constructor
  · intro i
    by_cases hi : i = p.receiver
    · subst hi
      simpa using h.pin p.receiver
    · simpa [Function.update_of_ne hi] using h.pin i
  · intro x hx
    rcases List.mem_append.mp hx with hx | hx
    · exact h.storeId x hx
    · rw [List.mem_singleton.mp hx, ← h.pin]
      exact hstore
  · intro x hx
    by_cases hi : x.1 = p.receiver
    · -- the receiver now remembers the sequence it took, which is the greatest
      refine ⟨p.assertion.seq, ?_, ?_⟩
      · simp only [hi, Function.update_self]
        exact FederationVerifier.lastSeq_taken hstore
      · rcases List.mem_append.mp hx with hx | hx
        · obtain ⟨last, hlast, hle⟩ := h.remembered x hx
          rw [hi] at hlast
          have hlt := hadmits.forward last hlast
          omega
        · rw [List.mem_singleton.mp hx]
    · rcases List.mem_append.mp hx with hx | hx
      · obtain ⟨last, hlast, hle⟩ := h.remembered x hx
        refine ⟨last, ?_, hle⟩
        simpa only [Function.update_of_ne hi] using hlast
      · rw [List.mem_singleton.mp hx] at hi
        exact absurd rfl hi
  · rw [List.pairwise_append]
    refine ⟨h.ascending, List.pairwise_singleton _ _, fun x hx y hy hi => ?_⟩
    obtain ⟨last, hlast, hle⟩ := h.remembered x hx
    rw [List.mem_singleton.mp hy] at hi ⊢
    rw [hi] at hlast
    exact lt_of_le_of_lt hle (hadmits.forward last hlast)

theorem kept_run (c : Crypto) (pins : ι → PinnedKey) (presented : List (Presented ι)) :
    Kept pins (run c presented (pinned pins)) :=
  Machine.invariant (Kept pins) (fun _ p h => h.present p) presented (kept_pinned pins)

/-- No store and number are accepted twice, unless two receivers pin one store. -/
theorem accepted_apart (c : Crypto) (pins : ι → PinnedKey) (presented : List (Presented ι)) :
    (run c presented (pinned pins)).accepted.Pairwise fun x y => Apart pins x.1 y.1 →
      (x.2.storeId, x.2.seq) ≠ (y.2.storeId, y.2.seq) := by
  have hkept := kept_run c pins presented
  refine hkept.ascending.imp_of_mem fun {x y} hx hy hlt hapart heq => ?_
  obtain ⟨hstore, hseq⟩ := Prod.mk.inj heq
  rcases hapart with hi | hne
  · have hlt := hlt hi
    omega
  · rw [hkept.storeId x hx, hkept.storeId y hy] at hstore
    exact hne hstore

/-! ### Ids -/

/-- One presentation accepts nothing but what is signed under the pin of its receiver. -/
theorem genuine_present {pins : ι → PinnedKey} {w : Receivers ι} (hkept : Kept pins w)
    (h : ∀ x ∈ w.accepted, Genuine x.2) {p : Presented ι}
    (hsigns : SignsOwnIds c (pins p.receiver) p.assertion) :
    ∀ x ∈ (present c p w).accepted, Genuine x.2 := by
  by_cases hadmits : (w.verifiers p.receiver).Admits c p.assertion p.now
  · have hgenuine : Genuine p.assertion := by
      have hsigned := hadmits.holds.signed
      rw [hkept.pin] at hsigned
      exact hsigns hsigned
    rw [accepted_of_admits hadmits]
    intro x hx
    rcases List.mem_append.mp hx with hx | hx
    · exact h x hx
    · rw [List.mem_singleton.mp hx]
      exact hgenuine
  · rwa [present_of_not_admits hadmits]

/-- Where the pinned keys sign their own ids only, no other is accepted. -/
theorem genuine_run {pins : ι → PinnedKey} {presented : List (Presented ι)}
    (h : ∀ p ∈ presented, SignsOwnIds c (pins p.receiver) p.assertion) :
    ∀ x ∈ (run c presented (pinned pins)).accepted, Genuine x.2 := by
  have hmeets : Machine.Meets (present c) (fun _ p => SignsOwnIds c (pins p.receiver) p.assertion)
      presented (pinned pins) := Machine.meets_of_forall (fun p hp _ => h p hp) _
  have hinvariant := Machine.invariant_of_meets
    (fun w : Receivers ι => Kept pins w ∧ ∀ x ∈ w.accepted, Genuine x.2)
    (fun w p hw hp => ⟨hw.1.present p, genuine_present hw.1 hw.2 hp⟩) presented
    ⟨kept_pinned pins, fun x hx => by cases hx⟩ hmeets
  exact hinvariant.2

/-- The ids of different events differ. Where the pinned keys sign their own ids only, the ids
accepted are the ids of their events, all different across receivers of different stores. And any
foreign id that is signed for a pinned store is accepted by the receiver of that store. -/
theorem accepted_ids (c : Crypto) (pins : ι → PinnedKey) :
    (∀ storeId storeId' seq seq', eventId storeId seq = eventId storeId' seq' →
      storeId = storeId' ∧ seq = seq') ∧
    (∀ presented : List (Presented ι),
      (∀ p ∈ presented, SignsOwnIds c (pins p.receiver) p.assertion) →
        (∀ x ∈ (run c presented (pinned pins)).accepted, Genuine x.2) ∧
          (run c presented (pinned pins)).accepted.Pairwise fun x y =>
            Apart pins x.1 y.1 → x.2.id ≠ y.2.id) ∧
    ∀ p : Presented ι, p.assertion.Holds c (pins p.receiver) p.now → 0 < p.assertion.seq →
      ¬ Genuine p.assertion →
        (run c [p] (pinned pins)).accepted = [(p.receiver, p.assertion)] := by
  refine ⟨fun storeId storeId' seq seq' h => eventId_injective h, fun presented hsigns => ?_,
    fun p hholds hpositive _ => ?_⟩
  · have hgenuine := genuine_run hsigns
    refine ⟨hgenuine, (accepted_apart c pins presented).imp_of_mem
      fun {x y} hx hy hne hapart hid => ?_⟩
    have hx' : x.2.id = eventId x.2.storeId x.2.seq := hgenuine x hx
    have hy' : y.2.id = eventId y.2.storeId y.2.seq := hgenuine y hy
    obtain ⟨hstore, hseq⟩ := eventId_injective (hx'.symm.trans (hid.trans hy'))
    exact hne hapart (Prod.ext hstore hseq)
  · -- a receiver that has accepted nothing yet has no sequence to be ahead of
    have hadmits : ((pinned pins).verifiers p.receiver).Admits c p.assertion p.now :=
      ⟨hholds, hpositive, fun last hlast => by cases hlast⟩
    exact accepted_of_admits hadmits

/-- The first event of a store, under an id. -/
def toyUnsigned (storeId id : String) : FederationAssertion :=
  { FederationAssertion.fromEvent "c" ⟨1, storeId, "i", "p", 0, "created", 0⟩ with id := id }

/-- The assertion signed with the toy key of a byte. -/
def toySigned (secret : UInt8) (storeId id : String) : FederationAssertion :=
  let unsigned := { toyUnsigned storeId id with keyId := "k" }
  { unsigned with
    signature := some (Crypto.plainText (secret :: Crypto.plainBytes unsigned.signingBytes)) }

def toyPin (secret : UInt8) (storeId : String) : PinnedKey :=
  ⟨storeId, "k", Crypto.plainText (List.replicate 32 secret), none⟩

/-- One receiver for the store `s`, the other for the store `t`. -/
def toyPins : Bool → PinnedKey
  | false => toyPin 1 "s"
  | true => toyPin 2 "t"

theorem signFederationAssertion_toy (secret : UInt8) (storeId id : String) :
    signFederationAssertion Crypto.plain (toyUnsigned storeId id) "k"
      (Crypto.plain.ed25519.sign (Crypto.plainSecret secret)) = .ok
      (toySigned secret storeId id) := by
  have hschema : ¬ (toyUnsigned storeId id).schema ≠ assertionSchema := not_not.mpr rfl
  rw [signFederationAssertion, if_neg hschema]
  rfl

/-- A receiver of the toy store lets its first event through, whatever the id. -/
theorem admits_toySigned (secret : UInt8) {storeId : String} (hne : storeId ≠ "") (id : String)
    (now : Int) :
    (FederationVerifier.new (toyPin secret storeId)).Admits Crypto.plain
      (toySigned secret storeId id) now := by
  refine ⟨signFederationAssertion_holds Crypto.plain_correct
    (signFederationAssertion_toy secret storeId id) rfl hne rfl rfl rfl,
    Int.one_pos, fun last hlast => ?_⟩
  cases hlast

/-- The first event of the store `s`, under the id of the first event of `t`. -/
def foreign : Presented Bool := ⟨false, toySigned 1 "s" "t:1", 0⟩

def own : Presented Bool := ⟨true, toySigned 2 "t" "t:1", 0⟩

theorem foreign_own_accepted : (run Crypto.plain [foreign, own] (pinned toyPins)).accepted =
    [(false, foreign.assertion), (true, own.assertion)] := by
  have hforeign : ((pinned toyPins).verifiers foreign.receiver).Admits Crypto.plain
      foreign.assertion foreign.now := admits_toySigned 1 (by decide) "t:1" 0
  have hown : ((present Crypto.plain foreign (pinned toyPins)).verifiers own.receiver).Admits
      Crypto.plain own.assertion own.now := by
    rw [present_other (by decide)]
    exact admits_toySigned 2 (by decide) "t:1" 0
  rw [run, Machine.run_cons, Machine.run_cons, Machine.run_nil, accepted_of_admits hown,
    accepted_of_admits hforeign]
  rfl

/-- The store `s` signs its first event under the id of the first event of `t`; both are accepted,
each by the receiver that pins the store. -/
theorem foreign_id_accepted :
    ∃ x y : Bool × FederationAssertion,
      (run Crypto.plain [⟨x.1, x.2, 0⟩, ⟨y.1, y.2, 0⟩] (pinned toyPins)).accepted = [x, y] ∧
      (toyPins x.1).storeId ≠ (toyPins y.1).storeId ∧
      x.2.id ≠ eventId x.2.storeId x.2.seq ∧ x.2.id = y.2.id := by
  have hstores : (toyPins false).storeId ≠ (toyPins true).storeId := by
    show "s" ≠ "t"
    decide
  have hid : foreign.assertion.id ≠ eventId foreign.assertion.storeId foreign.assertion.seq := by
    show "t:1" ≠ eventId "s" 1
    decide
  exact ⟨(false, foreign.assertion), (true, own.assertion), foreign_own_accepted, hstores, hid, rfl⟩

/-- What a store signs of its own events carries its own id, under whatever pin. -/
theorem signsOwnIds_of_fromEvent {pin : PinnedKey} {company keyId : String} {event : OutboundEvent}
    {sign : String → Except String Signing.Bytes} {signed : FederationAssertion}
    (h : signFederationAssertion c (.fromEvent company event) keyId sign = .ok signed) :
    SignsOwnIds c pin signed := by
  obtain ⟨hstore, hseq, hid⟩ := signFederationAssertion_kept h
  rw [SignsOwnIds, Genuine, hstore, hseq, hid]
  exact fun _ => rfl

/-- The first event of a store under its own id. -/
def genuine (receiver : Bool) (secret : UInt8) (storeId : String) : Presented Bool :=
  ⟨receiver, toySigned secret storeId (eventId storeId 1), 0⟩

theorem signsOwnIds_genuine (pin : PinnedKey) (receiver : Bool) (secret : UInt8)
    (storeId : String) :
    SignsOwnIds Crypto.plain pin (genuine receiver secret storeId).assertion := by
  have hsign : signFederationAssertion Crypto.plain
      (.fromEvent "c" ⟨1, storeId, "i", "p", 0, "created", 0⟩) "k"
      (Crypto.plain.ed25519.sign (Crypto.plainSecret secret)) =
        .ok (toySigned secret storeId (eventId storeId 1)) :=
    signFederationAssertion_toy secret storeId (eventId storeId 1)
  exact signsOwnIds_of_fromEvent hsign

/-- Both stores sign their first events under their own ids. -/
theorem own_ids_accepted :
    (∀ x ∈ (run Crypto.plain [genuine false 1 "s", genuine true 2 "t"]
      (pinned toyPins)).accepted, Genuine x.2) ∧
    (run Crypto.plain [genuine false 1 "s", genuine true 2 "t"]
      (pinned toyPins)).accepted.Pairwise fun x y => Apart toyPins x.1 y.1 → x.2.id ≠ y.2.id := by
  refine (accepted_ids Crypto.plain toyPins).2.1 _ fun p hp => ?_
  rcases List.mem_cons.mp hp with rfl | hp
  · exact signsOwnIds_genuine _ _ _ _
  · rw [List.mem_singleton.mp hp]
    exact signsOwnIds_genuine _ _ _ _

end Receivers

end Marbles.Webhook
