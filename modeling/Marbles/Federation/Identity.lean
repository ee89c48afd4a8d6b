import Marbles.Lib.Machine
import Marbles.Store
import Marbles.Federation.Crypto

/-!
# Store identities

A store owns named Ed25519 keys and signs a descriptor of itself with the active one. A
verifier pins a key; `verifyDescriptor` accepts a descriptor under a pin until the pin's
overlap ends. Rotating retires the active key at an instant and makes a new one active.

The identity file and its permissions are not modelled. Randomness is: the bytes of a new
store id and every new key pair are what the system gave, or its error.

The checks of `verifyDescriptor` are made in the order of the source, and each has an error of its
own. Time only enters through the end of the overlap, which is compared with the verifier's clock
and not with the time in the descriptor.
-/

namespace Marbles

open Json (Value)
open Signing

/-- The schema is part of what is signed, so a descriptor cannot be taken for a record of another
kind. -/
def descriptorSchema : String := "marbles.store/1"

/-- The version written to the identity file. -/
def identityFileVersion : Nat := 1

/-- Why an identity cannot be used or a descriptor is not accepted. The first check that fails is
the one that is reported. -/
inductive IdentityError where
  | unknownKey (keyId : String)
  | wrongSchema (found : String)
  | storeMismatch (expected found : String)
  | keyMismatch (expected found : String)
  | publicKeyMismatch (keyId : String)
  | keyRetired (keyId : String) (validUntil : Int)
  | unsignedDescriptor
  | malformedSignature (reason : String)
  | badSignature (keyId : String)
  | crypto (reason : String)
  | random (reason : String)
  | base64 (reason : String)
  | json (reason : String)
  deriving DecidableEq, Repr

/-- One named key of a store. Retired keys stay in the file, so that their ids are never given
again. -/
structure IdentityKey where
  keyId : String
  /-- The raw public key, in the URL-safe alphabet. -/
  publicKey : String
  /-- The private key in DER, in the standard alphabet. -/
  privateKey : String
  createdAt : Int
  /-- The instant from which the key no longer verifies. -/
  retiredAt : Option Int
  deriving DecidableEq, Repr

/-- What a rotation leaves behind: both keys, and until when the old one verifies. -/
structure RotationRecord where
  oldKeyId : String
  newKeyId : String
  rotatedAt : Int
  overlapUntil : Int
  deriving DecidableEq, Repr

/-- The identity file. Retired keys stay in it with the end of their overlap; which of them is
active is told by id. -/
structure StoreIdentity where
  version : Nat
  storeId : String
  displayName : String
  endpoint : Option String
  capabilities : List String
  issuedAt : Int
  activeKeyId : String
  keys : List IdentityKey
  rotations : List RotationRecord
  deriving DecidableEq, Repr

/-- The public, signed descriptor of a store. It carries the key that signs it, so first contact can
check it and a pin can later demand it. -/
structure StoreDescriptor where
  schema : String
  storeId : String
  displayName : String
  endpoint : Option String
  keyId : String
  publicKey : String
  capabilities : List String
  issuedAt : Int
  signature : Option String
  deriving DecidableEq, Repr

/-- What an offline verifier pins. -/
structure PinnedKey where
  storeId : String
  keyId : String
  publicKey : String
  /-- The instant from which the key is no longer trusted. -/
  validUntil : Option Int
  deriving DecidableEq, Repr

/-- What the one who sets up a store decides about it. -/
structure InitOptions where
  displayName : String
  endpoint : Option String := none
  capabilities : List String := ["issues", "claims", "plans"]

/-! ### Descriptors -/

/-- The text the signature covers: every field but the signature, in the order of their
declaration. An absent endpoint is left out. -/
def StoreDescriptor.signingBytes (d : StoreDescriptor) : String :=
  let endpoint := d.endpoint.toList.map fun endpoint => ("endpoint", Value.str endpoint)
  Value.text (.obj ([("schema", .str d.schema), ("store_id", .str d.storeId),
    ("display_name", .str d.displayName)] ++ endpoint ++ [("key_id", .str d.keyId),
    ("public_key", .str d.publicKey), ("capabilities", .arr (d.capabilities.map .str)),
    ("issued_at", .num d.issuedAt)]))

/-- The end of the overlap of a pin that has passed it. -/
def PinnedKey.retired (pin : PinnedKey) (now : Int) : Option Int :=
  pin.validUntil.filter fun validUntil => validUntil ≤ now

/-- The error a descriptor gets for a signature fault. -/
def IdentityError.ofFault (keyId : String) : Crypto.SignatureFault → IdentityError
  | .unsigned => .unsignedDescriptor
  | .malformed reason => .malformedSignature reason
  | .crypto reason => .crypto reason
  | .bad => .badSignature keyId

/-- The last step of the verification: the signature under the key the descriptor carries. -/
def StoreDescriptor.checkSignature (c : Crypto) (descriptor : StoreDescriptor) :
    Except IdentityError StoreDescriptor := do
  (c.verifySignature descriptor.signature descriptor.publicKey
    descriptor.signingBytes).mapError (IdentityError.ofFault descriptor.keyId)
  return descriptor

/-- The checks in the order of the source. That the key is retired is looked at before the
signature, so an old descriptor under a retired key is never verified. -/
def verifyDescriptor (c : Crypto) (descriptor : StoreDescriptor) (pin : PinnedKey) (now : Int) :
    Except IdentityError StoreDescriptor :=
  if descriptor.schema ≠ descriptorSchema then .error (.wrongSchema descriptor.schema)
  else if pin.storeId = "" ∨ descriptor.storeId ≠ pin.storeId then
    .error (.storeMismatch pin.storeId descriptor.storeId)
  else if descriptor.keyId ≠ pin.keyId then .error (.keyMismatch pin.keyId descriptor.keyId)
  else if descriptor.publicKey ≠ pin.publicKey then .error (.publicKeyMismatch pin.keyId)
  else match pin.retired now with
    | some validUntil => .error (.keyRetired pin.keyId validUntil)
    | none => descriptor.checkSignature c

/-! ### Keys -/

namespace IdentityKey

/-- The name of the key a store makes as its `ordinal`-th. -/
def keyName (storeId : String) (ordinal : Nat) : String := s!"{storeId}/key-{ordinal}"

/-- `generate`, with the key pair the system made. -/
def generate (c : Crypto) (fresh : Except String c.ed25519.Secret) (storeId : String)
    (ordinal : Nat) (now : Int) : Except IdentityError IdentityKey := do
  let key ← fresh.mapError .crypto
  .ok { keyId := keyName storeId ordinal
        publicKey := c.urlSafe.encode (c.ed25519.publicBytes key)
        privateKey := c.standard.encode (c.ed25519.secretBytes key)
        createdAt := now
        retiredAt := none }

/-- `private_key()`: the stored private key, read back. -/
def readPrivateKey (c : Crypto) (key : IdentityKey) : Except IdentityError c.ed25519.Secret := do
  let der ← (c.standard.decode key.privateKey).mapError .base64
  (c.ed25519.secretKey der).mapError .crypto

end IdentityKey

/-! ### Identities -/

namespace StoreIdentity

/-- `new_store_id`, from twelve random bytes. -/
def newStoreId (entropy : Except String Bytes) : Except IdentityError String := do
  let bytes ← entropy.mapError .random
  .ok ("store_" ++ hex bytes)

/-- A store starts with one key, its first by name. The id comes from entropy and the name of its
key from the id. -/
def create (c : Crypto) (entropy : Except String Bytes)
    (fresh : Except String c.ed25519.Secret) (opts : InitOptions) (now : Int) :
    Except IdentityError StoreIdentity := do
  let storeId ← newStoreId entropy
  let key ← IdentityKey.generate c fresh storeId 1 now
  .ok { version := identityFileVersion
        storeId := storeId
        displayName := opts.displayName
        endpoint := opts.endpoint
        capabilities := opts.capabilities
        issuedAt := now
        activeKeyId := key.keyId
        keys := [key]
        rotations := [] }

/-- The active key is found by its id, which a file written by hand may not contain. -/
def activeKey (self : StoreIdentity) : Except IdentityError IdentityKey :=
  Except.okOr (.unknownKey self.activeKeyId)
    (self.keys.find? fun key => key.keyId = self.activeKeyId)

/-- Build and sign a descriptor with the active key. Only the active key signs, also during an
overlap. -/
def descriptor (c : Crypto) (self : StoreIdentity) (now : Int) :
    Except IdentityError StoreDescriptor := do
  let key ← self.activeKey
  let descriptor : StoreDescriptor :=
    { schema := descriptorSchema
      storeId := self.storeId
      displayName := self.displayName
      endpoint := self.endpoint
      keyId := key.keyId
      publicKey := key.publicKey
      capabilities := self.capabilities
      issuedAt := now
      signature := none }
  let signingKey ← key.readPrivateKey c
  let signature ← (c.ed25519.sign signingKey descriptor.signingBytes).mapError .crypto
  .ok { descriptor with signature := some (c.urlSafe.encode signature) }

/-- The pin a verifier should record for a key. -/
def pin (self : StoreIdentity) (keyId : String) : Except IdentityError PinnedKey := do
  let key ← Except.okOr (.unknownKey keyId) (self.keys.find? fun key => key.keyId = keyId)
  .ok { storeId := self.storeId
        keyId := key.keyId
        publicKey := key.publicKey
        validUntil := key.retiredAt }

/-- What a verifier should record now. -/
def activePin (self : StoreIdentity) : Except IdentityError PinnedKey := self.pin self.activeKeyId

/-- The end of the overlap of a rotation. -/
def overlapUntil (now overlapSeconds : Int) : Int := satI64 (now + max overlapSeconds 0)

/-- Set the retirement of a key; an earlier one stays. -/
def retire (overlapUntil : Int) (key : IdentityKey) : IdentityKey :=
  { key with retiredAt := some (match key.retiredAt with
      | some existing => min existing overlapUntil
      | none => overlapUntil) }

/-- Rotate to a newly named key, retiring the active one after the overlap. The new key has the next
number, and a retired one is never made active again. -/
def rotate (c : Crypto) (fresh : Except String c.ed25519.Secret) (now overlapSeconds : Int) :
    Mutation StoreIdentity IdentityError RotationRecord := do
  let self ← get
  let oldKey ← self.activeKey
  let overlapUntil := overlapUntil now overlapSeconds
  let newKey ← IdentityKey.generate c fresh self.storeId (self.keys.length + 1) now
  let record : RotationRecord :=
    { oldKeyId := oldKey.keyId
      newKeyId := newKey.keyId
      rotatedAt := now
      overlapUntil := overlapUntil }
  let keys := self.keys.map fun key =>
    if key.keyId = oldKey.keyId then retire overlapUntil key else key
  set { self with
    issuedAt := now
    activeKeyId := newKey.keyId
    keys := keys ++ [newKey]
    rotations := self.rotations ++ [record] }
  return record

/-- The active key and every key still inside its overlap. -/
def trustedKeysAt (self : StoreIdentity) (now : Int) : List IdentityKey :=
  self.keys.filter fun key => key.retiredAt.all (now < ·)

end StoreIdentity

/-! ### Looking keys up -/

/-- In a list without repeated keys, an item is what a search for its key finds. -/
theorem find?_of_nodup {α κ : Type} [DecidableEq κ] {key : α → κ} {a : α} {l : List α}
    (hl : (l.map key).Nodup) (ha : a ∈ l) : l.find? (fun b => key b = key a) = some a := by
  induction l with
  | nil => cases ha
  | cons b l ih =>
      rw [List.map_cons, List.nodup_cons] at hl
      rcases List.mem_cons.mp ha with rfl | hmem
      · rw [List.find?_cons_of_pos (by simp)]
      · -- the search passes over an item with another key
        have hne : key b ≠ key a := fun heq => hl.1 (heq ▸ List.mem_map_of_mem hmem)
        rw [List.find?_cons_of_neg (by simpa using hne)]
        exact ih hl.2 hmem

/-! ### Accepting a descriptor -/

@[simp] theorem PinnedKey.retired_eq_none {pin : PinnedKey} {now : Int} :
    pin.retired now = none ↔ ∀ validUntil, pin.validUntil = some validUntil → now < validUntil := by
  rw [PinnedKey.retired]
  cases pin.validUntil with
  | none => simp
  | some validUntil => simp [Option.filter]

/-- The descriptor is of the store, the key and the key material of the pin. -/
structure StoreDescriptor.Matches (descriptor : StoreDescriptor) (pin : PinnedKey) : Prop where
  schema : descriptor.schema = descriptorSchema
  pinned : pin.storeId ≠ ""
  storeId : descriptor.storeId = pin.storeId
  keyId : descriptor.keyId = pin.keyId
  publicKey : descriptor.publicKey = pin.publicKey

@[simp] theorem StoreDescriptor.checkSignature_eq_ok {c : Crypto}
    {descriptor descriptor' : StoreDescriptor} :
    descriptor.checkSignature c = .ok descriptor' ↔ descriptor' = descriptor ∧
      c.Signed descriptor.signature descriptor.publicKey descriptor.signingBytes := by
  simp only [StoreDescriptor.checkSignature, Except.bind_eq_ok, Except.mapError_eq_ok,
    ← Crypto.verifySignature_eq_ok]
  constructor
  · intro h
    obtain ⟨_, hsigned, hok⟩ := h
    exact ⟨(Except.ok.inj hok).symm, hsigned⟩
  · intro h
    obtain ⟨rfl, hsigned⟩ := h
    exact ⟨(), hsigned, rfl⟩

/-- Past the comparisons, the pin's overlap and the signature decide. -/
theorem verifyDescriptor_of_matches {c : Crypto} {descriptor : StoreDescriptor} {pin : PinnedKey}
    (h : descriptor.Matches pin) (now : Int) :
    verifyDescriptor c descriptor pin now =
      match pin.retired now with
      | some validUntil => .error (.keyRetired pin.keyId validUntil)
      | none => descriptor.checkSignature c := by
  have hstore : ¬ (pin.storeId = "" ∨ descriptor.storeId ≠ pin.storeId) := by
    simp [h.pinned, h.storeId]
  rw [verifyDescriptor, if_neg (not_not.mpr h.schema), if_neg hstore,
    if_neg (not_not.mpr h.keyId), if_neg (not_not.mpr h.publicKey)]

/-- A descriptor is accepted exactly when it matches the pin, the pin has not retired and the
signature verifies under the pinned key. -/
theorem verifyDescriptor_eq_ok {c : Crypto} {descriptor descriptor' : StoreDescriptor}
    {pin : PinnedKey} {now : Int} :
    verifyDescriptor c descriptor pin now = .ok descriptor' ↔
      descriptor' = descriptor ∧ descriptor.Matches pin ∧ pin.retired now = none ∧
        c.Signed descriptor.signature descriptor.publicKey descriptor.signingBytes := by
  constructor
  · intro h
    have hmatches : descriptor.Matches pin := by
      simp only [verifyDescriptor, Except.ite_error_eq_ok, not_not, not_or] at h
      obtain ⟨hschema, ⟨hpinned, hstore⟩, hkey, hpublic, -⟩ := h
      exact ⟨hschema, hpinned, hstore, hkey, hpublic⟩
    rw [verifyDescriptor_of_matches hmatches] at h
    cases hretired : pin.retired now with
    | some validUntil =>
        rw [hretired] at h
        cases h
    | none =>
        rw [hretired] at h
        obtain ⟨heq, hsigned⟩ := StoreDescriptor.checkSignature_eq_ok.mp h
        exact ⟨heq, hmatches, rfl, hsigned⟩
  · intro h
    obtain ⟨rfl, hmatches, hretired, hsigned⟩ := h
    rw [verifyDescriptor_of_matches hmatches, hretired]
    exact StoreDescriptor.checkSignature_eq_ok.mpr ⟨rfl, hsigned⟩

/-- Under a retired pin, a matching descriptor is refused for that reason. -/
theorem verifyDescriptor_retired {c : Crypto} {descriptor : StoreDescriptor} {pin : PinnedKey}
    {now validUntil : Int} (h : descriptor.Matches pin)
    (hretired : pin.retired now = some validUntil) :
    verifyDescriptor c descriptor pin now = .error (.keyRetired pin.keyId validUntil) := by
  rw [verifyDescriptor_of_matches h, hretired]

end Marbles
