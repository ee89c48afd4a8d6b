import Marbles.Federation.Identity

/-!
# Pinned remotes

A remote is a local pin of a store and its key. It is added from a descriptor that is signed
by the key it carries, and moved to another key by such a descriptor; the key before it then
verifies until its overlap ends. A descriptor text is what reading it gives, a descriptor or
the error of the JSON library.

What a call does to the registry is written in the style of the source: it computes a new registry
and saves it, and an error leaves the file as it was.
-/

namespace Marbles

/-- A registry file of a later version is refused. -/
def remoteRegistryVersion : Nat := 1

/-- Why a registry cannot be read, or a change to it is refused. A refused change reports the first
check that failed and leaves the registry. -/
inductive RemoteRegistryError where
  | invalidName (name : String)
  | invalidEndpoint (endpoint : String)
  | notFound (name : String)
  | exists (name : String)
  | read (reason : String)
  | parse (reason : String)
  | unsupportedVersion (found supported : Nat)
  | emptyStoreId
  | emptyKeyId
  | badPublicKey (keyId : String)
  | identity (error : IdentityError)
  deriving DecidableEq, Repr

/-- A retired key that verifies until its overlap ends. -/
structure RemoteOverlapKey where
  keyId : String
  publicKey : String
  validUntil : Option Int
  deriving DecidableEq, Repr

/-- A pinned store and the locator used to talk to it. The endpoint is where the store was found;
the pin is what it is known by. -/
structure RemoteRecord where
  name : String
  endpoint : String
  storeId : String
  displayName : String
  keyId : String
  publicKey : String
  validUntil : Option Int
  capabilities : List String
  addedAt : Int
  updatedAt : Int
  overlapKeys : List RemoteOverlapKey
  deriving DecidableEq, Repr

/-- The registry file: one record for each remote, in the order they were added. -/
structure RemoteRegistry where
  version : Nat := remoteRegistryVersion
  remotes : List RemoteRecord := []
  deriving DecidableEq, Repr

/-- The text of a descriptor, as the JSON library reads it. -/
abbrev DescriptorJson := Except String StoreDescriptor

/-! ### Records -/

namespace RemoteRecord

/-- The key that new descriptors are expected under; it has an end only once it has been rotated
away. -/
def activePin (self : RemoteRecord) : PinnedKey :=
  ⟨self.storeId, self.keyId, self.publicKey, self.validUntil⟩

/-- The keys the record trusts, the active one first. -/
def pins (self : RemoteRecord) : List PinnedKey :=
  self.activePin :: self.overlapKeys.map fun key =>
    ⟨self.storeId, key.keyId, key.publicKey, key.validUntil⟩

/-- The pin of a key id. -/
def pinOf (self : RemoteRecord) (keyId : String) : Option PinnedKey :=
  self.pins.find? fun pin => pin.keyId = keyId

/-- The record of a remote at first contact. The key of the descriptor is pinned without expiry and
there is no overlap yet. -/
def first (name endpoint : String) (descriptor : StoreDescriptor) (now : Int) : RemoteRecord :=
  { name := name
    endpoint := endpoint
    storeId := descriptor.storeId
    displayName := descriptor.displayName
    keyId := descriptor.keyId
    publicKey := descriptor.publicKey
    validUntil := none
    capabilities := descriptor.capabilities
    addedAt := now
    updatedAt := now
    overlapKeys := [] }

/-- What the record takes over from a descriptor of the key it pins. -/
def refresh (self : RemoteRecord) (descriptor : StoreDescriptor) (now : Int) : RemoteRecord :=
  { self with
    displayName := descriptor.displayName
    capabilities := descriptor.capabilities
    updatedAt := now }

/-- The record with the key of the descriptor; the key before it stays until the overlap ends,
or until an earlier end it already had. -/
def moveTo (self : RemoteRecord) (descriptor : StoreDescriptor) (overlapUntil now : Int) :
    RemoteRecord :=
  let oldValidUntil := match self.validUntil with
    | some existing => some (min existing overlapUntil)
    | none => some overlapUntil
  { self with
    displayName := descriptor.displayName
    keyId := descriptor.keyId
    publicKey := descriptor.publicKey
    validUntil := none
    capabilities := descriptor.capabilities
    updatedAt := now
    overlapKeys := self.overlapKeys ++ [⟨self.keyId, self.publicKey, oldValidUntil⟩] }

/-- Verify a descriptor of the remote offline. The key is looked up by its id among the pinned ones,
the overlapping ones included. -/
def verify (c : Crypto) (self : RemoteRecord) (descriptorJson : DescriptorJson) (now : Int) :
    Except RemoteRegistryError StoreDescriptor := do
  let descriptor ← descriptorJson.mapError fun reason => .identity (.json reason)
  if descriptor.storeId ≠ self.storeId then
    .error (.identity (.storeMismatch self.storeId descriptor.storeId))
  else
    let pin ← Except.okOr (.identity (.keyMismatch self.keyId descriptor.keyId))
      (self.pinOf descriptor.keyId)
    (verifyDescriptor c descriptor pin now).mapError .identity

end RemoteRecord

/-! ### Descriptors of first contact -/

/-- A name is part of a path and of a command line, so it has neither blanks nor slashes. -/
def validateRemoteName (name : String) : Except RemoteRegistryError String :=
  let name := trim name
  if name = "" ∨ name.toList.any isWhitespace ∨ '/' ∈ name.toList then .error (.invalidName name)
  else .ok name

/-- Trimmed, and not empty; whether it can be reached is not asked. -/
def validateEndpoint (endpoint : String) : Except RemoteRegistryError String :=
  let endpoint := trim endpoint
  if endpoint = "" then .error (.invalidEndpoint endpoint) else .ok endpoint

/-- The key has to be 32 bytes that the library takes for a key, so that no pin holds one that
cannot verify anything. -/
def validatePublicKey (c : Crypto) (keyId encoded : String) : Except RemoteRegistryError Unit := do
  let raw ← (c.urlSafe.decode encoded).mapError fun _ => .badPublicKey keyId
  if raw.length ≠ 32 then .error (.badPublicKey keyId)
  else
    let _ ← (c.ed25519.publicKey raw).mapError fun _ => .badPublicKey keyId
    .ok ()

/-- Whoever made the descriptor holds the private half of the key it carries. -/
def verifySelfSignedDescriptor (c : Crypto) (descriptorJson : DescriptorJson) (now : Int) :
    Except RemoteRegistryError StoreDescriptor := do
  let descriptor ← descriptorJson.mapError fun reason => .identity (.json reason)
  if trim descriptor.storeId = "" then .error .emptyStoreId
  else if trim descriptor.keyId = "" then .error .emptyKeyId
  else
    validatePublicKey c descriptor.keyId descriptor.publicKey
    let pin : PinnedKey := ⟨descriptor.storeId, descriptor.keyId, descriptor.publicKey, none⟩
    (verifyDescriptor c descriptor pin now).mapError .identity

/-! ### The registry -/

/-- The first record of a name, with its position. -/
def locate (name : String) : List RemoteRecord → Option (Nat × RemoteRecord)
  | [] => none
  | record :: remotes =>
      if record.name = name then some (0, record)
      else (locate name remotes).map fun found => (found.1 + 1, found.2)

/-- Why a file was not read. -/
inductive FileError where
  | notFound
  | other (reason : String)
  deriving DecidableEq, Repr

namespace RemoteRegistry

/-- `load`, from what reading the file and its JSON give. A missing file is an empty registry. A
file of a later version is refused, since what it holds might be misread. -/
def load (file : Except FileError (Except String RemoteRegistry)) :
    Except RemoteRegistryError RemoteRegistry :=
  match file with
  | .error .notFound => .ok {}
  | .error (.other reason) => .error (.read reason)
  | .ok (.error reason) => .error (.parse reason)
  | .ok (.ok registry) =>
      if registry.version > remoteRegistryVersion then
        .error (.unsupportedVersion registry.version remoteRegistryVersion)
      else .ok registry

/-- The first record of the name. -/
def get (self : RemoteRegistry) (name : String) : Option RemoteRecord :=
  self.remotes.find? fun record => record.name = name

/-- Where a record is, for the operations that replace it. -/
def position (self : RemoteRegistry) (name : String) :
    Except RemoteRegistryError (Nat × RemoteRecord) :=
  Except.okOr (.notFound name) (locate name self.remotes)

/-- Pin a remote after verifying its descriptor. Trust on first use: the descriptor has only its own
key to be checked against. -/
def add (c : Crypto) (name endpoint : String) (descriptorJson : DescriptorJson) (now : Int) :
    Mutation RemoteRegistry RemoteRegistryError RemoteRecord := do
  let name ← validateRemoteName name
  let endpoint ← validateEndpoint endpoint
  let self ← MonadState.get
  if (self.get name).isSome then throw (.exists name)
  else
    let descriptor ← verifySelfSignedDescriptor c descriptorJson now
    let record := RemoteRecord.first name endpoint descriptor now
    set { self with remotes := self.remotes ++ [record] }
    return record

/-- Remove the local pin. -/
def remove (name : String) : Mutation RemoteRegistry RemoteRegistryError RemoteRecord := do
  let self ← MonadState.get
  let found ← self.position name
  set { self with remotes := self.remotes.eraseIdx found.1 }
  return found.2

/-- Move a pin to the key of a descriptor, the old key verifying until the overlap ends. The
descriptor has to be of the same store, and a key that was left is not taken back. -/
def rotate (c : Crypto) (name : String) (descriptorJson : DescriptorJson)
    (expectedPublicKey : Option String) (overlapSeconds now : Int) :
    Mutation RemoteRegistry RemoteRegistryError RotationRecord := do
  let self ← MonadState.get
  let found ← self.position name
  let descriptor ← verifySelfSignedDescriptor c descriptorJson now
  if expectedPublicKey.any (· ≠ descriptor.publicKey) then
    throw (.identity (.publicKeyMismatch descriptor.keyId))
  else
    let index := found.1
    let record := found.2
    if descriptor.storeId ≠ record.storeId then
      throw (.identity (.storeMismatch record.storeId descriptor.storeId))
    else if descriptor.keyId = record.keyId then
      -- taken for the same key re-issued: refresh what is advertised, keep the pin
      set { self with remotes := self.remotes.set index (record.refresh descriptor now) }
      return ⟨record.keyId, record.keyId, now, record.validUntil.getD now⟩
    else if record.overlapKeys.any (·.keyId = descriptor.keyId) then
      throw (.identity (.keyRetired descriptor.keyId (record.validUntil.getD now)))
    else
      let overlapUntil := StoreIdentity.overlapUntil now overlapSeconds
      let rotated := record.moveTo descriptor overlapUntil now
      set { self with remotes := self.remotes.set index rotated }
      return ⟨record.keyId, rotated.keyId, now, overlapUntil⟩

/-- Verify a descriptor that claims to come from the remote of a name. -/
def verify (c : Crypto) (self : RemoteRegistry) (name : String) (descriptorJson : DescriptorJson)
    (now : Int) : Except RemoteRegistryError StoreDescriptor := do
  let record ← Except.okOr (.notFound name) (self.get name)
  record.verify c descriptorJson now

end RemoteRegistry

end Marbles
