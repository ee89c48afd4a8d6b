import Marbles.Lib.Canonical
import Marbles.Lib.Machine
import Marbles.Store
import Marbles.Federation.Crypto

/-!
# Signed snapshots

A signer hashes the canonical text of a body, puts the hash into a manifest with a sequence
number and the hash of the body before it, and signs the canonical manifest. A verifier pins
a store, a company and a key; it remembers the sequence number and the body hash it accepted
last, and accepts a newer number that carries that hash.

The chain is over bodies and not over manifests: what is carried to the next snapshot is the hash
of the body alone. A verifier that is new has accepted nothing, and takes the first snapshot only
if it carries no hash.
-/

namespace Marbles

open Json (Value)
open Signing

/-- The schema is part of the signed manifest. -/
def snapshotSchema : String := "marbles.snapshot/1"

/-- The largest `u64`. -/
def u64Max : Nat := 2 ^ 64 - 1

/-- Why a snapshot is not accepted, with what was found and what was expected. The first check that
fails is the one that is reported. -/
inductive SnapshotError where
  | crypto (reason : String)
  | unsupportedSchema (schema : String)
  | wrongStore (actual expected : String)
  | wrongCompany (actual expected : Option String)
  | wrongKeyId (actual expected : String)
  | badSignatureEncoding (reason : String)
  | badSignature
  | bodyHashMismatch (manifest actual : String)
  | replayed (seq lastSeq : Nat)
  | invalidFirstSequence (seq : Nat)
  | prevHashMismatch (actual expected : Option String)
  deriving DecidableEq, Repr

/-! ### Bodies -/

/-- A project as a snapshot lists it. -/
structure SnapshotProject where
  slug : String
  root : String
  idPrefix : String
  deriving DecidableEq, Repr

/-- An edge, as a row of its own: the bodies of issues carry them too. -/
structure SnapshotDependency where
  issueId : String
  dependsOn : String
  deriving DecidableEq, Repr

/-- Issue counts by status, in the order of the statuses' names. -/
abbrev StatusCounts := List (String × Nat)

/-- The counts of one project. -/
structure ProjectSummary where
  project : String
  total : Nat
  byStatus : StatusCounts
  deriving DecidableEq, Repr

/-- The counts of all projects. -/
structure PortfolioSummary where
  total : Nat
  byStatus : StatusCounts
  projects : List ProjectSummary
  folders : Nat
  deriving DecidableEq, Repr

/-- The signed payload. It is whole by itself: a reader needs no other request to show it. -/
structure SnapshotBody where
  projects : List SnapshotProject
  folders : List Folder
  projectFolders : List ProjectFolder
  issues : List Issue
  dependencies : List SnapshotDependency
  summary : PortfolioSummary
  deriving DecidableEq

/-! ### Bodies as JSON -/

def SnapshotProject.toValue (p : SnapshotProject) : Value :=
  .ofFields [("slug", .str p.slug), ("root", .str p.root), ("prefix", .str p.idPrefix)]

/-- A folder without a parent has no such field. -/
def Folder.toValue (f : Folder) : Value :=
  .ofFields ([("slug", .str f.slug), ("name", .str f.name)] ++
    f.parent.toList.map (fun parent => ("parent", .str parent)) ++
    [("created_at", .num f.createdAt)])

def ProjectFolder.toValue (p : ProjectFolder) : Value :=
  .ofFields [("project", .str p.project), ("folder", .str p.folder)]

def Dependency.toValue (d : Dependency) : Value :=
  .ofFields [("depends_on_id", .ofStr? d.dependsOnId)]

def Evidence.toValue (e : Evidence) : Value :=
  .ofFields [("kind", .str e.kind), ("value", .str e.value)]

/-- An issue without an external reference has no such field; every other absent value is a
`null`. -/
def Issue.toValue (i : Issue) : Value :=
  .ofFields ([("id", .str i.id), ("title", .str i.title), ("description", .str i.description),
    ("status", .str i.status), ("priority", .num i.priority), ("issue_type", .str i.issueType),
    ("labels", .arr (i.labels.map .str)), ("metadata", i.metadata)] ++
    i.externalRef.toList.map (fun reference => ("external_ref", .str reference)) ++
    [("dependency_count", .num i.dependencyCount), ("dependent_count", .num i.dependentCount),
    ("dependencies", .arr (i.dependencies.map Dependency.toValue)),
    ("evidence", .arr (i.evidence.map Evidence.toValue)), ("parent", .ofStr? i.parent),
    ("assignee", .ofStr? i.assignee), ("actor_kind", .ofStr? i.actorKind),
    ("expires_at", .ofInt? i.expiresAt), ("available_at", .ofInt? i.availableAt),
    ("closed_at", .ofInt? i.closedAt), ("created_at", .num i.createdAt),
    ("updated_at", .num i.updatedAt), ("project", .str i.project)])

def SnapshotDependency.toValue (d : SnapshotDependency) : Value :=
  .ofFields [("issue_id", .str d.issueId), ("depends_on", .str d.dependsOn)]

def StatusCounts.toValue (counts : StatusCounts) : Value :=
  .ofFields (counts.map fun count => (count.1, .num count.2))

def ProjectSummary.toValue (s : ProjectSummary) : Value :=
  .ofFields [("project", .str s.project), ("total", .num s.total),
    ("by_status", StatusCounts.toValue s.byStatus)]

def PortfolioSummary.toValue (s : PortfolioSummary) : Value :=
  .ofFields [("total", .num s.total), ("by_status", StatusCounts.toValue s.byStatus),
    ("projects", .arr (s.projects.map ProjectSummary.toValue)), ("folders", .num s.folders)]

def SnapshotBody.toValue (b : SnapshotBody) : Value :=
  .ofFields [("projects", .arr (b.projects.map SnapshotProject.toValue)),
    ("folders", .arr (b.folders.map Folder.toValue)),
    ("project_folders", .arr (b.projectFolders.map ProjectFolder.toValue)),
    ("issues", .arr (b.issues.map Issue.toValue)),
    ("dependencies", .arr (b.dependencies.map SnapshotDependency.toValue)),
    ("summary", b.summary.toValue)]

/-- The canonical text of a body. -/
def SnapshotBody.canonicalJson (b : SnapshotBody) : String := b.toValue.canonical

/-! ### Manifests -/

/-- What is signed. It binds the body by its hash and the snapshot before it by `prevHash`. The body
can so be checked without being part of what is signed. -/
structure SnapshotManifest where
  schema : String
  storeId : String
  company : Option String
  observedAt : Int
  seq : Nat
  prevHash : Option String
  bodySha256 : String
  signature : String
  keyId : String
  deriving DecidableEq, Repr

/-- A manifest and the body it speaks of; that they belong together is checked, not assumed. -/
structure SignedSnapshot where
  manifest : SnapshotManifest
  body : SnapshotBody
  deriving DecidableEq

/-- What the signer assigns to a snapshot. -/
structure SnapshotMeta where
  storeId : String
  company : Option String
  observedAt : Int
  seq : Nat
  prevHash : Option String
  deriving DecidableEq, Repr

/-- `SnapshotMeta::first`: sequence 1, no previous hash. -/
def SnapshotMeta.first (storeId : String) (company : Option String) (observedAt : Int) :
    SnapshotMeta := ⟨storeId, company, observedAt, 1, none⟩

/-- `SnapshotMeta::after`: the next sequence number, saturating, and the previous body hash. -/
def SnapshotMeta.after (previous : SnapshotManifest) (observedAt : Int) : SnapshotMeta :=
  ⟨previous.storeId, previous.company, observedAt, min (previous.seq + 1) u64Max,
    some previous.bodySha256⟩

/-- The text the signature covers: the canonical manifest without its signature. -/
def SnapshotManifest.signingPayload (m : SnapshotManifest) : String :=
  Value.canonical (.ofFields [("schema", .str m.schema), ("store_id", .str m.storeId),
    ("company", .ofStr? m.company), ("observed_at", .num m.observedAt), ("seq", .num m.seq),
    ("prev_hash", .ofStr? m.prevHash), ("body_sha256", .str m.bodySha256),
    ("key_id", .str m.keyId)])

/-- `normalize_hash`: absent, empty and all-zero hashes all mean that there is none. -/
def normalizeHash (hash : Option String) : Option String :=
  match hash.map trim with
  | none => none
  | some hash =>
      if hash = "" then none
      else if hash.toList.all (· = '0') then none
      else some (String.ofList (hash.toList.map Char.toLower))

/-! ### Signing -/

/-- The signer boundary. -/
structure SnapshotSigner where
  keyId : String
  sign : String → Except String Bytes

/-- A signer with an Ed25519 key. -/
structure Ed25519Signer (c : Crypto) where
  key : c.ed25519.Secret
  keyId : String

def Ed25519Signer.signer {c : Crypto} (s : Ed25519Signer c) : SnapshotSigner :=
  ⟨s.keyId, c.ed25519.sign s.key⟩

/-- The raw public key a verifier pins. -/
def Ed25519Signer.publicKey {c : Crypto} (s : Ed25519Signer c) : Bytes :=
  c.ed25519.publicBytes s.key

/-- The hash of a body. -/
def SnapshotBody.sha256 (c : Crypto) (b : SnapshotBody) : String := c.hexDigest b.canonicalJson

/-- The signature is empty while the payload is made, since it is not part of it. -/
def signSnapshot (c : Crypto) (body : SnapshotBody) (snapshotMeta : SnapshotMeta)
    (signer : SnapshotSigner) : Except SnapshotError SignedSnapshot := do
  let manifest : SnapshotManifest :=
    { schema := snapshotSchema
      storeId := snapshotMeta.storeId
      company := snapshotMeta.company
      observedAt := snapshotMeta.observedAt
      seq := snapshotMeta.seq
      prevHash := normalizeHash snapshotMeta.prevHash
      bodySha256 := body.sha256 c
      signature := ""
      keyId := signer.keyId }
  let signature ← (signer.sign manifest.signingPayload).mapError .crypto
  .ok ⟨{ manifest with signature := c.standard.encode signature }, body⟩

/-! ### Verifying -/

/-- Whose snapshots are accepted, and under which key. -/
structure VerifierConfig where
  storeId : String
  company : Option String
  keyId : String
  publicKey : Bytes
  deriving DecidableEq, Repr

/-- What a verifier hands on. -/
structure VerifiedSnapshot where
  manifest : SnapshotManifest
  body : SnapshotBody
  bodySha256 : String
  deriving DecidableEq

/-- A verifier and how far it has come: the sequence and the hash that the next snapshot has to
follow. -/
structure SnapshotVerifier where
  config : VerifierConfig
  lastSeq : Nat
  lastBodySha256 : Option String
  deriving DecidableEq, Repr

/-- Unlike in the check of descriptors and assertions, a failure inside the verification is an error
of its own. -/
def verifyEd25519 (c : Crypto) (publicKey : Bytes) (payload : String) (signature : Bytes) :
    Except SnapshotError Unit := do
  let key ← (c.ed25519.publicKey publicKey).mapError .crypto
  let valid ← (c.ed25519.verify key signature payload).mapError .crypto
  if valid then .ok () else .error .badSignature

namespace SnapshotVerifier

/-- Nothing has been accepted yet, so the first sequence has to be 1. -/
def new (config : VerifierConfig) : SnapshotVerifier := ⟨config, 0, none⟩

/-- Verify a snapshot and, on success, record it as the newest accepted one. Nothing is recorded
unless all checks pass, so a refused snapshot can be tried again. -/
def verify (c : Crypto) (snapshot : SignedSnapshot) :
    Mutation SnapshotVerifier SnapshotError VerifiedSnapshot := do
  let self ← get
  let manifest := snapshot.manifest
  if manifest.schema ≠ snapshotSchema then throw (.unsupportedSchema manifest.schema)
  else if manifest.storeId ≠ self.config.storeId then
    throw (.wrongStore manifest.storeId self.config.storeId)
  else if manifest.company ≠ self.config.company then
    throw (.wrongCompany manifest.company self.config.company)
  else if manifest.keyId ≠ self.config.keyId then
    throw (.wrongKeyId manifest.keyId self.config.keyId)
  else if manifest.seq ≤ self.lastSeq then throw (.replayed manifest.seq self.lastSeq)
  else if self.lastSeq = 0 ∧ manifest.seq ≠ 1 then throw (.invalidFirstSequence manifest.seq)
  else
    let bodySha256 := snapshot.body.sha256 c
    if bodySha256 ≠ manifest.bodySha256 then
      throw (.bodyHashMismatch manifest.bodySha256 bodySha256)
    else
      let expectedPrev := if self.lastSeq = 0 then none else self.lastBodySha256
      let actualPrev := normalizeHash manifest.prevHash
      if actualPrev ≠ expectedPrev then throw (.prevHashMismatch actualPrev expectedPrev)
      else
        let signature ← liftM ((c.standard.decode manifest.signature).mapError
          SnapshotError.badSignatureEncoding)
        liftM (verifyEd25519 c self.config.publicKey manifest.signingPayload signature)
        set { self with lastSeq := manifest.seq, lastBodySha256 := some bodySha256 }
        return ⟨manifest, snapshot.body, bodySha256⟩

end SnapshotVerifier

end Marbles
