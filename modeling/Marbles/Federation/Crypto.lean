import Marbles.Lib.Signing
import Marbles.Lib.Mutation
import Marbles.Types

/-!
# The cryptography under the federation

What identities, snapshots and assertions call: Ed25519 of `openssl`, two alphabets of
`base64` and SHA-256. Signed and hashed byte strings are the UTF-8 bytes of JSON texts, so
here they are those texts.

The parameters are opaque to the development: a result that needs a signature to verify takes
`Correct` as a hypothesis, and none assumes that signatures cannot be forged. Where the code
relies on that, it appears as an assumption about what the owner of a key has signed.
-/

namespace Marbles

open Signing

/-- The libraries behind the federation, as parameters: what a proof relies on is `Correct`, and
what `plain` shows is that it can be met. Every function of the repository that signs, hashes or
encodes takes it as its first argument. -/
structure Crypto where
  ed25519 : Scheme
  /-- `URL_SAFE_NO_PAD`. -/
  urlSafe : Codec
  /-- `STANDARD`. -/
  standard : Codec
  sha256 : String → Bytes

namespace Crypto

/-- What is assumed where a signature has to verify: the libraries do what they document. -/
structure Correct (c : Crypto) : Prop where
  ed25519 : c.ed25519.Correct
  urlSafe : c.urlSafe.RoundTrips
  standard : c.standard.RoundTrips

/-- `hex_digest`. -/
def hexDigest (c : Crypto) (text : String) : String := hex (c.sha256 text)

/-! ### Checking a signature -/

/-- Why a signature was not accepted. -/
inductive SignatureFault where
  | unsigned
  | malformed (reason : String)
  | crypto (reason : String)
  | bad
  deriving DecidableEq, Repr

/-- The check that descriptors and assertions share: both the signature and the key are texts
of the URL-safe alphabet, and a failure inside the verification counts as a bad signature. -/
def verifySignature (c : Crypto) (signature : Option String) (publicKey payload : String) :
    Except SignatureFault Unit := do
  let signature ← Except.okOr .unsigned signature
  let signature ← (c.urlSafe.decode signature).mapError .malformed
  let publicKey ← (c.urlSafe.decode publicKey).mapError .malformed
  let key ← (c.ed25519.publicKey publicKey).mapError .crypto
  if (c.ed25519.verify key signature payload).toOption.getD false then .ok () else .error .bad

/-- A text carries a signature that is valid under a key given as a text. -/
def Signed (c : Crypto) (signature : Option String) (publicKey payload : String) : Prop :=
  ∃ text bytes key, signature = some text ∧ c.urlSafe.decode text = .ok bytes ∧
    c.urlSafe.decode publicKey = .ok key ∧ c.ed25519.Valid key bytes payload

/-- `unwrap_or(false)`. -/
theorem getD_toOption {ε : Type} {x : Except ε Bool} :
    x.toOption.getD false = true ↔ x = .ok true := by
  cases x <;> simp [Except.toOption]

@[simp] theorem verifySignature_eq_ok {c : Crypto} {signature : Option String}
    {publicKey payload : String} :
    c.verifySignature signature publicKey payload = .ok () ↔
      c.Signed signature publicKey payload := by
  simp only [verifySignature, Except.bind_eq_ok, Except.mapError_eq_ok, Except.okOr_eq_ok,
    Except.ite_ok_eq_ok, and_true, getD_toOption]
  constructor
  · rintro ⟨text, htext, bytes, hbytes, key, hkey, handle, hhandle, hvalid⟩
    exact ⟨text, bytes, key, htext, hbytes, hkey, handle, hhandle, hvalid⟩
  · rintro ⟨text, bytes, key, htext, hbytes, hkey, handle, hhandle, hvalid⟩
    exact ⟨text, htext, bytes, hbytes, key, hkey, handle, hhandle, hvalid⟩

/-- What a key signs carries its signature. -/
theorem Correct.signed {c : Crypto} (hc : c.Correct) {secret : c.ed25519.Secret}
    {payload : String} {signature : Bytes} (h : c.ed25519.sign secret payload = .ok signature) :
    c.Signed (some (c.urlSafe.encode signature))
      (c.urlSafe.encode (c.ed25519.publicBytes secret)) payload :=
  ⟨_, signature, _, rfl, hc.urlSafe signature, hc.urlSafe _, hc.ed25519.valid_sign h⟩

/-! ### A toy instance

Signing prepends the secret, hashing prepends a one, and encoding takes the bytes for
characters. It is no cryptography, but it is correct and it can be computed with. -/

/-- The bytes of a text of characters below 256. -/
def plainBytes (s : String) : Bytes := s.toList.map fun ch => UInt8.ofNat ch.toNat

/-- A text with a character for each byte. -/
def plainText (bytes : Bytes) : String := String.ofList (bytes.map fun b => Char.ofNat b.toNat)

@[simp] theorem plainBytes_plainText (bytes : Bytes) : plainBytes (plainText bytes) = bytes := by
  have hb : ∀ b : UInt8, UInt8.ofNat (Char.ofNat b.toNat).toNat = b := by
    intro b
    have hlt := b.toNat_lt
    have hvalid : b.toNat.isValidChar := Or.inl (by omega)
    have hchar : (Char.ofNat b.toNat).toNat = b.toNat := by
      rw [Char.ofNat, dif_pos hvalid]
      rfl
    rw [hchar, UInt8.ofNat_toNat]
  rw [plainBytes, plainText, String.toList_ofList, List.map_map]
  induction bytes with
  | nil => rfl
  | cons b bytes ih =>
      rw [List.map_cons, ih]
      exact congrArg (· :: bytes) (hb b)

def plainScheme : Scheme where
  Secret := UInt8
  Public := UInt8
  publicBytes k := List.replicate 32 k
  publicKey bytes := match bytes with
    | k :: _ => .ok k
    | [] => .error "no key"
  secretBytes k := [k]
  secretKey bytes := match bytes with
    | k :: _ => .ok k
    | [] => .error "no key"
  sign k payload := .ok (k :: plainBytes payload)
  verify k signature payload := .ok (decide (signature = k :: plainBytes payload))

def plain : Crypto where
  ed25519 := plainScheme
  urlSafe := ⟨plainText, fun s => .ok (plainBytes s)⟩
  standard := ⟨plainText, fun s => .ok (plainBytes s)⟩
  sha256 text := 1 :: plainBytes text

/-- The toy key pair of a byte. -/
def plainSecret (k : UInt8) : plain.ed25519.Secret := k

theorem plainScheme_correct : plainScheme.Correct where
  secretKey_secretBytes _ := rfl
  sign_ok k payload := ⟨k :: plainBytes payload, rfl⟩
  valid_sign := by
    intro (k : UInt8) payload signature h
    obtain rfl : k :: plainBytes payload = signature := Except.ok.inj h
    exact ⟨k, rfl, congrArg Except.ok (decide_eq_true rfl)⟩

theorem plain_correct : plain.Correct where
  ed25519 := plainScheme_correct
  urlSafe bytes := congrArg Except.ok (plainBytes_plainText bytes)
  standard bytes := congrArg Except.ok (plainBytes_plainText bytes)

end Crypto

end Marbles
