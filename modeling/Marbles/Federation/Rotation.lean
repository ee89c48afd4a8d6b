import Marbles.Federation.Identity

/-!
# Key rotation of a store

An identity after any sequence of rotations, with any clock and any overlap. `Sound` is the
invariant: the keys are named by their positions, the last one is active and every other
one has been given the instant of its retirement. A rotation appends a key and retires the
last; nothing touches a key that has been retired.

The names of keys count up with their positions, so two keys never share one. The overlap may be
negative and the clock may go back; the invariant speaks about the instants that were given and
not about their order, which is why it needs no assumption on either.
-/

namespace Marbles

variable {c : Crypto}

/-! ### Names of keys -/

theorem IdentityKey.keyName_inj {storeId : String} {m n : Nat}
    (h : keyName storeId m = keyName storeId n) : m = n := by
  have hrepr : m.repr = n.repr := (String.append_right_inj _).mp h
  exact repr_inj hrepr

/-- The stored texts of the key are those of the key pair. -/
def IdentityKey.OfSecret (c : Crypto) (key : IdentityKey) (secret : c.ed25519.Secret) : Prop :=
  key.publicKey = c.urlSafe.encode (c.ed25519.publicBytes secret) ∧
    key.privateKey = c.standard.encode (c.ed25519.secretBytes secret)

theorem IdentityKey.generate_eq_ok {fresh : Except String c.ed25519.Secret} {storeId : String}
    {ordinal : Nat} {now : Int} {key : IdentityKey} :
    generate c fresh storeId ordinal now = .ok key ↔ ∃ secret, fresh = .ok secret ∧
      key.keyId = keyName storeId ordinal ∧ key.OfSecret c secret ∧ key.createdAt = now ∧
      key.retiredAt = none := by
  simp only [generate, Except.bind_eq_ok, Except.mapError_eq_ok]
  constructor
  · intro h
    obtain ⟨secret, hfresh, hkey⟩ := h
    cases hkey
    exact ⟨secret, hfresh, rfl, ⟨rfl, rfl⟩, rfl, rfl⟩
  · intro h
    obtain ⟨secret, hfresh, hname, ⟨hpublic, hprivate⟩, hcreated, hretired⟩ := h
    cases key
    simp only at hname hpublic hprivate hcreated hretired
    subst hname hpublic hprivate hcreated hretired
    exact ⟨secret, hfresh, rfl⟩

namespace StoreIdentity

/-! ### Runs -/

/-- A call of `rotate`: the key pair the system made for it, the clock and the overlap. -/
structure Rotation (c : Crypto) where
  fresh : Except String c.ed25519.Secret
  now : Int
  overlapSeconds : Int

/-- What the call returns, and the identity after it. -/
def Rotation.call (op : Rotation c) (id : StoreIdentity) :
    Except IdentityError RotationRecord × StoreIdentity :=
  Mutation.call (rotate c op.fresh op.now op.overlapSeconds) id

/-- The identity after a sequence of rotations. -/
def rotated (ops : List (Rotation c)) (id : StoreIdentity) : StoreIdentity :=
  Machine.run (fun (op : Rotation c) id => (op.call id).2) ops id

@[simp] theorem rotated_cons (op : Rotation c) (ops : List (Rotation c)) (id : StoreIdentity) :
    rotated (op :: ops) id = rotated ops (op.call id).2 := rfl

/-- A call fails and changes nothing, or it replaces the active key by a new one. -/
theorem Rotation.call_cases (op : Rotation c) (id : StoreIdentity) :
    (∃ e, op.call id = (.error e, id)) ∨
    ∃ old new, id.activeKey = .ok old ∧
      IdentityKey.generate c op.fresh id.storeId (id.keys.length + 1) op.now = .ok new ∧
      op.call id = (.ok ⟨old.keyId, new.keyId, op.now, overlapUntil op.now op.overlapSeconds⟩,
        { id with
          issuedAt := op.now
          activeKeyId := new.keyId
          keys := (id.keys.map fun key => if key.keyId = old.keyId then
            retire (overlapUntil op.now op.overlapSeconds) key else key) ++ [new]
          rotations := id.rotations ++
            [⟨old.keyId, new.keyId, op.now, overlapUntil op.now op.overlapSeconds⟩] }) := by
  simp only [call, rotate, Mutation.call_bind, Mutation.call_get, Mutation.call_liftM]
  cases hold : id.activeKey with
  | error e => exact Or.inl ⟨e, rfl⟩
  | ok old =>
      simp only
      cases hnew : IdentityKey.generate c op.fresh id.storeId (id.keys.length + 1) op.now with
      | error e => exact Or.inl ⟨e, rfl⟩
      | ok new => exact Or.inr ⟨old, new, rfl, rfl, rfl⟩

/-! ### The invariant -/

/-- The keys of an identity: `older` have retired or will, `active` signs. Keys are appended and
never removed, so the names count them. -/
structure Sound (c : Crypto) (id : StoreIdentity) (older : List IdentityKey)
    (active : IdentityKey) : Prop where
  storeId_ne : id.storeId ≠ ""
  keys : id.keys = older ++ [active]
  activeKeyId : id.activeKeyId = active.keyId
  names : id.keys.map IdentityKey.keyId =
    (List.range id.keys.length).map fun i => IdentityKey.keyName id.storeId (i + 1)
  active_retiredAt : active.retiredAt = none
  older_retiredAt : ∀ key ∈ older, ∃ retiredAt, key.retiredAt = some retiredAt
  secrets : ∀ key ∈ id.keys, ∃ secret, key.OfSecret c secret

variable {id : StoreIdentity} {older : List IdentityKey} {active : IdentityKey}

theorem Sound.nodup (h : Sound c id older active) : (id.keys.map IdentityKey.keyId).Nodup := by
  rw [h.names]
  refine List.Nodup.map ?_ List.nodup_range
  intro m n hmn
  exact Nat.succ.inj (IdentityKey.keyName_inj hmn)

theorem Sound.find? (h : Sound c id older active) {key : IdentityKey} (hkey : key ∈ id.keys) :
    id.keys.find? (fun k => k.keyId = key.keyId) = some key := find?_of_nodup h.nodup hkey

theorem Sound.active_mem (h : Sound c id older active) : active ∈ id.keys := by
  rw [h.keys]
  exact List.mem_append_right _ (List.mem_singleton_self _)

theorem Sound.older_mem (h : Sound c id older active) {key : IdentityKey} (hkey : key ∈ older) :
    key ∈ id.keys := by
  rw [h.keys]
  exact List.mem_append_left _ hkey

theorem Sound.activeKey (h : Sound c id older active) : id.activeKey = .ok active := by
  rw [StoreIdentity.activeKey, h.activeKeyId, h.find? h.active_mem]
  rfl

theorem Sound.pin (h : Sound c id older active) {key : IdentityKey} (hkey : key ∈ id.keys) :
    id.pin key.keyId = .ok ⟨id.storeId, key.keyId, key.publicKey, key.retiredAt⟩ := by
  rw [StoreIdentity.pin, h.find? hkey]
  rfl

/-- The active key is the only one that has no instant of retirement. -/
theorem Sound.retiredAt_eq_none (h : Sound c id older active) {key : IdentityKey}
    (hkey : key ∈ id.keys) : key.retiredAt = none ↔ key = active := by
  constructor
  · intro hnone
    rw [h.keys, List.mem_append, List.mem_singleton] at hkey
    rcases hkey with holder | hactive
    · obtain ⟨retiredAt, hsome⟩ := h.older_retiredAt key holder
      rw [hnone] at hsome
      cases hsome
    · exact hactive
  · intro heq
    rw [heq]
    exact h.active_retiredAt

/-- Retiring the active key leaves the older ones alone. -/
theorem Sound.map_retire (h : Sound c id older active) (overlapUntil : Int) :
    (id.keys.map fun key => if key.keyId = active.keyId then retire overlapUntil key else key) =
      older ++ [{ active with retiredAt := some overlapUntil }] := by
  -- the map goes by key id, and no older key has the active one
  have hne : ∀ key ∈ older, key.keyId ≠ active.keyId := by
    intro key hkey heq
    have hnodup := h.nodup
    rw [h.keys, List.map_append, List.nodup_append] at hnodup
    exact hnodup.2.2 key.keyId (List.mem_map_of_mem hkey) active.keyId (by simp) heq
  have hretire : retire overlapUntil active = { active with retiredAt := some overlapUntil } := by
    rw [retire, h.active_retiredAt]
  rw [h.keys, List.map_append, List.map_singleton, if_pos rfl, hretire]
  congr 1
  exact (List.map_congr_left fun key hkey => if_neg (hne key hkey)).trans (List.map_id _)

/-- A new identity has one key, which is active. -/
theorem sound_create {entropy : Except String Signing.Bytes}
    {fresh : Except String c.ed25519.Secret}
    {opts : InitOptions} {now : Int} (h : create c entropy fresh opts now = .ok id) :
    ∃ key, Sound c id [] key := by
  simp only [create, newStoreId, Except.bind_eq_ok] at h
  obtain ⟨storeId, ⟨bytes, -, hstore⟩, key, hkey, hid⟩ := h
  cases hstore
  cases hid
  obtain ⟨secret, -, hname, hsecret, -, hretired⟩ := IdentityKey.generate_eq_ok.mp hkey
  refine ⟨key, ?_, rfl, rfl, ?_, hretired, nofun, ?_⟩
  · intro hempty
    exact absurd (String.append_eq_empty_iff.mp hempty).1 (by decide)
  · simp [hname]
  · intro k hk
    rw [List.mem_singleton.mp hk]
    exact ⟨secret, hsecret⟩

/-- A call that succeeds retires the active key at the end of the overlap. -/
theorem Sound.call (h : Sound c id older active) (op : Rotation c) :
    (∃ e, op.call id = (.error e, id)) ∨
    ∃ record id' new, op.call id = (.ok record, id') ∧
      record.oldKeyId = active.keyId ∧
      record.overlapUntil = overlapUntil op.now op.overlapSeconds ∧
      id'.storeId = id.storeId ∧
      Sound c id' (older ++ [{ active with retiredAt := some record.overlapUntil }]) new := by
  rcases op.call_cases id with herror | ⟨old, new, hold, hnew, hcall⟩
  · exact Or.inl herror
  · refine Or.inr ⟨_, _, new, hcall, ?_, rfl, rfl, ?_⟩
    · rw [h.activeKey] at hold
      exact congrArg IdentityKey.keyId (Except.ok.inj hold).symm
    · rw [h.activeKey] at hold
      cases hold
      obtain ⟨secret, -, hname, hsecret, -, hretired⟩ := IdentityKey.generate_eq_ok.mp hnew
      rw [h.map_retire]
      have hlen : id.keys.length = older.length + 1 := by rw [h.keys]; simp
      refine ⟨h.storeId_ne, rfl, rfl, ?_, hretired, ?_, ?_⟩
      · -- the new key is numbered after all the others
        have hnames := h.names
        rw [h.keys, List.map_append, List.map_singleton] at hnames
        simp only [List.map_append, List.map_singleton, List.length_append, List.length_singleton,
          List.range_succ] at hnames ⊢
        rw [hnames, hname, hlen]
      · intro key hkey
        rcases List.mem_append.mp hkey with holder | hlast
        · exact h.older_retiredAt key holder
        · rw [List.mem_singleton.mp hlast]
          exact ⟨_, rfl⟩
      · intro key hkey
        simp only [List.mem_append, List.mem_singleton] at hkey
        rcases hkey with (holder | hlast) | hlast
        · exact h.secrets key (h.older_mem holder)
        · rw [hlast]
          exact h.secrets active h.active_mem
        · rw [hlast]
          exact ⟨secret, hsecret⟩

/-- Rotations only append to the keys that have been given their retirement. -/
theorem Sound.rotated (ops : List (Rotation c)) (h : Sound c id older active) :
    ∃ later new, Sound c (rotated ops id) (older ++ later) new ∧
      (StoreIdentity.rotated ops id).storeId = id.storeId := by
  induction ops generalizing id older active with
  | nil => exact ⟨[], active, by rwa [List.append_nil], rfl⟩
  | cons op ops ih =>
      rw [rotated_cons]
      rcases h.call op with ⟨e, hcall⟩ | ⟨record, id', new, hcall, -, -, hstore, hnext⟩
      · rw [hcall]
        exact ih h
      · -- the key that was active is one of the older ones from here on
        obtain ⟨later, new, hsound, hstore'⟩ := ih hnext
        rw [List.append_assoc] at hsound
        rw [hcall]
        exact ⟨_, new, hsound, hstore'.trans hstore⟩

/-- The descriptor an identity signs, whatever the clock says. -/
theorem Sound.descriptor (hc : c.Correct) (h : Sound c id older active) (now : Int) :
    ∃ d, id.descriptor c now = .ok d ∧ d.schema = descriptorSchema ∧ d.storeId = id.storeId ∧
      d.keyId = active.keyId ∧ d.publicKey = active.publicKey ∧
      c.Signed d.signature d.publicKey d.signingBytes := by
  obtain ⟨secret, hpublic, hprivate⟩ := h.secrets active h.active_mem
  have hread : active.readPrivateKey c = .ok secret := by
    rw [IdentityKey.readPrivateKey, hprivate, hc.standard]
    exact congrArg (Except.mapError IdentityError.crypto) (hc.ed25519.secretKey_secretBytes secret)
  let unsigned : StoreDescriptor :=
    { schema := descriptorSchema
      storeId := id.storeId
      displayName := id.displayName
      endpoint := id.endpoint
      keyId := active.keyId
      publicKey := active.publicKey
      capabilities := id.capabilities
      issuedAt := now
      signature := none }
  obtain ⟨signature, hsign⟩ := hc.ed25519.sign_ok secret unsigned.signingBytes
  have hsigned := hc.signed hsign
  rw [← hpublic] at hsigned
  refine ⟨{ unsigned with signature := some (c.urlSafe.encode signature) }, ?_, rfl, rfl, rfl, rfl,
    hsigned⟩
  simp only [StoreIdentity.descriptor, Except.bind_eq_ok, Except.mapError_eq_ok]
  exact ⟨active, h.activeKey, secret, hread, signature, hsign, rfl⟩

/-- A descriptor signed with a key, under the pin of that key with any end of its overlap. -/
theorem Sound.verify (hc : c.Correct) (h : Sound c id older active) {signedAt : Int}
    {d : StoreDescriptor} (hd : id.descriptor c signedAt = .ok d) (validUntil : Option Int)
    (now : Int) :
    verifyDescriptor c d ⟨id.storeId, active.keyId, active.publicKey, validUntil⟩ now =
      match validUntil.filter fun t => t ≤ now with
      | some t => .error (.keyRetired active.keyId t)
      | none => .ok d := by
  obtain ⟨d', hd', hschema, hstore, hkey, hpublic, hsigned⟩ := h.descriptor hc signedAt
  obtain rfl : d' = d := Except.ok.inj (hd'.symm.trans hd)
  have hmatches : d'.Matches ⟨id.storeId, active.keyId, active.publicKey, validUntil⟩ :=
    ⟨hschema, h.storeId_ne, hstore, hkey, hpublic⟩
  cases hretired : validUntil.filter fun t => t ≤ now with
  | some t => exact verifyDescriptor_retired hmatches hretired
  | none => exact verifyDescriptor_eq_ok.mpr ⟨rfl, hmatches, hretired, hsigned⟩

/-- Trusted at an instant are the keys whose pins have not retired by then. -/
@[simp] theorem mem_trustedKeysAt {key : IdentityKey} {now : Int} :
    key ∈ id.trustedKeysAt now ↔ key ∈ id.keys ∧
      (PinnedKey.mk id.storeId key.keyId key.publicKey key.retiredAt).retired now = none := by
  rw [trustedKeysAt, List.mem_filter, PinnedKey.retired_eq_none]
  refine and_congr_right fun _ => ?_
  cases key.retiredAt with
  | none => simp
  | some retiredAt => simp

/-! ### Safety over runs -/

/-- What holds of the keys of an identity, now and after any later rotations. Stated over all later
rotations, since a verifier relies on what it has pinned. -/
structure KeysSafe (c : Crypto) (id : StoreIdentity) : Prop where
  distinct : (id.keys.map IdentityKey.keyId).Nodup
  /-- The active key is the one key without an instant of retirement. -/
  one_active : ∃ active ∈ id.keys, id.activeKey = .ok active ∧
    ∀ key ∈ id.keys, key.retiredAt = none ↔ key = active
  /-- An instant of retirement stays what it is. -/
  settled : ∀ key ∈ id.keys, ∀ retiredAt, key.retiredAt = some retiredAt →
    ∀ later : List (Rotation c), ∃ key' ∈ (rotated later id).keys,
      key'.keyId = key.keyId ∧ key'.retiredAt = some retiredAt
  /-- The descriptor of any instant verifies at any instant under the active pin. -/
  signs : ∀ signedAt now, ∃ d pin, id.descriptor c signedAt = .ok d ∧ id.activePin = .ok pin ∧
    verifyDescriptor c d pin now = .ok d
  /-- After a rotation, what the old key signed verifies until the overlap ends. -/
  overlap : ∀ (op : Rotation c) (record : RotationRecord) (id' : StoreIdentity),
    op.call id = (.ok record, id') → ∀ signedAt d, id.descriptor c signedAt = .ok d →
    d.keyId = record.oldKeyId ∧ ∀ later : List (Rotation c),
      ∃ pin, (rotated later id').pin record.oldKeyId = .ok pin ∧ ∀ now,
        verifyDescriptor c d pin now = if now < record.overlapUntil then .ok d
          else .error (.keyRetired record.oldKeyId record.overlapUntil)

theorem Sound.settled (h : Sound c id older active) {key : IdentityKey} (hkey : key ∈ older)
    (later : List (Rotation c)) : key ∈ (StoreIdentity.rotated later id).keys := by
  obtain ⟨more, new, hsound, -⟩ := h.rotated later
  exact hsound.older_mem (List.mem_append_left _ hkey)

theorem Sound.overlap (hc : c.Correct) (h : Sound c id older active) {op : Rotation c}
    {record : RotationRecord} {id' : StoreIdentity} (hcall : op.call id = (.ok record, id'))
    {signedAt : Int} {d : StoreDescriptor} (hd : id.descriptor c signedAt = .ok d) :
    d.keyId = record.oldKeyId ∧ ∀ later : List (Rotation c),
      ∃ pin, (StoreIdentity.rotated later id').pin record.oldKeyId = .ok pin ∧ ∀ now,
        verifyDescriptor c d pin now = if now < record.overlapUntil then .ok d
          else .error (.keyRetired record.oldKeyId record.overlapUntil) := by
  rcases h.call op with ⟨e, herror⟩ | ⟨record', id'', new, hok, hold, -, hstore, hnext⟩
  · rw [herror] at hcall
    cases hcall
  · rw [hok] at hcall
    cases hcall
    obtain ⟨d', hd', -, -, hkey, -, -⟩ := h.descriptor hc signedAt
    obtain rfl : d' = d := Except.ok.inj (hd'.symm.trans hd)
    refine ⟨hkey.trans hold.symm, fun later => ?_⟩
    -- the retired key is still there, so its pin is the one it was given at the rotation
    obtain ⟨more, last, hsound, hstore'⟩ := hnext.rotated later
    have hmem := hnext.settled (List.mem_append_right _ (List.mem_singleton_self _)) later
    have hpin := hsound.pin hmem
    rw [hstore', hstore, ← hold] at hpin
    refine ⟨_, hpin, fun now => ?_⟩
    rw [hold, h.verify hc hd]
    by_cases hnow : now < record.overlapUntil
    · have hle : ¬ record.overlapUntil ≤ now := by omega
      simp [Option.filter, hnow, hle]
    · have hle : record.overlapUntil ≤ now := by omega
      simp [Option.filter, hnow, hle]

theorem Sound.keysSafe (hc : c.Correct) (h : Sound c id older active) : KeysSafe c id where
  distinct := h.nodup
  one_active := ⟨active, h.active_mem, h.activeKey, fun _ hkey => h.retiredAt_eq_none hkey⟩
  settled := by
    intro key hkey retiredAt hretired later
    rw [h.keys, List.mem_append, List.mem_singleton] at hkey
    rcases hkey with holder | hactive
    · exact ⟨key, h.settled holder later, rfl, hretired⟩
    · rw [hactive, h.active_retiredAt] at hretired
      cases hretired
  signs := by
    intro signedAt now
    obtain ⟨d, hd, -⟩ := h.descriptor hc signedAt
    have hpin : id.activePin = .ok ⟨id.storeId, active.keyId, active.publicKey, none⟩ := by
      rw [activePin, h.activeKeyId, h.pin h.active_mem, h.active_retiredAt]
    exact ⟨d, _, hd, hpin, h.verify hc hd none now⟩
  overlap := fun _ _ _ hcall _ _ hd => h.overlap hc hcall hd

/-- The keys of an identity are safe after any sequence of rotations from its creation. -/
theorem keysSafe_rotated (hc : c.Correct) {entropy : Except String Signing.Bytes}
    {fresh : Except String c.ed25519.Secret} {opts : InitOptions} {now : Int}
    {created : StoreIdentity} (hcreate : create c entropy fresh opts now = .ok created)
    (ops : List (Rotation c)) : KeysSafe c (rotated ops created) := by
  obtain ⟨key, hsound⟩ := sound_create hcreate
  obtain ⟨later, new, hrotated, -⟩ := hsound.rotated ops
  exact hrotated.keysSafe hc

/-- A store made at second 1000. -/
def demo : Except IdentityError StoreIdentity :=
  create Crypto.plain (.ok [1, 2, 3, 4, 5, 6, 7, 8, 9, 10, 11, 12]) (.ok (Crypto.plainSecret 7))
    ⟨"demo", none, ["issues"]⟩ 1000

/-- It rotates three times: in time, with a clock that went back and a negative overlap, and
once without getting a key pair. -/
theorem keysSafe_three_rotations : ∃ created, demo = .ok created ∧
    KeysSafe Crypto.plain (rotated
      [⟨.ok (Crypto.plainSecret 8), 2000, 60⟩, ⟨.ok (Crypto.plainSecret 9), 500, -5⟩,
        ⟨.error "entropy", 3000, 60⟩] created) := by
  obtain ⟨created, hcreated⟩ : ∃ created, demo = .ok created := ⟨_, rfl⟩
  exact ⟨created, hcreated, keysSafe_rotated Crypto.plain_correct hcreated _⟩

end StoreIdentity

end Marbles
