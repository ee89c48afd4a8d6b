import Mathlib.Data.List.TakeWhile
import Marbles.Federation.Pins
import Marbles.Federation.Rotation

/-!
# Following a store

A store rotates its keys and publishes descriptors of itself; whoever has pinned it is handed
descriptors, some time after they were published. As long as they are handed over in the order of
their publication, the pin is the key of the last one, and the descriptor of any moment verifies
once its key has been followed to. Overlap keys never become active again. So a follower that has
skipped a key and is then handed a descriptor of it goes back to that key, and never again
follows the store to the key it left.

The order of publication is what the follower cannot see, and what the condition is about. A
descriptor carries its key and a time, and both grow along the publications of one store; `Pinned`
ties the record to the last publication that was handed over. For the way back it is the other
clause of a record that matters: a key that was left is kept as an overlap key, and an overlap key
is refused as an active one.
-/

namespace Marbles

open StoreIdentity (Rotation)

variable {c : Crypto}

/-! ### What the keys of a store have signed -/

/-- The `n`-th key of a store has this id and this public key. -/
def StoreIdentity.Names (id : StoreIdentity) (n : Nat) (keyId publicKey : String) : Prop :=
  ∃ key, id.keys[n]? = some key ∧ key.keyId = keyId ∧ key.publicKey = publicKey

/-- A descriptor that the store signed with its `n`-th key. -/
structure StoreIdentity.Signed (c : Crypto) (id : StoreIdentity) (n : Nat) (d : StoreDescriptor) :
    Prop where
  selfSigned : d.SelfSigned c
  storeId : d.storeId = id.storeId
  names : id.Names n d.keyId d.publicKey

/-- The raw public half of an Ed25519 key pair has 32 bytes. -/
def Crypto.Raw (c : Crypto) : Prop := ∀ secret, (c.ed25519.publicBytes secret).length = 32

namespace StoreIdentity

variable {id : StoreIdentity} {older : List IdentityKey} {active : IdentityKey}

theorem Names.lt {n : Nat} {keyId publicKey : String} (h : id.Names n keyId publicKey) :
    n < id.keys.length := by
  obtain ⟨key, hkey, -⟩ := h
  exact (List.getElem?_eq_some_iff.mp hkey).1

/-- A key id is the id of one key. -/
theorem Sound.names_inj (h : Sound c id older active) {m n : Nat} {keyId p q : String}
    (hm : id.Names m keyId p) (hn : id.Names n keyId q) : m = n := by
  obtain ⟨key, hkey, hid, -⟩ := hm
  obtain ⟨key', hkey', hid', -⟩ := hn
  have hkeys : (id.keys.map IdentityKey.keyId)[m]? = (id.keys.map IdentityKey.keyId)[n]? := by
    rw [List.getElem?_map, List.getElem?_map, hkey, hkey', Option.map_some, Option.map_some, hid,
      hid']
  have hm : m < (id.keys.map IdentityKey.keyId).length := by
    rw [List.length_map]
    exact (List.getElem?_eq_some_iff.mp hkey).1
  exact (List.getElem?_inj hm h.nodup).mp hkeys

theorem Sound.length_keys (h : Sound c id older active) : id.keys.length = older.length + 1 := by
  rw [h.keys, List.length_append, List.length_singleton]

theorem Sound.names_active (h : Sound c id older active) :
    id.Names older.length active.keyId active.publicKey := by
  refine ⟨active, ?_, rfl, rfl⟩
  rw [h.keys, List.getElem?_append_right (Nat.le_refl _), Nat.sub_self]
  rfl

/-- A rotation leaves the ids and the public keys there were. -/
theorem Sound.call_names (h : Sound c id older active) (op : Rotation c) {n : Nat}
    {keyId publicKey : String} (hn : id.Names n keyId publicKey) :
    (op.call id).2.Names n keyId publicKey ∧ (op.call id).2.storeId = id.storeId := by
  rcases h.call op with ⟨e, hcall⟩ | ⟨record, id', new, hcall, -, -, hstore, hnext⟩
  · rw [hcall]
    exact ⟨hn, rfl⟩
  · rw [hcall]
    refine ⟨?_, hstore⟩
    obtain ⟨key, hkey, hid, hpublic⟩ := hn
    rw [h.keys] at hkey
    rcases Nat.lt_or_ge n older.length with hlt | hge
    · rw [List.getElem?_append_left hlt] at hkey
      refine ⟨key, ?_, hid, hpublic⟩
      rw [hnext.keys, List.append_assoc, List.getElem?_append_left hlt, hkey]
    · -- the key that was active has its retirement now, and nothing else about it is new
      rw [List.getElem?_append_right hge, List.getElem?_singleton] at hkey
      split at hkey
      · cases hkey
        refine ⟨{ active with retiredAt := some record.overlapUntil }, ?_, hid, hpublic⟩
        rw [hnext.keys, List.append_assoc, List.getElem?_append_right hge]
        have hzero : n - older.length = 0 := by assumption
        rw [hzero]
        rfl
      · cases hkey

theorem Signed.call (h : Sound c id older active) (op : Rotation c) {n : Nat}
    {d : StoreDescriptor} (hd : id.Signed c n d) : (op.call id).2.Signed c n d := by
  obtain ⟨hnames, hstore⟩ := h.call_names op hd.names
  exact ⟨hd.selfSigned, hd.storeId.trans hstore.symm, hnames⟩

/-- A text that starts with a letter is not blank. -/
theorem trim_ne_empty {s : String} (h : s.toList.head? = some 's') : trim s ≠ "" := by
  intro hempty
  have hlist := congrArg String.toList hempty
  rw [trim, String.toList_ofList] at hlist
  obtain ⟨cs, hcs⟩ := List.head?_eq_some_iff.mp h
  have hs : isWhitespace 's' = false := by decide
  have hkept : ('s' :: cs).dropWhile isWhitespace = 's' :: cs := by
    rw [List.dropWhile_cons, hs]
    rfl
  rw [hcs, hkept] at hlist
  have hin := List.dropWhile_eq_nil_iff.mp (List.reverse_eq_nil_iff.mp hlist) 's' (by simp)
  rw [hs] at hin
  cases hin

/-- Ids of stores and keys start with `store_`. -/
theorem head?_keyId (h : Sound c id older active) (hstore : id.storeId.toList.head? = some 's')
    {n : Nat} {keyId publicKey : String} (hn : id.Names n keyId publicKey) :
    keyId.toList.head? = some 's' := by
  obtain ⟨key, hkey, rfl, -⟩ := hn
  have hmem : key.keyId ∈ id.keys.map IdentityKey.keyId :=
    List.mem_map_of_mem (List.mem_of_getElem? hkey)
  rw [h.names] at hmem
  obtain ⟨i, -, hname⟩ := List.mem_map.mp hmem
  obtain ⟨cs, hcs⟩ := List.head?_eq_some_iff.mp hstore
  rw [← hname]
  simp only [IdentityKey.keyName, String.toList_append, ToString.toString, hcs]
  rfl

theorem head?_storeId {entropy : Except String Signing.Bytes}
    {fresh : Except String c.ed25519.Secret} {opts : InitOptions} {now : Int}
    (h : create c entropy fresh opts now = .ok id) : id.storeId.toList.head? = some 's' := by
  simp only [create, newStoreId, Except.bind_eq_ok] at h
  obtain ⟨storeId, ⟨bytes, -, hbytes⟩, key, -, hid⟩ := h
  cases hbytes
  cases hid
  show ("store_" ++ Signing.hex bytes).toList.head? = some 's'
  rw [String.toList_append]
  rfl

/-- What a store signs at any moment passes as the descriptor of a first contact. -/
theorem Sound.signed (hc : c.Correct) (hraw : c.Raw) (h : Sound c id older active)
    (hstore : id.storeId.toList.head? = some 's') {now : Int} {d : StoreDescriptor}
    (hd : id.descriptor c now = .ok d) : id.Signed c older.length d := by
  obtain ⟨d', hd', hschema, hstoreId, hkeyId, hpublic, hsigned⟩ := h.descriptor hc now
  obtain rfl : d' = d := Except.ok.inj (hd'.symm.trans hd)
  have hnames : id.Names older.length d'.keyId d'.publicKey := by
    rw [hkeyId, hpublic]
    exact h.names_active
  obtain ⟨secret, hof, -⟩ := h.secrets active h.active_mem
  have hkey : ∃ handle, c.ed25519.publicKey (c.ed25519.publicBytes secret) = .ok handle := by
    obtain ⟨signature, hsign⟩ := hc.ed25519.sign_ok secret ""
    obtain ⟨handle, hhandle, -⟩ := hc.ed25519.valid_sign hsign
    exact ⟨handle, hhandle⟩
  obtain ⟨handle, hhandle⟩ := hkey
  refine ⟨⟨hschema, ?_, ?_, ?_, hsigned⟩, hstoreId, hnames⟩
  · rw [hstoreId]
    exact trim_ne_empty hstore
  · exact trim_ne_empty (head?_keyId h hstore hnames)
  · have hlength : ¬ (c.ed25519.publicBytes secret).length ≠ 32 := not_not.mpr (hraw secret)
    rw [hpublic, hof, validatePublicKey, hc.urlSafe]
    simp only [Except.mapError, bind, Except.bind, if_neg hlength, hhandle]

end StoreIdentity

/-! ### What a record verifies -/

namespace RemoteRecord

variable {r : RemoteRecord} {d : StoreDescriptor}

theorem verify_eq_ok {now : Int} : r.verify c (.ok d) now = .ok d ↔ d.storeId = r.storeId ∧
    ∃ pin, r.pinOf d.keyId = some pin ∧ verifyDescriptor c d pin now = .ok d := by
  simp only [RemoteRecord.verify, Except.bind_eq_ok, Except.mapError_eq_ok,
    Except.ite_error_eq_ok, Except.okOr_eq_ok, not_not]
  constructor
  · rintro ⟨d', hd', hstore, pin, hpin, hverify⟩
    obtain rfl := Except.ok.inj hd'
    exact ⟨hstore, pin, hpin, hverify⟩
  · rintro ⟨hstore, pin, hpin, hverify⟩
    exact ⟨d, rfl, hstore, pin, hpin, hverify⟩

theorem keyId_of_pinOf {keyId : String} {pin : PinnedKey} (h : r.pinOf keyId = some pin) :
    pin.keyId = keyId := by
  unfold pinOf at h
  simpa using List.find?_some h

/-- A descriptor of the store under a key of the record verifies until that key's end. -/
theorem verify_pinned (hself : d.SelfSigned c) (hstore : d.storeId = r.storeId) {pin : PinnedKey}
    (hpin : r.pinOf d.keyId = some pin) (hpinned : pin.storeId = r.storeId)
    (hpublic : d.publicKey = pin.publicKey) (now : Int) :
    r.verify c (.ok d) now = .ok d ↔ ∀ t, pin.validUntil = some t → now < t := by
  have hkeyId := keyId_of_pinOf hpin
  have hne : pin.storeId ≠ "" := by
    rw [hpinned, ← hstore]
    intro hempty
    exact hself.storeId (by rw [hempty]; decide)
  have hmatches : d.Matches pin :=
    ⟨hself.schema, hne, hstore.trans hpinned.symm, hkeyId.symm, hpublic⟩
  rw [verify_eq_ok, ← PinnedKey.retired_eq_none]
  constructor
  · rintro ⟨-, pin', hpin', hverify⟩
    obtain rfl := Option.some.inj (hpin.symm.trans hpin')
    exact (verifyDescriptor_eq_ok.mp hverify).2.2.1
  · intro hretired
    exact ⟨hstore, pin, hpin, verifyDescriptor_eq_ok.mpr ⟨rfl, hmatches, hretired, hself.signed⟩⟩

theorem verify_active (hr : r.Sound) (hself : d.SelfSigned c) (hstore : d.storeId = r.storeId)
    (hkeyId : d.keyId = r.keyId) (hpublic : d.publicKey = r.publicKey) (now : Int) :
    r.verify c (.ok d) now = .ok d := by
  have hpin : r.pinOf d.keyId = some r.activePin := by
    rw [pinOf, pins, List.find?_cons_of_pos (by simp [activePin, hkeyId])]
  refine (verify_pinned hself hstore hpin rfl hpublic now).mpr fun t ht => ?_
  have hnone : r.activePin.validUntil = none := hr.active
  rw [hnone] at ht
  cases ht

theorem verify_overlap (hr : r.Sound) (hself : d.SelfSigned c) (hstore : d.storeId = r.storeId)
    {key : RemoteOverlapKey} (hkey : key ∈ r.overlapKeys) (hkeyId : d.keyId = key.keyId)
    (hpublic : d.publicKey = key.publicKey) (now : Int) :
    r.verify c (.ok d) now = .ok d ↔ ∀ t, key.validUntil = some t → now < t := by
  have hpin := hr.pinOf hkey
  rw [← hkeyId] at hpin
  exact verify_pinned hself hstore hpin rfl hpublic now

/-- Under a key id it does not have, the record verifies nothing. -/
theorem verify_unknown (hkeyId : d.keyId ∉ r.keyId :: r.overlapKeys.map RemoteOverlapKey.keyId)
    (now : Int) : r.verify c (.ok d) now ≠ .ok d := by
  intro h
  obtain ⟨-, pin, hpin, -⟩ := verify_eq_ok.mp h
  rw [← map_keyId_pins] at hkeyId
  exact hkeyId (List.mem_map.mpr ⟨pin, List.mem_of_find?_eq_some hpin, keyId_of_pinOf hpin⟩)

end RemoteRecord

/-! ### The two parties -/

/-- A store, the descriptors it has published, and the registry of a follower with the number of
the descriptor it was last handed. -/
structure Following where
  store : StoreIdentity
  published : List StoreDescriptor
  follower : RemoteRegistry
  seen : Nat

/-- What happens: the store rotates or publishes, or the follower is handed a descriptor. -/
inductive Following.Move (c : Crypto) where
  | rotate (op : Rotation c)
  | publish (now : Int)
  | follow (i : Nat) (expectedPublicKey : Option String) (overlapSeconds now : Int)

namespace Following

/-- `mb remote rotate` with a published descriptor. -/
def follow (c : Crypto) (name : String) (w : Following) (d : StoreDescriptor)
    (expectedPublicKey : Option String) (overlapSeconds now : Int) :
    Except RemoteRegistryError RotationRecord × RemoteRegistry :=
  Mutation.call (RemoteRegistry.rotate c name (.ok d) expectedPublicKey overlapSeconds now)
    w.follower

def step (c : Crypto) (name : String) : Move c → Following → Following
  | .rotate op, w => { w with store := (op.call w.store).2 }
  | .publish now, w =>
      match w.store.descriptor c now with
      | .ok d => { w with published := w.published ++ [d] }
      | .error _ => w
  | .follow i expected overlap now, w =>
      match w.published[i]? with
      | some d => { w with follower := (w.follow c name d expected overlap now).2, seen := i }
      | none => w

/-- Descriptors are handed over in the order of their publication, some perhaps not at all, and
a public key that was confirmed out of band is the right one. -/
def InOrder (w : Following) : Move c → Prop
  | .follow i expected _ _ => w.seen ≤ i ∧
      ∀ d, w.published[i]? = some d → expected.all (· = d.publicKey)
  | _ => True

/-- The store pinned at first contact: by `mb remote add`, with a descriptor just published. -/
def joined (store : StoreIdentity) (d : StoreDescriptor) (follower : RemoteRegistry) : Following :=
  ⟨store, [d], follower, 0⟩

/-! ### The invariant -/

/-- The record of the follower: its key is the one that signed the descriptor it was last handed,
and its overlap keys come before that one. -/
structure Pinned (c : Crypto) (name : String) (w : Following) (r : RemoteRecord)
    (ordinals : List Nat) (n : Nat) : Prop where
  store : ∃ older active, StoreIdentity.Sound c w.store older active
  blank : w.store.storeId.toList.head? = some 's'
  signed : List.Forall₂ (StoreIdentity.Signed c w.store) ordinals w.published
  sorted : ordinals.Pairwise (· ≤ ·)
  follower : w.follower.remotes = [r]
  name : r.name = name
  seen : ordinals[w.seen]? = some n
  storeId : r.storeId = w.store.storeId
  active : w.store.Names n r.keyId r.publicKey
  overlap : ∀ key ∈ r.overlapKeys, ∃ m < n, w.store.Names m key.keyId key.publicKey
  sound : r.Sound

variable {name : String} {w : Following} {r : RemoteRecord} {ordinals : List Nat} {n : Nat}

/-- The ordinal of a published descriptor. -/
theorem Pinned.ordinal (h : Pinned c name w r ordinals n) {i : Nat} {d : StoreDescriptor}
    (hd : w.published[i]? = some d) :
    ∃ m, ordinals[i]? = some m ∧ StoreIdentity.Signed c w.store m d := by
  obtain ⟨hlt, hget⟩ := List.getElem?_eq_some_iff.mp hd
  have hlt' : i < ordinals.length := by rwa [h.signed.length_eq]
  refine ⟨ordinals[i], List.getElem?_eq_getElem hlt', ?_⟩
  rw [← hget]
  exact h.signed.get hlt' hlt

/-- The descriptors published after another were signed with its key or a later one. -/
theorem Pinned.le (h : Pinned c name w r ordinals n) {i j m m' : Nat} (hij : i ≤ j)
    (hm : ordinals[i]? = some m) (hm' : ordinals[j]? = some m') : m ≤ m' := by
  obtain ⟨hi, rfl⟩ := List.getElem?_eq_some_iff.mp hm
  obtain ⟨hj, rfl⟩ := List.getElem?_eq_some_iff.mp hm'
  rcases hij.lt_or_eq with hlt | rfl
  · exact List.pairwise_iff_getElem.mp h.sorted i j hi hj hlt
  · exact Nat.le_refl _

/-- A descriptor with a later key than that of the record has a key id the record has not. -/
theorem Pinned.fresh (h : Pinned c name w r ordinals n) {m : Nat} (hm : n < m)
    {d : StoreDescriptor} (hd : StoreIdentity.Signed c w.store m d) :
    d.keyId ∉ r.keyId :: r.overlapKeys.map RemoteOverlapKey.keyId := by
  obtain ⟨older, active, hstore⟩ := h.store
  intro hmem
  rcases List.mem_cons.mp hmem with heq | hmem
  · have hnames := hd.names
    rw [heq] at hnames
    exact absurd (hstore.names_inj h.active hnames) (by omega)
  · obtain ⟨key, hkey, heq⟩ := List.mem_map.mp hmem
    obtain ⟨k, hk, hnames'⟩ := h.overlap key hkey
    have hnames := hd.names
    rw [← heq] at hnames
    exact absurd (hstore.names_inj hnames' hnames) (by omega)

/-- What the registry makes of a descriptor of the store, by the comparisons that are left. -/
theorem Pinned.handed (h : Pinned c name w r ordinals n) {m : Nat} {d : StoreDescriptor}
    (hsigned : StoreIdentity.Signed c w.store m d) {expected : Option String}
    (hexpected : expected.all (· = d.publicKey)) (overlap now : Int) :
    w.follow c name d expected overlap now =
      if d.keyId = r.keyId then
        (.ok ⟨r.keyId, r.keyId, now, now⟩, { w.follower with remotes := [r.refresh d now] })
      else if r.overlapKeys.any (·.keyId = d.keyId) then
        (.error (.identity (.keyRetired d.keyId now)), w.follower)
      else
        (.ok ⟨r.keyId, d.keyId, now, StoreIdentity.overlapUntil now overlap⟩,
          { w.follower with
            remotes := [r.moveTo d (StoreIdentity.overlapUntil now overlap) now] }) := by
  have hfound : locate name w.follower.remotes = some (0, r) := by
    rw [h.follower, locate, if_pos h.name]
  have hself : verifySelfSignedDescriptor c (.ok d) now = .ok d :=
    verifySelfSignedDescriptor_eq_ok.mpr ⟨rfl, hsigned.selfSigned⟩
  have hconfirmed : ¬ expected.any (· ≠ d.publicKey) := by
    cases expected with
    | none => simp
    | some key => simpa using hexpected
  have hsame : ¬ d.storeId ≠ r.storeId := not_not.mpr (hsigned.storeId.trans h.storeId.symm)
  have hset : ∀ r', w.follower.remotes.set 0 r' = [r'] := fun r' => by rw [h.follower]; rfl
  unfold Following.follow
  rw [RemoteRegistry.rotate_call hfound hself, if_neg hconfirmed, if_neg hsame, h.sound.active]
  simp only [hset]
  rfl

/-- Handed a descriptor of a key that it has not, the record moves to that key. -/
theorem Pinned.moves (h : Pinned c name w r ordinals n) {m : Nat} {d : StoreDescriptor}
    (hsigned : StoreIdentity.Signed c w.store m d)
    (hnew : d.keyId ∉ r.keyId :: r.overlapKeys.map RemoteOverlapKey.keyId)
    {expected : Option String}
    (hexpected : expected.all (· = d.publicKey)) (overlap now : Int) :
    w.follow c name d expected overlap now =
      (.ok ⟨r.keyId, d.keyId, now, StoreIdentity.overlapUntil now overlap⟩,
        { w.follower with
          remotes := [r.moveTo d (StoreIdentity.overlapUntil now overlap) now] }) := by
  rw [List.mem_cons, not_or] at hnew
  have hnone : ¬ r.overlapKeys.any (·.keyId = d.keyId) := by
    rw [List.any_eq_true]
    rintro ⟨key, hkey, heq⟩
    exact hnew.2 (List.mem_map.mpr ⟨key, hkey, of_decide_eq_true heq⟩)
  rw [h.handed hsigned hexpected, if_neg hnew.1, if_neg hnone]

/-- What becomes of a descriptor that is handed over in order: the record is refreshed under the
same key, or moved to a later one. -/
theorem Pinned.follow (h : Pinned c name w r ordinals n) {i : Nat} {d : StoreDescriptor}
    (hd : w.published[i]? = some d) (hi : w.seen ≤ i) {expected : Option String}
    (hexpected : expected.all (· = d.publicKey)) (overlap now : Int) :
    ∃ m, ordinals[i]? = some m ∧ StoreIdentity.Signed c w.store m d ∧
      ((m = n ∧ d.keyId = r.keyId ∧ w.follow c name d expected overlap now =
          (.ok ⟨r.keyId, r.keyId, now, now⟩,
            { w.follower with remotes := [r.refresh d now] })) ∨
        (n < m ∧ w.follow c name d expected overlap now =
          (.ok ⟨r.keyId, d.keyId, now, StoreIdentity.overlapUntil now overlap⟩,
            { w.follower with remotes :=
                [r.moveTo d (StoreIdentity.overlapUntil now overlap) now] }))) := by
  obtain ⟨m, hm, hsigned⟩ := h.ordinal hd
  refine ⟨m, hm, hsigned, ?_⟩
  rcases (h.le hi h.seen hm).lt_or_eq with hlt | rfl
  · exact Or.inr ⟨hlt, h.moves hsigned (h.fresh hlt hsigned) hexpected overlap now⟩
  · obtain ⟨key, hkey, hid, -⟩ := h.active
    obtain ⟨key', hkey', hid', -⟩ := hsigned.names
    obtain rfl := Option.some.inj (hkey.symm.trans hkey')
    have heq : d.keyId = r.keyId := hid'.symm.trans hid
    rw [h.handed hsigned hexpected, if_pos heq]
    exact Or.inl ⟨rfl, heq, rfl⟩

theorem Pinned.rotates (h : Pinned c name w r ordinals n) (op : Rotation c) :
    Pinned c name { w with store := (op.call w.store).2 } r ordinals n := by
  obtain ⟨older, active, hstore⟩ := h.store
  have hid := (hstore.call_names op hstore.names_active).2
  refine ⟨?_, ?_, h.signed.imp fun _ _ hd => hd.call hstore op, h.sorted, h.follower, h.name,
    h.seen,
    h.storeId.trans hid.symm, (hstore.call_names op h.active).1, fun key hkey => ?_, h.sound⟩
  · obtain ⟨later, new, hrotated, -⟩ := hstore.rotated [op]
    exact ⟨_, _, hrotated⟩
  · show ((op.call w.store).2.storeId).toList.head? = some 's'
    rw [hid]
    exact h.blank
  · obtain ⟨m, hm, hnames⟩ := h.overlap key hkey
    exact ⟨m, hm, (hstore.call_names op hnames).1⟩

/-- What is published is signed with the store's current key. -/
theorem Pinned.publishes (hc : c.Correct) (hraw : c.Raw) (h : Pinned c name w r ordinals n)
    (now : Int) : ∃ d m, w.store.descriptor c now = .ok d ∧
      Pinned c name { w with published := w.published ++ [d] } r (ordinals ++ [m]) n := by
  obtain ⟨older, active, hstore⟩ := h.store
  obtain ⟨d, hd, -⟩ := hstore.descriptor hc now
  have hsigned := hstore.signed hc hraw h.blank hd
  refine ⟨d, older.length, hd, h.store, h.blank, List.rel_append h.signed (.cons hsigned .nil), ?_,
    h.follower, h.name, ?_, h.storeId, h.active, h.overlap, h.sound⟩
  · refine List.pairwise_append.mpr ⟨h.sorted, List.pairwise_singleton _ _, fun m hm k hk => ?_⟩
    rw [List.mem_singleton.mp hk]
    obtain ⟨i, hi⟩ := List.mem_iff_getElem?.mp hm
    have hlt : i < w.published.length := by
      rw [← h.signed.length_eq]
      exact (List.getElem?_eq_some_iff.mp hi).1
    obtain ⟨m', hm', hold⟩ := h.ordinal (List.getElem?_eq_getElem hlt)
    obtain rfl := Option.some.inj (hi.symm.trans hm')
    have := hold.names.lt
    rw [hstore.length_keys] at this
    omega
  · rw [List.getElem?_append_left (List.getElem?_eq_some_iff.mp h.seen).1, h.seen]

/-- After a descriptor that came in order, its key is the record's. -/
theorem Pinned.hands (h : Pinned c name w r ordinals n) {i : Nat} {d : StoreDescriptor}
    (hd : w.published[i]? = some d) (hi : w.seen ≤ i) {expected : Option String}
    (hexpected : expected.all (· = d.publicKey)) (overlap now : Int) : ∃ r' n', Pinned c name
      { w with follower := (w.follow c name d expected overlap now).2, seen := i } r' ordinals
      n' := by
  obtain ⟨m, hm, hsigned, ⟨rfl, heq, hcall⟩ | ⟨hlt, hcall⟩⟩ := h.follow hd hi hexpected overlap now
  · rw [hcall]
    exact ⟨r.refresh d now, m, h.store, h.blank, h.signed, h.sorted, rfl, h.name, hm, h.storeId,
      h.active, h.overlap, (RemoteRecord.Turn.refresh d now heq).sound h.sound⟩
  · have hfresh := h.fresh hlt hsigned
    rw [List.mem_cons, not_or] at hfresh
    rw [hcall]
    refine ⟨r.moveTo d _ now, m, h.store, h.blank, h.signed, h.sorted, rfl, h.name, hm, h.storeId,
      hsigned.names, fun key hkey => ?_,
      (RemoteRecord.Turn.moveTo d _ now hfresh.1 hfresh.2).sound h.sound⟩
    -- the key the record had is an overlap key now
    rcases List.mem_append.mp hkey with hkey | hkey
    · obtain ⟨k, hk, hnames⟩ := h.overlap key hkey
      exact ⟨k, by omega, hnames⟩
    · rw [List.mem_singleton.mp hkey]
      exact ⟨n, hlt, h.active⟩

/-- Every move in order keeps it. -/
theorem Pinned.step (hc : c.Correct) (hraw : c.Raw) (h : Pinned c name w r ordinals n)
    {move : Move c}
    (hmove : InOrder w move) :
    ∃ r' ordinals' n', Pinned c name (Following.step c name move w) r' ordinals' n' := by
  cases move with
  | rotate op => exact ⟨r, ordinals, n, h.rotates op⟩
  | publish now =>
      obtain ⟨d, m, hd, hpinned⟩ := h.publishes hc hraw now
      have hstep : Following.step c name (.publish now) w =
          { w with published := w.published ++ [d] } := by
        simp only [Following.step, hd]
      rw [hstep]
      exact ⟨r, _, n, hpinned⟩
  | follow i expected overlap now =>
      obtain ⟨hi, hexpected⟩ := hmove
      simp only [Following.step]
      cases hd : w.published[i]? with
      | none => exact ⟨r, ordinals, n, h⟩
      | some d =>
          obtain ⟨r', n', hpinned⟩ := h.hands hd hi (hexpected d hd) overlap now
          exact ⟨r', ordinals, n', hpinned⟩

/-- What the follower's record is worth. It is stated of what the store publishes from now on, since
that is what a follower is for. -/
structure Follows (c : Crypto) (name : String) (w : Following) : Prop where
  /-- The pin is the key of the descriptor that was handed over last, which verifies. -/
  pinned : ∃ r d, w.follower.get name = some r ∧ w.published[w.seen]? = some d ∧
    r.keyId = d.keyId ∧ r.publicKey = d.publicKey ∧ ∀ now, r.verify c (.ok d) now = .ok d
  /-- It follows whatever was published since. -/
  follows : ∀ (i : Nat) (d : StoreDescriptor), w.seen ≤ i → w.published[i]? = some d →
    ∀ overlap now,
    ∃ turn, (w.follow c name d none overlap now).1 = .ok turn ∧ turn.newKeyId = d.keyId
  /-- What the store signs now verifies when the store's key has been followed to. -/
  current : ∀ (r : RemoteRecord) (d : StoreDescriptor) (signedAt now : Int), w.follower.get name =
    some r →
    w.store.descriptor c signedAt = .ok d →
    (r.verify c (.ok d) now = .ok d ↔ r.keyId = w.store.activeKeyId)
  /-- What it signed before verifies until the overlap of a key that was followed to ends. -/
  earlier : ∀ (r : RemoteRecord) (i : Nat) (d : StoreDescriptor) (now : Int),
    w.follower.get name = some r → w.published[i]? = some d →
    (r.verify c (.ok d) now = .ok d ↔ d.keyId = r.keyId ∨
      ∃ key ∈ r.overlapKeys, key.keyId = d.keyId ∧ ∀ t, key.validUntil = some t → now < t)

theorem Pinned.get (h : Pinned c name w r ordinals n) : w.follower.get name = some r := by
  rw [RemoteRegistry.get, h.follower, List.find?_cons_of_pos (by simpa using h.name)]

/-- Which of the store's descriptors the record verifies. -/
theorem Pinned.verify (h : Pinned c name w r ordinals n) {m : Nat} {d : StoreDescriptor}
    (hd : StoreIdentity.Signed c w.store m d) (now : Int) :
    r.verify c (.ok d) now = .ok d ↔ d.keyId = r.keyId ∨
      ∃ key ∈ r.overlapKeys, key.keyId = d.keyId ∧ ∀ t, key.validUntil = some t → now < t := by
  obtain ⟨older, active, hstore⟩ := h.store
  have hstoreId := hd.storeId.trans h.storeId.symm
  -- one id, one public key
  have hpublic : ∀ {k keyId publicKey}, w.store.Names k keyId publicKey → keyId = d.keyId →
      d.publicKey = publicKey := by
    intro k keyId publicKey hnames heq
    rw [heq] at hnames
    obtain rfl := hstore.names_inj hnames hd.names
    obtain ⟨key, hkey, -, hpub⟩ := hnames
    obtain ⟨key', hkey', -, hpub'⟩ := hd.names
    obtain rfl := Option.some.inj (hkey.symm.trans hkey')
    exact hpub'.symm.trans hpub
  constructor
  · intro hverify
    by_cases hmem : d.keyId ∈ r.keyId :: r.overlapKeys.map RemoteOverlapKey.keyId
    · rcases List.mem_cons.mp hmem with heq | hmem
      · exact Or.inl heq
      · obtain ⟨key, hkey, heq⟩ := List.mem_map.mp hmem
        obtain ⟨k, -, hnames⟩ := h.overlap key hkey
        exact Or.inr ⟨key, hkey, heq, (RemoteRecord.verify_overlap h.sound hd.selfSigned hstoreId
          hkey heq.symm (hpublic hnames heq) now).mp hverify⟩
    · exact absurd hverify (RemoteRecord.verify_unknown hmem now)
  · rintro (heq | ⟨key, hkey, heq, hend⟩)
    · exact RemoteRecord.verify_active h.sound hd.selfSigned hstoreId heq
        (hpublic h.active heq.symm) now
    · obtain ⟨k, -, hnames⟩ := h.overlap key hkey
      exact (RemoteRecord.verify_overlap h.sound hd.selfSigned hstoreId hkey heq.symm
        (hpublic hnames heq) now).mpr hend

theorem Pinned.follows (hc : c.Correct) (hraw : c.Raw) (h : Pinned c name w r ordinals n) :
    Follows c name w := by
  obtain ⟨older, active, hstore⟩ := h.store
  refine ⟨?_, fun i d hi hd overlap now => ?_, fun r' d signedAt now hr' hd => ?_,
    fun r' i d now hr' hd => ?_⟩
  · have hlt : w.seen < w.published.length := by
      rw [← h.signed.length_eq]
      exact (List.getElem?_eq_some_iff.mp h.seen).1
    have hd := List.getElem?_eq_getElem hlt
    obtain ⟨m, hm, hsigned⟩ := h.ordinal hd
    obtain rfl := Option.some.inj (h.seen.symm.trans hm)
    obtain ⟨key, hkey, hid, hpub⟩ := h.active
    obtain ⟨key', hkey', hid', hpub'⟩ := hsigned.names
    obtain rfl := Option.some.inj (hkey.symm.trans hkey')
    have heq := hid'.symm.trans hid
    exact ⟨r, _, h.get, hd, heq.symm, hpub.symm.trans hpub', fun now =>
      (h.verify hsigned now).mpr (Or.inl heq)⟩
  · obtain ⟨m, -, -, ⟨-, heq, hcall⟩ | ⟨-, hcall⟩⟩ := @Pinned.follow c name w r ordinals n h i d hd
        hi none rfl overlap now
    · exact ⟨_, congrArg Prod.fst hcall, heq.symm⟩
    · exact ⟨_, congrArg Prod.fst hcall, rfl⟩
  · obtain rfl := Option.some.inj (h.get.symm.trans hr')
    have hsigned := hstore.signed hc hraw h.blank hd
    obtain ⟨d', hd', -, -, hkeyId, -⟩ := hstore.descriptor hc signedAt
    obtain rfl : d' = d := Except.ok.inj (hd'.symm.trans hd)
    rw [h.verify hsigned, hstore.activeKeyId, ← hkeyId]
    constructor
    · rintro (heq | ⟨key, hkey, heq, -⟩)
      · exact heq.symm
      · -- an overlap key comes before a key of the store, so it is not the last
        obtain ⟨k, hk, hnames⟩ := h.overlap key hkey
        rw [heq] at hnames
        have hlast := hstore.names_inj hnames hsigned.names
        have := h.active.lt
        rw [hstore.length_keys] at this
        omega
    · exact fun heq => Or.inl heq.symm
  · obtain rfl := Option.some.inj (h.get.symm.trans hr')
    obtain ⟨m, -, hsigned⟩ := h.ordinal hd
    exact h.verify hsigned now

/-! ### Runs -/

/-- First contact pins the key that signed the descriptor. -/
theorem pinned_joined {entropy : Except String Signing.Bytes}
    {fresh : Except String c.ed25519.Secret}
    {opts : InitOptions} {createdAt signedAt now : Int} {created : StoreIdentity}
    {before : List (Rotation c)} {d : StoreDescriptor} {endpoint : String}
    {follower : RemoteRegistry} (hc : c.Correct) (hraw : c.Raw)
    (hcreate : StoreIdentity.create c entropy fresh opts createdAt = .ok created)
    (hd : (StoreIdentity.rotated before created).descriptor c signedAt = .ok d)
    (hadd : Mutation.call (RemoteRegistry.add c name endpoint (.ok d) now) {} = (.ok r, follower)) :
    ∃ n, Pinned c r.name (joined (StoreIdentity.rotated before created) d follower) r [n] n := by
  obtain ⟨key, hcreated⟩ := StoreIdentity.sound_create hcreate
  obtain ⟨later, active, hstore, hid⟩ := hcreated.rotated before
  have hblank : (StoreIdentity.rotated before created).storeId.toList.head? = some 's' := by
    rw [hid]
    exact StoreIdentity.head?_storeId hcreate
  have hsigned := hstore.signed hc hraw hblank hd
  have hself : verifySelfSignedDescriptor c (.ok d) now = .ok d :=
    verifySelfSignedDescriptor_eq_ok.mpr ⟨rfl, hsigned.selfSigned⟩
  obtain ⟨hr, hfollower⟩ : r.storeId = d.storeId ∧ r.keyId = d.keyId ∧ r.publicKey = d.publicKey ∧
      r.validUntil = none ∧ r.overlapKeys = [] ∧ follower.remotes = [r] := by
    -- The record that add writes: of the descriptor it was handed, without overlap keys, and the
    -- only one.
    cases hname : validateRemoteName name with
    | error e =>
        simp only [RemoteRegistry.add, Mutation.call_bind, Mutation.call_liftM, hname] at hadd
        cases hadd
    | ok name' =>
        cases hendpoint : validateEndpoint endpoint with
        | error e =>
            simp only [RemoteRegistry.add, Mutation.call_bind, Mutation.call_liftM, hname,
              hendpoint] at hadd
            cases hadd
        | ok endpoint' =>
            rw [RemoteRegistry.add_call hname hendpoint rfl hself] at hadd
            cases hadd
            exact ⟨rfl, rfl, rfl, rfl, rfl, rfl⟩
  obtain ⟨hkeyId, hpublic, hvalid, hoverlap, hremotes⟩ := hfollower
  refine ⟨_, ⟨_, _, hstore⟩, hblank, .cons hsigned .nil, List.pairwise_singleton _ _, hremotes, rfl,
    rfl, hr.trans hsigned.storeId, ?_, ?_, ?_⟩
  · rw [hkeyId, hpublic]
    exact hsigned.names
  · rw [hoverlap]
    exact fun _ hkey => absurd hkey List.not_mem_nil
  · exact ⟨by simp [hoverlap], hvalid, by simp [hoverlap]⟩

theorem pinned_run (hc : c.Correct) (hraw : c.Raw) {moves : List (Move c)}
    (h : Pinned c name w r ordinals n)
    (hmoves : Machine.Meets (Following.step c name) InOrder moves w) :
    ∃ r' ordinals' n', Pinned c name (Machine.run (Following.step c name) moves w) r' ordinals'
    n' :=
  Machine.invariant_of_meets (fun w => ∃ r ordinals n, Pinned c name w r ordinals n)
    (fun _ _ ⟨_, _, _, h⟩ hmove => h.step hc hraw hmove) moves ⟨r, ordinals, n, h⟩ hmoves

/-- A follower that is handed descriptors in the order of their publication follows the store:
whichever keys and moments it missed, the next descriptor is accepted, and the store's current one
verifies as soon as its key has been followed to. -/
theorem follows_in_order (hc : c.Correct) (hraw : c.Raw) {entropy : Except String Signing.Bytes}
    {fresh : Except String c.ed25519.Secret} {opts : InitOptions} {createdAt signedAt now : Int}
    {created : StoreIdentity}
    (hcreate : StoreIdentity.create c entropy fresh opts createdAt = .ok created)
    (before : List (Rotation c)) {d : StoreDescriptor}
    (hd : (StoreIdentity.rotated before created).descriptor c signedAt = .ok d)
    {endpoint : String} {follower : RemoteRegistry}
    (hadd : Mutation.call (RemoteRegistry.add c name endpoint (.ok d) now) {} = (.ok r, follower))
    (moves : List (Move c))
    (hmoves : Machine.Meets (Following.step c r.name) InOrder moves
      (joined (StoreIdentity.rotated before created) d follower)) :
    Follows c r.name (Machine.run (Following.step c r.name) moves
      (joined (StoreIdentity.rotated before created) d follower)) := by
  obtain ⟨n, hjoined⟩ := pinned_joined hc hraw hcreate hd hadd
  obtain ⟨r', ordinals, n', hpinned⟩ := pinned_run hc hraw hjoined hmoves
  exact hpinned.follows hc hraw

end Following

/-! ### Going back -/

/-- The registry after a sequence of calls of `add`, `rotate` and `remove`. -/
def RemoteRegistry.after (c : Crypto) (calls : List RegistryCall) (registry : RemoteRegistry) :
    RemoteRegistry :=
  Machine.run (fun (call : RegistryCall) registry => (call.call c registry).2) calls registry

/-- What stands in for the record at one place of the registry is found under its name, where the
old one was. -/
theorem find?_set {remotes : List RemoteRecord} {i : Nat} {name : String}
    {r r' found : RemoteRecord} (hget : remotes[i]? = some r) (hname : r'.name = r.name)
    (hfound : remotes.find? (fun r => r.name = name) = some found) :
    (remotes.set i r').find? (fun r => r.name = name) = some found ∨
      r = found ∧ (remotes.set i r').find? (fun r => r.name = name) = some r' := by
  induction remotes generalizing i with
  | nil => cases hfound
  | cons first remotes ih =>
      by_cases hfirst : first.name = name
      · rw [List.find?_cons_of_pos (by simpa using hfirst)] at hfound
        obtain rfl := Option.some.inj hfound
        cases i with
        | zero =>
            obtain rfl := Option.some.inj hget
            exact Or.inr ⟨rfl, List.find?_cons_of_pos (by simp [hname, hfirst])⟩
        | succ i => exact Or.inl (List.find?_cons_of_pos (by simpa using hfirst))
      · rw [List.find?_cons_of_neg (by simpa using hfirst)] at hfound
        cases i with
        | zero =>
            obtain rfl := Option.some.inj hget
            refine Or.inl ?_
            rw [List.set_cons_zero, List.find?_cons_of_neg (by simp [hname, hfirst])]
            exact hfound
        | succ i =>
            rw [List.set_cons_succ, List.find?_cons_of_neg (by simpa using hfirst)]
            exact ih hget hfound

/-- Removing the record of one name leaves what is found under another. -/
theorem find?_eraseIdx {remotes : List RemoteRecord} {i : Nat} {name removed : String}
    {r : RemoteRecord} (hremoved : locate removed remotes = some (i, r)) (hne : removed ≠ name) :
    (remotes.eraseIdx i).find? (fun r => r.name = name) =
      remotes.find? (fun r => r.name = name) := by
  induction remotes generalizing i with
  | nil => cases hremoved
  | cons first remotes ih =>
      rw [locate] at hremoved
      split at hremoved
      next hfirst =>
        cases hremoved
        rw [List.eraseIdx_cons_zero, List.find?_cons_of_neg (by simpa [hfirst] using hne)]
      next hfirst =>
        obtain ⟨found, hfound, heq⟩ := Option.map_eq_some_iff.mp hremoved
        cases heq
        rw [List.eraseIdx_cons_succ, List.find?_cons, List.find?_cons, ih hfound]

namespace RegistryCall

/-- A call of `remove` fails and changes nothing, or takes out the record of the name. -/
theorem remove_cases (registry : RemoteRegistry) (name : String) :
    ((RegistryCall.remove name).call c registry).2 = registry ∨
    ∃ i r, locate name registry.remotes = some (i, r) ∧
      ((RegistryCall.remove name).call c registry).2 =
        { registry with remotes := registry.remotes.eraseIdx i } := by
  simp only [call, RemoteRegistry.remove, RemoteRegistry.position, Mutation.call_bind,
    Mutation.call_get, Mutation.call_liftM]
  cases hfound : locate name registry.remotes with
  | none => exact Or.inl rfl
  | some found => exact Or.inr ⟨found.1, found.2, rfl, rfl⟩

theorem sound {registry : RemoteRegistry} (call : RegistryCall) (h : registry.Sound) :
    (call.call c registry).2.Sound := by
  cases call with
  | pin call => exact call.sound h
  | remove name =>
      rcases @remove_cases c registry name with hsame | ⟨i, r, -, hremoved⟩
      · rwa [hsame]
      · rw [hremoved]
        exact fun record hrecord => h record (List.mem_of_mem_eraseIdx hrecord)

/-- A call that does not remove the record of a name leaves a later one under it. -/
theorem later {registry : RemoteRegistry} {call : RegistryCall} {name : String} {r : RemoteRecord}
    (hcall : call ≠ .remove name) (h : registry.get name = some r) :
    ∃ r', (call.call c registry).2.get name = some r' ∧ r.Later r' := by
  cases call with
  | remove removed =>
      rcases @remove_cases c registry removed with hsame | ⟨i, found, hfound, hremoved⟩
      · exact ⟨r, by rw [hsame]; exact h, .refl r⟩
      · have hne : removed ≠ name := fun heq => hcall (congrArg _ heq)
        refine ⟨r, ?_, .refl r⟩
        rw [hremoved, RemoteRegistry.get, find?_eraseIdx hfound hne]
        exact h
  | pin call =>
      rcases call.call_cases registry with ⟨e, he⟩ | ⟨-, hadd | hturn⟩
      · exact ⟨r, by rw [RegistryCall.call, he]; exact h, .refl r⟩
      · obtain ⟨record, -, -, hremotes⟩ := hadd
        refine ⟨r, ?_, .refl r⟩
        rw [RegistryCall.call, RemoteRegistry.get, hremotes, List.find?_append,
          ← RemoteRegistry.get,
          h]
        rfl
      · obtain ⟨i, record, record', hget, hturn, hremotes⟩ := hturn
        rw [RegistryCall.call, RemoteRegistry.get, hremotes]
        rcases find?_set hget hturn.later.name h with hsame | ⟨rfl, hnew⟩
        · exact ⟨r, hsame, .refl r⟩
        · exact ⟨record', hnew, hturn.later⟩

end RegistryCall

theorem RemoteRegistry.sound_after (calls : List RegistryCall) {registry : RemoteRegistry}
    (h : registry.Sound) : (registry.after c calls).Sound :=
  Machine.invariant RemoteRegistry.Sound (fun _ call h => call.sound h) calls h

/-- A record that is not removed stays under its name. -/
theorem RemoteRegistry.later_after {calls : List RegistryCall} {registry : RemoteRegistry}
    {name : String} {r : RemoteRecord} (hcalls : ∀ call ∈ calls, call ≠ .remove name)
    (h : registry.get name = some r) :
    ∃ r', (registry.after c calls).get name = some r' ∧ r.Later r' := by
  have hmeets : Machine.Meets (fun (call : RegistryCall) registry => (call.call c registry).2)
      (fun _ call => call ≠ .remove name) calls registry :=
    Machine.meets_of_forall (fun call hmem _ => hcalls call hmem) _
  refine Machine.invariant_of_meets (fun registry : RemoteRegistry =>
    ∃ r', registry.get name = some r' ∧ r.Later r')
      (fun registry call ⟨r', hr', hlater⟩ hcall => ?_) calls ⟨r, h, .refl r⟩ hmeets
  obtain ⟨r'', hr'', hlater'⟩ := RegistryCall.later (c := c) hcall hr'
  exact ⟨r'', hr'', hlater.trans hlater'⟩

namespace RemoteRecord

/-- A key that was left is never followed to again, whatever is done to the registry but to remove
the pin, and what it signs does not verify once its overlap has ended. -/
theorem left_behind {registry : RemoteRegistry} {r : RemoteRecord} {name : String}
    (hregistry : registry.Sound) (hget : registry.get name = some r) {key : RemoteOverlapKey}
    (hkey : key ∈ r.overlapKeys) {later : List RegistryCall}
    (hcalls : ∀ call ∈ later, call ≠ .remove name) :
    ∃ r', (registry.after c later).get name = some r' ∧ r'.keyId ≠ key.keyId ∧
      (∀ json d, json = .ok d → d.keyId = key.keyId → ∀ expected overlap now,
        ∃ e, Mutation.call (RemoteRegistry.rotate c name json expected overlap now)
          (registry.after c later) = (.error e, registry.after c later)) ∧
      ∀ validUntil now, key.validUntil = some validUntil → validUntil ≤ now →
        ∀ json d, d.keyId = key.keyId → r'.verify c json now ≠ .ok d := by
  obtain ⟨r', hr', hlater⟩ := RemoteRegistry.later_after (c := c) hcalls hget
  have hsound := RemoteRegistry.sound_after (c := c) later hregistry r'
      (List.mem_of_find?_eq_some hr')
  have hmem := hlater.overlapKeys.subset hkey
  have hne : r'.keyId ≠ key.keyId := fun heq =>
    (List.nodup_cons.mp hsound.distinct).1 (heq ▸ List.mem_map_of_mem hmem)
  obtain ⟨i, hfound⟩ := locate_of_find? hr'
  refine ⟨r', hr', hne, ?_, fun validUntil now hend hnow json d hd =>
    hsound.verify_expired hmem hend hnow hd⟩
  -- Rotating back is refused by whichever check comes first: the signature, the store, the pinned
  -- key, or the overlap list that still has the key.
  rintro json d rfl hd expected overlap now
  cases hself : verifySelfSignedDescriptor c (.ok d) now with
  | error e =>
      refine ⟨e, ?_⟩
      simp only [RemoteRegistry.rotate, RemoteRegistry.position, hfound, hself,
        Mutation.call_bind, Mutation.call_get, Mutation.call_liftM, Except.okOr_some]
  | ok d' =>
      obtain ⟨hjson, -⟩ := verifySelfSignedDescriptor_eq_ok.mp hself
      obtain rfl := Except.ok.inj hjson
      have hany : r'.overlapKeys.any (·.keyId = d.keyId) := by
        rw [List.any_eq_true]
        exact ⟨key, hmem, by simp [hd]⟩
      rw [RemoteRegistry.rotate_call hfound hself]
      split
      · exact ⟨_, rfl⟩
      · split
        · exact ⟨_, rfl⟩
        · have hother : ¬ d.keyId = r'.keyId := fun heq => hne (heq.symm.trans hd)
          simp only [if_neg hother]
          exact ⟨_, rfl⟩

end RemoteRecord

namespace Following

variable {name : String} {r : RemoteRecord}

/-- In any run in which descriptors came in order: a follower that is then handed one of a key it
has skipped goes back to that key, and from there on nothing done to the registry short of
removing the pin lets it follow the store to the key it left. -/
theorem skipped_key_strands (hc : c.Correct) (hraw : c.Raw) {entropy : Except String Signing.Bytes}
    {fresh : Except String c.ed25519.Secret} {opts : InitOptions} {createdAt signedAt now : Int}
    {created : StoreIdentity}
    (hcreate : StoreIdentity.create c entropy fresh opts createdAt = .ok created)
    (before : List (Rotation c)) {d : StoreDescriptor}
    (hd : (StoreIdentity.rotated before created).descriptor c signedAt = .ok d)
    {endpoint : String} {follower : RemoteRegistry}
    (hadd : Mutation.call (RemoteRegistry.add c name endpoint (.ok d) now) {} = (.ok r, follower))
    (moves : List (Move c))
    (hmoves : Machine.Meets (Following.step c r.name) InOrder moves
      (joined (StoreIdentity.rotated before created) d follower))
    {w : Following} (hw : w = Machine.run (Following.step c r.name) moves
      (joined (StoreIdentity.rotated before created) d follower))
    {left : RemoteRecord} (hleft : w.follower.get r.name = some left)
    {i : Nat} {old : StoreDescriptor} (hold : w.published[i]? = some old)
    (hskipped : old.keyId ∉ left.keyId :: left.overlapKeys.map RemoteOverlapKey.keyId)
    (overlap handed : Int) :
    (w.follow c r.name old none overlap handed).1 =
        .ok ⟨left.keyId, old.keyId, handed, StoreIdentity.overlapUntil handed overlap⟩ ∧
      ∀ later : List RegistryCall, (∀ call ∈ later, call ≠ .remove r.name) → ∃ r',
        ((w.follow c r.name old none overlap handed).2.after c later).get r.name = some r' ∧
        r'.keyId ≠ left.keyId ∧
        (∀ json d', json = .ok d' → d'.keyId = left.keyId → ∀ expected overlap' now',
          ∃ e, Mutation.call (RemoteRegistry.rotate c r.name json expected overlap' now')
            ((w.follow c r.name old none overlap handed).2.after c later) =
            (.error e, (w.follow c r.name old none overlap handed).2.after c later)) ∧
        ∀ now', StoreIdentity.overlapUntil handed overlap ≤ now' →
          ∀ json d', d'.keyId = left.keyId → r'.verify c json now' ≠ .ok d' := by
  obtain ⟨n, hjoined⟩ := pinned_joined hc hraw hcreate hd hadd
  obtain ⟨r₁, ordinals, n₁, hpinned⟩ := pinned_run hc hraw hjoined hmoves
  rw [← hw] at hpinned
  obtain rfl := Option.some.inj (hpinned.get.symm.trans hleft)
  obtain ⟨m, -, hsigned⟩ := hpinned.ordinal hold
  obtain ⟨hother, hnew⟩ := not_or.mp (mt List.mem_cons.mpr hskipped)
  -- The skipped key rotates in at once, and the key that was active goes to the overlap list with
  -- an expiry.
  have hcall := hpinned.moves hsigned hskipped (rfl : Option.all _ none = true) overlap handed
  generalize StoreIdentity.overlapUntil handed overlap = ends at hcall ⊢
  have hmoved : (r₁.moveTo old ends handed).Sound :=
    (RemoteRecord.Turn.moveTo old ends handed hother hnew).sound hpinned.sound
  have hvalid : (r₁.moveTo old ends handed).overlapKeys =
      r₁.overlapKeys ++ [⟨r₁.keyId, r₁.publicKey, some ends⟩] := by
    rw [RemoteRecord.moveTo, hpinned.sound.active]
  have hkey : (⟨r₁.keyId, r₁.publicKey, some ends⟩ : RemoteOverlapKey) ∈
      (r₁.moveTo old ends handed).overlapKeys := by
    rw [hvalid]
    exact List.mem_append_right _ (List.mem_singleton_self _)
  rw [hcall]
  refine ⟨rfl, fun later hcalls => ?_⟩
  have hname : (r₁.moveTo old ends handed).name = r.name := hpinned.name
  have hfind : ({ w.follower with remotes := [r₁.moveTo old ends handed] } : RemoteRegistry).get
      r.name = some (r₁.moveTo old ends handed) := List.find?_cons_of_pos (by simpa using hname)
  -- From there on the record keeps that entry, which refuses every rotation back to the key.
  obtain ⟨r', hget, hne, hrefused, hexpired⟩ := RemoteRecord.left_behind (c := c)
    (fun record hrecord => by rw [List.mem_singleton.mp hrecord]; exact hmoved) hfind hkey hcalls
  exact ⟨r', hget, hne, hrefused, fun now' hnow => hexpired ends now' rfl hnow⟩

/-! ### An example -/

/-- What is published does not depend on who follows. -/
theorem published_run (moves : List (Move c)) (name' : String) (store : StoreIdentity)
    (published : List StoreDescriptor) (f f' : RemoteRegistry) (seen seen' : Nat) :
    (Machine.run (Following.step c name) moves ⟨store, published, f, seen⟩).published =
      (Machine.run (Following.step c name') moves ⟨store, published, f', seen'⟩).published := by
  induction moves generalizing store published f f' seen seen' with
  | nil => rfl
  | cons move moves ih =>
      rw [Machine.run_cons, Machine.run_cons]
      cases move with
      | rotate op => exact ih ..
      | publish now =>
          simp only [Following.step]
          cases store.descriptor c now <;> exact ih ..
      | follow i expected overlap now =>
          simp only [Following.step]
          cases published[i]? <;> exact ih ..

/-- A store that is not followed leaves the follower where it was. -/
theorem run_unfollowed {moves : List (Move c)}
    (h : ∀ move ∈ moves, ∀ i expected overlap now, move ≠ .follow i expected overlap now)
    (w : Following) :
    (Machine.run (Following.step c name) moves w).follower = w.follower ∧
      (Machine.run (Following.step c name) moves w).seen = w.seen := by
  induction moves generalizing w with
  | nil => exact ⟨rfl, rfl⟩
  | cons move moves ih =>
      have hrest := ih (fun m hm => h m (List.mem_cons_of_mem _ hm)) (Following.step c name move w)
      rw [Machine.run_cons, hrest.1, hrest.2]
      cases move with
      | rotate op => exact ⟨rfl, rfl⟩
      | publish now =>
          simp only [Following.step]
          cases w.store.descriptor c now <;> exact ⟨rfl, rfl⟩
      | follow i expected overlap now => exact absurd rfl (h _ (List.mem_cons_self ..) _ _ _ _)

def demoStore : StoreIdentity where
  version := 1
  storeId := "store_0102030405060708090a0b0c"
  displayName := "demo"
  endpoint := none
  capabilities := ["issues"]
  issuedAt := 1000
  activeKeyId := "store_0102030405060708090a0b0c/key-1"
  keys := [⟨"store_0102030405060708090a0b0c/key-1", Crypto.plainText (List.replicate 32 7),
    Crypto.plainText [7], 1000, none⟩]
  rotations := []

theorem demo_eq : StoreIdentity.demo = .ok demoStore := by decide +kernel

/-- The store rotates twice, and its follower misses the second key. -/
def missed : List (Move Crypto.plain) :=
  [.rotate ⟨.ok (Crypto.plainSecret 8), 2000, 60⟩, .publish 2001,
    .rotate ⟨.ok (Crypto.plainSecret 9), 3000, 60⟩, .publish 3001]

/-- It is handed a descriptor again, of the third. -/
def caughtUp : List (Move Crypto.plain) := missed ++ [.follow 2 none 60 3002]

/-- The keys of what is published. -/
theorem missed_published (d : StoreDescriptor)
    (hd : demoStore.descriptor Crypto.plain 1001 = .ok d) :
    (Machine.run (Following.step Crypto.plain "acme") missed (joined demoStore d {})).published.map
      StoreDescriptor.keyId =
    ["store_0102030405060708090a0b0c/key-1", "store_0102030405060708090a0b0c/key-2",
      "store_0102030405060708090a0b0c/key-3"] := by
  have h : (demoStore.descriptor Crypto.plain 1001).toOption.map (fun d =>
      (Machine.run (Following.step Crypto.plain "acme") missed
        (joined demoStore d {})).published.map StoreDescriptor.keyId) =
    some ["store_0102030405060708090a0b0c/key-1", "store_0102030405060708090a0b0c/key-2",
      "store_0102030405060708090a0b0c/key-3"] := by decide +kernel
  rw [hd] at h
  exact Option.some.inj h

/-- The follower pins the store as it was made. -/
theorem demo_joined : ∃ d r follower, demoStore.descriptor Crypto.plain 1001 = .ok d ∧
    Mutation.call (RemoteRegistry.add Crypto.plain "acme" "https://acme" (.ok d) 1002) {} =
      (.ok r, follower) ∧ r.name = "acme" ∧ r.keyId = d.keyId ∧ r.overlapKeys = [] ∧
      follower.remotes = [r] := by
  obtain ⟨key, hstore⟩ := StoreIdentity.sound_create demo_eq
  obtain ⟨d, hd, -⟩ := hstore.descriptor Crypto.plain_correct 1001
  have hsigned := hstore.signed Crypto.plain_correct (fun _ => rfl)
    (StoreIdentity.head?_storeId demo_eq) hd
  have hself : verifySelfSignedDescriptor Crypto.plain (.ok d) 1002 = .ok d :=
    verifySelfSignedDescriptor_eq_ok.mpr ⟨rfl, hsigned.selfSigned⟩
  have hname : validateRemoteName "acme" = .ok "acme" := by decide +kernel
  have hendpoint : validateEndpoint "https://acme" = .ok "https://acme" := by decide +kernel
  exact ⟨d, _, _, hd, RemoteRegistry.add_call hname hendpoint rfl hself, rfl, rfl, rfl, rfl⟩

theorem missed_unfollowed : ∀ move ∈ missed, ∀ i expected overlap now,
    move ≠ .follow i expected overlap now := by
  intro move hmove
  simp only [missed, List.mem_cons, List.not_mem_nil, or_false] at hmove
  rcases hmove with rfl | rfl | rfl | rfl <;> exact nofun

theorem caughtUp_inOrder (d : StoreDescriptor) (follower : RemoteRegistry) :
    Machine.Meets (Following.step Crypto.plain "acme") InOrder caughtUp
      (joined demoStore d follower) := by
  refine Machine.meets_append.mpr ⟨⟨trivial, trivial, trivial, trivial, trivial⟩,
    ⟨?_, fun _ _ => rfl⟩,
    trivial⟩
  rw [(run_unfollowed missed_unfollowed _).2]
  exact Nat.zero_le 2

theorem caughtUp_follows : ∃ d r follower, demoStore.descriptor Crypto.plain 1001 = .ok d ∧
    Mutation.call (RemoteRegistry.add Crypto.plain "acme" "https://acme" (.ok d) 1002) {} =
      (.ok r, follower) ∧
    Follows Crypto.plain r.name (Machine.run (Following.step Crypto.plain r.name) caughtUp
      (joined demoStore d follower)) := by
  obtain ⟨d, r, follower, hd, hadd, hname, -, -, -⟩ := demo_joined
  refine ⟨d, r, follower, hd, hadd, ?_⟩
  exact follows_in_order Crypto.plain_correct (fun _ => rfl) demo_eq [] hd hadd caughtUp
    (by rw [hname]; exact caughtUp_inOrder d follower)

/-- The record once it has caught up: the key it left is its only overlap key. -/
theorem caughtUp_record {d : StoreDescriptor} {r : RemoteRecord} {follower : RemoteRegistry}
    (hd : demoStore.descriptor Crypto.plain 1001 = .ok d)
    (hadd : Mutation.call (RemoteRegistry.add Crypto.plain "acme" "https://acme" (.ok d) 1002) {} =
      (.ok r, follower)) (hname : r.name = "acme") (hkeyId : r.keyId = d.keyId)
    (hoverlap : r.overlapKeys = []) :
    ∃ left old, (Machine.run (Following.step Crypto.plain r.name) caughtUp
        (joined demoStore d follower)).follower.get r.name = some left ∧
      (Machine.run (Following.step Crypto.plain r.name) caughtUp
        (joined demoStore d follower)).published[1]? = some old ∧
      old.keyId ∉ left.keyId :: left.overlapKeys.map RemoteOverlapKey.keyId := by
  obtain ⟨n, hjoined⟩ := @pinned_joined Crypto.plain "acme" r _ _ _ _ _ _ _ [] _ _ _
    Crypto.plain_correct (fun _ => rfl) demo_eq hd hadd
  change Pinned _ _ (joined demoStore d follower) _ _ _ at hjoined
  -- The descriptors missed are published only, so the follower still has the record it joined with.
  obtain ⟨r', ordinals, n', hpinned⟩ := pinned_run Crypto.plain_correct (fun _ => rfl) hjoined
    (by rw [hname]; exact ⟨trivial, trivial, trivial, trivial, trivial⟩ : Machine.Meets
      (Following.step Crypto.plain r.name) InOrder missed (joined demoStore d follower))
  obtain ⟨hfollower, hseen⟩ := @run_unfollowed Crypto.plain r.name missed missed_unfollowed
    (joined demoStore d follower)
  have hkeys := (congrArg (List.map StoreDescriptor.keyId) (@published_run Crypto.plain r.name
      missed
    "acme" demoStore [d] follower {} 0 0)).trans (missed_published d hd)
  rw [caughtUp, Machine.run_append]
  change (Machine.run (Following.step Crypto.plain r.name) missed
    (joined demoStore d follower)).published.map _ = _ at hkeys
  generalize Machine.run (Following.step Crypto.plain r.name) missed (joined demoStore d follower) =
    w at hpinned hfollower hseen hkeys
  obtain rfl : r' = r := by
    have hone := hpinned.follower
    rw [hfollower] at hone
    exact (List.cons.inj (hone.symm.trans hjoined.follower)).1
  obtain ⟨first, old, third, hpublished⟩ : ∃ first old third,
      w.published = [first, old, third] := by
    have hlength := congrArg List.length hkeys
    rw [List.length_map] at hlength
    exact List.length_eq_three.mp hlength
  simp only [hpublished, List.map_cons, List.map_nil, List.cons.injEq, and_true] at hkeys
  obtain ⟨-, hold, hthird⟩ := hkeys
  have hfirst : d.keyId = "store_0102030405060708090a0b0c/key-1" := by
    have h : (demoStore.descriptor Crypto.plain 1001).toOption.map StoreDescriptor.keyId =
        some "store_0102030405060708090a0b0c/key-1" := by decide +kernel
    rw [hd] at h
    exact Option.some.inj h
  have hget : w.published[2]? = some third := by rw [hpublished]; rfl
  obtain ⟨m, -, -, ⟨-, heq, -⟩ | ⟨-, hcall⟩⟩ :=
    hpinned.follow hget (by rw [hseen]; exact Nat.zero_le 2) (rfl : Option.all _ none = true) 60
      3002
  -- The third descriptor is not one of the key already pinned, so following it has to rotate.
  · rw [hthird, hkeyId, hfirst] at heq
    exact absurd heq (by decide +kernel)
  · have hstep : Machine.run (Following.step Crypto.plain r'.name) [.follow 2 none 60 3002] w =
        { w with
          follower := { w.follower with
            remotes := [r'.moveTo third (StoreIdentity.overlapUntil 3002 60) 3002] }
          seen := 2 } := by
      rw [Machine.run_cons, Machine.run_nil]
      simp only [Following.step, hget, hcall]
    rw [hstep]
    refine ⟨r'.moveTo third (StoreIdentity.overlapUntil 3002 60) 3002, old, ?_, ?_, ?_⟩
    · exact List.find?_cons_of_pos (by simp [RemoteRecord.moveTo])
    · rw [hpublished]
      rfl
    · rw [RemoteRecord.moveTo, hoverlap, hold]
      simp only [List.nil_append, List.map_cons, List.map_nil, hthird, hkeyId, hfirst]
      decide +kernel

/-- It is handed what it missed, and goes back to the second key. -/
theorem caughtUp_strands : ∃ (d : StoreDescriptor) (r : RemoteRecord) (follower : RemoteRegistry)
    (left : RemoteRecord) (old : StoreDescriptor),
    demoStore.descriptor Crypto.plain 1001 = .ok d ∧
    Mutation.call (RemoteRegistry.add Crypto.plain "acme" "https://acme" (.ok d) 1002) {} =
      (.ok r, follower) ∧
    ∃ w, w = Machine.run (Following.step Crypto.plain r.name) caughtUp
    (joined demoStore d follower) ∧
      w.published[1]? = some old ∧
      (w.follow Crypto.plain r.name old none 60 4000).1 =
        .ok ⟨left.keyId, old.keyId, 4000, StoreIdentity.overlapUntil 4000 60⟩ := by
  obtain ⟨d, r, follower, hd, hadd, hname, hkeyId, hoverlap, -⟩ := demo_joined
  obtain ⟨left, old, hleft, hold, hskipped⟩ := caughtUp_record hd hadd hname hkeyId hoverlap
  refine ⟨d, r, follower, left, old, hd, hadd, _, rfl, hold, ?_⟩
  exact (skipped_key_strands Crypto.plain_correct (fun _ => rfl) demo_eq [] hd hadd caughtUp
    (by rw [hname]; exact caughtUp_inOrder d follower) rfl hleft hold hskipped 60 4000).1

end Following

end Marbles
