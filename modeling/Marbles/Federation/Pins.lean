import Marbles.Federation.Remotes

/-!
# Rotating pins

What happens to the records of a registry over any calls of `add` and `rotate`: they stay
where they are, under the same store and endpoint; their overlap keys only grow; and the key
ids of a record stay distinct, so an overlap key is never made active again.

A descriptor under the pinned key id refreshes a record whatever public key it carries.
`rotate_impostor_iff` says when such a call is refused.

A record only ever changes by a turn: a refresh, or a move to another key with the old one kept.
Everything that is said about runs is said about turns first. The registry adds that positions are
stable and that a name stands for one record, because `add` refuses a name that is taken.
-/

namespace Marbles

variable {c : Crypto}

/-! ### Self-signed descriptors -/

/-- The checks of first contact: the descriptor is signed by the key it carries. -/
structure StoreDescriptor.SelfSigned (c : Crypto) (d : StoreDescriptor) : Prop where
  schema : d.schema = descriptorSchema
  storeId : trim d.storeId ≠ ""
  keyId : trim d.keyId ≠ ""
  publicKey : validatePublicKey c d.keyId d.publicKey = .ok ()
  signed : c.Signed d.signature d.publicKey d.signingBytes

theorem verifySelfSignedDescriptor_eq_ok {json : DescriptorJson} {now : Int}
    {d : StoreDescriptor} :
    verifySelfSignedDescriptor c json now = .ok d ↔ json = .ok d ∧ d.SelfSigned c := by
  simp only [verifySelfSignedDescriptor, Except.bind_eq_ok, Except.mapError_eq_ok,
    Except.ite_error_eq_ok, verifyDescriptor_eq_ok]
  constructor
  · intro h
    obtain ⟨d', hjson, hstore, hkey, _, hpublic, rfl, hmatches, -, hsigned⟩ := h
    exact ⟨hjson, hmatches.schema, hstore, hkey, hpublic, hsigned⟩
  · intro h
    obtain ⟨hjson, hself⟩ := h
    have hpinned : d.storeId ≠ "" := by
      intro hempty
      exact hself.storeId (by rw [hempty]; decide)
    exact ⟨d, hjson, hself.storeId, hself.keyId, (), hself.publicKey, rfl,
      ⟨hself.schema, hpinned, rfl, rfl, rfl⟩, rfl, hself.signed⟩

/-- The descriptor a toy store signs with one of its keys. -/
def plainDescriptor (secret : UInt8) (storeId keyId displayName : String) : StoreDescriptor :=
  let unsigned : StoreDescriptor :=
    ⟨descriptorSchema, storeId, displayName, none, keyId,
      Crypto.plainText (List.replicate 32 secret), ["issues"], 1000, none⟩
  { unsigned with
    signature := some (Crypto.plainText (secret :: Crypto.plainBytes unsigned.signingBytes)) }

theorem plainDescriptor_selfSigned (secret : UInt8) {storeId keyId : String} (displayName : String)
    (hstore : trim storeId ≠ "") (hkey : trim keyId ≠ "") :
    (plainDescriptor secret storeId keyId displayName).SelfSigned Crypto.plain where
  schema := rfl
  storeId := hstore
  keyId := hkey
  publicKey := by
    have hdecode : Crypto.plain.urlSafe.decode (Crypto.plainText (List.replicate 32 secret)) =
        .ok (List.replicate 32 secret) := congrArg Except.ok (Crypto.plainBytes_plainText _)
    show validatePublicKey Crypto.plain keyId (Crypto.plainText (List.replicate 32 secret)) = _
    rw [validatePublicKey, hdecode]
    rfl
  signed := @Crypto.Correct.signed _ Crypto.plain_correct (Crypto.plainSecret secret) _ _ rfl

theorem plainDescriptor_verifies (secret : UInt8) {storeId keyId : String} (displayName : String)
    (hstore : trim storeId ≠ "") (hkey : trim keyId ≠ "") (now : Int) :
    verifySelfSignedDescriptor Crypto.plain
        (.ok (plainDescriptor secret storeId keyId displayName)) now =
      .ok (plainDescriptor secret storeId keyId displayName) :=
  verifySelfSignedDescriptor_eq_ok.mpr
    ⟨rfl, plainDescriptor_selfSigned secret displayName hstore hkey⟩

/-! ### One record in the list -/

/-- The record a position is found for is the first of its name. -/
theorem locate_spec {name : String} {record : RemoteRecord} {remotes : List RemoteRecord} {i : Nat}
    (h : locate name remotes = some (i, record)) :
    remotes[i]? = some record ∧ remotes.find? (fun r => r.name = name) = some record := by
  induction remotes generalizing i with
  | nil => cases h
  | cons r remotes ih =>
      rw [locate] at h
      by_cases hname : r.name = name
      · rw [if_pos hname] at h
        cases h
        exact ⟨rfl, List.find?_cons_of_pos (by simpa using hname)⟩
      · rw [if_neg hname] at h
        obtain ⟨found, hfound, heq⟩ := Option.map_eq_some_iff.mp h
        cases heq
        obtain ⟨hget, hfind⟩ := ih hfound
        exact ⟨hget, by rw [List.find?_cons_of_neg (by simpa using hname), hfind]⟩

theorem locate_of_find? {name : String} {record : RemoteRecord} {remotes : List RemoteRecord}
    (h : remotes.find? (fun r => r.name = name) = some record) :
    ∃ i, locate name remotes = some (i, record) := by
  induction remotes with
  | nil => cases h
  | cons r remotes ih =>
      rw [locate]
      by_cases hname : r.name = name
      · rw [List.find?_cons_of_pos (by simpa using hname)] at h
        cases h
        exact ⟨0, if_pos hname⟩
      · rw [List.find?_cons_of_neg (by simpa using hname)] at h
        obtain ⟨i, hi⟩ := ih h
        exact ⟨i + 1, by rw [if_neg hname, hi]; rfl⟩

namespace RemoteRecord

/-! ### What a rotation does to a record -/

/-- A record is refreshed under its key id, or moved to a key id it has not had. -/
inductive Turn : RemoteRecord → RemoteRecord → Prop
  | refresh {r : RemoteRecord} (d : StoreDescriptor) (now : Int) (hkey : d.keyId = r.keyId) :
      Turn r (r.refresh d now)
  | moveTo {r : RemoteRecord} (d : StoreDescriptor) (overlapUntil now : Int)
      (hkey : d.keyId ≠ r.keyId) (hnew : d.keyId ∉ r.overlapKeys.map RemoteOverlapKey.keyId) :
      Turn r (r.moveTo d overlapUntil now)

/-- The ids of all keys of the record differ, the active key has no end, the others have. -/
structure Sound (r : RemoteRecord) : Prop where
  distinct : (r.keyId :: r.overlapKeys.map RemoteOverlapKey.keyId).Nodup
  active : r.validUntil = none
  ends : ∀ key ∈ r.overlapKeys, ∃ validUntil, key.validUntil = some validUntil

/-- What stays of a record. -/
structure Later (r r' : RemoteRecord) : Prop where
  name : r'.name = r.name
  endpoint : r'.endpoint = r.endpoint
  storeId : r'.storeId = r.storeId
  overlapKeys : r.overlapKeys <+: r'.overlapKeys

theorem Later.refl (r : RemoteRecord) : Later r r := ⟨rfl, rfl, rfl, List.prefix_rfl⟩

theorem Later.trans {r r' r'' : RemoteRecord} (h : Later r r') (h' : Later r' r'') : Later r r'' :=
  ⟨h'.name.trans h.name, h'.endpoint.trans h.endpoint, h'.storeId.trans h.storeId,
    h.overlapKeys.trans h'.overlapKeys⟩

theorem Turn.later {r r' : RemoteRecord} (h : Turn r r') : Later r r' := by
  cases h with
  | refresh d now hkey => exact ⟨rfl, rfl, rfl, List.prefix_rfl⟩
  | moveTo d overlapUntil now hkey hnew => exact ⟨rfl, rfl, rfl, List.prefix_append _ _⟩

theorem Turn.sound {r r' : RemoteRecord} (h : Turn r r') (hr : Sound r) : Sound r' := by
  cases h with
  | refresh d now hkey => exact ⟨hr.distinct, hr.active, hr.ends⟩
  | moveTo d overlapUntil now hkey hnew =>
      refine ⟨?_, rfl, ?_⟩
      · -- the key id that was active moves to the end, the new one comes to the front
        obtain ⟨hold, hkeys⟩ := List.nodup_cons.mp hr.distinct
        show (d.keyId :: (r.overlapKeys ++ _).map RemoteOverlapKey.keyId).Nodup
        rw [List.map_append, List.nodup_cons, List.mem_append, List.nodup_append]
        refine ⟨?_, hkeys, List.nodup_singleton _, ?_⟩
        · intro hmem
          rcases hmem with hmem | hmem
          · exact hnew hmem
          · exact hkey (List.mem_singleton.mp hmem)
        · intro a ha b hb
          rw [List.map_singleton, List.mem_singleton] at hb
          intro heq
          have hactive : a = r.keyId := heq.trans hb
          exact hold (hactive ▸ ha)
      · intro key hmem
        rcases List.mem_append.mp hmem with hmem | hmem
        · exact hr.ends key hmem
        · rw [List.mem_singleton.mp hmem, hr.active]
          exact ⟨overlapUntil, rfl⟩

/-- The key ids of the pins of a record. -/
@[simp] theorem map_keyId_pins (r : RemoteRecord) :
    r.pins.map PinnedKey.keyId = r.keyId :: r.overlapKeys.map RemoteOverlapKey.keyId := by
  simp [pins, activePin]

/-- Under distinct ids, the pin of an overlap key is that key's own. -/
theorem Sound.pinOf {r : RemoteRecord} (h : Sound r) {key : RemoteOverlapKey}
    (hkey : key ∈ r.overlapKeys) :
    r.pinOf key.keyId = some ⟨r.storeId, key.keyId, key.publicKey, key.validUntil⟩ := by
  have hnodup : (r.pins.map PinnedKey.keyId).Nodup := by
    rw [map_keyId_pins]
    exact h.distinct
  have hmem : (PinnedKey.mk r.storeId key.keyId key.publicKey key.validUntil) ∈ r.pins :=
    List.mem_cons_of_mem _ (List.mem_map.mpr ⟨key, hkey, rfl⟩)
  exact find?_of_nodup hnodup hmem

/-- A key past its overlap verifies nothing. -/
theorem Sound.verify_expired {r : RemoteRecord} (h : Sound r) {key : RemoteOverlapKey}
    (hkey : key ∈ r.overlapKeys) {validUntil now : Int} (hend : key.validUntil = some validUntil)
    (hnow : validUntil ≤ now) {json : DescriptorJson} {d : StoreDescriptor}
    (hd : d.keyId = key.keyId) : r.verify c json now ≠ .ok d := by
  intro hok
  simp only [RemoteRecord.verify, Except.bind_eq_ok, Except.mapError_eq_ok,
    Except.ite_error_eq_ok, Except.okOr_eq_ok, verifyDescriptor_eq_ok] at hok
  obtain ⟨d', -, -, pin, hpin, rfl, -, hretired, -⟩ := hok
  rw [hd, h.pinOf hkey] at hpin
  cases hpin
  have hlt := PinnedKey.retired_eq_none.mp hretired validUntil hend
  omega

end RemoteRecord

/-! ### Calls -/

/-- A call of `add` or `rotate`. -/
inductive PinCall where
  | add (name endpoint : String) (descriptorJson : DescriptorJson) (now : Int)
  | rotate (name : String) (descriptorJson : DescriptorJson) (expectedPublicKey : Option String)
      (overlapSeconds now : Int)

/-- How the call ends, and the registry after it. -/
def PinCall.call (c : Crypto) (registry : RemoteRegistry) :
    PinCall → Except RemoteRegistryError Unit × RemoteRegistry
  | .add name endpoint json now =>
      ((Mutation.call (RemoteRegistry.add c name endpoint json now) registry).1.map fun _ => (),
        (Mutation.call (RemoteRegistry.add c name endpoint json now) registry).2)
  | .rotate name json expected overlap now =>
      ((Mutation.call (RemoteRegistry.rotate c name json expected overlap now) registry).1.map
        fun _ => (),
        (Mutation.call (RemoteRegistry.rotate c name json expected overlap now) registry).2)

/-- The registry after a sequence of calls. -/
def pinned (c : Crypto) (calls : List PinCall) (registry : RemoteRegistry) : RemoteRegistry :=
  Machine.run (fun (call : PinCall) registry => (call.call c registry).2) calls registry

namespace RemoteRegistry

/-- A call of `add` fails and changes nothing, or appends a record without overlap keys. -/
theorem add_cases (registry : RemoteRegistry) (name endpoint : String) (json : DescriptorJson)
    (now : Int) :
    (∃ e, Mutation.call (add c name endpoint json now) registry = (.error e, registry)) ∨
    ∃ record, record.overlapKeys = [] ∧ record.validUntil = none ∧
      Mutation.call (add c name endpoint json now) registry =
        (.ok record, { registry with remotes := registry.remotes ++ [record] }) := by
  simp only [add, Mutation.call_bind, Mutation.call_get, Mutation.call_liftM]
  cases validateRemoteName name with
  | error e => exact Or.inl ⟨e, rfl⟩
  | ok name =>
      simp only
      cases validateEndpoint endpoint with
      | error e => exact Or.inl ⟨e, rfl⟩
      | ok endpoint =>
          simp only [Mutation.call_ite, Mutation.call_throw, Mutation.call_bind,
            Mutation.call_liftM]
          split
          · exact Or.inl ⟨_, rfl⟩
          · cases verifySelfSignedDescriptor c json now with
            | error e => exact Or.inl ⟨e, rfl⟩
            | ok d => exact Or.inr ⟨_, rfl, rfl, rfl⟩

/-- A call of `add` with a name that is free. -/
theorem add_call {registry : RemoteRegistry} {name name' endpoint endpoint' : String}
    {json : DescriptorJson} {d : StoreDescriptor} {now : Int}
    (hname : validateRemoteName name = .ok name')
    (hendpoint : validateEndpoint endpoint = .ok endpoint')
    (hfree : registry.get name' = none) (hself : verifySelfSignedDescriptor c json now = .ok d) :
    Mutation.call (add c name endpoint json now) registry =
      (.ok (.first name' endpoint' d now), { registry with
        remotes := registry.remotes ++ [.first name' endpoint' d now] }) := by
  simp only [add, Mutation.call_bind, Mutation.call_liftM, Mutation.call_get, hname, hendpoint,
    hfree, Option.isSome_none, Bool.false_eq_true, if_false, hself]
  rfl

/-- What a call of `rotate` comes to, by the comparisons it makes in turn. -/
theorem rotate_call {registry : RemoteRegistry} {name : String} {i : Nat} {record : RemoteRecord}
    {json : DescriptorJson} {d : StoreDescriptor} {expected : Option String} {overlap now : Int}
    (hfound : locate name registry.remotes = some (i, record))
    (hself : verifySelfSignedDescriptor c json now = .ok d) :
    Mutation.call (rotate c name json expected overlap now) registry =
      if expected.any (· ≠ d.publicKey) then
        (.error (.identity (.publicKeyMismatch d.keyId)), registry)
      else if d.storeId ≠ record.storeId then
        (.error (.identity (.storeMismatch record.storeId d.storeId)), registry)
      else if d.keyId = record.keyId then
        (.ok ⟨record.keyId, record.keyId, now, record.validUntil.getD now⟩,
          { registry with remotes := registry.remotes.set i (record.refresh d now) })
      else if record.overlapKeys.any (·.keyId = d.keyId) then
        (.error (.identity (.keyRetired d.keyId (record.validUntil.getD now))), registry)
      else
        let overlapUntil := StoreIdentity.overlapUntil now overlap
        (.ok ⟨record.keyId, d.keyId, now, overlapUntil⟩,
          { registry with
            remotes := registry.remotes.set i (record.moveTo d overlapUntil now) }) := by
  simp only [rotate, position, hfound, hself, Mutation.call_bind, Mutation.call_get,
    Mutation.call_liftM, Except.okOr_some, Mutation.call_ite, Mutation.call_throw,
    Mutation.call_set, Mutation.call_pure]
  rfl

/-- A call of `rotate` fails and changes nothing, or gives one record a turn. -/
theorem rotate_cases (registry : RemoteRegistry) (name : String) (json : DescriptorJson)
    (expected : Option String) (overlap now : Int) :
    (∃ e, Mutation.call (rotate c name json expected overlap now) registry =
      (.error e, registry)) ∨
    ∃ i record record' result, registry.remotes[i]? = some record ∧ record.Turn record' ∧
      Mutation.call (rotate c name json expected overlap now) registry =
        (.ok result, { registry with remotes := registry.remotes.set i record' }) := by
  -- The checks in the order of the source; past the last one the record is refreshed, for its own
  -- key, or moved to a new one.
  cases hfound : locate name registry.remotes with
  | none =>
      refine Or.inl ⟨.notFound name, ?_⟩
      simp only [rotate, position, hfound, Mutation.call_bind, Mutation.call_get,
        Mutation.call_liftM, Except.okOr_none]
  | some found =>
      obtain ⟨i, record⟩ := found
      cases hself : verifySelfSignedDescriptor c json now with
      | error e =>
          refine Or.inl ⟨e, ?_⟩
          simp only [rotate, position, hfound, hself, Mutation.call_bind, Mutation.call_get,
            Mutation.call_liftM, Except.okOr_some]
      | ok d =>
          rw [rotate_call hfound hself]
          have hget := (locate_spec hfound).1
          split
          · exact Or.inl ⟨_, rfl⟩
          · split
            · exact Or.inl ⟨_, rfl⟩
            · split
              · rename_i hkey
                exact Or.inr ⟨i, record, _, _, hget, .refresh d now hkey, rfl⟩
              · rename_i hkey
                split
                · exact Or.inl ⟨_, rfl⟩
                · rename_i hnew
                  refine Or.inr ⟨i, record, _, _, hget, .moveTo d _ now hkey ?_, rfl⟩
                  simpa using hnew

end RemoteRegistry

/-! ### Records over runs -/

/-- A call that ends in an error changes nothing; another call appends a record without overlap
keys or gives one record a turn. -/
theorem PinCall.call_cases (call : PinCall) (registry : RemoteRegistry) :
    (∃ e, call.call c registry = (.error e, registry)) ∨
    ((call.call c registry).1 = .ok () ∧
      ((∃ record, record.overlapKeys = [] ∧ record.validUntil = none ∧
        (call.call c registry).2.remotes = registry.remotes ++ [record]) ∨
      ∃ i record record', registry.remotes[i]? = some record ∧ record.Turn record' ∧
        (call.call c registry).2.remotes = registry.remotes.set i record')) := by
  cases call with
  | add name endpoint json now =>
      rcases RemoteRegistry.add_cases registry name endpoint json now with h | h
      · obtain ⟨e, he⟩ := h
        exact Or.inl ⟨e, by rw [call, he]; rfl⟩
      · obtain ⟨record, hkeys, hvalid, hok⟩ := h
        refine Or.inr ⟨by rw [call, hok]; rfl, Or.inl ⟨record, hkeys, hvalid, ?_⟩⟩
        rw [call, hok]
  | rotate name json expected overlap now =>
      rcases RemoteRegistry.rotate_cases registry name json expected overlap now with h | h
      · obtain ⟨e, he⟩ := h
        exact Or.inl ⟨e, by rw [call, he]; rfl⟩
      · obtain ⟨i, record, record', result, hget, hturn, hok⟩ := h
        refine Or.inr ⟨by rw [call, hok]; rfl, Or.inr ⟨i, record, record', hget, hturn, ?_⟩⟩
        rw [call, hok]

theorem PinCall.call_error {call : PinCall} {registry registry' : RemoteRegistry}
    {e : RemoteRegistryError} (h : call.call c registry = (.error e, registry')) :
    registry' = registry := by
  rcases call.call_cases registry with ⟨e', he⟩ | ⟨hok, -⟩
  · rw [h] at he
    exact congrArg Prod.snd he
  · rw [h] at hok
    cases hok

/-- All records of the registry are sound. -/
def RemoteRegistry.Sound (registry : RemoteRegistry) : Prop :=
  ∀ record ∈ registry.remotes, record.Sound

theorem PinCall.sound {registry : RemoteRegistry} (call : PinCall) (h : registry.Sound) :
    (call.call c registry).2.Sound := by
  intro r hr
  rcases call.call_cases registry with ⟨e, he⟩ | ⟨-, hadd | hturn⟩
  · rw [he] at hr
    exact h r hr
  · obtain ⟨record, hkeys, hvalid, hremotes⟩ := hadd
    rw [hremotes, List.mem_append, List.mem_singleton] at hr
    rcases hr with hr | hr
    · exact h r hr
    · rw [hr]
      exact ⟨by simp [hkeys], hvalid, by simp [hkeys]⟩
  · obtain ⟨i, record, record', hget, hturn, hremotes⟩ := hturn
    rw [hremotes] at hr
    rcases List.mem_or_eq_of_mem_set hr with hr | hr
    · exact h r hr
    · rw [hr]
      exact hturn.sound (h record (List.mem_of_getElem? hget))

/-- A record keeps its place, and what stays of it stays. -/
theorem PinCall.later {registry : RemoteRegistry} (call : PinCall) {i : Nat} {r : RemoteRecord}
    (h : registry.remotes[i]? = some r) :
    ∃ r', (call.call c registry).2.remotes[i]? = some r' ∧ r.Later r' := by
  have hlt : i < registry.remotes.length := (List.getElem?_eq_some_iff.mp h).1
  rcases call.call_cases registry with ⟨e, he⟩ | ⟨-, hadd | hturn⟩
  · rw [he]
    exact ⟨r, h, .refl r⟩
  · obtain ⟨record, -, -, hremotes⟩ := hadd
    refine ⟨r, ?_, .refl r⟩
    rw [hremotes, List.getElem?_append_left hlt, h]
  · obtain ⟨j, record, record', hget, hturn, hremotes⟩ := hturn
    rw [hremotes]
    by_cases hij : j = i
    · rw [hij] at hget ⊢
      obtain rfl : r = record := Option.some.inj (h.symm.trans hget)
      exact ⟨record', by rw [List.getElem?_set_self hlt], hturn.later⟩
    · exact ⟨r, by rw [List.getElem?_set_ne hij, h], .refl r⟩

@[simp] theorem pinned_cons (call : PinCall) (calls : List PinCall) (registry : RemoteRegistry) :
    pinned c (call :: calls) registry = pinned c calls (call.call c registry).2 := rfl

theorem sound_pinned (calls : List PinCall) {registry : RemoteRegistry} (h : registry.Sound) :
    (pinned c calls registry).Sound := by
  induction calls generalizing registry with
  | nil => exact h
  | cons call calls ih =>
      rw [pinned_cons]
      exact ih (call.sound h)

theorem later_pinned (calls : List PinCall) {registry : RemoteRegistry} {i : Nat}
    {r : RemoteRecord} (h : registry.remotes[i]? = some r) :
    ∃ r', (pinned c calls registry).remotes[i]? = some r' ∧ r.Later r' := by
  induction calls generalizing registry r with
  | nil => exact ⟨r, h, .refl r⟩
  | cons call calls ih =>
      obtain ⟨r', hr', hlater⟩ := call.later h (c := c)
      obtain ⟨r'', hr'', hlater'⟩ := ih hr'
      exact ⟨r'', hr'', hlater.trans hlater'⟩

/-- What holds of the pins of a registry, now and after any later calls. Stated over all later
calls, so that it says what a pin is worth and not only what it is now. -/
structure PinsSafe (c : Crypto) (registry : RemoteRegistry) : Prop where
  /-- The key ids of a record are distinct. -/
  distinct : ∀ r ∈ registry.remotes, (r.keyId :: r.overlapKeys.map RemoteOverlapKey.keyId).Nodup
  /-- A record stays under its store and endpoint, and its overlap keys stay as they are and
  are not active again. -/
  kept : ∀ (later : List PinCall) (i : Nat) (r : RemoteRecord), registry.remotes[i]? = some r →
    ∃ r', (pinned c later registry).remotes[i]? = some r' ∧ r'.name = r.name ∧
      r'.storeId = r.storeId ∧ r'.endpoint = r.endpoint ∧
      ∀ key ∈ r.overlapKeys, key ∈ r'.overlapKeys ∧ r'.keyId ≠ key.keyId
  /-- A call that ends in an error changes nothing. -/
  unchanged : ∀ (call : PinCall) (e : RemoteRegistryError) (registry' : RemoteRegistry),
    call.call c registry = (.error e, registry') → registry' = registry
  /-- An overlap key has an end, and from then on it verifies no descriptor. -/
  expired : ∀ r ∈ registry.remotes, ∀ key ∈ r.overlapKeys, ∃ validUntil,
    key.validUntil = some validUntil ∧ ∀ now, validUntil ≤ now →
      ∀ (json : DescriptorJson) (d : StoreDescriptor), d.keyId = key.keyId →
        r.verify c json now ≠ .ok d

/-- The pins are safe after any calls of `add` and `rotate`. -/
theorem pinsSafe_pinned (calls : List PinCall) : PinsSafe c (pinned c calls {}) := by
  have hsound : (pinned c calls {}).Sound := sound_pinned calls nofun
  refine ⟨fun r hr => (hsound r hr).distinct, ?_, fun _ _ _ h => PinCall.call_error h, ?_⟩
  · intro later i r hr
    obtain ⟨r', hr', hlater⟩ := later_pinned later hr
    refine ⟨r', hr', hlater.name, hlater.storeId, hlater.endpoint, ?_⟩
    intro key hkey
    have hmem := hlater.overlapKeys.subset hkey
    -- the later registry is sound too, so the active id is none of the overlap ids
    have hdistinct := (sound_pinned later hsound r' (List.mem_of_getElem? hr')).distinct
    refine ⟨hmem, ?_⟩
    intro heq
    exact (List.nodup_cons.mp hdistinct).1 (heq ▸ List.mem_map_of_mem hmem)
  · intro r hr key hkey
    obtain ⟨validUntil, hend⟩ := (hsound r hr).ends key hkey
    exact ⟨validUntil, hend, fun now hnow json d hd =>
      (hsound r hr).verify_expired hkey hend hnow hd⟩

/-- A call of `add`, `rotate` or `remove`. -/
inductive RegistryCall where
  | pin (call : PinCall)
  | remove (name : String)

def RegistryCall.call (c : Crypto) (registry : RemoteRegistry) :
    RegistryCall → Except RemoteRegistryError Unit × RemoteRegistry
  | .pin call => call.call c registry
  | .remove name =>
      ((Mutation.call (RemoteRegistry.remove name) registry).1.map fun _ => (),
        (Mutation.call (RemoteRegistry.remove name) registry).2)

/-- The registry that a sequence of calls makes of an empty one. -/
def registered (c : Crypto) (calls : List RegistryCall) : RemoteRegistry :=
  Machine.run (fun (call : RegistryCall) registry => (call.call c registry).2) calls {}

theorem registered_add (name endpoint : String) (json : DescriptorJson) (now : Int) :
    registered c [.pin (.add name endpoint json now)] =
      (Mutation.call (RemoteRegistry.add c name endpoint json now) {}).2 := by
  simp only [registered, Machine.run_cons, Machine.run_nil, RegistryCall.call, PinCall.call]

/-! ### A descriptor under a key that is not pinned -/

/-- A self-signed descriptor under the pinned key id, but with another public key, is refused
exactly when the operator named a public key it does not carry, or it is of another store. A call
with the pinned key id is taken for a refresh, and a refresh does not compare public keys. -/
theorem rotate_impostor_iff (calls : List RegistryCall) {name : String} {record : RemoteRecord}
    (hrecord : (registered c calls).get name = some record) {d : StoreDescriptor} {now : Int}
    (hself : verifySelfSignedDescriptor c (.ok d) now = .ok d) (hkey : d.keyId = record.keyId)
    (_hpublic : d.publicKey ≠ record.publicKey) (expected : Option String) (overlap : Int) :
    (∃ e, Mutation.call (RemoteRegistry.rotate c name (.ok d) expected overlap now)
        (registered c calls) = (.error e, registered c calls)) ↔
      (∃ key, expected = some key ∧ key ≠ d.publicKey) ∨ d.storeId ≠ record.storeId := by
  obtain ⟨i, hfound⟩ := locate_of_find? hrecord
  rw [RemoteRegistry.rotate_call hfound hself]
  by_cases hexpected : expected.any (· ≠ d.publicKey) = true
  · rw [if_pos hexpected]
    obtain ⟨key, hsome, hne⟩ := (Option.any_eq_true ..).mp hexpected
    exact ⟨fun _ => Or.inl ⟨key, hsome, by simpa using hne⟩, fun _ => ⟨_, rfl⟩⟩
  · rw [if_neg hexpected]
    have hnone : ¬ ∃ key, expected = some key ∧ key ≠ d.publicKey := by
      intro h
      obtain ⟨key, hsome, hne⟩ := h
      exact hexpected (by simpa [hsome] using hne)
    by_cases hstore : d.storeId = record.storeId
    · -- the branch of the key id never looks at the public key
      rw [if_neg (not_not.mpr hstore), if_pos hkey]
      constructor
      · intro h
        obtain ⟨e, herror⟩ := h
        cases herror
      · intro h
        rcases h with h | h
        · exact absurd h hnone
        · exact absurd hstore h
    · rw [if_pos hstore]
      exact ⟨fun _ => Or.inr hstore, fun _ => ⟨_, rfl⟩⟩

/-- A registry with one remote, added from a descriptor signed with the key of a seven. -/
def acme : List RegistryCall :=
  [.pin (.add "acme" "https://acme" (.ok (plainDescriptor 7 "store_a" "store_a/key-1" "Acme"))
    1000)]

theorem registered_acme : registered Crypto.plain acme =
    ⟨remoteRegistryVersion, [.first "acme" "https://acme"
      (plainDescriptor 7 "store_a" "store_a/key-1" "Acme") 1000]⟩ := by
  have hself := @plainDescriptor_verifies 7 "store_a" "store_a/key-1" "Acme" (by decide) (by decide)
    1000
  have hadd := @RemoteRegistry.add_call Crypto.plain {} "acme" "acme" "https://acme"
    "https://acme" _ _ 1000 (by decide) (by decide) rfl hself
  rw [acme, registered_add, hadd]
  rfl

/-- Whoever signs a descriptor under the pinned key id with a key of its own renames the
remote: the call succeeds. -/
theorem impostor_renames : ∃ record d,
    (registered Crypto.plain acme).get "acme" = some record ∧
    verifySelfSignedDescriptor Crypto.plain (.ok d) 2000 = .ok d ∧
    d.keyId = record.keyId ∧ d.publicKey ≠ record.publicKey ∧
    ∃ result registry, Mutation.call
    (RemoteRegistry.rotate Crypto.plain "acme" (.ok d) none 60 2000)
        (registered Crypto.plain acme) = (.ok result, registry) ∧
      registry.get "acme" =
        some { record with displayName := "Mallory", updatedAt := 2000 } := by
  rw [registered_acme]
  have hself := @plainDescriptor_verifies 9 "store_a" "store_a/key-1" "Mallory" (by decide)
    (by decide) 2000
  refine ⟨_, plainDescriptor 9 "store_a" "store_a/key-1" "Mallory", rfl, hself, rfl, ?_, ?_⟩
  · decide
  · rw [RemoteRegistry.rotate_call rfl hself]
    exact ⟨_, _, rfl, rfl⟩

/-- Named out of band, the key of the impostor is refused. -/
theorem impostor_refused : ∃ e, Mutation.call (RemoteRegistry.rotate Crypto.plain "acme"
      (.ok (plainDescriptor 9 "store_a" "store_a/key-1" "Mallory")) (some "other") 60 2000)
      (registered Crypto.plain acme) = (.error e, registered Crypto.plain acme) := by
  have hself := @plainDescriptor_verifies 9 "store_a" "store_a/key-1" "Mallory" (by decide)
    (by decide) 2000
  have hrecord : (registered Crypto.plain acme).get "acme" = some (.first "acme" "https://acme"
      (plainDescriptor 7 "store_a" "store_a/key-1" "Acme") 1000) := by
    rw [registered_acme]
    rfl
  exact (rotate_impostor_iff acme hrecord hself rfl (by decide) (some "other") 60).mpr
    (Or.inl ⟨_, rfl, by decide⟩)

end Marbles
