import Marbles.Lib.HashChain
import Marbles.Federation.Snapshot

/-!
# Snapshot chains

What a verifier accepts over a run of calls on arbitrary snapshots, and what it accepts of
the chain of an honest signer. `SnapshotVerifier.Accepts` is the whole condition of a call;
`At` is the invariant of a run over an honest chain: the verifier remembers the member it
accepted last.

A snapshot carries the hash of the body before it and nothing else of the past, so a
verifier can be taken from a member to the successor of any later member with that body.

`Accepts` is an equivalence for one call, so soundness and completeness over runs are two
inductions with the same step. What a verifier may skip is computed from the links of the chain:
members are confused exactly when their predecessors have the same body.
-/

namespace Marbles

open Signing HashChain

variable {c : Crypto}

/-! ### Hashes -/

theorem trim_of_forall {s : String} (h : ∀ ch ∈ s.toList, isWhitespace ch = false) :
    trim s = s := by
  have hdrop : ∀ l : List Char, (∀ ch ∈ l, isWhitespace ch = false) →
      l.dropWhile isWhitespace = l := by
    intro l hl
    cases l with
    | nil => rfl
    | cons ch l => rw [List.dropWhile_cons_of_neg (by simp [hl ch (List.mem_cons_self ..)])]
  rw [trim, hdrop _ h, hdrop _ (by simpa using h), List.reverse_reverse, String.ofList_toList]

/-- A digest is its own normal form, unless it means that there is none. -/
theorem normalizeHash_hexDigest (text : String) :
    normalizeHash (some (c.hexDigest text)) =
      if (c.sha256 text).all (· = 0) then none else some (c.hexDigest text) := by
  have hall : (hexAlphabet.all fun ch => !isWhitespace ch && ch.toLower == ch) = true := by decide
  have hblank : ∀ ch ∈ hexAlphabet, isWhitespace ch = false ∧ ch.toLower = ch := by
    simpa using hall
  have htrim : trim (c.hexDigest text) = c.hexDigest text :=
    trim_of_forall fun ch h => (hblank ch (mem_alphabet_of_mem_hex h)).1
  have hlower : (c.hexDigest text).toList.map Char.toLower = (c.hexDigest text).toList :=
    (List.map_congr_left fun ch h => (hblank ch (mem_alphabet_of_mem_hex h)).2).trans
      (List.map_id' _)
  have hzero : (c.hexDigest text).toList.all (· = '0') = (c.sha256 text).all (· = 0) :=
    all_zero_hex
  rw [normalizeHash, Option.map_some, htrim]
  simp only [hzero, hlower, String.ofList_toList]
  split
  · -- an empty digest has no byte that is not zero
    rename_i hempty
    rw [← hzero, hempty]
    rfl
  · rfl

/-! ### The chain of a signer -/

/-- What a verifier of this signer's snapshots pins. -/
def Ed25519Signer.pins (signer : Ed25519Signer c) (storeId : String) (company : Option String) :
    VerifierConfig := ⟨storeId, company, signer.keyId, signer.publicKey⟩

/-- Sign bodies one after the other, each with the time it was observed. -/
def signFrom (c : Crypto) (signer : SnapshotSigner) :
    (Int → SnapshotMeta) → List (SnapshotBody × Int) → Except SnapshotError (List SignedSnapshot)
  | _, [] => .ok []
  | next, (body, observedAt) :: rest => do
      let s ← signSnapshot c body (next observedAt) signer
      let rest ← signFrom c signer (.after s.manifest) rest
      .ok (s :: rest)

/-- The chain of a signer: `SnapshotMeta::first`, then `SnapshotMeta::after`. -/
def signChain (c : Crypto) (signer : SnapshotSigner) (storeId : String)
    (company : Option String) (bodies : List (SnapshotBody × Int)) :
    Except SnapshotError (List SignedSnapshot) :=
  signFrom c signer (.first storeId company) bodies

/-- What a signer made of what it was told. Only the signature and the key are the signer's own. -/
structure Signs (c : Crypto) (signer : SnapshotSigner) (given : SnapshotMeta)
    (s : SignedSnapshot) : Prop where
  schema : s.manifest.schema = snapshotSchema
  storeId : s.manifest.storeId = given.storeId
  company : s.manifest.company = given.company
  seq : s.manifest.seq = given.seq
  prevHash : s.manifest.prevHash = normalizeHash given.prevHash
  bodySha256 : s.manifest.bodySha256 = s.body.sha256 c
  keyId : s.manifest.keyId = signer.keyId
  signature : ∃ bytes, signer.sign s.manifest.signingPayload = .ok bytes ∧
    s.manifest.signature = c.standard.encode bytes

theorem signSnapshot_signs {signer : SnapshotSigner} {body : SnapshotBody}
    {given : SnapshotMeta} {s : SignedSnapshot}
    (h : signSnapshot c body given signer = .ok s) : s.body = body ∧ Signs c signer given s := by
  simp only [signSnapshot, Except.bind_eq_ok, Except.mapError_eq_ok] at h
  obtain ⟨bytes, hsign, hs⟩ := h
  cases hs
  exact ⟨rfl, rfl, rfl, rfl, rfl, rfl, rfl, rfl, bytes, hsign, rfl⟩

theorem signSnapshot_ok (hc : c.Correct) (signer : Ed25519Signer c) (body : SnapshotBody)
    (given : SnapshotMeta) : ∃ s, signSnapshot c body given signer.signer = .ok s := by
  simp only [signSnapshot, Except.bind_eq_ok, Except.mapError_eq_ok]
  obtain ⟨bytes, hbytes⟩ := hc.ed25519.sign_ok signer.key _
  exact ⟨_, bytes, hbytes, rfl⟩

/-- The members were made from each other. -/
structure Chained (c : Crypto) (signer : SnapshotSigner) (first : Int → SnapshotMeta)
    (l : List SignedSnapshot) : Prop where
  head : ∀ s ∈ l.head?, ∃ observedAt, Signs c signer (first observedAt) s
  next : l.IsChain fun previous s =>
    ∃ observedAt, Signs c signer (.after previous.manifest observedAt) s

theorem signFrom_chained {signer : SnapshotSigner} {bodies : List (SnapshotBody × Int)}
    {next : Int → SnapshotMeta} {l : List SignedSnapshot}
    (h : signFrom c signer next bodies = .ok l) :
    l.map SignedSnapshot.body = bodies.map Prod.fst ∧ Chained c signer next l := by
  induction bodies generalizing next l with
  | nil =>
      cases h
      exact ⟨rfl, fun _ hs => (nomatch hs), List.isChain_nil⟩
  | cons entry bodies ih =>
      obtain ⟨body, observedAt⟩ := entry
      simp only [signFrom, Except.bind_eq_ok] at h
      obtain ⟨s, hs, rest, hrest, hl⟩ := h
      cases hl
      obtain ⟨hbody, hsigns⟩ := signSnapshot_signs hs
      -- the rest of the chain is signed after the manifest that was just made
      obtain ⟨hbodies, hchained⟩ := ih hrest
      refine ⟨by rw [List.map_cons, List.map_cons, hbody, hbodies], ?_, ?_⟩
      · intro s' hs'
        cases hs'
        exact ⟨observedAt, hsigns⟩
      · exact List.isChain_cons.mpr ⟨hchained.head, hchained.next⟩

theorem signFrom_ok (hc : c.Correct) (signer : Ed25519Signer c)
    (bodies : List (SnapshotBody × Int)) (next : Int → SnapshotMeta) :
    ∃ l, signFrom c signer.signer next bodies = .ok l := by
  induction bodies generalizing next with
  | nil => exact ⟨[], rfl⟩
  | cons entry bodies ih =>
      obtain ⟨body, observedAt⟩ := entry
      obtain ⟨s, hs⟩ := signSnapshot_ok hc signer body (next observedAt)
      obtain ⟨rest, hrest⟩ := ih (.after s.manifest)
      refine ⟨s :: rest, ?_⟩
      simp only [signFrom, Except.bind_eq_ok]
      exact ⟨s, hs, rest, hrest, rfl⟩

/-- What the member after the first `i` carries of the one before it. -/
def bodyLink (c : Crypto) (l : List SignedSnapshot) : Nat → Option String
  | 0 => none
  | i + 1 => l[i]?.map fun s => s.body.sha256 c

/-- A link is the digest of a body of the chain. -/
theorem exists_of_bodyLink {l : List SignedSnapshot} {i : Nat} {digest : String}
    (h : bodyLink c l i = some digest) : ∃ s ∈ l, s.body.sha256 c = digest := by
  cases i with
  | zero => cases h
  | succ j =>
      obtain ⟨s, hs, hdigest⟩ := Option.map_eq_some_iff.mp h
      exact ⟨s, List.mem_of_getElem? hs, hdigest⟩

/-- A hash that a verifier compares is the hash of the body. -/
theorem bodyLink_of_normalizeHash {l : List SignedSnapshot} {i : Nat} {hash : String}
    (h : normalizeHash (bodyLink c l i) = some hash) : bodyLink c l i = some hash := by
  cases hlink : bodyLink c l i with
  | none =>
      rw [hlink] at h
      cases h
  | some digest =>
      obtain ⟨s, -, rfl⟩ := exists_of_bodyLink hlink
      rw [hlink, SnapshotBody.sha256, normalizeHash_hexDigest] at h
      split at h
      · cases h
      · exact h

@[simp] theorem normalizeHash_idem_bodyLink {l : List SignedSnapshot} {i : Nat} :
    normalizeHash (normalizeHash (bodyLink c l i)) = normalizeHash (bodyLink c l i) := by
  cases h : normalizeHash (bodyLink c l i) with
  | none => rfl
  | some hash => rw [← bodyLink_of_normalizeHash h, h, bodyLink_of_normalizeHash h]

/-! ### The members of a chain -/

/-- Member `i + 1` of a chain: its number and its link say where it stands. -/
structure Member (c : Crypto) (signer : SnapshotSigner) (storeId : String)
    (company : Option String) (l : List SignedSnapshot) (i : Nat) (s : SignedSnapshot) :
    Prop where
  seq : s.manifest.seq = min (i + 1) u64Max
  prevHash : normalizeHash s.manifest.prevHash = normalizeHash (bodyLink c l i)
  signs : ∃ given, Signs c signer given s ∧ given.storeId = storeId ∧ given.company = company

variable {signer : SnapshotSigner} {storeId : String} {company : Option String}
  {l : List SignedSnapshot}

theorem Chained.member (h : Chained c signer (.first storeId company) l) {i : Nat}
    {s : SignedSnapshot} (hs : l[i]? = some s) : Member c signer storeId company l i s := by
  induction i generalizing s with
  | zero =>
      obtain ⟨observedAt, hsigns⟩ := h.head s (by rw [List.head?_eq_getElem?]; exact hs)
      refine ⟨hsigns.seq, ?_, _, hsigns, rfl, rfl⟩
      rw [hsigns.prevHash]
      rfl
  | succ i ih =>
      obtain ⟨hi, rfl⟩ := List.getElem?_eq_some_iff.mp hs
      have hlt : i < l.length := by omega
      have hprevious : l[i]? = some l[i] := List.getElem?_eq_getElem _
      have hmember := ih hprevious
      obtain ⟨observedAt, hsigns⟩ := List.isChain_iff_getElem.mp h.next i hi
      obtain ⟨given, hgiven, hstore, hcompany⟩ := hmember.signs
      refine ⟨?_, ?_, _, hsigns, hgiven.storeId.trans hstore, hgiven.company.trans hcompany⟩
      · -- the number saturates, as the source has it
        rw [hsigns.seq]
        show min (l[i].manifest.seq + 1) u64Max = _
        rw [hmember.seq]
        omega
      · have hlink : bodyLink c l (i + 1) = some l[i].manifest.bodySha256 := by
          rw [bodyLink, hprevious, hgiven.bodySha256]
          rfl
        rw [hsigns.prevHash]
        show normalizeHash (normalizeHash (some _)) = _
        rw [← hlink, normalizeHash_idem_bodyLink]

namespace SnapshotVerifier

/-! ### One call -/

/-- What a verifier with these pins demands of a snapshot, whatever it accepted before. The part of
the checks that has no memory; the rest is about the chain. -/
structure Authentic (c : Crypto) (config : VerifierConfig) (s : SignedSnapshot) : Prop where
  schema : s.manifest.schema = snapshotSchema
  storeId : s.manifest.storeId = config.storeId
  company : s.manifest.company = config.company
  keyId : s.manifest.keyId = config.keyId
  bodySha256 : s.body.sha256 c = s.manifest.bodySha256
  signature : ∃ signature, c.standard.decode s.manifest.signature = .ok signature ∧
    c.ed25519.Valid config.publicKey signature s.manifest.signingPayload

/-- What it demands of the place of the snapshot in the chain. -/
structure Continues (v : SnapshotVerifier) (s : SignedSnapshot) : Prop where
  newer : v.lastSeq < s.manifest.seq
  first : v.lastSeq = 0 → s.manifest.seq = 1
  prevHash : normalizeHash s.manifest.prevHash =
    if v.lastSeq = 0 then none else v.lastBodySha256

/-- The verifier takes the snapshot. -/
def Accepts (c : Crypto) (v : SnapshotVerifier) (s : SignedSnapshot) : Prop :=
  Authentic c v.config s ∧ Continues v s

/-- The verifier after it accepted the snapshot. -/
def accept (c : Crypto) (v : SnapshotVerifier) (s : SignedSnapshot) : SnapshotVerifier :=
  { v with lastSeq := s.manifest.seq, lastBodySha256 := some (s.body.sha256 c) }

@[simp] theorem verifyEd25519_eq_ok {publicKey signature : Bytes} {payload : String} :
    verifyEd25519 c publicKey payload signature = .ok () ↔
      c.ed25519.Valid publicKey signature payload := by
  simp only [verifyEd25519, Except.bind_eq_ok, Except.mapError_eq_ok, Except.ite_ok_eq_ok,
    and_true, Scheme.Valid]
  constructor
  · intro h
    obtain ⟨handle, hhandle, valid, hvalid, rfl⟩ := h
    exact ⟨handle, hhandle, hvalid⟩
  · intro h
    obtain ⟨handle, hhandle, hvalid⟩ := h
    exact ⟨handle, hhandle, true, hvalid, rfl⟩

/-- A call accepts what meets its checks, and refuses everything else without a trace. -/
theorem verify_cases (v : SnapshotVerifier) (s : SignedSnapshot) :
    (Accepts c v s ∧ (verify c s).call v =
      (.ok ⟨s.manifest, s.body, s.body.sha256 c⟩, accept c v s)) ∨
    (¬ Accepts c v s ∧ ∃ e, (verify c s).call v = (.error e, v)) := by
  simp only [verify, Mutation.call_bind, Mutation.call_get, Mutation.call_ite,
    Mutation.call_throw, Mutation.call_liftM]
  -- one split for each check of the source, in its order
  by_cases hschema : s.manifest.schema ≠ snapshotSchema
  · exact Or.inr ⟨fun h => hschema h.1.schema, _, if_pos hschema⟩
  rw [if_neg hschema]
  by_cases hstore : s.manifest.storeId ≠ v.config.storeId
  · exact Or.inr ⟨fun h => hstore h.1.storeId, _, if_pos hstore⟩
  rw [if_neg hstore]
  by_cases hcompany : s.manifest.company ≠ v.config.company
  · exact Or.inr ⟨fun h => hcompany h.1.company, _, if_pos hcompany⟩
  rw [if_neg hcompany]
  by_cases hkey : s.manifest.keyId ≠ v.config.keyId
  · exact Or.inr ⟨fun h => hkey h.1.keyId, _, if_pos hkey⟩
  rw [if_neg hkey]
  by_cases hseq : s.manifest.seq ≤ v.lastSeq
  · exact Or.inr ⟨fun h => absurd h.2.newer (by omega), _, if_pos hseq⟩
  rw [if_neg hseq]
  by_cases hfirst : v.lastSeq = 0 ∧ s.manifest.seq ≠ 1
  · exact Or.inr ⟨fun h => hfirst.2 (h.2.first hfirst.1), _, if_pos hfirst⟩
  rw [if_neg hfirst]
  by_cases hbody : s.body.sha256 c ≠ s.manifest.bodySha256
  · exact Or.inr ⟨fun h => hbody h.1.bodySha256, _, if_pos hbody⟩
  rw [if_neg hbody]
  by_cases hprev : normalizeHash s.manifest.prevHash ≠
      if v.lastSeq = 0 then none else v.lastBodySha256
  · exact Or.inr ⟨fun h => hprev h.2.prevHash, _, if_pos hprev⟩
  rw [if_neg hprev]
  cases hdecode : c.standard.decode s.manifest.signature with
  | error e =>
      refine Or.inr ⟨fun h => ?_, _, rfl⟩
      obtain ⟨signature, hsignature, -⟩ := h.1.signature
      rw [hdecode] at hsignature
      cases hsignature
  | ok signature =>
      simp only [Except.mapError]
      cases hverify : verifyEd25519 c v.config.publicKey s.manifest.signingPayload signature with
      | error e =>
          refine Or.inr ⟨fun h => ?_, _, rfl⟩
          obtain ⟨signature', hsignature, hvalid⟩ := h.1.signature
          rw [hdecode] at hsignature
          cases hsignature
          rw [verifyEd25519_eq_ok.mpr hvalid] at hverify
          cases hverify
      | ok _ =>
          refine Or.inl ⟨⟨⟨not_not.mp hschema, not_not.mp hstore, not_not.mp hcompany,
            not_not.mp hkey, not_not.mp hbody, signature, hdecode,
            verifyEd25519_eq_ok.mp hverify⟩, ⟨by omega, ?_, not_not.mp hprev⟩⟩, rfl⟩
          intro hzero
          exact not_not.mp fun hne => hfirst ⟨hzero, hne⟩

theorem verify_accepts {v : SnapshotVerifier} {s : SignedSnapshot} (h : Accepts c v s) :
    (verify c s).call v = (.ok ⟨s.manifest, s.body, s.body.sha256 c⟩, accept c v s) := by
  rcases verify_cases v s with ⟨-, hcall⟩ | ⟨hnot, -⟩
  · exact hcall
  · exact absurd h hnot

/-! ### Runs -/

/-- The snapshots of a run of calls that were accepted, in the order of the calls. -/
def accepted (c : Crypto) : SnapshotVerifier → List SignedSnapshot → List SignedSnapshot
  | _, [] => []
  | v, s :: rest =>
      match (verify c s).call v with
      | (.ok _, v') => s :: accepted c v' rest
      | (.error _, v') => accepted c v' rest

theorem accepted_cons_of_accepts {v : SnapshotVerifier} {s : SignedSnapshot}
    (h : Accepts c v s) (rest : List SignedSnapshot) :
    accepted c v (s :: rest) = s :: accepted c (accept c v s) rest := by
  rw [accepted, verify_accepts h]

theorem accepted_cons_of_not {v : SnapshotVerifier} {s : SignedSnapshot}
    (h : ¬ Accepts c v s) (rest : List SignedSnapshot) :
    accepted c v (s :: rest) = accepted c v rest := by
  rcases verify_cases v s with ⟨hyes, -⟩ | ⟨-, e, hcall⟩
  · exact absurd hyes h
  · rw [accepted, hcall]

/-- A snapshot that carries the hash of the body before it, under a larger number. -/
def Links (c : Crypto) (previous s : SignedSnapshot) : Prop :=
  previous.manifest.seq < s.manifest.seq ∧
    normalizeHash s.manifest.prevHash = some (previous.body.sha256 c)

/-- A list of snapshots as a verifier with these pins has to see it. -/
structure IsChain (c : Crypto) (config : VerifierConfig) (l : List SignedSnapshot) : Prop where
  authentic : ∀ s ∈ l, Authentic c config s
  head : ∀ s ∈ l.head?, s.manifest.seq = 1 ∧ normalizeHash s.manifest.prevHash = none
  linked : l.IsChain (Links c)

theorem accepted_authentic (snapshots : List SignedSnapshot) (v : SnapshotVerifier) :
    ∀ s ∈ accepted c v snapshots, Authentic c v.config s := by
  induction snapshots generalizing v with
  | nil => exact nofun
  | cons next rest ih =>
      intro s h
      by_cases hnext : Accepts c v next
      · rw [accepted_cons_of_accepts hnext, List.mem_cons] at h
        rcases h with rfl | h
        · exact hnext.1
        · exact ih (accept c v next) s h
      · rw [accepted_cons_of_not hnext] at h
        exact ih v s h

/-- What a verifier accepts after a snapshot is linked to it. -/
theorem accepted_linked (snapshots : List SignedSnapshot) {v : SnapshotVerifier}
    {last : SignedSnapshot} (hpos : 0 < v.lastSeq) (hseq : v.lastSeq = last.manifest.seq)
    (hbody : v.lastBodySha256 = some (last.body.sha256 c)) :
    List.IsChain (Links c) (last :: accepted c v snapshots) := by
  induction snapshots generalizing v last with
  | nil => exact List.isChain_singleton _
  | cons next rest ih =>
      by_cases hnext : Accepts c v next
      · have hnewer := hnext.2.newer
        have hprev := hnext.2.prevHash
        rw [if_neg (by omega), hbody] at hprev
        rw [accepted_cons_of_accepts hnext, List.isChain_cons_cons]
        have hnext_pos : 0 < next.manifest.seq := by omega
        exact ⟨⟨hseq ▸ hnewer, hprev⟩, ih hnext_pos rfl rfl⟩
      · -- a refused snapshot leaves what the verifier remembers
        rw [accepted_cons_of_not hnext]
        exact ih hpos hseq hbody

/-- Whatever a new verifier is shown, what it accepts is a chain. -/
theorem isChain_accepted (config : VerifierConfig) (snapshots : List SignedSnapshot) :
    IsChain c config (accepted c (new config) snapshots) := by
  induction snapshots with
  | nil => exact ⟨nofun, nofun, List.isChain_nil⟩
  | cons next rest ih =>
      by_cases hnext : Accepts c (new config) next
      · have hone : next.manifest.seq = 1 := hnext.2.first rfl
        refine ⟨accepted_authentic _ _, ?_, ?_⟩
        · rw [accepted_cons_of_accepts hnext]
          intro s hs
          cases hs
          exact ⟨hone, hnext.2.prevHash⟩
        · rw [accepted_cons_of_accepts hnext]
          exact accepted_linked rest (show 0 < next.manifest.seq by omega) rfl rfl
      · rw [accepted_cons_of_not hnext]
        exact ih

/-! ### A chain presented in any order -/

variable {signer : SnapshotSigner} {storeId : String} {company : Option String}
  {l : List SignedSnapshot}

/-- The verifier accepted member `i` last; at 0 it has accepted none. -/
structure At (c : Crypto) (l : List SignedSnapshot) (i : Nat) (v : SnapshotVerifier) : Prop where
  le : i ≤ l.length
  lastSeq : v.lastSeq = min i u64Max
  lastBodySha256 : v.lastBodySha256 = bodyLink c l i

theorem at_new (c : Crypto) (l : List SignedSnapshot) (config : VerifierConfig) :
    At c l 0 (new config) := ⟨Nat.zero_le _, rfl, rfl⟩

theorem At.accept {v : SnapshotVerifier} {k : Nat} {s : SignedSnapshot}
    (hmember : Member c signer storeId company l k s) (hs : l[k]? = some s) :
    At c l (k + 1) (accept c v s) := by
  obtain ⟨hk, -⟩ := List.getElem?_eq_some_iff.mp hs
  refine ⟨hk, hmember.seq, ?_⟩
  rw [bodyLink, hs]
  rfl

/-- An accepted member carries what the member accepted before it left. -/
theorem At.follows {v : SnapshotVerifier} {i k : Nat} {s : SignedSnapshot} (hat : At c l i v)
    (hmember : Member c signer storeId company l k s) (hs : l[k]? = some s)
    (h : Continues v s) : Follows (bodyLink c l) i (k + 1) := by
  have hmax : 1 < u64Max := by decide
  have hnewer := h.newer
  have hprev := h.prevHash
  rw [hmember.seq, hat.lastSeq] at hnewer
  refine ⟨by omega, ?_⟩
  rw [Nat.add_sub_cancel]
  rw [hmember.prevHash, hat.lastBodySha256, hat.lastSeq] at hprev
  cases i with
  | zero =>
      -- only the first member has number 1
      have hone := h.first (hat.lastSeq.trans (Nat.zero_min _))
      rw [hmember.seq] at hone
      obtain rfl : k = 0 := by omega
      rfl
  | succ i =>
      rw [if_neg (by omega)] at hprev
      obtain ⟨last, hlast⟩ : ∃ last, l[i]? = some last :=
        ⟨_, List.getElem?_eq_getElem hat.le⟩
      rw [bodyLink, hlast] at hprev ⊢
      exact bodyLink_of_normalizeHash hprev

/-- Of the members of a chain, in any order and any number of times, a verifier accepts
some that follow each other. -/
theorem At.accepted_follows (hchained : Chained c signer (.first storeId company) l)
    {presented : List SignedSnapshot} {i : Nat} {v : SnapshotVerifier} (hat : At c l i v)
    (hmem : ∀ s ∈ presented, s ∈ l) :
    ∃ ks : List Nat, ks.map (fun k => l[k - 1]?) = (accepted c v presented).map some ∧
      List.IsChain (Follows (bodyLink c l)) (i :: ks) := by
  induction presented generalizing i v with
  | nil => exact ⟨[], rfl, List.isChain_singleton _⟩
  | cons s rest ih =>
      have hrest : ∀ s ∈ rest, s ∈ l := fun s hs => hmem s (List.mem_cons_of_mem _ hs)
      by_cases h : Accepts c v s
      · obtain ⟨k, hk⟩ := List.mem_iff_getElem?.mp (hmem s (List.mem_cons_self ..))
        have hmember := hchained.member hk
        -- from here on the verifier stands at this member
        obtain ⟨ks, hks, hfollow⟩ := ih (At.accept (v := v) hmember hk) hrest
        refine ⟨(k + 1) :: ks, ?_, List.isChain_cons_cons.mpr
          ⟨hat.follows hmember hk h.2, hfollow⟩⟩
        rw [accepted_cons_of_accepts h, List.map_cons, List.map_cons, hks, Nat.add_sub_cancel, hk]
      · rw [accepted_cons_of_not h]
        exact ih hat hrest

/-! ### What follows is accepted -/

theorem authentic_of_signs (hc : c.Correct) {signer : Ed25519Signer c} {given : SnapshotMeta}
    {s : SignedSnapshot} (h : Signs c signer.signer given s) :
    Authentic c (signer.pins given.storeId given.company) s := by
  obtain ⟨bytes, hsign, hencode⟩ := h.signature
  refine ⟨h.schema, h.storeId, h.company, h.keyId, h.bodySha256.symm, bytes, ?_,
    hc.ed25519.valid_sign hsign⟩
  rw [hencode, hc.standard]

/-- No body has the digest that stands for none. -/
def NonZero (c : Crypto) (l : List SignedSnapshot) : Prop :=
  ∀ s ∈ l, (c.sha256 s.body.canonicalJson).all (· = 0) = false

theorem normalizeHash_bodyLink (hnonzero : NonZero c l) (i : Nat) :
    normalizeHash (bodyLink c l i) = bodyLink c l i := by
  cases hlink : bodyLink c l i with
  | none => rfl
  | some digest =>
      obtain ⟨s, hs, rfl⟩ := exists_of_bodyLink hlink
      rw [SnapshotBody.sha256, normalizeHash_hexDigest, hnonzero s hs, if_neg Bool.false_ne_true]

theorem bodyLink_eq_none {k : Nat} (hk : k ≤ l.length) : bodyLink c l k = none ↔ k = 0 := by
  cases k with
  | zero => exact ⟨fun _ => rfl, fun _ => rfl⟩
  | succ k => simp [bodyLink, List.getElem?_eq_getElem (show k < l.length by omega)]

variable {ed : Ed25519Signer c}

/-- A member that follows the one accepted last is accepted. -/
theorem At.accepts (hc : c.Correct) (hnonzero : NonZero c l) (hlen : l.length ≤ u64Max)
    {v : SnapshotVerifier} {i k : Nat} {s : SignedSnapshot} (hat : At c l i v)
    (hpins : v.config = ed.pins storeId company)
    (hmember : Member c ed.signer storeId company l k s) (hs : l[k]? = some s)
    (hfollows : Follows (bodyLink c l) i (k + 1)) : Accepts c v s := by
  obtain ⟨hlt, hlink⟩ := hfollows
  obtain ⟨hk, -⟩ := List.getElem?_eq_some_iff.mp hs
  have hle := hat.le
  have hzero : v.lastSeq = 0 → i = 0 := by
    intro h
    have := hat.lastSeq
    omega
  rw [Nat.add_sub_cancel] at hlink
  obtain ⟨given, hsigns, rfl, rfl⟩ := hmember.signs
  refine ⟨hpins ▸ authentic_of_signs hc hsigns, ?_, ?_, ?_⟩
  · rw [hmember.seq, hat.lastSeq]
    omega
  · intro h
    obtain rfl := hzero h
    obtain rfl := (bodyLink_eq_none (show k ≤ l.length by omega)).mp hlink
    rw [hmember.seq]
    rfl
  · rw [hmember.prevHash, normalizeHash_bodyLink hnonzero, hlink, hat.lastBodySha256]
    split
    · rename_i h
      rw [hzero h]
      rfl
    · rfl

/-- Members that follow each other are all accepted. -/
theorem At.accepted_eq (hc : c.Correct) (hnonzero : NonZero c l) (hlen : l.length ≤ u64Max)
    (hchained : Chained c ed.signer (.first storeId company) l) {ks : List Nat}
    {presented : List SignedSnapshot} {i : Nat} {v : SnapshotVerifier} (hat : At c l i v)
    (hpins : v.config = ed.pins storeId company)
    (hfollows : List.IsChain (Follows (bodyLink c l)) (i :: ks))
    (hmap : ks.map (fun k => l[k - 1]?) = presented.map some) :
    accepted c v presented = presented := by
  induction presented generalizing ks i v with
  | nil => rfl
  | cons s presented ih =>
      cases ks with
      | nil => cases hmap
      | cons k ks =>
          obtain ⟨hk, htail⟩ := List.isChain_cons_cons.mp hfollows
          obtain ⟨hhead, hrest⟩ := List.cons_eq_cons.mp hmap
          obtain ⟨k, rfl⟩ : ∃ j, k = j + 1 := ⟨k - 1, by have := hk.1; omega⟩
          have hs : l[k]? = some s := hhead
          have hmember := hchained.member hs
          have haccepted := ih (At.accept (v := v) hmember hs) hpins htail hrest
          rw [accepted_cons_of_accepts (hat.accepts hc hnonzero hlen hpins hmember hs hk),
            haccepted]

/-- The hashes of the members before the last tell them apart. -/
theorem injOn_bodyLink :
    Set.InjOn (bodyLink c l) (Set.Iio l.length) ↔
      (l.dropLast.map fun s => s.body.sha256 c).Nodup := by
  have hget : ∀ i, i + 1 < l.length →
      bodyLink c l (i + 1) = (l.dropLast.map fun s => s.body.sha256 c)[i]? := by
    intro i hi
    rw [bodyLink, List.getElem?_map, List.getElem?_dropLast, if_pos (by omega)]
  rw [List.nodup_iff_getElem?_ne_getElem?, List.length_map, List.length_dropLast]
  constructor
  · intro h i j hij hj heq
    rw [← hget i (by omega), ← hget j (by omega)] at heq
    have := h (show i + 1 < l.length by omega) (show j + 1 < l.length by omega) heq
    omega
  · intro h
    refine injOn_of_lt fun i j hij hj heq => ?_
    cases i with
    | zero =>
        -- the link of the first member is the only one that is none
        have := (bodyLink_eq_none (show j ≤ l.length by omega)).mp heq.symm
        omega
    | succ i =>
        obtain ⟨j, rfl⟩ : ∃ k, j = k + 1 := ⟨j - 1, by omega⟩
        rw [hget i (by omega), hget j hj] at heq
        exact h i j (by omega) (by omega) heq

/-- Members taken one after the other from the first are a prefix of the chain. -/
theorem isPrefix_of_map_range' {m : Nat} {presented : List SignedSnapshot}
    (h : (List.range' 1 m).map (fun k => l[k - 1]?) = presented.map some) : presented <+: l := by
  rw [List.prefix_iff_getElem?]
  intro i hi
  have hget := congrArg (fun items => items[i]?) h
  have hlen := congrArg List.length h
  rw [List.length_map, List.length_map, List.length_range'] at hlen
  simp only [List.getElem?_map, List.getElem?_eq_getElem hi, Option.map_some,
    List.getElem?_range' (show i < m by omega), Nat.one_mul, Nat.add_sub_cancel_left,
    Option.some.injEq] at hget
  exact hget

/-- The members with these numbers. -/
theorem exists_members {ks : List Nat} (hle : ∀ k ∈ ks, k ≤ l.length)
    (hchain : List.IsChain (Follows (bodyLink c l)) (0 :: ks)) :
    ∃ presented : List SignedSnapshot, ks.map (fun k => l[k - 1]?) = presented.map some := by
  have hpos := pos_of_isChain hchain
  refine ⟨ks.filterMap fun k => l[k - 1]?, ?_⟩
  rw [List.map_filterMap_some_eq_filter_map_isSome, eq_comm, List.filter_eq_self]
  intro member hmember
  obtain ⟨k, hk, rfl⟩ := List.mem_map.mp hmember
  have := hpos k hk
  have := hle k hk
  rw [List.getElem?_eq_getElem (show k - 1 < l.length by omega)]
  rfl

theorem mem_of_map_eq {ks : List Nat} {presented : List SignedSnapshot}
    (h : ks.map (fun k => l[k - 1]?) = presented.map some) : ∀ s ∈ presented, s ∈ l := by
  intro s hs
  obtain ⟨k, -, hk⟩ := List.mem_map.mp (h ▸ List.mem_map_of_mem (f := some) hs)
  exact List.mem_of_getElem? hk

/-- The numbers of the members of a prefix are consecutive. -/
theorem numbers_of_isPrefix (hchained : Chained c signer (.first storeId company) l)
    (hlen : l.length ≤ u64Max) {ks : List Nat} (hle : ∀ k ∈ ks, k ≤ l.length)
    (hchain : List.IsChain (Follows (bodyLink c l)) (0 :: ks))
    {presented : List SignedSnapshot} (hmap : ks.map (fun k => l[k - 1]?) = presented.map some)
    (hinitial : presented <+: l) : ks = List.range' 1 ks.length := by
  have hpos := pos_of_isChain hchain
  have hlength : ks.length = presented.length := by simpa using congrArg List.length hmap
  refine List.ext_getElem (by simp) fun i hi _ => ?_
  have hki : l[ks[i] - 1]? = some presented[i] := by
    have := congrArg (fun items => items[i]?) hmap
    simpa [hi, hlength ▸ hi] using this
  have hi' : l[i]? = some presented[i] := List.prefix_iff_getElem?.mp hinitial i (hlength ▸ hi)
  -- one snapshot has one number
  have hseq := (hchained.member hki).seq.symm.trans (hchained.member hi').seq
  have := hpos _ (List.getElem_mem hi)
  have := hle _ (List.getElem_mem hi)
  obtain ⟨hlt, -⟩ := List.getElem?_eq_some_iff.mp hi'
  rw [List.getElem_range']
  omega

/-! ### Main results -/

/-- What a verifier accepts is a chain, what it refuses leaves no trace, and it accepts the chain of
the signer it pins from end to end. A verifier keeps a number and a hash, so refusing without a
trace means that both stay as they were. -/
theorem sound_and_complete (c : Crypto) :
    (∀ config snapshots, IsChain c config (accepted c (new config) snapshots)) ∧
    (∀ v s e v', (verify c s).call v = (.error e, v') → v' = v) ∧
    (c.Correct → ∀ (ed : Ed25519Signer c) storeId company bodies,
      (∀ body ∈ bodies, (c.sha256 (Prod.fst body).canonicalJson).all (· = 0) = false) →
      bodies.length < u64Max →
      ∃ l, signChain c ed.signer storeId company bodies = .ok l ∧
        accepted c (new (ed.pins storeId company)) l = l) := by
  refine ⟨isChain_accepted, ?_, ?_⟩
  · intro v s e v' h
    rcases verify_cases v s with ⟨-, hcall⟩ | ⟨-, e', hcall⟩
    · rw [hcall] at h
      cases h
    · rw [hcall] at h
      cases h
      rfl
  -- The signer's own chain, presented in order, is accepted one after the other.
  · intro hc ed storeId company bodies hbodies hlen
    obtain ⟨l, hl⟩ := signFrom_ok hc ed bodies (.first storeId company)
    obtain ⟨hmap, hchained⟩ := signFrom_chained hl
    have hlength : l.length = bodies.length := by simpa using congrArg List.length hmap
    have hnonzero : NonZero c l := by
      intro s hs
      obtain ⟨entry, hentry, hbody⟩ := List.mem_map.mp (hmap ▸ List.mem_map_of_mem hs)
      exact hbody ▸ hbodies entry hentry
    refine ⟨l, hl, ?_⟩
    refine (at_new c l _).accepted_eq hc hnonzero (by omega) hchained rfl
      (isChain_range' (bodyLink c l) l.length 0) (List.ext_getElem? fun i => ?_)
    rcases Nat.lt_or_ge i l.length with hi | hi
    · simp [hi]
    · simp [hi]

/-- Members of a chain are accepted in its order, from the first one on, and each one's
predecessor has the body of the member accepted before it. No member can be skipped when the
bodies before the last are told apart by their hashes, and some member can when they are
not. -/
theorem skips_to_repeated_body {bodies : List (SnapshotBody × Int)}
    (h : signChain c signer storeId company bodies = .ok l) :
    (∀ config presented, (∀ s ∈ presented, s ∈ l) → ∃ ks : List Nat,
      ks.map (fun k => l[k - 1]?) = (accepted c (new config) presented).map some ∧
      List.IsChain (Follows (bodyLink c l)) (0 :: ks)) ∧
    ((l.dropLast.map fun s => s.body.sha256 c).Nodup → ∀ config presented,
      (∀ s ∈ presented, s ∈ l) → accepted c (new config) presented <+: l) ∧
    (∀ ed : Ed25519Signer c, signer = ed.signer → c.Correct → NonZero c l →
      l.length ≤ u64Max → ¬ (l.dropLast.map fun s => s.body.sha256 c).Nodup →
      ∃ presented, (∀ s ∈ presented, s ∈ l) ∧
        ¬ accepted c (new (ed.pins storeId company)) presented <+: l) := by
  obtain ⟨-, hchained⟩ := signFrom_chained h
  have hfollows : ∀ config presented, (∀ s ∈ presented, s ∈ l) → ∃ ks : List Nat,
      ks.map (fun k => l[k - 1]?) = (accepted c (new config) presented).map some ∧
      List.IsChain (Follows (bodyLink c l)) (0 :: ks) :=
    fun config presented hmem => (at_new c l config).accepted_follows hchained hmem
  refine ⟨hfollows, ?_, ?_⟩
  -- Distinct links leave no way but one step at a time.
  · intro hnodup config presented hmem
    obtain ⟨ks, hks, hchain⟩ := hfollows config presented hmem
    have hle : ∀ k ∈ ks, k ≤ l.length := by
      intro k hk
      obtain ⟨s, -, hs⟩ := List.mem_map.mp (hks ▸ List.mem_map_of_mem (f := fun k => l[k - 1]?) hk)
      obtain ⟨hlt, -⟩ := List.getElem?_eq_some_iff.mp hs.symm
      omega
    rw [consecutive (injOn_bodyLink.mpr hnodup) hle hchain] at hks
    exact isPrefix_of_map_range' hks
  -- A link that occurs twice can be jumped: presenting the members of that walk is accepted, and it
  -- is no initial piece of the chain.
  · intro ed hsigner hc hnonzero hlen hdup
    subst hsigner
    rw [← injOn_bodyLink, ← consecutive_iff_injOn] at hdup
    push Not at hdup
    obtain ⟨ks, hle, hchain, hne⟩ := hdup
    obtain ⟨presented, hmap⟩ := exists_members hle hchain
    refine ⟨presented, mem_of_map_eq hmap, ?_⟩
    rw [(at_new c l (ed.pins storeId company)).accepted_eq hc hnonzero hlen hchained rfl hchain
      hmap]
    exact fun hinitial => hne (numbers_of_isPrefix hchained hlen hle hchain hmap hinitial)

/-! ### A folder renamed and renamed back -/

/-- A body with one folder of this name and nothing else. -/
def folderBody (name : String) : SnapshotBody where
  projects := []
  folders := [⟨"f", name, none, 0⟩]
  projectFolders := []
  issues := []
  dependencies := []
  summary := ⟨0, [], [], 1⟩

def renames : List (SnapshotBody × Int) :=
  [(folderBody "old", 1), (folderBody "new", 2), (folderBody "old", 3), (folderBody "new", 4)]

def plainSigner : Ed25519Signer Crypto.plain := ⟨Crypto.plainSecret 7, "key-1"⟩

theorem nonZero_plain (l : List SignedSnapshot) : NonZero Crypto.plain l := fun _ _ => rfl

/-- The fourth snapshot is accepted after the first: the third has the body of the first. -/
theorem member_skipped : ∃ l presented,
    signChain Crypto.plain plainSigner.signer "store" none renames = .ok l ∧
    (∀ s ∈ presented, s ∈ l) ∧
    ¬ accepted Crypto.plain (new (plainSigner.pins "store" none)) presented <+: l := by
  obtain ⟨l, hl⟩ := signFrom_ok Crypto.plain_correct plainSigner renames (.first "store" none)
  obtain ⟨hmap, hchained⟩ := signFrom_chained hl
  have hlength : l.length = 4 := by simpa [renames] using congrArg List.length hmap
  have hlink : ∀ i, bodyLink Crypto.plain l (i + 1) =
      (renames.map Prod.fst)[i]?.map fun body => body.sha256 Crypto.plain := by
    intro i
    rw [← hmap, bodyLink, List.getElem?_map, Option.map_map]
    rfl
  -- The links after 1 and after 3 are equal, so the walk 0, 1, 4 follows the chain as well.
  have hchain : List.IsChain (Follows (bodyLink Crypto.plain l)) [0, 1, 4] := by
    refine List.isChain_cons_cons.mpr ⟨⟨Nat.zero_lt_one, rfl⟩,
      List.isChain_cons_cons.mpr ⟨⟨by decide, ?_⟩, List.isChain_singleton _⟩⟩
    rw [hlink, hlink]
    rfl
  have hle : ∀ k ∈ [1, 4], k ≤ l.length := by
    rw [hlength]
    decide
  have hmax : l.length ≤ u64Max := by
    rw [hlength]
    decide
  obtain ⟨presented, hpresented⟩ := exists_members hle hchain
  refine ⟨l, presented, hl, mem_of_map_eq hpresented, ?_⟩
  rw [(at_new Crypto.plain l (plainSigner.pins "store" none)).accepted_eq Crypto.plain_correct
    (nonZero_plain l) hmax hchained rfl hchain hpresented]
  intro hinitial
  have hks := numbers_of_isPrefix hchained hmax hle hchain hpresented hinitial
  revert hks
  decide

/-- Of this chain, too, a verifier takes only members that follow each other. -/
theorem renames_follow : ∃ l,
    signChain Crypto.plain plainSigner.signer "store" none renames = .ok l ∧
    ∀ config presented, (∀ s ∈ presented, s ∈ l) → ∃ ks : List Nat,
      ks.map (fun k => l[k - 1]?) = (accepted Crypto.plain (new config) presented).map some ∧
      List.IsChain (Follows (bodyLink Crypto.plain l)) (0 :: ks) := by
  obtain ⟨l, hl⟩ := signFrom_ok Crypto.plain_correct plainSigner renames (.first "store" none)
  exact ⟨l, hl, (skips_to_repeated_body hl).1⟩

end SnapshotVerifier

end Marbles
