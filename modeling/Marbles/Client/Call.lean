import Mathlib.Data.List.Induction
import Marbles.Lib.Machine
import Marbles.Store
import Marbles.Client.Cache

/-!
# Calls of the client

One op for each call. What the network makes of the request is an outcome of the
environment: no response at all, or a status and a body that may break off. An answered
read is cached; a read that finds no server is answered from the cache, with a banner.

The cache knows servers and requests and no credentials: a call is answered with what
*somebody* was told.

What is proved about sequences of calls is about whole directories: which files there are, which
request each of them answers, and when it was written. A banner is part of the reply because it is
what tells an old answer from a new one.
-/

namespace Marbles.Http

/-- `READ_OPS`: the ops that only read, whose answers may be replayed. -/
def readOps : List String :=
  ["issues.list", "issues.ready", "issues.get", "history.get", "stats", "projects.list",
    "views.dashboard", "views.scrum", "views.gantt"]

/-- An op that is not in the list counts as a write. -/
def isReadOp (op : String) : Bool := readOps.contains op

/-- `str::trim_end_matches`. -/
def trimEndMatches (ch : Char) (s : String) : String :=
  String.ofList (s.toList.reverse.dropWhile (· = ch)).reverse

/-- A client of one server. The credential it presents is no part of what its cache is keyed by. -/
structure Client where
  base : String
  token : String
  cache : Option Cache
  deriving DecidableEq, Repr

/-- The slashes at the end of the base are dropped before it names a server. -/
def Client.withOptions (base token : String) (cache : Option Cache) : Client :=
  ⟨trimEndMatches '/' base, token, cache⟩

/-- Why a request did not produce a response body. -/
inductive Failure where
  | unavailable (reason : String)
  | rejected (message : String)
  deriving DecidableEq, Repr

/-- What the client sees of the network. -/
inductive Wire where
  /-- No connection, no response before the deadline, or a connection lost before one. -/
  | failed (reason : String)
  /-- A response; reading its body can fail as well. -/
  | answer (status : Nat) (body : Except String String)

/-- 2xx. -/
def isSuccess (status : Nat) : Bool := 200 ≤ status && status < 300

/-- 5xx: the server is there and of no use, which counts as being offline. -/
def isServerError (status : Nat) : Bool := 500 ≤ status && status < 600

/-- What `send` makes of it. An answer with a status of 500 or more counts as no answer, so the
cache may stand in for it. -/
def send (base : String) : Wire → Except Failure String
  | .failed e => .error (.unavailable s!"connecting to {base}: {e}")
  | .answer _ (.error e) => .error (.unavailable s!"reading {base} response: {e}")
  | .answer status (.ok text) =>
      if isSuccess status then .ok text
      else
        let detail := s!"HTTP {status}: {trim text}"
        if isServerError status then .error (.unavailable detail) else .error (.rejected detail)

/-- A body that cannot be read is an error with the body in it. -/
def parseResponse {T : Type} (parse : String → Except String T) (op text : String) :
    Except String T :=
  (parse text).mapError fun e => s!"parsing {op} response: {e}\n{text}"

/-- What the environment decides during a call. -/
structure CallIo where
  wire : Wire
  store : StoreIo
  readable : Bool
  now : Int

/-- The warning printed with a replayed answer. -/
structure Banner where
  cached : CachedResponse
  age : Int
  base : String
  reason : String
  deriving DecidableEq, Repr

/-- What a call returns, and the warning that it prints when the answer is an old one. -/
structure Reply (T : Type) where
  result : Except String T
  banner : Option Banner

/-- The error of a write that found no server. -/
def notApplied (op reason : String) : String := s!"offline: {op} not applied (no server): {reason}"

/-- POST the body to the op, and fall back on the cache when the server is unavailable. Only the ops
that read are answered from the cache, and a hit says how old it is. -/
def Client.call {T : Type} (c : Crypto) (io : CallIo) (self : Client) (op : String)
    (body : Except String Json.Value) (parse : String → Except String T) (disk : Disk) :
    Reply T × Disk :=
  match body with
  | .error e => (⟨.error s!"serializing {op} request: {e}", none⟩, disk)
  | .ok value =>
      let key := value.text
      let cacheable := isReadOp op
      match send self.base io.wire with
      | .ok text =>
          let disk := match self.cache with
            | some cache =>
                if cacheable then ((cache.store c io.store self.base op key text).call disk).2
                else disk
            | none => disk
          (⟨parseResponse parse op text, none⟩, disk)
      | .error (.rejected message) => (⟨.error message, none⟩, disk)
      | .error (.unavailable reason) =>
          if !cacheable then (⟨.error (notApplied op reason), none⟩, disk)
          else
            match self.cache.bind fun cache => cache.load c io.readable self.base op key disk with
            | some cached =>
                (⟨parseResponse parse op cached.body,
                  some ⟨cached, io.now - cached.fetchedAt, self.base, reason⟩⟩, disk)
            | none => (⟨.error s!"offline: no cached {op} response for {self.base} ({reason})",
                none⟩, disk)

/-! ### Sequences of calls -/

/-- One use of a client. -/
structure Invocation (T : Type) where
  io : CallIo
  client : Client
  op : String
  body : Except String Json.Value
  parse : String → Except String T

namespace Invocation

variable {T : Type} {c : Crypto}

/-- The call on the cache directories as they are. -/
def run (c : Crypto) (i : Invocation T) (disk : Disk) : Reply T × Disk :=
  i.client.call c i.io i.op i.body i.parse disk

/-- The directories after a sequence of calls. -/
def diskAfter (c : Crypto) (calls : List (Invocation T)) : Disk :=
  Machine.run (fun (i : Invocation T) disk => (i.run c disk).2) calls []

/-- The server of the call returned this body. -/
def Returned (i : Invocation T) (text : String) : Prop :=
  ∃ status, isSuccess status = true ∧ i.io.wire = .answer status (.ok text)

/-- Two calls of one server with the same op and request body. -/
structure SameRequest (i j : Invocation T) : Prop where
  base : i.client.base = j.client.base
  op : i.op = j.op
  body : i.body.map Json.Value.text = j.body.map Json.Value.text

theorem send_eq_ok {base text : String} {wire : Wire} :
    send base wire = .ok text ↔ ∃ status, isSuccess status = true ∧ wire = .answer status
    (.ok text) := by
  cases wire with
  | failed e => simp [send]
  | answer status body =>
      cases body with
      | error e => simp [send]
      | ok text' =>
          simp only [send, Wire.answer.injEq, Except.ok.injEq]
          split
          · rename_i hstatus
            constructor
            · intro h
              cases h
              exact ⟨status, hstatus, rfl, rfl⟩
            · intro h
              obtain ⟨-, -, -, rfl⟩ := h
              rfl
          · rename_i hstatus
            have hno : ¬ ∃ status', isSuccess status' = true ∧ status = status' ∧ text' = text := by
              intro h
              obtain ⟨_, hsuccess, rfl, -⟩ := h
              exact hstatus hsuccess
            simp only [hno, iff_false]
            split <;> simp

/-- A call changes the directory only by what its server returned. -/
theorem mem_of_mem_run {i : Invocation T} {disk : Disk} {f : CacheFile}
    (h : f ∈ (i.run c disk).2) :
    f ∈ disk ∨ ∃ text key, i.Returned text ∧ i.body.map Json.Value.text = .ok key ∧
      f.name = Cache.nameFor c i.client.base i.op key ∧
      f.entry = some ⟨entryVersion, i.client.base, i.op, i.io.store.now, text⟩ := by
  unfold run Client.call at h
  cases hbody : i.body with
  | error e =>
      rw [hbody] at h
      exact Or.inl h
  | ok value =>
      simp only [hbody] at h
      cases hsend : send i.client.base i.io.wire with
      | error failure =>
          rw [hsend] at h
          cases failure with
          | rejected message => exact Or.inl h
          | unavailable reason =>
              simp only at h
              split at h
              · exact Or.inl h
              · split at h <;> exact Or.inl h
      | ok text =>
          rw [hsend] at h
          simp only at h
          split at h
          · split at h
            · -- the answer of a read
              rcases Cache.mem_of_mem_store h with hold | ⟨hname, hentry⟩
              · exact Or.inl hold
              · exact Or.inr ⟨text, _, send_eq_ok.mp hsend, rfl, hname, hentry⟩
            · exact Or.inl h
          · exact Or.inl h

/-- Every file holds what a call was answered with. -/
def Sourced (c : Crypto) (calls : List (Invocation T)) (disk : Disk) : Prop :=
  ∀ f ∈ disk, ∃ i ∈ calls, ∃ text key, i.Returned text ∧ i.body.map Json.Value.text = .ok key ∧
    f.name = Cache.nameFor c i.client.base i.op key ∧
    f.entry = some ⟨entryVersion, i.client.base, i.op, i.io.store.now, text⟩

theorem sourced_diskAfter (c : Crypto) (calls : List (Invocation T)) :
    Sourced c calls (diskAfter c calls) := by
  induction calls using List.reverseRecOn with
  | nil =>
      intro f hf
      cases hf
  | append_singleton calls i ih =>
      intro f hf
      rw [diskAfter, Machine.run_append] at hf
      rcases mem_of_mem_run hf with hold | hnew
      · obtain ⟨j, hj, hsource⟩ := ih f hold
        exact ⟨j, List.mem_append_left _ hj, hsource⟩
      · exact ⟨i, List.mem_append_right _ (List.mem_singleton_self i), hnew⟩

/-- A banner is printed for what the cache served. -/
theorem load_of_banner {i : Invocation T} {disk : Disk} {banner : Banner}
    (h : (i.run c disk).1.banner = some banner) :
    (i.run c disk).1.result = parseResponse i.parse i.op banner.cached.body ∧
    ∃ cache value, i.body = .ok value ∧ Cache.load c i.io.readable cache i.client.base i.op
      value.text disk = some banner.cached := by
  unfold run Client.call at h ⊢
  cases hbody : i.body with
  | error e =>
      rw [hbody] at h
      cases h
  | ok value =>
      simp only [hbody] at h ⊢
      cases hsend : send i.client.base i.io.wire with
      | ok text =>
          rw [hsend] at h
          cases h
      | error failure =>
          rw [hsend] at h
          cases failure with
          | rejected message => cases h
          | unavailable reason =>
              -- writes are refused before the cache is looked at
              simp only at h ⊢
              split at h
              · cases h
              · rename_i hread
                rw [if_neg hread]
                split at h
                · rename_i cached hcached
                  obtain ⟨cache, -, hload⟩ := Option.bind_eq_some_iff.mp hcached
                  cases h
                  exact ⟨rfl, cache, value, rfl, hload⟩
                · cases h

/-- A replayed body is one that the same server returned to an earlier call with the same op and
request body. Who made the earlier call is not part of it: a credential does not tell two requests
apart. -/
theorem replayed_returned (hsha : Function.Injective c.sha256) (before : List (Invocation T))
    (i : Invocation T) {banner : Banner}
    (h : (i.run c (diskAfter c before)).1.banner = some banner) :
    (i.run c (diskAfter c before)).1.result =
      parseResponse i.parse i.op banner.cached.body ∧
    ∃ earlier ∈ before, earlier.SameRequest i ∧ earlier.Returned banner.cached.body := by
  obtain ⟨hresult, cache, value, hbody, hload⟩ := load_of_banner h
  obtain ⟨f, hf, hname, hentry⟩ := Cache.load_eq_some hload
  obtain ⟨earlier, hearlier, text, key, hreturned, hkey, hname', hentry'⟩ :=
    sourced_diskAfter c before f hf
  rw [hentry] at hentry'
  simp only [Option.some.injEq, Entry.mk.injEq, true_and] at hentry'
  obtain ⟨hbase, hop, -, rfl⟩ := hentry'
  refine ⟨hresult, earlier, hearlier, ⟨hbase.symm, hop.symm, ?_⟩, hreturned⟩
  rw [← hbase, ← hop, hname] at hname'
  rw [hkey, hbody, ← Cache.nameFor_body hsha hname']
  rfl

/-! ### Two credentials -/

/-- The digest of a text is its UTF-8 bytes. -/
def utf8 : Crypto := { Crypto.plain with sha256 := fun text => text.toByteArray.data.toList }

theorem utf8_injective : Function.Injective utf8.sha256 := by
  intro s t h
  exact String.toByteArray_inj.mp (ByteArray.ext (Array.toList_inj.mp h))

/-- List the issues with this token. -/
def listAs (token : String) (wire : Wire) : Invocation Json.Value where
  io := ⟨wire, ⟨.ok (), 0, .ok (), .ok (), 0, none, fun _ => true⟩, true, 60⟩
  client := .withOptions "https://marbles" token (some ⟨"cache"⟩)
  op := "issues.list"
  body := .ok (.obj [])
  parse text := .ok (.str text)

/-- Alice lists the issues, and the server answers. -/
def answered : Invocation Json.Value := listAs "alice" (.answer 200 (.ok "[1]"))

/-- Bob asks the same server for the same list, and there is no connection. -/
def offline : Invocation Json.Value := listAs "bob" (.failed "refused")

theorem offline_banner : (offline.run utf8 (diskAfter utf8 [answered])).1.banner =
    some ⟨⟨"[1]", 0⟩, 60, "https://marbles", "connecting to https://marbles: refused"⟩ := by
  have hbase : trimEndMatches '/' "https://marbles" = "https://marbles" := by decide
  have hread : isReadOp "issues.list" = true := by decide
  have hsuccess : isSuccess 200 = true := by decide
  have hload := @Cache.load_store utf8 ⟨.ok (), 0, .ok (), .ok (), 0, none, fun _ => true⟩ rfl rfl
    rfl rfl ⟨"cache"⟩ "https://marbles" "issues.list" (Json.Value.obj []).text "[1]" []
  simp only [offline, answered, listAs, run, diskAfter, Machine.run_cons, Machine.run_nil,
    Client.call, Client.withOptions, send, hbase, hread, hsuccess, if_true, Option.bind_some,
    hload, Bool.not_true, Bool.false_eq_true, if_false]
  rfl

/-- What one token was told is replayed to another. -/
theorem replayed_to_other_token : ∃ (before : List (Invocation Json.Value))
    (i : Invocation Json.Value) (banner : Banner),
    (i.run utf8 (diskAfter utf8 before)).1.banner = some banner ∧
    ∀ earlier ∈ before, earlier.client.token ≠ i.client.token := by
  refine ⟨[answered], offline, _, offline_banner, ?_⟩
  intro earlier h
  rw [List.mem_singleton.mp h]
  decide

/-- The answer was returned to the same request, whoever made it. -/
theorem replayed_same_request : ∃ earlier ∈ [answered],
    earlier.SameRequest offline ∧ earlier.Returned "[1]" :=
  (replayed_returned utf8_injective [answered] offline offline_banner).2

end Invocation

end Marbles.Http
