import Marbles.Api
import Marbles.Lib.Exchange
import Marbles.Client.Call
import Marbles.Db.Claims

/-!
# Writes over an unreliable network

The client and the server as parties that exchange messages. A client that is not answered
before its deadline, whose answer breaks off, or that reads a 5xx, says that its write was
not applied. It cannot know: the request may have been handled, and it may still be.

The parties and the network between them are those of the library module about exchanges; here
they are the client's `call` and any server. The condition is about the network and about
statuses: no reply of a request that was handled is lost, none is handled after its client has
stopped waiting, and none is answered by a 5xx after it has been handled.
-/

namespace Marbles.Http

/-- A request on its way to the server. -/
structure Post (T : Type) where
  client : Client
  op : String
  body : Json.Value
  parse : String → Except String T

/-- What a client meets when it stops waiting. -/
structure View where
  io : CallIo
  disk : Disk

/-- An answer is the reply of the server, or its beginning, or a gateway's 5xx. -/
def sees (reply : Option (Nat × String)) (view : View) : Bool :=
  match view.io.wire with
  | .failed _ => true
  | .answer status body => isServerError status || match reply, body with
      | some reply, .ok text => reply = (status, text)
      | some reply, .error _ => reply.1 = status
      | none, _ => false

/-- No response body below 500. -/
def Wire.unusable : Wire → Bool
  | .failed _ => true
  | .answer _ (.error _) => true
  | .answer status (.ok _) => isServerError status

/-- What is not in the list of reads, including an op that no server knows. -/
def IsWrite {T : Type} (post : Post T) : Prop := isReadOp post.op = false

/-- The client says that the write was not applied. -/
def Denies {T : Type} (post : Post T) (result : Except String T) : Prop :=
  IsWrite post ∧ ∃ reason, result = .error (notApplied post.op reason)

/-- Clients and a server; the environment of a handler is its clock, its random draws and
how the credential resolves. -/
def exchange {T Env σ : Type} (c : Crypto)
    (server : Env → Post T → σ → Option (Nat × String) × σ) :
    Exchange (Post T) Env (Nat × String) View (Except String T) σ where
  handle := server
  sees := sees
  conclude post view :=
    (post.client.call c view.io post.op (.ok post.body) post.parse view.disk).1.result

variable {T : Type} {c : Crypto}

/-- No other error of the client begins like the one of a write that found no server. -/
theorem head_notApplied (op reason : String) :
    (notApplied op reason).toList.head? = some 'o' := by
  simp only [notApplied, String.toList_append, List.head?_append]
  rfl

theorem head_parsing (op e text : String) :
    s!"parsing {op} response: {e}\n{text}".toList.head? = some 'p' := by
  simp only [String.toList_append, List.head?_append]
  rfl

theorem head_http (status : Nat) (text : String) :
    s!"HTTP {status}: {text}".toList.head? = some 'H' := by
  simp only [String.toList_append, List.head?_append]
  rfl

/-- A write is denied only for want of a usable answer. -/
theorem unusable_of_denies {post : Post T} {io : CallIo} {disk : Disk}
    (h : Denies post (post.client.call c io post.op (.ok post.body) post.parse disk).1.result) :
    io.wire.unusable = true := by
  obtain ⟨-, reason, h⟩ := h
  have hhead := head_notApplied post.op reason
  cases hwire : io.wire with
  | failed e => rfl
  | answer status body =>
      cases body with
      | error e => rfl
      | ok text =>
          rw [Wire.unusable]
          by_contra hserver
          unfold Client.call at h
          rw [hwire] at h
          cases hsuccess : isSuccess status with
          | true =>
              -- a success is parsed
              have hsend : send post.client.base (.answer status (.ok text)) = .ok text := by
                rw [send, hsuccess]
                rfl
              simp only [hsend, parseResponse] at h
              cases hparse : post.parse text with
              | ok value =>
                  rw [hparse] at h
                  cases h
              | error e =>
                  rw [hparse] at h
                  rw [← Except.error.inj h, head_parsing] at hhead
                  cases hhead
          | false =>
              have hsend : send post.client.base (.answer status (.ok text)) =
                  .error (.rejected s!"HTTP {status}: {trim text}") := by
                rw [send, hsuccess, if_neg Bool.false_ne_true, if_neg hserver]
              simp only [hsend] at h
              rw [← Except.error.inj h, head_http] at hhead
              cases hhead

/-- The reply, as its client has it when it arrives whole. -/
def Shows (reply : Nat × String) (view : View) : Prop :=
  view.io.wire = .answer reply.1 (.ok reply.2)

/-- A reply that the client takes for an answer: below 500. -/
def Usable (reply : Nat × String) : Prop := isServerError reply.1 = false

/-- No write whose usable reply arrived is denied. -/
theorem not_denies_of_shows {post : Post T} {reply : Nat × String} {view : View}
    (husable : Usable reply) (hshows : Shows reply view) :
    ¬ Denies post
      (post.client.call c view.io post.op (.ok post.body) post.parse view.disk).1.result := by
  intro hdenies
  have hunusable := unusable_of_denies hdenies
  rw [show view.io.wire = _ from hshows, Wire.unusable,
    show isServerError reply.1 = false from husable] at hunusable
  cases hunusable

/-- A write that its client reports as not applied has no effect on the store, in every run in which
the network and the server keep time for writes: it was not handled and never will be. Without the
condition the reply may be lost after the write was made, or the write may be made after the client
has given up. -/
theorem notApplied_unchanged {Env σ : Type}
    (server : Env → Post T → σ → Option (Nat × String) × σ)
    (events : List (Exchange.Event (Post T) Env View)) (store : σ)
    (htimely : Machine.Meets (exchange c server).step
      ((exchange c server).Timely IsWrite Usable Shows) events (Exchange.idle store)) :
    ∀ call ∈ ((exchange c server).after events store).calls, isReadOp call.request.op = false →
      ∀ reason, call.result = some (.error (notApplied call.request.op reason)) →
      call.effect = none := by
  intro call hcall hwrite reason hresult
  have hsettled : Exchange.Settled IsWrite Usable Denies ((exchange c server).after events store) :=
    Exchange.settled_after (fun _ _ _ _ husable hshows => not_denies_of_shows husable hshows)
      events store htimely
  obtain ⟨i, hi⟩ := List.mem_iff_getElem?.mp hcall
  exact (hsettled i call hi).effect hwrite hresult ⟨hwrite, reason, rfl⟩

/-! ### The API behind the network -/

/-- What a handler finds out about a request: who makes it, at which time, and how its
response is written. A request that the router, the credential or the body stops is
answered at once. -/
structure ApiEnv where
  authenticated : Except (Nat × String) Api.Authenticated
  encode : Api.Response → String

/-- The API as a party; a handler that panics drops the connection. What a handler has committed
before a panic stays, and the client is told nothing. -/
def api (cfg : Db.Config) (env : ApiEnv) (_post : Post T) (s : Locked Db.Tables) :
    Option (Nat × String) × Locked Db.Tables :=
  match env.authenticated with
  | .error reply => (some reply, s)
  | .ok request =>
      match Api.serve cfg request s with
      | (.ok response, s') => (some (200, env.encode response), s')
      | (.error (.fail e), s') => (some e.response, s')
      | (.error .abort, s') => (none, s')

/-- The agent `a` claims the issue `x`. -/
def claimPost : Post Json.Value where
  client := .withOptions "https://marbles" "token" none
  op := "claims.claim"
  body := .obj [("id", .str "x")]
  parse text := .ok (.str text)

/-- The server reads the request at time 5. -/
def claimEnv : ApiEnv where
  authenticated := .ok ⟨⟨.agent, "a"⟩, 5, .claimsClaim "x" none none⟩
  encode _ := "\x7b\x7d"

/-- The deadline has passed. -/
def timeout : View :=
  ⟨⟨.failed "timeout", ⟨.ok (), 0, .ok (), .ok (), 0, none, fun _ => true⟩, true, 60⟩, []⟩

/-- A store with the issue `x`, which nobody has claimed. -/
def unclaimed : Locked Db.Tables :=
  Db.run {} [.ensureProject "p" "/p" "p" 0, .create { id := some "x", project := some "p" } [] 0]
    (Db.opened "s")

theorem claim_applied : (api {} claimEnv claimPost unclaimed).2 ≠ unclaimed := by
  have hbefore : (unclaimed.state.issue.find "x").map Db.IssueRow.assignee = some none := rfl
  have hafter : ((api {} claimEnv claimPost unclaimed).2.state.issue.find "x").map
      Db.IssueRow.assignee = some (some "a") := rfl
  intro hsame
  rw [hsame, hbefore] at hafter
  cases hafter

/-- The claim is made and the answer comes too late. -/
theorem claim_applied_denied : ∃ call ∈ ((exchange Crypto.plain (api {})).after
      [.post claimPost, .handle 0 claimEnv, .conclude 0 timeout] unclaimed).calls,
    isReadOp call.request.op = false ∧
    (∃ reason, call.result = some (.error (notApplied call.request.op reason))) ∧
    ∃ before after, call.effect = some (before, after) ∧ after ≠ before :=
  ⟨⟨claimPost, false, none, some (unclaimed, (api {} claimEnv claimPost unclaimed).2),
    some (.error (notApplied "claims.claim" s!"connecting to {claimPost.client.base}: timeout"))⟩,
    List.mem_singleton_self _, rfl, ⟨_, rfl⟩, _, _, rfl, claim_applied⟩

/-- The answer to that claim, whole and in time. -/
def answered : View :=
  { timeout with io := { timeout.io with wire := .answer 200 (.ok "\x7b\x7d") } }

/-- Two claims of the same issue are on their way. The first is lost, the second is handled and its
answer arrives; then the client of the first gives up. -/
def oneLost : List (Exchange.Event (Post Json.Value) ApiEnv View) :=
  [.post claimPost, .post claimPost, .loseRequest 0, .handle 1 claimEnv, .conclude 1 answered,
    .conclude 0 timeout]

theorem oneLost_unchanged :
    ∃ call ∈ ((exchange Crypto.plain (api {})).after oneLost unclaimed).calls,
    (∃ reason, call.result = some (.error (notApplied call.request.op reason))) ∧
      call.effect = none := by
  refine ⟨⟨claimPost, false, none, none, some (.error (notApplied "claims.claim" _))⟩,
    List.mem_cons_self .., ⟨_, rfl⟩, ?_⟩
  refine @notApplied_unchanged Json.Value Crypto.plain ApiEnv _ (api {}) oneLost unclaimed
    ⟨trivial, trivial, trivial, ?_, ?_, ?_, trivial⟩ _ (List.mem_cons_self ..) rfl _ rfl
  · intro call hcall _ _
    cases hcall
    exact ⟨rfl, _, rfl, rfl⟩
  · intro call reply hcall _ _ hreply
    cases hcall
    cases hreply
    rfl
  · intro call reply hcall _ _ hreply
    cases hcall
    cases hreply

end Marbles.Http
