import Marbles.Db.Ops

/-!
# The wire protocol

The handlers of `api.rs` over the local store: one operation for each request, every
caller a resolved `Principal`. The kind of an actor and the identity of a human are
taken from the principal, never from the body. A handler reads the clock once; `now` is
what it saw.

Requests that only read are left to the modules that are about the views. What the model keeps of
a request is who makes it, when it is handled and what it asks for; the transport, the decoding of
the body and the worker threads are not part of it. That a handler may take more than one scope is
kept, since that is where other requests get in between.
-/

namespace Marbles

open Db (DbM DbI)

/-- Who a request is made by. -/
structure Principal where
  kind : ActorKind
  name : String
  deriving DecidableEq

namespace Api

/-- A refusal of the handler itself, or an error of the store that it passes on. -/
inductive ApiError where
  | status (code : Nat) (message : String)
  | db (error : Error)
  deriving DecidableEq

/-- The status code and the body of an error response. The codes are what a client tells a rejected
request from an unavailable server by. -/
def ApiError.response : ApiError → Nat × String
  | .status code message => (code, message)
  | .db error =>
      (match error with
        | .notFound _ | .noProject _ => 404
        | .alreadyClaimed .. | .cycle .. => 409
        | .badStatus _ | .bad _ | .noEvidence _ => 422
        | .sqlite _ | .postgres _ | .json _ => 500, error.display)

/-- The body of a successful response. Each handler makes one kind, so the kind tells which handler
answered. -/
inductive Response where
  | slug (slug : String)
  | id (id : String)
  | issue (issue : Issue)
  | ok
  | superseded (closed replacement : String)
  | receipt (receipt : ClaimReceipt)
  | renewed (id : String) (expiresAt : Int)
  | swept (report : SweepReport)
  deriving DecidableEq

/-- The requests that write, and what the store does not decide itself: the suffixes the
id generator draws and the order in which the sweep visits the claims. -/
inductive Request where
  | projectsEnsure (slug root idPrefix : String)
  | issuesCreate (spec : NewIssue) (draws : List String)
  | issuesUpdate (id : String) (patch : IssuePatch)
  | issuesClose (id : String) (reason : Option String) (evidence : List Evidence)
      (pr commit ack : Option String)
  | issuesSupersede (id replacement : String)
  | depsAdd (child parent : String)
  | depsRemove (child parent : String)
  | labelsAdd (id label : String)
  | labelsRemove (id label : String)
  | claimsClaim (id : String) (assignee : Option String) (ttlSeconds : Option Int)
  | claimsTouch (id : String) (assignee : Option String)
  | claimsRelease (id : String) (assignee : Option String)
  | claimsSweep (order : List String)

/-- A request, the principal its credential resolved to, and the time it is handled at. -/
structure Authenticated where
  principal : Principal
  now : Int
  request : Request

/-- A handler is a program over the scopes of the store: between two of them other requests run. -/
abbrev ApiM := ExceptT (Fault ApiError) (Prog DbI)

/-- A call of the store; its errors become responses. -/
def store {α : Type} (m : DbM α) : ApiM α := ExceptT.adapt (Fault.map .db) m

/-- Evidence of the flat fields is appended to the list. -/
def flatEvidence (evidence : List Evidence) (pr commit ack : Option String) : List Evidence :=
  evidence ++ (pr.map Evidence.pr).toList ++ (commit.map fun c => ⟨"commit", c⟩).toList ++
    (ack.map Evidence.ack).toList

/-- Who a claim is made for: a human only holds work as itself, an agent may name a run. -/
def holder (principal : Principal) (assignee : Option String) : String :=
  match principal.kind with
  | .human => principal.name
  | .agent => assignee.getD principal.name

/-- May this principal release a claim that `current` holds? -/
def owns (principal : Principal) (assignee : Option String) (current : String) : Bool :=
  match principal.kind with
  | .human => current = principal.name
  | .agent => assignee = some current || current = principal.name

/-- 403: the caller is known, and may not do this. -/
def forbidden (message : String) : ApiError := .status 403 message

section Handlers

variable (cfg : Db.Config)

/-- The same for every caller. -/
def projectsEnsure (now : Int) (slug root idPrefix : String) : ApiM Response := do
  store (Db.call (.ensureProject slug root idPrefix now))
  pure (.slug slug)

/-- The creator defaults to the caller. -/
def issuesCreate (principal : Principal) (now : Int) (spec : NewIssue) (draws : List String) :
    ApiM Response :=
  .id <$> store (Db.create cfg
    { spec with createdBy := some (spec.createdBy.getD principal.name) } draws now)

/-- Any patch is passed on, a change of status as well. -/
def issuesUpdate (principal : Principal) (now : Int) (id : String) (patch : IssuePatch) :
    ApiM Response := .issue <$> store (Db.update id patch principal.name now)

/-- Closing goes through the gates of the store: evidence, and no open blockers. -/
def issuesClose (principal : Principal) (now : Int) (id : String) (reason : Option String)
    (evidence : List Evidence) (pr commit ack : Option String) : ApiM Response :=
  .issue <$> store (Db.close id reason (flatEvidence evidence pr commit ack) principal.name now)

/-- The old issue is closed in favour of another one. -/
def issuesSupersede (principal : Principal) (now : Int) (id replacement : String) :
    ApiM Response := do
  store (Db.supersede id replacement principal.name now)
  pure (.superseded id replacement)

/-- The edge is checked for cycles in the scope that writes it. -/
def depsAdd (principal : Principal) (now : Int) (child parent : String) : ApiM Response := do
  store (Db.addDep child parent principal.name now)
  pure .ok

/-- Removing an edge that is not there is no error. -/
def depsRemove (principal : Principal) (now : Int) (child parent : String) : ApiM Response := do
  store (Db.call (.removeDep child parent principal.name now))
  pure .ok

/-- The label is added once. -/
def labelsAdd (principal : Principal) (now : Int) (id label : String) : ApiM Response := do
  store (Db.addLabel id label principal.name now)
  pure .ok

/-- Removing a label that is not there is no error. -/
def labelsRemove (principal : Principal) (now : Int) (id label : String) : ApiM Response := do
  store (Db.removeLabel id label principal.name now)
  pure .ok

/-- The body may name another holder only for an agent; see `holder`. -/
def claimsClaim (principal : Principal) (now : Int) (id : String) (assignee : Option String)
    (ttlSeconds : Option Int) : ApiM Response :=
  .receipt <$> store (Db.claim cfg ⟨id, holder principal assignee, principal.kind, ttlSeconds⟩ now)

/-- Renew the lease of the holder that the request stands for. -/
def claimsTouch (principal : Principal) (now : Int) (id : String) (assignee : Option String) :
    ApiM Response :=
  .renewed id <$> store (Db.call (.touch id (holder principal assignee) now))

/-- Releasing somebody else's claim would be a steal. -/
def checkHolder (principal : Principal) (id : String) (assignee : Option String) :
    Option String → ApiM Unit
  | some current =>
      if owns principal assignee current then pure ()
      else throw (.fail (forbidden s!"{id} is held by {current}"))
  | none => pure ()

/-- The holder is read in one scope and cleared in another. -/
def claimsRelease (principal : Principal) (now : Int) (id : String) (assignee : Option String) :
    ApiM Response := do
  let issue ← store (Db.get id)
  checkHolder principal id assignee issue.assignee
  store (Db.call (.release id principal.name now))
  pure .ok

/-- Sweeping is an operator action. -/
def claimsSweep (principal : Principal) (now : Int) (order : List String) : ApiM Response :=
  if principal.kind ≠ .human then
    throw (.fail (forbidden "only a human principal may sweep claims"))
  else .swept <$> store (Db.call (.sweep now order))

/-- The call of the store a request stands for. Results about runs of the store carry over to
requests through it. -/
def Authenticated.op (r : Authenticated) : Op :=
  match r.request with
  | .projectsEnsure slug root idPrefix => .ensureProject slug root idPrefix r.now
  | .issuesCreate spec draws =>
      .create { spec with createdBy := some (spec.createdBy.getD r.principal.name) } draws r.now
  | .issuesUpdate id patch => .update id patch r.principal.name r.now
  | .issuesClose id reason evidence pr commit ack =>
      .close id reason (flatEvidence evidence pr commit ack) r.principal.name r.now
  | .issuesSupersede id replacement => .supersede id replacement r.principal.name r.now
  | .depsAdd child parent => .addDep child parent r.principal.name r.now
  | .depsRemove child parent => .removeDep child parent r.principal.name r.now
  | .labelsAdd id label => .addLabel id label r.principal.name r.now
  | .labelsRemove id label => .removeLabel id label r.principal.name r.now
  | .claimsClaim id assignee ttlSeconds =>
      .claim ⟨id, holder r.principal assignee, r.principal.kind, ttlSeconds⟩ r.now
  | .claimsTouch id assignee => .touch id (holder r.principal assignee) r.now
  | .claimsRelease id _ => .release id r.principal.name r.now
  | .claimsSweep order => .sweep r.now order

/-- The handler of a request. One handler for each route, under the names of the source. -/
def handle (r : Authenticated) : ApiM Response :=
  match r.request with
  | .projectsEnsure slug root idPrefix => projectsEnsure r.now slug root idPrefix
  | .issuesCreate spec draws => issuesCreate cfg r.principal r.now spec draws
  | .issuesUpdate id patch => issuesUpdate r.principal r.now id patch
  | .issuesClose id reason evidence pr commit ack =>
      issuesClose r.principal r.now id reason evidence pr commit ack
  | .issuesSupersede id replacement => issuesSupersede r.principal r.now id replacement
  | .depsAdd child parent => depsAdd r.principal r.now child parent
  | .depsRemove child parent => depsRemove r.principal r.now child parent
  | .labelsAdd id label => labelsAdd r.principal r.now id label
  | .labelsRemove id label => labelsRemove r.principal r.now id label
  | .claimsClaim id assignee ttlSeconds =>
      claimsClaim cfg r.principal r.now id assignee ttlSeconds
  | .claimsTouch id assignee => claimsTouch r.principal r.now id assignee
  | .claimsRelease id assignee => claimsRelease r.principal r.now id assignee
  | .claimsSweep order => claimsSweep r.principal r.now order

/-- Handle one request with no other around. -/
def serve (r : Authenticated) (s : Locked Db.Tables) : Outcome ApiError Response × Locked
    Db.Tables :=
  Prog.runE (Db.Scope.exec cfg) (handle cfg r) s

/-- The store after one request. -/
def step (r : Authenticated) (s : Locked Db.Tables) : Locked Db.Tables := (serve cfg r s).2

/-- The store after a sequence of requests. -/
def run (requests : List Authenticated) (s : Locked Db.Tables) : Locked Db.Tables :=
  Machine.run (step cfg) requests s

end Handlers

/-! ### A request does what its call does, or nothing -/

section Step

variable {cfg : Db.Config}

/-- Renaming the errors of a call does not matter to the store. -/
theorem store_state {α : Type} (m : DbM α) (s : Locked Db.Tables) :
    (Prog.runE (Db.Scope.exec cfg) (store m) s).2 = (Db.runM cfg m s).2 := by
  change (Prog.run (Db.Scope.exec cfg) (Except.mapError (Fault.map ApiError.db) <$> m.run) s).2 = _
  rw [map_eq_pure_bind, Prog.run_bind]
  rfl

theorem map_state {α β : Type} (g : α → β) (m : ApiM α) (s : Locked Db.Tables) :
    (Prog.runE (Db.Scope.exec cfg) (g <$> m) s).2 = (Prog.runE (Db.Scope.exec cfg) m s).2 := by
  rw [map_eq_pure_bind]
  exact Prog.runE_pure_state _ m s

theorem unit_state {α : Type} (a : α) (m : ApiM Unit) (s : Locked Db.Tables) :
    (Prog.runE (Db.Scope.exec cfg) (do m; pure a) s).2 =
      (Prog.runE (Db.Scope.exec cfg) m s).2 := Prog.runE_pure_state (fun _ => a) m s

theorem checkHolder_cases (principal : Principal) (id : String) (assignee current : Option String) :
    checkHolder principal id assignee current = pure () ∨
      ∃ e, checkHolder principal id assignee current = throw e := by
  cases current with
  | none => exact Or.inl rfl
  | some current =>
      by_cases howns : owns principal assignee current = true
      · exact Or.inl (if_pos howns)
      · exact Or.inr ⟨_, if_neg howns⟩

/-- A request leaves the store as its call does; a release of a claim that is somebody
else's, a release of nothing and a sweep by an agent leave it as it was. -/
theorem step_state (r : Authenticated) (s : Locked Db.Tables) :
    step cfg r s = Db.step cfg r.op s ∨ step cfg r s = s := by
  obtain ⟨principal, now, request⟩ := r
  -- The handlers of release and sweep refuse some requests before any scope that writes; all others
  -- are the method of the store itself.
  cases request with
  | claimsRelease id assignee =>
      have hget : (Prog.runE (Db.Scope.exec cfg) (store (Db.get id)) s).2 = s :=
        (store_state _ s).trans (Locked.query_same Outcome.ofOption_ne_abort)
      change (Prog.runE _ (store (Db.get id) >>= _) s).2 = _ ∨
        (Prog.runE _ (store (Db.get id) >>= _) s).2 = s
      rw [Prog.runE_bind]
      cases hr : Prog.runE (Db.Scope.exec cfg) (store (Db.get id)) s with
      | mk r s' =>
          rw [hr] at hget
          obtain rfl : s' = s := hget
          cases r with
          | error e => exact Or.inr rfl
          | ok issue =>
              change (Prog.runE _ (checkHolder principal id assignee issue.assignee >>= _) s').2 = _
                ∨ (Prog.runE _ (checkHolder principal id assignee issue.assignee >>= _) s').2 = s'
              rcases checkHolder_cases principal id assignee issue.assignee with
                hcheck | ⟨e, hcheck⟩
              · rw [hcheck]
                exact Or.inl ((unit_state _ _ s').trans ((store_state _ s').trans
                  (Db.runM_unit_state cfg _ _ s').symm))
              · rw [hcheck]
                exact Or.inr rfl
  | claimsSweep order =>
      by_cases hkind : principal.kind ≠ .human
      · have hhandle : handle cfg ⟨principal, now, .claimsSweep order⟩ =
            throw (.fail (forbidden "only a human principal may sweep claims")) := if_pos hkind
        rw [step, serve, hhandle]
        exact Or.inr rfl
      · have hhandle : handle cfg ⟨principal, now, .claimsSweep order⟩ =
            .swept <$> store (Db.call (.sweep now order)) := if_neg hkind
        rw [step, serve, hhandle]
        exact Or.inl ((map_state _ _ s).trans ((store_state _ s).trans
          (Db.runM_map_state cfg _ _ s).symm))
  | issuesCreate | issuesUpdate | issuesClose | claimsClaim | claimsTouch =>
      exact Or.inl ((map_state _ _ s).trans ((store_state _ s).trans
        (Db.runM_map_state cfg _ _ s).symm))
  | projectsEnsure | issuesSupersede | depsAdd | depsRemove | labelsAdd | labelsRemove =>
      exact Or.inl ((unit_state _ _ s).trans ((store_state _ s).trans
        (Db.runM_unit_state cfg _ _ s).symm))

end Step

end Api

end Marbles
