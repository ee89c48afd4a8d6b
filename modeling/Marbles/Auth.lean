import Marbles.Holds
import Marbles.Db.Action

/-!
# Who a token stands for

`Auth::oidc`: a bearer token is verified against the keys of the issuer, and its claims
become a principal. The verification itself is the library `jsonwebtoken`, a parameter
here; what the cache and the network answer when the keys are asked for is one too.

The name of a principal is the client its token was issued to, and the subject only when
there is no client. User tokens carry the client they were issued through (`azp`), so two
users of one application are one name. `apart_iff` says for which claims they are not.

`Spares` and `Apart` say what it means for two credentials to be two users: not that the names
differ as texts only, but that neither reaches what the other holds. The names are what decides
it, by the results about requests against a hold, so all that is left here is to see which claims
give which names.
-/

namespace Marbles

/-- The parts of a JSON web key that are consulted. The other members of a key are read over, as
serde does. -/
structure Jwk where
  kid : Option String
  kty : String
  n : Option String := none
  e : Option String := none
  x : Option String := none
  y : Option String := none
  alg : Option String := none

/-- The settings of the issuer. Without one no token of it is accepted. -/
structure AuthConfig where
  oidcIssuer : Option String := none
  oidcAudience : Option String := none
  jwksUri : Option String := none
  agentClientIds : List String := []
  companyClaim : Option String := none

/-- The claims of a verified token; `extra` are those without a field of their own. -/
structure Claims where
  sub : String
  clientId : Option String := none
  azp : Option String := none
  extra : Json.Object := []

/-- A principal and the tenant its credential is scoped to. -/
structure TenantPrincipal extends Principal where
  companyId : Option String
  deriving DecidableEq

namespace Auth

/-- What a token is validated against. -/
structure Validation (Algorithm : Type) where
  algorithm : Algorithm
  issuer : String
  audience : Option String

/-- The library that reads and verifies tokens. It is a crate outside of the repository, so only its
types and functions are named here. -/
structure Jsonwebtoken where
  Algorithm : Type
  DecodingKey : Type
  rs256 : Algorithm
  parseAlgorithm : String → Option Algorithm
  fromRsaComponents : String → String → Option DecodingKey
  fromEcComponents : String → String → Option DecodingKey
  /-- The `kid` in the header of a token, if it has a header. -/
  decodeHeader : String → Option (Option String)
  /-- The claims of a token that the key and the settings verify. -/
  decode : String → DecodingKey → Validation Algorithm → Option Claims

section Oidc

variable (lib : Jsonwebtoken)

/-- A key of another type cannot verify anything. -/
def decodingFromJwk (key : Jwk) : Option lib.DecodingKey :=
  match key.kty with
  | "RSA" => do lib.fromRsaComponents (← key.n) (← key.e)
  | "EC" => do lib.fromEcComponents (← key.x) (← key.y)
  | _ => none

/-- The claims of a token, when it verifies. `jwks` is what a request for the keys is
answered with, `jwks true` when it asks for a refresh: an unknown key id refreshes once. -/
def verify (config : AuthConfig) (jwks : Bool → Option (List Jwk)) (token : String) :
    Option Claims := do
  let issuer ← config.oidcIssuer
  let header ← lib.decodeHeader token
  let kid ← header
  let known ← jwks false
  let keys ← if known.any fun key => key.kid = some kid then some known else jwks true
  let key ← keys.find? fun key => key.kid = some kid
  let decoding ← decodingFromJwk lib key
  let algorithm := (lib.parseAlgorithm (key.alg.getD "RS256")).getD lib.rs256
  lib.decode token decoding ⟨algorithm, issuer, config.oidcAudience⟩

/-- A claim by its path, the parts of which are separated by dots. -/
def claimValue (claims : Json.Object) (path : String) : Option Json.Value :=
  match path.splitOn "." with
  | [] => none
  | first :: parts => do
      let value ← claims.get first
      parts.foldlM (fun value part => do (← value.asObject).get part) value

/-- The client a token was issued to. -/
def callerClient (claims : Claims) : Option String := claims.clientId.or claims.azp

/-- The principal that verified claims stand for. -/
def principal (config : AuthConfig) (claims : Claims) : TenantPrincipal where
  kind := if (callerClient claims).any fun id => config.agentClientIds.any (· = id) then .agent
    else .human
  name := (callerClient claims).getD claims.sub
  companyId := do (← claimValue claims.extra (← config.companyClaim)).asStr

/-- The principal of a token, if the issuer's keys verify it. -/
def oidc (config : AuthConfig) (jwks : Bool → Option (List Jwk)) (token : String) :
    Option TenantPrincipal := (verify lib config jwks token).map (principal config)

end Oidc

/-! ### Two users -/

/-- No request about claims that `p` makes changes an issue that `q` holds live. -/
def Spares (cfg : Db.Config) (p q : Principal) : Prop :=
  ∀ s, Db.Reachable cfg s → ∀ now request id row, request.isClaims = true →
    s.state.issue.find id = some row → heldAt row.assignee row.expiresAt now = true →
    row.assignee = some q.name →
    (Api.step cfg ⟨p, now, request⟩ s).state.issue.find id = some row

/-- Two principals with names of their own, neither of whom reaches the other's holds. -/
def Apart (cfg : Db.Config) (p q : Principal) : Prop :=
  p.name ≠ q.name ∧ Spares cfg p q ∧ Spares cfg q p

/-- A human spares everyone who goes by another name. -/
theorem spares_of_name_ne (cfg : Db.Config) {p q : Principal} (hkind : p.kind = .human)
    (hname : p.name ≠ q.name) : Spares cfg p q := by
  intro s _ now request id row hreq hrow hheld hholder
  refine Api.row_kept hreq hrow hheld hholder fun hacts => ?_
  exact hname (Api.actsFor_human hkind hacts)

theorem apart_iff_name_ne (cfg : Db.Config) {p q : Principal} (hp : p.kind = .human)
    (hq : q.kind = .human) : Apart cfg p q ↔ p.name ≠ q.name := by
  constructor
  · intro h
    exact h.1
  · intro h
    exact ⟨h, spares_of_name_ne cfg hp h, spares_of_name_ne cfg hq (Ne.symm h)⟩

/-- Claims of two subjects that are also two names: no client at all, two clients, or one
client that is not called like the subject of the other token. -/
def OwnNames (c d : Claims) : Prop :=
  match callerClient c, callerClient d with
  | none, none => True
  | some client, some client' => client ≠ client'
  | some client, none => client ≠ d.sub
  | none, some client => client ≠ c.sub

/-- Two humans with different subjects are two principals, and neither reaches what the other holds,
exactly when their claims give them names of their own. The client comes first in the name, so two
users of one application have one name between them. -/
theorem apart_iff {lib : Jsonwebtoken} {config : AuthConfig} {jwks jwks' : Bool → Option (List Jwk)}
    {token token' : String} {c d : Claims} {p q : TenantPrincipal}
    (hc : verify lib config jwks token = some c) (hd : verify lib config jwks' token' = some d)
    (hp : oidc lib config jwks token = some p) (hq : oidc lib config jwks' token' = some q)
    (hpkind : p.kind = .human) (hqkind : q.kind = .human) (hsub : c.sub ≠ d.sub) (cfg : Db.Config) :
    Apart cfg p.toPrincipal q.toPrincipal ↔ OwnNames c d := by
  rw [apart_iff_name_ne cfg hpkind hqkind]
  obtain rfl : principal config c = p := by
    rw [oidc, hc] at hp
    exact Option.some.inj hp
  obtain rfl : principal config d = q := by
    rw [oidc, hd] at hq
    exact Option.some.inj hq
  change (callerClient c).getD c.sub ≠ (callerClient d).getD d.sub ↔ _
  unfold OwnNames
  cases callerClient c with
  | none =>
      cases callerClient d with
      | none => exact iff_of_true hsub trivial
      | some client => exact ne_comm
  | some client =>
      cases callerClient d with
      | none => exact Iff.rfl
      | some client' => exact Iff.rfl

/-! ### Two users of one application -/

/-- A library that knows the claims of three tokens: two users of the same application,
and a user whose provider names no client. -/
def threeTokens : Jsonwebtoken where
  Algorithm := Unit
  DecodingKey := Unit
  rs256 := ()
  parseAlgorithm := fun _ => some ()
  fromRsaComponents := fun _ _ => some ()
  fromEcComponents := fun _ _ => some ()
  decodeHeader := fun _ => some (some "k")
  decode := fun token _ _ => match token with
    | "avery's" => some { sub := "avery", azp := some "web" }
    | "lee's" => some { sub := "lee", azp := some "web" }
    | "kim's" => some { sub := "kim" }
    | _ => none

/-- The issuer has one key, with and without a refresh. -/
def oneKey : Bool → Option (List Jwk) := fun _ =>
  some [{ kid := some "k", kty := "RSA", n := some "n", e := some "e" }]

/-- One client is an agent; everybody else is a human. -/
def issuerConfig : AuthConfig where
  oidcIssuer := some "https://issuer"
  agentClientIds := ["daemon"]

/-- Avery claims an issue at 5 with a token of the application. -/
def averyClaims : List Api.Authenticated :=
  [⟨⟨.human, "web"⟩, 0, .projectsEnsure "p" "/p" "p"⟩,
    ⟨⟨.human, "web"⟩, 0, .issuesCreate { id := some "x", project := some "p" } []⟩,
    ⟨⟨.human, "web"⟩, 5, .claimsClaim "x" none none⟩]

/-- Both users are the human called like the application, and one releases what the other
holds. -/
theorem users_of_one_client_collide :
    (verify threeTokens issuerConfig oneKey "avery's").map (·.sub) = some "avery" ∧
      (verify threeTokens issuerConfig oneKey "lee's").map (·.sub) = some "lee" ∧
      (oidc threeTokens issuerConfig oneKey "avery's").map (·.toPrincipal) = some ⟨.human, "web"⟩ ∧
      (oidc threeTokens issuerConfig oneKey "lee's").map (·.toPrincipal) = some ⟨.human, "web"⟩ ∧
      ((Api.run {} averyClaims (Db.opened "s")).state.issue.find "x").map Api.hold =
        some (some "web", some "human", some 604805) ∧
      ((Api.step {} ⟨⟨.human, "web"⟩, 10, .claimsRelease "x" none⟩
        (Api.run {} averyClaims (Db.opened "s"))).state.issue.find "x").map Api.hold =
          some (none, none, none) := by
  decide +kernel

/-- A user of the application and a user without a client are two principals. -/
theorem user_without_client_apart : Apart {} ⟨.human, "web"⟩ ⟨.human, "kim"⟩ := by
  have h := @apart_iff threeTokens issuerConfig oneKey oneKey "avery's" "kim's"
    { sub := "avery", azp := some "web" } { sub := "kim" } ⟨⟨.human, "web"⟩, none⟩
    ⟨⟨.human, "kim"⟩, none⟩ rfl rfl rfl rfl rfl rfl (by decide) {}
  exact h.mpr (by decide : "web" ≠ "kim")

end Auth

end Marbles
