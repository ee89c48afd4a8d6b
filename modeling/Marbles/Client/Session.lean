import Marbles.Client.Call
import Marbles.Lib.Json

/-!
# The session of a client

`oidc.rs`: a login puts a profile with a refresh token into `client.toml`, and every command that
needs a bearer reads it, refreshes it when it is about to expire, and puts back what the issuer has
answered. Commands run as processes of their own. What keeps them apart is a kernel lock on a
file beside the profile; what keeps the profile whole is that it is written to a temporary file
and renamed. A process may die anywhere, any system call may fail, and the issuer may answer
what it likes.

Each statement that the kernel or the network has a say in is an event of its own, with the
outcome as its data. A process that dies loses its lock and leaves its temporary file. The profile
file is either whole or torn here: what `rename` puts in place is a file that was written and
closed before.
-/

namespace Marbles.Oidc

open Http (trimEndMatches isSuccess)

/-- The issuer when the profile and the environment name none. -/
def defaultIssuer : String := "https://sso.fpl.dev"

/-- The client that is registered there. -/
def defaultClientId : String := "marbles"

/-- Where a login in the browser comes back to. -/
def defaultRedirectUri : String := "http://localhost:17878/callback"

/-- The profile of a client, as `client.toml` keeps it. What the environment gives is a
configuration too, but not one that is saved. -/
structure ClientConfig where
  url : String
  issuer : String
  clientId : String
  clientSecret : String
  redirectUri : String
  refreshToken : String
  idToken : String
  expiresAt : Int
  /-- Not part of the saved profile: what was read from there is put back there. -/
  persist : Bool
  deriving DecidableEq, Inhabited

/-- `trim().is_empty()`. -/
def isBlank (s : String) : Bool := s.toList.all isWhitespace

/-! ### What the issuer answers -/

/-- The fields of a token response that are used; others are ignored. -/
structure TokenResponse where
  refreshToken : Option String
  idToken : Option String
  expiresIn : Int
  deriving DecidableEq

/-- The body of a refusal, as far as it is read. -/
structure OAuthError where
  error : Option String
  errorDescription : Option String

/-- A string that may be missing or `null`. -/
def optString : Option Json.Value → Option (Option String)
  | none | some .null => some none
  | some (.str s) => some (some s)
  | some _ => none

/-- A lifetime, which is five minutes when it is missing. -/
def optLifetime : Option Json.Value → Option Int
  | none => some 300
  | some v => v.asI64

/-- A struct is read from an object, or from an array of its fields. Both forms are what serde
derives for a struct, and an issuer might send either. -/
def TokenResponse.parse : Json.Value → Option TokenResponse
  | .obj fields => do
      return ⟨← optString (Json.Object.get "refresh_token" fields),
        ← optString (Json.Object.get "id_token" fields),
        ← optLifetime (Json.Object.get "expires_in" fields)⟩
  | .arr xs => do
      guard (xs.length ≤ 3)
      return ⟨← optString xs[0]?, ← optString xs[1]?, ← optLifetime xs[2]?⟩
  | _ => none

/-- Like `TokenResponse.parse`: an object, or the fields in their order. -/
def OAuthError.parse : Json.Value → Option OAuthError
  | .obj fields => do
      return ⟨← optString (Json.Object.get "error" fields),
        ← optString (Json.Object.get "error_description" fields)⟩
  | .arr xs => do
      guard (xs.length ≤ 2)
      return ⟨← optString xs[0]?, ← optString xs[1]?⟩
  | _ => none

/-- `checked_add`. -/
def checkedAdd (a b : Int) : Option Int := if IsI64 (a + b) then some (a + b) else none

/-- When the tokens of a login expire, if they can be used at all. A lifetime of nothing is refused.
-/
def TokenResponse.expiration (tokens : TokenResponse) (now : Int) : Except String Int :=
  match tokens.idToken with
  | none => .error "issuer returned no id_token"
  | some idToken =>
      if isBlank idToken ∨ tokens.expiresIn ≤ 0 then
        .error "issuer returned an empty token or invalid lifetime"
      else (checkedAdd now tokens.expiresIn).elim
        (.error "issuer returned an invalid token lifetime") .ok

/-- Only the kind of the error is told, nothing of the body. -/
def tokenError (operation : String) (status : Nat) (body : Option Json.Value) : String :=
  let hint := match (body.bind (·.get "error")).bind (·.asStr) with
    | some "invalid_grant" => "session expired or revoked; sign in again"
    | some "invalid_client" | some "unauthorized_client" =>
        "client registration is invalid; check the configured client"
    | _ => "provider rejected the request; retry or check the issuer"
  s!"OIDC {operation} HTTP {status}: {hint}"

/-- A refresh that was refused; only `invalid_grant` asks for another login. Every other refusal may
pass, so the user is not sent to the login page for it. -/
def refreshError (status : Nat) (body : Option Json.Value) : String :=
  let parsed := body.bind OAuthError.parse
  let description := (parsed.bind (·.errorDescription)).getD ""
  if status = 400 ∧ parsed.bind (·.error) = some "invalid_grant" then
    let detail := if description = "" then "" else s!": {description}"
    s!"re-login required: OIDC refresh was rejected (invalid_grant{detail}); " ++
      "run `marbles login --client-secret <secret>` to mint new tokens"
  else tokenError "refresh" (if 100 ≤ status ∧ status < 1000 then status else 500) body

/-- The bearer is the ID token, so a refresh without one does not help. -/
def omittedIdToken : String :=
  "re-login required: OIDC refresh response omitted id_token; " ++
    "run `marbles login --client-secret <secret>`"

/-- A refresh token that is missing or empty leaves the one that was used. The issuer need not
rotate the token, and then the old one stays good. -/
def applyRefresh (cfg : ClientConfig) (tokens : TokenResponse) (now : Int) :
    Except String ClientConfig :=
  match tokens.idToken with
  | none => .error omittedIdToken
  | some idToken =>
      if isBlank idToken then .error omittedIdToken
      else match (checkedAdd now tokens.expiresIn).filter fun _ => 0 < tokens.expiresIn with
        | none => .error ("OIDC refresh response had an invalid lifetime; " ++
            "retry the command or sign in again")
        | some expiresAt => .ok { cfg with
            refreshToken := (tokens.refreshToken.filter (· ≠ "")).getD cfg.refreshToken
            idToken := idToken
            expiresAt := expiresAt }

/-- What comes back from the issuer: nothing, or a status and a body, if that is JSON. -/
inductive Reply where
  | failed (timeout : Bool) (error : String)
  | broken (error : String)
  | answer (status : Nat) (body : Option Json.Value)

/-- What a refresh makes of it. The kind of the failure decides the text, which is all that a caller
is shown. -/
def refreshed (cfg : ClientConfig) (timeoutMs : Nat) (now : Int) :
    Reply → Except String ClientConfig
  | .failed true _ => .error (s!"OIDC refresh timed out after {timeoutMs}ms; " ++
      "the tracker is not usable until the IdP answers or you re-login")
  | .failed false error => .error s!"refreshing OIDC token: {error}"
  | .broken error => .error error
  | .answer status body =>
      if isSuccess status then
        match body.bind TokenResponse.parse with
        | none => .error "invalid OIDC refresh response"
        | some tokens => applyRefresh cfg tokens now
      else .error (refreshError status body)

/-- The arguments of a login. -/
structure LoginArgs where
  url : String
  issuer : Option String
  clientId : Option String
  clientSecret : String
  redirectUri : Option String

/-- What a login makes of the answer to its code. A login has no token to fall back on, so here a
missing one is an error. -/
def exchanged (args : LoginArgs) (now : Int) : Reply → Except String ClientConfig
  | .failed _ error => .error s!"exchanging OIDC code: {error}"
  | .broken error => .error error
  | .answer status body =>
      if isSuccess status then
        match body.bind TokenResponse.parse with
        | none => .error "invalid OIDC token response"
        | some tokens => do
            let expiresAt ← tokens.expiration now
            match tokens.refreshToken.filter (· ≠ "") with
            | none =>
                .error "issuer did not grant offline access; sign in with offline_access"
            | some refreshToken =>
                match tokens.idToken with
                | none => .error "OIDC login response omitted id_token"
                | some idToken => .ok {
                    url := trimEndMatches '/' args.url
                    issuer := trimEndMatches '/' (args.issuer.getD defaultIssuer)
                    clientId := args.clientId.getD defaultClientId
                    clientSecret := args.clientSecret
                    redirectUri := args.redirectUri.getD defaultRedirectUri
                    refreshToken := refreshToken
                    idToken := idToken
                    expiresAt := expiresAt
                    persist := true }
      else .error (tokenError "token exchange" status body)

/-! ### The environment of a command -/

/-- A variable that must be there when the refresh token is. -/
def required (env : String → Option String) (name : String) : Except String String :=
  match env name with
  | none => .error
      s!"{name} is required with MARBLES_OIDC_REFRESH_TOKEN: environment variable not found"
  | some value => if isBlank value then .error s!"{name} must not be empty" else .ok value

/-- Credentials for automation, which are never saved. The environment goes before the file, so
automation is never caught in the sign-in of a user. -/
def envConfig (env : String → Option String) : Except String (Option ClientConfig) :=
  match env "MARBLES_OIDC_REFRESH_TOKEN" with
  | none => .ok none
  | some refreshToken =>
      if isBlank refreshToken then .ok none
      else do
        let clientId ← required env "MARBLES_OIDC_CLIENT_ID"
        let clientSecret ← required env "MARBLES_OIDC_CLIENT_SECRET"
        return some {
          url := (env "MARBLES_URL").getD "https://marbles.fpl.dev"
          issuer := (env "MARBLES_OIDC_ISSUER").getD defaultIssuer
          clientId := clientId
          clientSecret := clientSecret
          redirectUri := defaultRedirectUri
          refreshToken := refreshToken
          idToken := ""
          expiresAt := 0
          persist := false }

/-! ### Processes -/

/-- What is in a file: a profile, or something that does not parse as one. -/
inductive Contents where
  | whole (cfg : ClientConfig)
  | torn
  deriving DecidableEq

/-- What `toml::from_str` makes of it. -/
def Contents.parse : Contents → Option ClientConfig
  | .whole cfg => some { cfg with persist := true }
  | .torn => none

/-- What a process wants the lock for. -/
inductive Job where
  | refresh (cfg : ClientConfig)
  | login (cfg : ClientConfig)
  deriving DecidableEq

/-- The statements of `save_at`. The process can fail or die between any two of them. -/
inductive Stage where
  | makingDir
  | naming
  | creating (temp : String)
  | writing (temp : String)
  | syncing (temp : String)
  | installing (temp : String)
  | settling (temp : String)
  deriving DecidableEq

/-- The next statement of a process. The boundaries are the system calls and the requests, since
that is where others can get in between. -/
inductive Phase where
  | idle
  /-- At `credential_lock`. -/
  | waiting (job : Job)
  /-- Before the saved profile is read again. -/
  | locked (cfg : ClientConfig)
  /-- Before the look at the expiry. -/
  | deciding (cfg : ClientConfig)
  /-- The refresh token has been sent. -/
  | requesting (cfg : ClientConfig)
  | saving (cfg : ClientConfig) (stage : Stage)
  /-- The bearer is the id token of the profile. -/
  | returned (result : Except String ClientConfig)
  deriving DecidableEq

/-- Where a process is when it has the lock. -/
def Job.entered : Job → Phase
  | .refresh cfg => .locked cfg
  | .login cfg => .saving cfg .makingDir

/-- The files, the lock, and where each process is. Processes share nothing else: each of them has
its configuration in memory. -/
structure World where
  file : Option Contents
  temps : String → Option Contents
  /-- The process that holds the kernel lock. -/
  holder : Option Nat
  phase : Nat → Phase

/-- What the system makes of the next call of a process. -/
structure Os where
  now : Int := 0
  error : Option String := none
  /-- Where a name is drawn. -/
  random : String := ""
  /-- Whether a temporary file that is of no use any more can be removed. -/
  removes : Bool := true

namespace World

/-- The process goes on; the file and the lock stay as they are. -/
def moves (w : World) (i : Nat) (phase : Phase) : World :=
  { w with phase := Function.update w.phase i phase }

@[simp] theorem moves_self (w : World) (i : Nat) (phase : Phase) :
    (w.moves i phase).phase i = phase :=
  Function.update_self ..

@[simp] theorem moves_of_ne (w : World) {i j : Nat} (hji : j ≠ i) (phase : Phase) :
    (w.moves i phase).phase j = w.phase j :=
  Function.update_of_ne hji ..

/-- The lock is closed with the file it is on, when a function returns or a process dies. -/
def unlock (w : World) (i : Nat) : World :=
  { w with holder := w.holder.filter (· ≠ i) }

/-- The function returns, and its lock goes with it. -/
def returns (w : World) (i : Nat) (result : Except String ClientConfig) : World :=
  (w.unlock i).moves i (.returned result)

/-- `save_at` fails once it has a name: the temporary file is removed. -/
def abandons (w : World) (i : Nat) (temp : String) (os : Os) (message : String) : World :=
  { w with temps := if os.removes then Function.update w.temps temp none else w.temps }.returns i
    (.error message)

/-- The next statement of `save_at`. Once there is a temporary file, an error takes it away and
gives up the lock. -/
def save (dir : String) (w : World) (i : Nat) (cfg : ClientConfig) (os : Os) : Stage → World
  | .makingDir => match os.error with
      | some e => w.returns i (.error s!"creating {dir}: {e}")
      | none => w.moves i (.saving cfg .naming)
  | .naming => match os.error with
      | some e => w.returns i (.error s!"generating OAuth nonce: {e}")
      | none => w.moves i (.saving cfg (.creating os.random))
  | .creating temp =>
      match os.error.or ((w.temps temp).map fun _ => "File exists (os error 17)") with
      | some e => w.abandons i temp os s!"creating credential file: {e}"
      | none =>
          { w with temps := Function.update w.temps temp (some .torn) }.moves i
            (.saving cfg (.writing temp))
  | .writing temp => match os.error with
      | some e => w.abandons i temp os s!"writing credentials: {e}"
      | none =>
          { w with temps := Function.update w.temps temp (some (.whole cfg)) }.moves i
            (.saving cfg (.syncing temp))
  | .syncing temp => match os.error with
      | some e => w.abandons i temp os s!"syncing credentials: {e}"
      | none => w.moves i (.saving cfg (.installing temp))
  | .installing temp => match os.error with
      | some e => w.abandons i temp os s!"installing credentials: {e}"
      | none =>
          { w with
            file := w.temps temp
            temps := Function.update w.temps temp none }.moves i (.saving cfg (.settling temp))
  | .settling temp => match os.error with
      | some e => w.abandons i temp os s!"syncing credential directory: {e}"
      | none => w.returns i (.ok cfg)

/-- `credential_lock`: the lock is tried again and again, until that fails or takes too long. -/
def lock (w : World) (i : Nat) (os : Os) (job : Job) : World :=
  match os.error with
  | some e => w.returns i (.error e)
  | none =>
      if w.holder = none then
        { w with holder := some i }.moves i job.entered
      else w

/-- Under the lock the saved profile is what counts, unless it is another one. Another process may
have refreshed in the meantime, and then its token is the one that is good. -/
def reread (w : World) (i : Nat) (os : Os) (cfg : ClientConfig) : World :=
  match os.error, w.file with
  | some e, _ => w.returns i (.error s!"reading saved credentials: {e}")
  | none, none => w.moves i (.deciding cfg)
  | none, some contents => match contents.parse with
      | none => w.returns i (.error "invalid saved credentials; sign in again")
      | some latest =>
          if latest.url ≠ cfg.url ∨ latest.issuer ≠ cfg.issuer ∨
              latest.clientId ≠ cfg.clientId then
            w.returns i (.error "saved Marbles profile changed during refresh; retry the command")
          else w.moves i (.deciding latest)

/-- A token that is good for another minute is returned, and else the refresh token is sent. -/
def decide (w : World) (i : Nat) (os : Os) (cfg : ClientConfig) : World :=
  if cfg.idToken ≠ "" ∧ os.now + 60 < cfg.expiresAt then w.returns i (.ok cfg)
  else match os.error with
    | some e => w.returns i (.error s!"building OIDC HTTP client: {e}")
    | none => w.moves i (.requesting cfg)

/-- A process executes its next statement, if that does not wait for the issuer. -/
def advance (dir : String) (w : World) (i : Nat) (os : Os) : World :=
  match w.phase i with
  | .waiting job => w.lock i os job
  | .locked cfg => w.reread i os cfg
  | .deciding cfg => w.decide i os cfg
  | .saving cfg stage => w.save dir i cfg os stage
  | .idle | .requesting _ | .returned _ => w

/-- The issuer's answer to a refresh. -/
def answer (timeoutMs : Nat) (w : World) (i : Nat) (now : Int) (reply : Reply) : World :=
  match w.phase i with
  | .requesting cfg => match refreshed cfg timeoutMs now reply with
      | .error e => w.returns i (.error e)
      | .ok cfg => if cfg.persist then w.moves i (.saving cfg .makingDir) else w.returns i (.ok cfg)
  | _ => w

/-- A command that needs a bearer: `load`, and then `valid_token`. Where there is nothing to load
there is nothing to do, and the process stays where it is. -/
def call (path : String) (w : World) (i : Nat) (env : String → Option String) (os : Os) : World :=
  match w.phase i with
  | .idle => match envConfig env with
      | .error e => w.moves i (.returned (.error e))
      | .ok (some cfg) => w.moves i (.deciding cfg)
      | .ok none => match os.error, w.file with
          | some e, _ => w.moves i (.returned (.error s!"reading {path}: {e}"))
          | none, none => w
          | none, some contents => match contents.parse with
              | none => w.moves i (.returned (.error
                  s!"invalid credential configuration in {path}; sign in again"))
              | some cfg => w.moves i (.waiting (.refresh cfg))
  | _ => w

/-- A login whose code has been answered. -/
def login (w : World) (i : Nat) (args : LoginArgs) (now : Int) (reply : Reply) : World :=
  match w.phase i with
  | .idle => match exchanged args now reply with
      | .error e => w.moves i (.returned (.error e))
      | .ok cfg => w.moves i (.waiting (.login cfg))
  | _ => w

/-- A process is gone, wherever it was. -/
def exit (w : World) (i : Nat) : World := (w.unlock i).moves i .idle

end World

/-- What can happen. -/
inductive Event where
  | call (i : Nat) (env : String → Option String) (os : Os)
  | login (i : Nat) (args : LoginArgs) (now : Int) (reply : Reply)
  | advance (i : Nat) (os : Os)
  | answer (i : Nat) (now : Int) (reply : Reply)
  | exit (i : Nat)

/-- Where the profile is, and how long the issuer is waited for. -/
structure Setting where
  dir : String
  path : String
  timeoutMs : Nat

/-- One event. The processes only meet in the profile, in the files beside it and in the lock. -/
def step (env : Setting) : Event → World → World
  | .call i vars os, w => w.call env.path i vars os
  | .login i args now reply, w => w.login i args now reply
  | .advance i os, w => w.advance env.dir i os
  | .answer i now reply, w => w.answer env.timeoutMs i now reply
  | .exit i, w => w.exit i

/-- No process has started. -/
def World.start (file : Option Contents) : World := ⟨file, fun _ => none, none, fun _ => .idle⟩

end Marbles.Oidc
