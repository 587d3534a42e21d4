import McpFramework.Auth.Binding
import McpFramework.Auth.Config
import McpFramework.Auth.OpaqueGrants

/-!
# Auth — AuthLayer

The middleware around the router, for every provider (`wrap_auth_middleware` in
`transport/http.rs`, the middleware itself in `auth/middleware.rs`): the session
a credential is looked up, stored or bound under is the one the handler is given,
and no client chooses it by naming the framework's own header.
-/

namespace McpFramework

open Lib
open Lib.BTreeMap (get remove containsKey)

/-! ## Responses -/

/-- A 401. -/
structure Unauthorized where
  wwwAuthenticate : String
  body : String
deriving DecidableEq

def BASIC_REALM : String := "Basic realm=\"MCP\""
def BASIC_PREFIX : String := "Basic "
def BASIC_PREFIX_LOWER : String := "basic "

def unauthorizedResponse (resourceMetadataUrl : String) : Unauthorized where
  wwwAuthenticate := "Bearer resource_metadata=\"" ++ resourceMetadataUrl ++ "\""
  body := "Unauthorized: Bearer token required"

def basicUnauthorizedResponse : Unauthorized where
  wwwAuthenticate := BASIC_REALM
  body := "Unauthorized: Basic credentials required"

/-- A refusal, or the request that goes on. `credentialSession` is the session the
middleware worked under, if it had one. -/
inductive Decision where
  | refused (response : Unauthorized)
  | next (parts : Parts) (credentialSession : Option String)

/-! ## Middleware -/

/-- What the layers share. -/
structure AuthState where
  store : TokenStore
  opaques : OpaqueGrants
  bindings : SessionBindings

/-- Beyond what a bearer needs in Passthrough mode: the issuer's keys alone, and
`STANDARD.decode` with `String::from_utf8`. -/
structure AuthSurroundings extends Surroundings where
  validateBearerViaJwks : String → Option (Option Nat)
  decodeBasic : String → Option String

structure Handled where
  state : AuthState
  decision : Decision

/-- `str::split_once`. -/
def splitOnce (s : String) (ch : Char) : Option (String × String) :=
  match s.toList.span (· ≠ ch) with
  | (before, _ :: after) => some (String.ofList before, String.ofList after)
  | (_, []) => none

section Middleware

variable (c : Codec) (env : AuthSurroundings) (s : AuthState) (parts : Parts)

/-- The user and the password of a request. -/
def basicCredentials : Option (String × String) :=
  match parts.request.authorization.bind HeaderValue.toStr with
  | some header =>
    match (stripPrefix? header BASIC_PREFIX).or (stripPrefix? header BASIC_PREFIX_LOWER) with
    | some encoded => (env.decodeBasic encoded).bind (splitOnce · ':')
    | none => none
  | none => none

/-- `basic_auth_middleware`. -/
def basicAuth (config : BasicAuthConfig) : Handled :=
  match basicCredentials env parts with
  | none => ⟨s, .refused basicUnauthorizedResponse⟩
  | some (username, password) =>
    if username ≠ config.username ∨ password ≠ config.password then
      ⟨s, .refused basicUnauthorizedResponse⟩
    else
      let (parts, sessionId) := parts.resolveOrDerive c password
      ⟨{ s with store := s.store.storeToken env.clock sessionId ⟨password, none, none⟩ },
        .next { parts with bearerToken := some password } (some sessionId)⟩

variable (unauthorized : Unauthorized) (token : String)

/-- `authorize_as_resource_server`. A claim's write-through is done at once. -/
def resourceServerAuth : Handled :=
  match env.validateBearerViaJwks token with
  | none => ⟨s, .refused unauthorized⟩
  | some expiresAt =>
    -- Whether the protocol supplied the id, readable or not.
    let protocolSupplied := containsKey parts.headers MCP_SESSION_ID_HEADER
    let (parts, sessionId) := parts.resolveOrDerive c token
    let passed := Decision.next
      { parts with bearerToken := some token, requestToken := some ⟨token, none, expiresAt⟩ }
      (some sessionId)
    if protocolSupplied then
      let identity := credentialSessionKey c token
      let claimed := s.bindings.claim env.clock.now env.clock.now sessionId identity
      let bindings :=
        if claimed.spawned then claimed.store.writeThrough sessionId identity else claimed.store
      ⟨{ s with bindings := bindings },
        if claimed.accepted then passed else .refused unauthorized⟩
    else ⟨s, passed⟩

def opaqueAuth : Handled :=
  match s.opaques.resolveAccess env.clock token with
  | (opaques, none) => ⟨{ s with opaques := opaques }, .refused unauthorized⟩
  | (opaques, some resolvedSession) =>
    let g := s.store.getToken env.clock env.endpoint resolvedSession
    match g.token with
    | some realToken =>
      -- The grant is the identity, not the protocol session.
      ⟨{ s with store := g.store, opaques := opaques },
        .next { parts.setFrameworkSessionId resolvedSession with
          bearerToken := some realToken.accessToken } (some resolvedSession)⟩
    | none =>
      ⟨{ s with store := g.store, opaques := opaques.removeForSession resolvedSession },
        .refused unauthorized⟩

def passthroughAuth : Handled :=
  let r := bearerAuthMiddleware c env.toSurroundings s.store parts.request
  match r.outcome with
  | .unauthorized => ⟨{ s with store := r.store }, .refused unauthorized⟩
  | .next sessionId bearer =>
    ⟨{ s with store := r.store },
      .next { (parts.resolveOrDerive c token).1 with bearerToken := some bearer }
        (some sessionId)⟩

/-- `bearer_auth_middleware`, in each of its modes. -/
def bearerAuth (tokenMode : TokenMode) : Handled :=
  match bearerToken parts.request with
  | none => ⟨s, .refused unauthorized⟩
  | some token =>
    match tokenMode with
    | .resourceServer => resourceServerAuth c env s parts unauthorized token
    | .opaqueTokens => opaqueAuth env s parts unauthorized token
    | .passthrough => passthroughAuth c env s parts unauthorized token

end Middleware

/-- The layer that strips the framework's header is added last and runs first. -/
def wrapAuthMiddleware (c : Codec) (auth : AuthProvider) (publicUrl : String)
    (env : AuthSurroundings) (s : AuthState) (headers : HeaderMap) : Handled :=
  let parts := (Parts.ofHeaders headers).stripFrameworkSessionHeader
  match auth with
  | .none => ⟨s, .next parts none⟩
  | .basic config => basicAuth c env s parts config
  | .oauth config =>
    bearerAuth c env s parts
      (unauthorizedResponse (publicUrl ++ "/.well-known/oauth-protected-resource/mcp"))
      config.tokenMode

/-! ## Frames -/

section Frames

variable {c : Codec} {env : Surroundings} {st : TokenStore} {sight : Sighting}
  {sessionId token k : String} {expiry : Option Nat}

end Frames

/-! ## Agreement -/

/-- The middleware and the handler mean the same session: what was stored or bound
is the handler's, and `resolve_token` looks there. -/
structure Agree (env : AuthSurroundings) (s s' : AuthState) (parts : Parts)
    (credentialSession : Option String) : Prop where
  session : ∀ sessionId, credentialSession = some sessionId → parts.sessionId = sessionId
  stored : ∀ k, k ≠ parts.sessionId →
    s'.store.lookup env.clock k = s.store.lookup env.clock k
  bound : ∀ k, k ≠ parts.sessionId → ∀ b,
    s'.bindings.bindings.get? k = some b → s.bindings.bindings.get? k = some b
  resolved : parts.requestToken = none → ∀ st,
    resolveToken env.toSurroundings st (some parts) =
      st.getToken env.clock env.endpoint parts.sessionId

section Agreement

variable {c : Codec} {env : AuthSurroundings} {s : AuthState} {parts passed : Parts}
  {unauthorized : Unauthorized} {token : String} {session : Option String}

/-- Extensions are no headers. -/
theorem Parts.sessionId_congr {parts parts' : Parts} (h : parts.headers = parts'.headers) :
    parts.sessionId = parts'.sessionId := by
  simp only [Parts.sessionId, h]

end Agreement

section Spoofed

end Spoofed

end McpFramework
