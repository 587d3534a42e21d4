import McpFramework.Auth.Registration
import McpFramework.Lib.MultiMap
import Mathlib.Data.List.Infix

/-!
# Auth — TokenRequest

A token request on its way to the authorization server (`auth/proxy.rs`): the
body is parsed into a list of parameters, the server's credentials are put in,
and the list is sent on.

Every client id is replaced by the server's. The server's secret only goes in
where the client has sent none.
-/

namespace McpFramework.TokenRequest

open Lib MultiMap
open Lib.BTreeMap (get containsKey)
open Registration (OAuthError invalidRequest)

/-- Parameters in the order of the body, keys repeated or not. -/
abbrev Params := MultiMap String String

def OAUTH_MOUNT : String := "/oauth"
def OAUTH_CALLBACK_PATH : String := "/callback"

/-- `McpOAuthState`, as far as a token request reads it. -/
structure OAuthProxy where
  publicUrl : String
  keycloakClientId : String
  keycloakClientSecret : Option String
  tokenMode : TokenMode

def trimEndMatches (s : String) (ch : Char) : String :=
  String.ofList (s.toList.rdropWhile fun c => c == ch)

/-- The framework's own callback, the only `redirect_uri` the authorization
server sees. -/
def OAuthProxy.callbackUrl (state : OAuthProxy) : String :=
  trimEndMatches state.publicUrl '/' ++ OAUTH_MOUNT ++ OAUTH_CALLBACK_PATH

/-! ## Reading -/

/-- The third-party parsers: `form_urlencoded::parse`, `serde_json::from_str` and
`Value::to_string`. -/
structure Parsers where
  form : String → Params
  json : String → Option Json
  toJson : Json → String

/-- Form first, whatever the content type says. -/
def parseTokenParams (parsers : Parsers) (contentType body : String) :
    Except OAuthError Params :=
  let params := parsers.form body
  if containsKey params "grant_type" then .ok params
  else if "application/json".toList <:+: contentType.toList then
    match parsers.json body with
    | some json =>
      let object : JsonObject := json.asObject.getD []
      .ok (object.map fun e => (e.1, e.2.asStr.getD (parsers.toJson e.2)))
    | none => .error (invalidRequest "Invalid request body")
  else .ok params

/-- The parameters and the grant type. -/
def readTokenRequest (parsers : Parsers) (contentType body : String) :
    Except OAuthError (Params × String) :=
  (parseTokenParams parsers contentType body).map fun params =>
    (params, (get params "grant_type").getD "")

/-! ## The server's credentials -/

def isCodeGrant (params : Params) : Bool :=
  params.any fun e => e.1 == "grant_type" && e.2 == "authorization_code"

def injectKeycloakCredentials (state : OAuthProxy) (params : Params) : Params :=
  let params :=
    if isCodeGrant params then insert params "redirect_uri" state.callbackUrl else params
  let params := overwrite params "client_id" state.keycloakClientId
  match state.keycloakClientSecret with
  | some secret => orPush params "client_secret" secret
  | none => params

/-- What goes upstream for a token request; `none` where the handler answers on
its own. -/
def tokenHandler (parsers : Parsers) (state : OAuthProxy) (contentType body : String) :
    Except OAuthError (Option Params) :=
  match state.tokenMode with
  | .opaqueTokens =>
    (readTokenRequest parsers contentType body).map fun request =>
      if request.2 = "refresh_token" then none
      else some (injectKeycloakCredentials state request.1)
  | .passthrough =>
    (readTokenRequest parsers contentType body).map fun request =>
      some (injectKeycloakCredentials state request.1)
  | .resourceServer =>
    .error ⟨404, "invalid_request", "This server is a pure OAuth resource server and does not " ++
      "proxy token requests. Use the token endpoint advertised by the authorization server."⟩

/-- Whatever goes upstream went through the injection. -/
theorem tokenHandler_sends {parsers : Parsers} {state : OAuthProxy} {contentType body : String}
    {sent : Params} (h : tokenHandler parsers state contentType body = .ok (some sent)) :
    ∃ params, parseTokenParams parsers contentType body = .ok params ∧
      sent = injectKeycloakCredentials state params := by
  unfold tokenHandler readTokenRequest at h
  cases hparams : parseTokenParams parsers contentType body with
  | error e =>
    rw [hparams] at h
    split at h <;> cases h
  | ok params =>
    refine ⟨params, rfl, ?_⟩
    rw [hparams] at h
    split at h
    · simp only [Except.map, Except.ok.injEq] at h
      split at h
      · cases h
      · exact (Option.some.inj h).symm
    · simp only [Except.map, Except.ok.injEq, Option.some.injEq] at h
      exact h.symm
    · cases h

/-- The keys a request's injection may touch. -/
def rewritten (state : OAuthProxy) (params : Params) (key : String) : Bool :=
  key == "client_id" || (key == "client_secret" && state.keycloakClientSecret.isSome) ||
    (key == "redirect_uri" && isCodeGrant params)

/-- The server's credentials and no others, and nothing else is changed. -/
structure ServersOwn (state : OAuthProxy) (params injected : Params) : Prop where
  clientId : ∀ e ∈ injected, e.1 = "client_id" → e.2 = state.keycloakClientId
  clientSecret : ∀ secret, state.keycloakClientSecret = some secret →
    getAll injected "client_secret" = [secret]
  redirectUri : isCodeGrant params = true → getAll injected "redirect_uri" = [state.callbackUrl]
  others : (injected.filter fun e => !rewritten state params e.1) =
    params.filter fun e => !rewritten state params e.1

/-! ## What goes upstream -/

section

variable {state : OAuthProxy} {params : Params}

/-- The list with the callback in place of the redirect URIs of a code grant. -/
def withCallback (state : OAuthProxy) (params : Params) : Params :=
  if isCodeGrant params then insert params "redirect_uri" state.callbackUrl else params

theorem inject_eq : injectKeycloakCredentials state params =
    match state.keycloakClientSecret with
    | some secret =>
      orPush (overwrite (withCallback state params) "client_id" state.keycloakClientId)
        "client_secret" secret
    | none => overwrite (withCallback state params) "client_id" state.keycloakClientId := rfl

theorem clientId_inject {e : String × String}
    (h : e ∈ injectKeycloakCredentials state params) (hid : e.1 = "client_id") :
    e.2 = state.keycloakClientId := by
  rw [inject_eq] at h
  split at h
  · have hne : e.1 ≠ "client_secret" := by
      rw [hid]
      decide
    exact overwrite_self (mem_of_mem_orPush h hne) hid
  · exact overwrite_self h hid

theorem redirectUri_inject (h : isCodeGrant params = true) :
    getAll (injectKeycloakCredentials state params) "redirect_uri" = [state.callbackUrl] := by
  have hcallback : getAll (overwrite (withCallback state params) "client_id"
      state.keycloakClientId) "redirect_uri" = [state.callbackUrl] := by
    rw [getAll_overwrite_of_ne (by decide), withCallback, if_pos h, getAll_insert_self]
  rw [inject_eq]
  split
  · rw [getAll_orPush_of_ne (by decide), hcallback]
  · exact hcallback

/-- The secret goes in where there is none; one that is there stays. -/
theorem clientSecret_inject {secret : String} (hs : state.keycloakClientSecret = some secret) :
    getAll (injectKeycloakCredentials state params) "client_secret" =
      if getAll params "client_secret" = [] then [secret] else getAll params "client_secret" := by
  have hkept : getAll (overwrite (withCallback state params) "client_id"
      state.keycloakClientId) "client_secret" = getAll params "client_secret" := by
    rw [getAll_overwrite_of_ne (by decide), withCallback]
    split
    · exact getAll_insert_of_ne (by decide)
    · rfl
  rw [inject_eq, hs]
  dsimp only
  rw [getAll_orPush, hkept]
  by_cases hnil : getAll params "client_secret" = []
  · rw [if_pos hnil, getAll_eq_nil_iff.mp (hkept.trans hnil), if_neg Bool.false_ne_true]
  · rw [if_neg hnil]
    rw [← hkept, getAll_eq_nil_iff, Bool.not_eq_false] at hnil
    rw [if_pos hnil]

/-- Everything but the rewritten keys is unchanged, and in its place. -/
theorem others_inject (state : OAuthProxy) (params : Params) :
    ((injectKeycloakCredentials state params).filter fun e => !rewritten state params e.1) =
      params.filter fun e => !rewritten state params e.1 := by
  have hid : (!rewritten state params "client_id") = false := by simp [rewritten]
  have hcallback : ((withCallback state params).filter fun e => !rewritten state params e.1) =
      params.filter fun e => !rewritten state params e.1 := by
    rw [withCallback]
    split
    · rename_i hcode
      exact filter_insert (p := fun k => !rewritten state params k) (by simp [rewritten, hcode])
    · rfl
  have hoverwrite : ((overwrite (withCallback state params) "client_id"
      state.keycloakClientId).filter fun e => !rewritten state params e.1) =
        params.filter fun e => !rewritten state params e.1 :=
    (filter_overwrite (p := fun k => !rewritten state params k) hid).trans hcallback
  rw [inject_eq]
  split
  · rename_i hs
    exact (filter_orPush (p := fun k => !rewritten state params k)
      (by simp [rewritten, hs])).trans hoverwrite
  · exact hoverwrite

/-- **When a request carries the server's credentials.** Whatever the client
sends, in any order and with any key repeated, the injected list holds the
server's credentials and nothing else is changed, if and only if the client sends
no secret beside a configured one, or just that one. -/
theorem serversOwn_iff (state : OAuthProxy) (params : Params) :
    ServersOwn state params (injectKeycloakCredentials state params) ↔
      ∀ secret, state.keycloakClientSecret = some secret →
        getAll params "client_secret" = [] ∨ getAll params "client_secret" = [secret] := by
  constructor
  · intro h secret hs
    have hsecret := h.clientSecret secret hs
    rw [clientSecret_inject hs] at hsecret
    split at hsecret
    · exact .inl ‹_›
    · exact .inr hsecret
  · intro h
    refine ⟨fun e he hid => clientId_inject he hid, fun secret hs => ?_,
      fun hcode => redirectUri_inject hcode, others_inject state params⟩
    rw [clientSecret_inject hs]
    rcases h secret hs with hnil | hown
    · rw [if_pos hnil]
    · rw [hown]
      exact if_neg (List.cons_ne_nil _ _)

end

/-- A registered client's own secret goes upstream under the server's client id. -/
theorem client_secret_of_another_id :
    ¬ ∀ (state : OAuthProxy) (params : Params),
      ServersOwn state params (injectKeycloakCredentials state params) := by
  intro h
  have hsecret := (h ⟨"https://mcp.example.com", "mcp", some "s3cret", .passthrough⟩
    [("grant_type", "authorization_code"), ("code", "c"), ("client_id", "mcp-client"),
      ("client_secret", "registered")]).clientSecret "s3cret" rfl
  exact absurd hsecret (by decide)

end McpFramework.TokenRequest
